import RegexEngine.Program.Basic
import RegexEngine.Search.Searcher

/-!
How programs are run. A way enters one instruction after the other. It forgets what it has entered
when it takes input, and when a round of a counted repetition that has to come round ends, so that
such rounds may be empty. A round that need not be and takes no input is the last one.
-/

namespace RegexEngine

namespace Program

def instr (p : Program) (address : Nat) : Except Error Instr :=
  match p.instrs[address]? with
  | some i => .ok i
  | none => .error (ProgramFault.outside address).error

/-- Goes on at the next instruction after input was taken. -/
def take (path : Path) (position : Nat) : Move :=
  .along { path with place := path.place + 1, position := position, trail := [] }

def proceed (path : Path) : Move := .along { path with place := path.place + 1 }

def takeIf (input : Array Char) (path : Path) (fits : Char → Bool) : Move :=
  if input[path.position]?.any fits then take path (path.position + 1) else .dead

/-- Decides what a repetition does after some rounds: it comes round again, it ends, or it tries one
of both first. The counter of the repetition is the innermost one. -/
def comeRound (p : Program) (path : Path) (start : Nat) : Except Error Move := do
  match ← p.instr start, path.counters with
  | .repeatStart min max greedy stop, counter :: outer =>
    let entering := { path with
      place := start + 1
      counters := { counter with since := path.position } :: outer }
    let leaving := { path with place := stop + 1, counters := outer }
    let exhausted := max.any (· ≤ counter.rounds)
    let idle := 0 < counter.rounds && path.position == counter.since
    if counter.rounds < min then pure (.along entering)
    else if exhausted || idle then pure (.along leaving)
    else if greedy then pure (.go [.follow entering, .follow leaving] false)
    else pure (.go [.follow leaving, .follow entering] false)
  | .repeatStart _ _ _ _, [] => throw ProgramFault.noCounter.error
  | _, _ => throw (ProgramFault.noRepeatStart start).error

def endRound (p : Program) (path : Path) (start : Nat) : Except Error Move := do
  match path.counters with
  | counter :: outer =>
    if counter.start = start then
      let rounds := counter.rounds + 1
      let required := match ← p.instr start with
        | .repeatStart min _ _ _ => decide (rounds ≤ min)
        | _ => false
      p.comeRound { path with
        counters := { counter with rounds := rounds } :: outer
        trail := if required then [] else path.trail } start
    else throw (ProgramFault.repeatOutside path.place).error
  | [] => throw (ProgramFault.repeatOutside path.place).error

def execute (p : Program) (input : Array Char) (path : Path) : Instr → Except Error Move
  | .nop => .ok (proceed path)
  | .char c nocase => .ok (takeIf input path fun found => Text.sameChar c found nocase)
  | .any dotAll => .ok (takeIf input path fun found => dotAll || found != '\n')
  | .cls offset length =>
    match p.classes.matcher? offset length with
    | none => .error ProgramFault.badClassReference.error
    | some matcher =>
      match matcher.matchAt? input path.position with
      | some position => .ok (take path position)
      | none => .ok .dead
  | .jump target => .ok (.along { path with place := target })
  | .split first second =>
    .ok (.go [.follow { path with place := first }, .follow { path with place := second }] false)
  | .openGroup group =>
    .ok (proceed { path with slots := path.slots.openAt group path.position })
  | .closeGroup group =>
    .ok (proceed { path with slots := path.slots.closeAt group path.position })
  | .repeatStart _ _ _ _ =>
    p.comeRound { path with counters := ⟨path.place, 0, path.position⟩ :: path.counters } path.place
  | .repeatEnd start => p.endRound path start
  | .boundary marks =>
    .ok (if marks.holdAt input path.position then proceed path else .dead)
  | .backref group nocase =>
    match path.slots.backref? input group nocase path.position with
    | none => .ok .dead
    | some position => .ok (proceed (State.advance path position))
  | .look kind body _ => .ok (.ask ⟨body, kind.isBehind⟩ path)
  | .accept => .ok (.finish path.position path.slots)
  | .fail => .ok .dead

def afterLook (path : Path) (found : Option Found) : Instr → Move
  | .look kind _ next =>
    match State.looked? kind path found with
    | some path => .along { path with place := next }
    | none => .dead
  | _ => .dead

/-- The code of a program. Its places are the addresses of its instructions. -/
def code (p : Program) : Code where
  groups := p.groupCount
  enter input _ path := do p.execute input path (← p.instr path.place)
  resume _ _ path found := do pure (afterLook path found (← p.instr path.place))

def attempt (p : Program) (search : Search) (start : Nat) : Tracked Attempt :=
  if p.length = 0 then throw ProgramFault.noInstructions.error
  else p.code.search search 0 start

def searcher (p : Program) : Searcher where
  groupCount := p.groupCount
  groupName := p.groupName
  flags := p.flags
  id := none
  scaledLimits := none
  raw := false
  attempt := p.attempt

end Program

end RegexEngine
