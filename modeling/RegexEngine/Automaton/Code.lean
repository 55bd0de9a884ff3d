import RegexEngine.Automaton.Basic
import RegexEngine.Search.Backtracking

/-!
How automata are searched for by backtracking. A way that enters a state has to satisfy its
assertions, opens and closes its group, does its action and then takes the transitions in their
order; to accept comes last. The end of a body ends a search for a body, and is nothing special in
others.
-/

namespace RegexEngine

namespace State

/-- Opens and closes the group of a state, as its marks say. -/
def capture (s : State) (position : Nat) (slots : Slots) : Slots :=
  match s.groupIndex with
  | some (group + 1) =>
    let opened := if s.opensGroup then slots.openAt (group + 1) position else slots
    if s.closesGroup then opened.closeAt (group + 1) position else opened
  | _ => slots

/-- The way over a transition, if the input fits. What was entered is forgotten when input is
taken. -/
def over? (input : Array Char) (path : Path) (t : Transition) : Option Frame :=
  (t.matchAt? input path.position).map fun position =>
    .follow { path with
      place := t.target
      position := position
      trail := if position = path.position then path.trail else [] }

def ways (s : State) (input : Array Char) (inBody : Bool) (path : Path) : List Frame :=
  s.transitions.filterMap (over? input path)
    ++ (if s.accepting && !inBody then [.accept path.position path.slots] else [])

def proceed (s : State) (input : Array Char) (inBody : Bool) (path : Path) : Move :=
  .go (s.ways input inBody path) false

/-- Goes on over the transition that a condition chooses. It takes no input, whatever its label. -/
def choose (s : State) (path : Path) (holds : Bool) : Move :=
  let chosen := if holds then s.transitions.head? else s.transitions[1]?.or s.transitions.head?
  match chosen with
  | some t => .along { path with place := t.target }
  | none => .dead

/-- Moves a way forward. What was entered is forgotten when input is taken. -/
def advance (path : Path) (position : Nat) : Path :=
  { path with
    position := position
    trail := if position = path.position then path.trail else [] }

def act (s : State) (input : Array Char) (inBody : Bool) (path : Path) : Move :=
  match s.action with
  | none => s.proceed input inBody path
  | some .fail => .dead
  | some .accept => .finish path.position path.slots
  | some .commit => .go (s.ways input inBody path) true
  | some (.backref group nocase) =>
    match path.slots.backref? input group nocase path.position with
    | some position => s.proceed input inBody (advance path position)
    | none => .dead
  | some (.look kind body) => .ask ⟨body, kind.isBehind⟩ path
  | some (.atomic body) => .ask ⟨body, false⟩ path
  | some (.branch (.group index)) => s.choose path (path.slots.isCaptured index)
  | some (.branch (.look kind body)) => .ask ⟨body, kind.isBehind⟩ path

def enter (s : State) (input : Array Char) (inBody : Bool) (path : Path) : Move :=
  if s.marks.holdAt input path.position then
    let path := { path with slots := s.capture path.position path.slots }
    if s.marks.contains .bodyEnd && inBody then .finish path.position path.slots
    else s.act input inBody path
  else .dead

/-- What a lookaround makes of the answer of its body: the way that goes on, if it holds. A positive
one keeps what groups have taken in the body. -/
def looked? (kind : LookKind) (path : Path) : Option Found → Option Path
  | some found => if kind.isNegative then none else some { path with slots := found.slots }
  | none => if kind.isNegative then some path else none

def resume (s : State) (input : Array Char) (inBody : Bool) (path : Path) (found : Option Found) :
    Move :=
  match s.action with
  | some (.look kind _) =>
    match looked? kind path found with
    | some path => s.proceed input inBody path
    | none => .dead
  | some (.branch (.look kind _)) =>
    match looked? kind path found with
    | some path => s.choose path true
    | none => s.choose path false
  | some (.atomic _) =>
    match found with
    | some found => s.proceed input inBody { advance path found.stop with slots := found.slots }
    | none => .dead
  | _ => .dead

end State

namespace Automaton

def state (a : Automaton) (place : Nat) : Except Error State :=
  match a.states[place]? with
  | some s => .ok s
  | none => .error (AutomatonFault.missingState place).error

/-- The code of an automaton. Its places are the states. -/
def code (a : Automaton) : Code where
  groups := a.groupCount
  enter input inBody path := do
    pure ((← a.state path.place).enter input inBody path)
  resume input inBody path found := do
    pure ((← a.state path.place).resume input inBody path found)

end Automaton

end RegexEngine
