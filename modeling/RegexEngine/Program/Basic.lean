import RegexEngine.Flags
import RegexEngine.Program.ClassPool
import RegexEngine.Program.Instr

/-!
Programs: patterns as flat lists of instructions. A program can be put together by hand, so it need
not make sense. `Program.validate` looks at its instructions one by one: what is valid names no
address outside of the program, but may still go on beyond its last instruction.
-/

namespace RegexEngine

structure Program where
  instrs : Array Instr
  groupCount : Nat
  groupNames : List (Option String)
  flags : Flags
  /-- The text that the program was compiled from. -/
  source : Option String
  classes : ClassPool
deriving DecidableEq, Repr

namespace Program

def empty : Program := ⟨#[], 0, [], .empty, none, .empty⟩

def length (p : Program) : Nat := p.instrs.size

/-- Appends an instruction, and answers with its address. -/
def push (p : Program) (i : Instr) : Except Error (Nat × Program) :=
  if Text.maxWord32 < p.length then .error LimitFault.instructions.error
  else .ok (p.length, { p with instrs := p.instrs.push i })

/-- Puts a class into the pool, and answers with the instruction for it. -/
def addClass (p : Program) (spec : String) : Except Error (Instr × Program) := do
  let ((offset, length), classes) ← p.classes.intern spec.toList
  pure (.cls offset length, { p with classes := classes })

def groupName (p : Program) (index : Nat) : Option String :=
  if index = 0 then none else p.groupNames[index - 1]?.join

/-- The greatest number of a group that an instruction refers to. -/
def referredGroups (p : Program) : Nat :=
  p.instrs.foldl (fun most i => max most (i.group?.getD 0)) 0

/-- True when a repetition starts at an address and ends at another. -/
def repeatsFrom (p : Program) (start stop : Nat) : Bool :=
  match p.instrs[start]? with
  | some (.repeatStart _ _ _ s) => s == stop
  | _ => false

/-- True when a round ends at an address for the repetition that starts at another. -/
def repeatsTo (p : Program) (stop start : Nat) : Bool :=
  match p.instrs[stop]? with
  | some (.repeatEnd s) => s == start
  | _ => false

def checkGroup (p : Program) (at_ : Nat) (i : Instr) (group : Nat) : Except Error Unit :=
  if group = 0 ∨ p.groupCount < group then
    .error (ProgramFault.badGroup i.name at_ group p.groupCount).error
  else .ok ()

/-- Checks what an instruction refers to besides addresses. -/
def checkOperands (p : Program) (at_ : Nat) (i : Instr) : Except Error Unit :=
  match i with
  | .openGroup group | .closeGroup group | .backref group _ => p.checkGroup at_ i group
  | .cls offset length =>
    if length = 0 ∨ (p.classes.entry? offset length).isNone then
      .error (ProgramFault.badClass at_).error
    else .ok ()
  | .repeatStart min max _ stop =>
    if max.any (· < min) ∨ stop ≤ at_ then .error (ProgramFault.malformedRepeat at_).error
    else if p.repeatsTo stop at_ then .ok ()
    else .error (ProgramFault.unmatchedRepeatStart at_).error
  | .repeatEnd start =>
    if p.repeatsFrom start at_ then .ok ()
    else .error (ProgramFault.unmatchedRepeatEnd at_).error
  | .boundary marks =>
    if marks.isEmpty ∨ !Marks.assertions.contains marks then
      .error (ProgramFault.badAssertions at_).error
    else .ok ()
  | _ => .ok ()

def checkInstr (p : Program) (at_ : Nat) (i : Instr) : Except Error Unit :=
  match i.targets.find? (p.length ≤ ·) with
  | some target => .error (ProgramFault.badTarget i.name at_ target).error
  | none => p.checkOperands at_ i

/-- Checks that a program makes sense: addresses, groups and classes are there, and the ends of
repetitions refer to each other. -/
def validate (p : Program) : Except Error Unit :=
  if p.length = 0 then .error ProgramFault.noInstructions.error
  else p.instrs.toList.zipIdx.forM fun (i, at_) => p.checkInstr at_ i

/-- For each address and the end of the program, how many instructions before it do something. -/
def newAddresses (p : Program) : Array Nat :=
  p.instrs.foldl (fun table i =>
    let count := table.back?.getD 0
    table.push (if i = .nop then count else count + 1)) #[0]

/-- Removes the instructions that do nothing, and answers with their number. Where others refer to
the end that is left by them, the program is made to fail there. -/
def removeNops (p : Program) : Nat × Program :=
  let kept := p.instrs.filter (· ≠ .nop)
  if kept.size = p.length then (0, p)
  else
    let table := p.newAddresses
    let toEnd := kept.any fun i => i.targets.any fun t => table[t]? == some kept.size
    let moved := kept.map (·.mapTargets fun t => table[t]?.getD t)
    (p.length - kept.size, { p with instrs := if toEnd then moved.push .fail else moved })

end Program

end RegexEngine
