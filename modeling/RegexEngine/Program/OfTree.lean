import RegexEngine.Automaton.OfTree
import RegexEngine.Program.Basic

/-!
The program of an expression. The instructions of an expression depend on the address where they
start, on the flags in effect and on the classes that are in the pool already. The parts of an
expression are compiled one after the other, and every address is known when it is needed, because
the parts that an instruction leads around come first.
-/

namespace RegexEngine

/-- What the compilation of an expression carries along. -/
structure Lowering where
  flags : Flags
  classes : ClassPool

namespace Lowering

abbrev Step (α : Type) := StateT Lowering (Except Error) α

def flags? : Step Flags := do pure (← get).flags

def nocase? : Step Bool := do pure ((← flags?).contains .nocase)

def keepingFlags {α : Type} (lower : Step α) : Step α := do
  let saved ← flags?
  let code ← lower
  modify fun l => { l with flags := saved }
  pure code

def classInstr (spec : List Char) : Step Instr := do
  let ((offset, length), classes) ← (← get).classes.intern spec
  modify fun l => { l with classes := classes }
  pure (.cls offset length)

def groupOperand (group : Nat) : Except Error Nat :=
  if group ≤ Text.maxWord32 then .ok group else .error LimitFault.groupOperand.error

def resolve (groups : List (Option String)) : GroupRef → Except Error Nat
  | .number n =>
    if 0 < n ∧ n ≤ groups.length then .ok n else .error ((PatternFault.undefinedGroup n).errorAt 0)
  | .name name =>
    match SyntaxTree.indexOfName? groups name with
    | some n => .ok n
    | none => .error ((PatternFault.undefinedName name).errorAt 0)

/-- Two ways, of which the way in is tried first if the repetition is greedy. -/
def choice (greedy : Bool) (enter exit : Nat) : Instr :=
  if greedy then .split enter exit else .split exit enter

/-- Alternatives one after the other, each but the last with a choice before it and a jump to the
end after it. -/
def joinBranches (at_ stop : Nat) : List (List Instr) → List Instr
  | [] => []
  | [code] => code
  | code :: rest =>
    let next := at_ + code.length + 2
    .split (at_ + 1) next :: code ++ .jump stop :: joinBranches next stop rest

def branchesLength : List (List Instr) → Nat
  | [] => 0
  | [code] => code.length
  | code :: rest => code.length + 2 + branchesLength rest

/-- The instructions of a repetition, from those of what is repeated. The common ones are choices
and jumps; others count. -/
def repetition (at_ min : Nat) (max : Option Nat) (greedy : Bool)
    (lowerAt : Nat → Step (List Instr)) : Step (List Instr) :=
  match min, max with
  | 0, none => do
    let code ← lowerAt (at_ + 1)
    pure (choice greedy (at_ + 1) (at_ + code.length + 2) :: code ++ [.jump at_])
  | 1, none => do
    let code ← lowerAt at_
    pure (code ++ [choice greedy at_ (at_ + code.length + 1)])
  | 0, some 1 => do
    let code ← lowerAt (at_ + 1)
    pure (choice greedy (at_ + 1) (at_ + code.length + 1) :: code)
  | 1, some 1 => lowerAt at_
  | _, some 0 => pure []
  | min, max => do
    let code ← lowerAt (at_ + 1)
    pure (.repeatStart min (Instr.bound max) greedy (at_ + code.length + 1) :: code
      ++ [.repeatEnd at_])

mutual

/-- The instructions of an expression that start at an address. -/
def lower (groups : List (Option String)) (at_ : Nat) : Tree → Step (List Instr)
  | .empty | .comment _ => pure []
  | .literal c => do pure [.char c (← nocase?)]
  | .dot => do pure [.any ((← flags?).contains .dotAll)]
  | .cls _ spec => do
    let mark := Blueprint.caseMark (← flags?)
    pure [← classInstr (mark ++ spec.toList)]
  | .group child => keepingFlags (lower groups at_ child)
  | .scope opts child => keepingFlags do
    modify fun l => { l with flags := opts.apply l.flags }
    lower groups at_ child
  | .capture index _ child => keepingFlags do
    let group ← groupOperand index
    let code ← lower groups (at_ + 1) child
    pure (.openGroup group :: code ++ [.closeGroup group])
  | .backref ref => do
    let group ← resolve groups ref
    pure [.backref (← groupOperand group) (← nocase?)]
  | .repetition q child => do
    if q.possessive then throw ProgramFault.possessiveRepetition.error
    let greedy := q.greedy != (← flags?).contains .ungreedy
    repetition at_ q.min q.max greedy fun start => lower groups start child
  | .anchor a => do pure [.boundary (Blueprint.anchorMarks (← flags?) a)]
  | .boundary negated => pure [.boundary (if negated then .notWordBoundary else .wordBoundary)]
  | .look kind child => do
    let code ← keepingFlags (lower groups (at_ + 1) child)
    pure (.look kind (at_ + 1) (at_ + code.length + 2) :: code ++ [.accept])
  | .options opts => do
    modify fun l => { l with flags := opts.apply l.flags }
    pure []
  | .atomic _ => throw ProgramFault.atomicGroup.error
  | .groupCond _ _ _ | .lookCond _ _ _ _ => throw ProgramFault.conditional.error
  | .verb .commit => throw ProgramFault.commitVerb.error
  | .verb .fail | .invalid => pure [.fail]
  | .verb .accept => pure [.accept]
  | .alt items => keepingFlags do
    let codes ← lowerBranches groups at_ items
    pure (joinBranches at_ (at_ + branchesLength codes) codes)
  | .concat items => lowerAll groups at_ items

def lowerBranches (groups : List (Option String)) (at_ : Nat) :
    List Tree → Step (List (List Instr))
  | [] => pure []
  | [item] => do pure [← lower groups at_ item]
  | item :: rest => do
    let code ← lower groups (at_ + 1) item
    pure (code :: (← lowerBranches groups (at_ + code.length + 2) rest))

def lowerAll (groups : List (Option String)) (at_ : Nat) : List Tree → Step (List Instr)
  | [] => pure []
  | item :: rest => do
    let code ← lower groups at_ item
    pure (code ++ (← lowerAll groups (at_ + code.length) rest))

end

end Lowering

namespace Program

/-- The program with these instructions, if they can be addressed. -/
def ofCode (code : List Instr) (groups : Nat) (names : List (Option String)) (flags : Flags)
    (classes : ClassPool) : Except Error Program :=
  if Text.maxWord32 + 1 < code.length then .error LimitFault.instructions.error
  else .ok ⟨code.toArray, groups, names, flags, none, classes⟩

/-- The program of a tree. It ends where the match is accepted. -/
def ofTree (tree : SyntaxTree) : Except Error Program := do
  let (code, l) ← (Lowering.lower tree.groups 0 tree.root).run ⟨tree.flags, .empty⟩
  ofCode (code ++ [.accept]) tree.groupCount tree.groups tree.flags l.classes

end Program

end RegexEngine
