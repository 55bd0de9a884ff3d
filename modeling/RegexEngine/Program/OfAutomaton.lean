import RegexEngine.Pattern.Basic
import RegexEngine.Program.OfTree

/-!
The program of an automaton. Every state that can be reached becomes a block of instructions,
breadth first: what it opens and closes, its assertions, its action, and then its transitions in
order, each followed by a jump to the block of its target. To accept comes last, and a state without
ways out fails.
-/

namespace RegexEngine

/-- An instruction whose address may be that of the block of a state. -/
inductive Draft
  | ready (i : Instr)
  | jump (state : Nat)
  | look (kind : LookKind) (body next : Nat)
deriving DecidableEq, Repr

namespace Draft

/-- The instruction, once it is known where the blocks start. -/
def settle (block? : Nat → Option Nat) : Draft → Except Error Instr
  | ready i => .ok i
  | jump state =>
    match block? state with
    | some address => .ok (.jump address)
    | none => .error (ProgramFault.notLowered state).error
  | look kind body next =>
    match block? body with
    | some address => .ok (.look kind address next)
    | none => .error (ProgramFault.notLowered body).error

end Draft

namespace Lowering

def labelCode (label : Label) : Step (List Draft) :=
  match label.matcher with
  | .literal chars nocase => pure (chars.map fun c => .ready (.char c nocase))
  | .any dotAll => pure [.ready (.any dotAll)]
  | .cls _ _ => do pure [.ready (← classInstr label.text)]

def entryCode (s : State) : Except Error (List Draft) := do
  let saves ← match s.groupIndex with
    | some (index + 1) => do
      let group ← groupOperand (index + 1)
      pure ((if s.opensGroup then [Instr.openGroup group] else [])
        ++ (if s.closesGroup then [Instr.closeGroup group] else []))
    | _ => pure []
  let assertions := s.marks.inter .assertions
  let checks := if assertions.isEmpty then [] else [Instr.boundary assertions]
  pure ((saves ++ checks).map .ready)

/-- The transitions of a state from an address on. All but the last way out have a choice before
them. -/
def transitionCode (accepting : Bool) (at_ : Nat) : List Transition → Step (List Draft)
  | [] => pure (if accepting then [.ready .accept] else [])
  | t :: rest => do
    let isLast := rest.isEmpty && !accepting
    let code ← match t.label with
      | some label => labelCode label
      | none => pure []
    let code := code ++ [.jump t.target]
    let way := if isLast then code
      else .ready (.split (at_ + 1) (at_ + code.length + 1)) :: code
    pure (way ++ (← transitionCode accepting (at_ + way.length) rest))

def exitCode (s : State) (at_ : Nat) : Step (List Draft) :=
  if s.transitions.isEmpty && !s.accepting then pure [.ready .fail]
  else transitionCode s.accepting at_ s.transitions

def actionCode (s : State) (at_ : Nat) : Step (List Draft) :=
  if s.marks.contains .bodyEnd then pure [.ready .accept]
  else
    match s.action with
    | none => exitCode s at_
    | some .fail => pure [.ready .fail]
    | some .accept => pure [.ready .accept]
    | some (.backref group nocase) => do
      let group ← groupOperand group
      pure (.ready (.backref group nocase) :: (← exitCode s (at_ + 1)))
    | some (.look kind body) => do
      pure (.look kind body (at_ + 1) :: (← exitCode s (at_ + 1)))
    | some (.atomic _) => throw ProgramFault.atomicGroup.error
    | some (.branch _) => throw ProgramFault.conditional.error
    | some .commit => throw ProgramFault.commitVerb.error

def block (s : State) (at_ : Nat) : Step (List Draft) := do
  let entry ← entryCode s
  pure (entry ++ (← actionCode s (at_ + entry.length)))

/-- The blocks of states one after the other, with the states and the addresses where their blocks
start. -/
def blocks (a : Automaton) (at_ : Nat) : List Nat → Step (List Draft × List (Nat × Nat))
  | [] => pure ([], [])
  | index :: rest =>
    match a.states[index]? with
    | none => blocks a at_ rest
    | some s => do
      let code ← block s at_
      let (codes, starts) ← blocks a (at_ + code.length) rest
      pure (code ++ codes, (index, at_) :: starts)

def blockTable (size : Nat) (starts : List (Nat × Nat)) : Array (Option Nat) :=
  starts.foldl (fun table (index, at_) => table.setIfInBounds index (some at_))
    (Array.replicate size none)

end Lowering

namespace Program

def ofAutomaton (a : Automaton) : Except Error Program := do
  if a.initial.isNone then throw AutomatonFault.withoutInitial.error
  let ((drafts, starts), l) ← (Lowering.blocks a 0 a.reachable).run ⟨a.flags, .empty⟩
  let table := Lowering.blockTable a.stateCount starts
  let code ← drafts.mapM (Draft.settle fun s => table[s]?.join)
  ofCode code a.groupCount [] a.flags l.classes

/-- The program of a pattern: that of its automaton if that is deterministic, or else that of its
tree. -/
def ofPattern (p : Pattern) : Except Error Program := do
  let made ← match p.tree with
    | some tree => if p.automaton.isDeterministic then ofAutomaton p.automaton else ofTree tree
    | none => ofAutomaton p.automaton
  pure { made with
    flags := p.automaton.flags
    source := p.source
    groupNames := p.groupNames
    groupCount := max made.groupCount p.groupCount }

end Program

end RegexEngine
