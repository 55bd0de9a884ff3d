import RegexEngine.Bytes.Codec
import RegexEngine.Pattern.Basic

/-!
Stored patterns. What is stored is the source, the flags, the automaton with the texts of its
labels, the names of the groups, and whether the pattern is a raw literal. When a pattern is
restored, the labels are made again, the automaton is checked, and the tree is read from the source.
-/

namespace RegexEngine

structure StoredTransition where
  source : Nat
  target : Nat
  label : Option String
  priority : Int
deriving DecidableEq, Repr

structure StoredState where
  id : Nat
  accepting : Bool
  note : Option String
  transitions : List StoredTransition
  groupName : Option String
  groupIndex : Option Nat
  marks : Nat
  action : Option Action
deriving DecidableEq, Repr

structure StoredAutomaton where
  kind : AutomatonKind
  states : List StoredState
  initial : Option Nat
  current : Option Nat
  flags : Nat
deriving DecidableEq, Repr

structure StoredPattern where
  source : Option String
  flags : Nat
  automaton : StoredAutomaton
  groupNames : List (Option String)
  raw : Bool
deriving DecidableEq, Repr

namespace Codec

def kind : Codec AutomatonKind where
  encode
    | .nfa => [0]
    | .dfa => [1]
  decode bytes := do
    match ← word32.decode bytes with
    | (0, rest) => some (.nfa, rest)
    | (1, rest) => some (.dfa, rest)
    | _ => none

def lookKind : Codec LookKind where
  encode
    | .ahead => [0]
    | .notAhead => [1]
    | .behind => [2]
    | .notBehind => [3]
  decode bytes := do
    let (n, rest) ← word32.decode bytes
    let kind ← LookKind.all[n]?
    pure (kind, rest)

/-- Conditions: a number for what they look at, and then what it needs. -/
def condition : Codec Condition where
  encode
    | .group index => 0 :: word64.encode index
    | .look kind body => 1 :: (pair lookKind word64).encode (kind, body)
  decode bytes := do
    match ← word32.decode bytes with
    | (0, rest) => do
      let (index, rest) ← word64.decode rest
      pure (.group index, rest)
    | (1, rest) => do
      let ((kind, body), rest) ← (pair lookKind word64).decode rest
      pure (.look kind body, rest)
    | _ => none

/-- Actions: a number for their kind, and then what they need. -/
def action : Codec Action where
  encode
    | .backref group nocase => 0 :: (pair word64 bool).encode (group, nocase)
    | .look kind body => 1 :: (pair lookKind word64).encode (kind, body)
    | .atomic body => 2 :: word64.encode body
    | .branch c => 3 :: condition.encode c
    | .fail => [4]
    | .accept => [5]
    | .commit => [6]
  decode bytes := do
    match ← word32.decode bytes with
    | (0, rest) => do
      let ((group, nocase), rest) ← (pair word64 bool).decode rest
      pure (.backref group nocase, rest)
    | (1, rest) => do
      let ((kind, body), rest) ← (pair lookKind word64).decode rest
      pure (.look kind body, rest)
    | (2, rest) => do
      let (body, rest) ← word64.decode rest
      pure (.atomic body, rest)
    | (3, rest) => do
      let (c, rest) ← condition.decode rest
      pure (.branch c, rest)
    | (4, rest) => some (.fail, rest)
    | (5, rest) => some (.accept, rest)
    | (6, rest) => some (.commit, rest)
    | _ => none

def transition : Codec StoredTransition :=
  (pair word64 (pair word64 (pair (option text) signed32))).via
    (fun (source, target, label, priority) => ⟨source, target, label, priority⟩)
    (fun t => (t.source, t.target, t.label, t.priority))

def state : Codec StoredState :=
  (pair word32 (pair bool (pair (option text) (pair (list transition) (pair (option text)
    (pair (option word64) (pair word32 (option action)))))))).via
    (fun (id, accepting, note, transitions, groupName, groupIndex, marks, action) =>
      ⟨id, accepting, note, transitions, groupName, groupIndex, marks, action⟩)
    (fun s =>
      (s.id, s.accepting, s.note, s.transitions, s.groupName, s.groupIndex, s.marks, s.action))

def automaton : Codec StoredAutomaton :=
  (pair kind (pair (list state) (pair (option word64) (pair (option word64) word32)))).via
    (fun (kind, states, initial, current, flags) => ⟨kind, states, initial, current, flags⟩)
    (fun a => (a.kind, a.states, a.initial, a.current, a.flags))

def pattern : Codec StoredPattern :=
  (pair (option text) (pair word32 (pair automaton (pair (list (option text)) bool)))).via
    (fun (source, flags, automaton, groupNames, raw) =>
      ⟨source, flags, automaton, groupNames, raw⟩)
    (fun p => (p.source, p.flags, p.automaton, p.groupNames, p.raw))

end Codec

def Transition.stored (t : Transition) : StoredTransition :=
  ⟨t.source, t.target, t.label.map (·.toString), t.priority⟩

def State.stored (s : State) : StoredState :=
  ⟨s.id.toNat, s.accepting, s.note, s.transitions.map (·.stored), s.groupName, s.groupIndex,
    s.marks.bits.toNat, s.action⟩

def Automaton.stored (a : Automaton) : StoredAutomaton :=
  ⟨a.kind, a.states.toList.map (·.stored), a.initial, a.current, a.flags.bits.toNat⟩

/-- Makes the label of a transition again. -/
def StoredTransition.restore (t : StoredTransition) : Except Error Transition := do
  let label ← t.label.mapM Label.ofText
  pure ⟨t.source, t.target, label, t.priority⟩

def StoredState.restore (s : StoredState) : Except Error State := do
  let transitions ← s.transitions.mapM (·.restore)
  pure ⟨.ofNat s.id, s.accepting, s.note, transitions, s.groupName, s.groupIndex,
    ⟨.ofNat s.marks⟩, s.action⟩

/-- Makes the labels of an automaton again, and checks it. -/
def StoredAutomaton.restore (a : StoredAutomaton) : Except Error Automaton := do
  let states ← a.states.mapM (·.restore)
  let made : Automaton := ⟨a.kind, states.toArray, a.initial, a.current, ⟨.ofNat a.flags⟩, none⟩
  made.checkIntegrity
  pure made

namespace Pattern

def storedMark : List UInt8 := Text.utf8 "RIFTPAT" ++ [0]

def stored (p : Pattern) : StoredPattern :=
  ⟨p.source, p.flags.bits.toNat, p.automaton.stored, p.groupNames, p.raw⟩

def serialize (p : Pattern) : List UInt8 := storedMark ++ Codec.pattern.encode p.stored

/-- The tree of a source, which may be a raw literal whatever the flags say. -/
def restoredTree (source : Option String) (flags : Flags) : Except Error (Option SyntaxTree) :=
  source.mapM fun source =>
    SyntaxTree.parse source.toList (flags.union .rawLiterals) defaultMaxDepth

def conversionError (fault : ConversionFault) : Error := .of (.conversion fault)

def deserialize (bytes : List UInt8) : Except Error Pattern := do
  if bytes.take storedMark.length ≠ storedMark then throw (conversionError .notAPattern)
  match Codec.pattern.decodeAll (bytes.drop storedMark.length) with
  | none => throw (conversionError .malformed)
  | some found =>
    let a ← found.automaton.restore
    let flags : Flags := ⟨.ofNat found.flags⟩
    let tree ← restoredTree found.source flags
    pure {
      source := found.source
      flags := flags
      tree := tree
      automaton := a
      groupNames := found.groupNames
      raw := found.raw
      id := .ofContent found.source none a flags
      lastError := none }

end Pattern

end RegexEngine
