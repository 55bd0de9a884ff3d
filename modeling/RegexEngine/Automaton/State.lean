import RegexEngine.Automaton.Label
import RegexEngine.LookKind

/-!
States of automata. A state has transitions, which are tried in order, and may have marks:
assertions that have to hold where it is entered, the opening or the close of a capture group, and
the end of a body. What transitions alone cannot express is an action: back references, lookarounds,
atomic groups, conditions and verbs. The bodies of such constructs are states of the same automaton
that no transition leads to.
-/

namespace RegexEngine

/-- Marks on a state. The bits without a meaning are kept and ignored. -/
structure Marks where
  bits : UInt32
deriving DecidableEq, Repr, Inhabited

namespace Marks

def empty : Marks := ⟨0⟩
def inputStart : Marks := ⟨0x1⟩
def inputEnd : Marks := ⟨0x2⟩
/-- Holds at the end of the input, and before a line end that ends it. -/
def inputEndOrNewline : Marks := ⟨0x4⟩
def lineStart : Marks := ⟨0x8⟩
def lineEnd : Marks := ⟨0x10⟩
def wordBoundary : Marks := ⟨0x20⟩
def notWordBoundary : Marks := ⟨0x40⟩
def groupStart : Marks := ⟨0x100⟩
def groupEnd : Marks := ⟨0x200⟩
def bodyEnd : Marks := ⟨0x400⟩

def named : List (String × Marks) :=
  [("ANCHOR_START", inputStart), ("ANCHOR_END", inputEnd),
   ("ANCHOR_END_NEWLINE", inputEndOrNewline), ("LINE_START", lineStart),
   ("LINE_END", lineEnd), ("WORD_BOUNDARY", wordBoundary), ("NOT_WORD_BOUNDARY", notWordBoundary)]

def assertions : Marks := ⟨0x7F⟩

/-- All marks that have a meaning. -/
def known : Marks := ⟨0x77F⟩

def union (a b : Marks) : Marks := ⟨a.bits ||| b.bits⟩

def inter (a b : Marks) : Marks := ⟨a.bits &&& b.bits⟩

/-- True when every mark of the second is among those of the first. -/
def contains (a b : Marks) : Bool := a.bits &&& b.bits == b.bits

def isEmpty (a : Marks) : Bool := a.bits == 0

def hasAssertion (a : Marks) : Bool := !(a.inter assertions).isEmpty

def isWordChar (c : Char) : Bool := c == '_' || Text.isAsciiAlphanumeric c

/-- Decides one assertion between the character before a place and the one after it. -/
def assertionHolds (input : Array Char) (position : Nat) (mark : Marks) : Bool :=
  let before := if position = 0 then none else input[position - 1]?
  let after := input[position]?
  let boundary := before.any isWordChar != after.any isWordChar
  if mark = inputStart then position = 0
  else if mark = inputEnd then position = input.size
  else if mark = inputEndOrNewline then
    position = input.size || (position + 1 = input.size && after == some '\n')
  else if mark = lineStart then before.all (· == '\n')
  else if mark = lineEnd then after.all (· == '\n')
  else if mark = wordBoundary then boundary
  else if mark = notWordBoundary then !boundary
  else true

def holdAt (marks : Marks) (input : Array Char) (position : Nat) : Bool :=
  !marks.hasAssertion ||
    named.all fun (_, mark) => !marks.contains mark || assertionHolds input position mark

def allNamed : List (String × Marks) :=
  named ++ [("GROUP_START", groupStart), ("GROUP_END", groupEnd), ("SUBMATCH_END", bodyEnd)]

def names (marks : Marks) : List String :=
  (allNamed.filter fun (_, mark) => marks.contains mark).map (·.1)

/-- The names of the assertions among the marks, with bars between them. -/
def assertionText (marks : Marks) : String :=
  Text.joinWith " | " ((named.filter fun (_, mark) => marks.contains mark).map (·.1))

end Marks

/-- What a condition looks at: whether a group has matched, or whether a lookaround holds, whose
body starts at a state. -/
inductive Condition
  | group (index : Nat)
  | look (kind : LookKind) (body : Nat)
deriving DecidableEq, Repr

inductive Action
  /-- Takes the text of a group once more. -/
  | backref (group : Nat) (nocase : Bool)
  /-- Goes on if a lookaround holds. -/
  | look (kind : LookKind) (body : Nat)
  /-- Takes what the body takes first, and never goes back into it. -/
  | atomic (body : Nat)
  /-- Takes the first transition if the condition holds, and the second one otherwise. -/
  | branch (condition : Condition)
  /-- Gives up the current attempt to go on. -/
  | fail
  /-- Ends the match here. -/
  | accept
  /-- Rules out all other ways and later starts once the search comes back here. -/
  | commit
deriving DecidableEq, Repr

namespace Action

/-- Where the body of an action starts, if it has one. -/
def body? : Action → Option Nat
  | look _ body | atomic body | branch (.look _ body) => some body
  | _ => none

def mapBody (move : Nat → Nat) : Action → Action
  | look kind body => look kind (move body)
  | atomic body => atomic (move body)
  | branch (.look kind body) => branch (.look kind (move body))
  | other => other

def lookText : LookKind → String
  | .ahead => "Ahead"
  | .notAhead => "NegativeAhead"
  | .behind => "Behind"
  | .notBehind => "NegativeBehind"

def fields (parts : List (String × String)) : String :=
  " \x7b " ++ Text.joinWith ", " (parts.map fun (name, value) => name ++ ": " ++ value) ++ " \x7d"

def text : Action → String
  | backref group nocase =>
    "Backref" ++ fields [("group", toString group), ("case_insensitive", toString nocase)]
  | look kind body => "Lookaround" ++ fields [("kind", lookText kind), ("body", toString body)]
  | atomic body => "Atomic" ++ fields [("body", toString body)]
  | branch (.group index) => "Conditional(Group(" ++ toString index ++ "))"
  | branch (.look kind body) =>
    "Conditional(Look" ++ fields [("kind", lookText kind), ("body", toString body)] ++ ")"
  | fail => "Fail"
  | accept => "Accept"
  | commit => "Commit"

end Action

/-- A way from one state to another. Without a label it takes no input. -/
structure Transition where
  source : Nat
  target : Nat
  label : Option Label
  priority : Int
deriving DecidableEq

namespace Transition

def isEpsilon (t : Transition) : Bool := t.label.isNone

def matchesChar (t : Transition) (c : Char) : Bool := t.label.any (·.matcher.matchesChar c)

def matchAt? (t : Transition) (input : Array Char) (position : Nat) : Option Nat :=
  match t.label with
  | some label => label.matcher.matchAt? input position
  | none => some position

def ranges? (t : Transition) : Option CharRanges := t.label.bind (·.matcher.ranges?)

def sameEdge (a b : Transition) : Bool := a.target == b.target && a.label == b.label

end Transition

/-- A state. The identifier tells it from all other states that were made. -/
structure State where
  id : UInt32
  accepting : Bool
  /-- A remark on what the state stands for. -/
  note : Option String
  transitions : List Transition
  groupName : Option String
  groupIndex : Option Nat
  marks : Marks
  action : Option Action

namespace State

def new (id : UInt32) (accepting : Bool) : State :=
  ⟨id, accepting, none, [], none, none, .empty, none⟩

/-- A copy under another identifier, without the transitions. -/
def copy (s : State) (id : UInt32) : State := { s with id := id, transitions := [] }

def openGroup (s : State) (index : Nat) : State :=
  { s with groupIndex := some index, marks := s.marks.union .groupStart }

def closeGroup (s : State) (index : Nat) : State :=
  { s with groupIndex := some index, marks := s.marks.union .groupEnd }

def opensGroup (s : State) : Bool := s.marks.contains .groupStart

def closesGroup (s : State) : Bool := s.marks.contains .groupEnd

/-- True for states that do nothing but lead on. -/
def isPlain (s : State) : Bool :=
  !s.accepting && s.marks.isEmpty && s.action.isNone && s.groupIndex.isNone

/-- Adds a transition after those that have the same priority or a higher one. -/
def addTransition (s : State) (t : Transition) : State :=
  let goesFirst := fun other : Transition => t.priority ≤ other.priority
  { s with transitions :=
      s.transitions.takeWhile goesFirst ++ t :: s.transitions.dropWhile goesFirst }

def removeTransition (s : State) (index : Nat) : Except Error (Transition × State) :=
  match s.transitions[index]? with
  | some t => .ok (t, { s with transitions := s.transitions.eraseIdx index })
  | none => .error (CallFault.transitionIndex index).error

/-- True when two states agree in everything but identifier and transitions. -/
def isEquivalent (a b : State) : Bool :=
  a.accepting == b.accepting && a.note == b.note && a.groupName == b.groupName &&
    a.groupIndex == b.groupIndex && a.marks == b.marks && a.action == b.action

/-- The states that transitions lead to, and the start of the body. -/
def successors (s : State) : List Nat :=
  s.transitions.map (·.target) ++ (s.action.bind Action.body?).toList

def epsilonTargets (s : State) : List Nat :=
  (s.transitions.filter (·.isEpsilon)).map (·.target)

end State

end RegexEngine
