import RegexEngine.Search.Slots
import RegexEngine.Error

/-!
The ways that wait to be tried. A search that goes down one way at a time keeps the others on a
stack, which is bounded: what waits on a stack and on those of the searches around it never exceeds
the greatest depth.
-/

namespace RegexEngine

/-- The rounds of a counted repetition that a way is in. -/
structure Counter where
  /-- The instruction that starts the repetition. -/
  start : Nat
  rounds : Nat
  /-- Where the current round began. -/
  since : Nat
deriving DecidableEq, Repr

/-- A way through an automaton or a program: the state or the instruction that is entered next, the
place in the input, and what has happened up to here. -/
structure Path where
  place : Nat
  position : Nat
  slots : Slots
  /-- What was entered since the way last took input. To enter it again would change nothing. -/
  trail : List Nat
  /-- The counted repetitions that the way is in, the innermost first. -/
  counters : List Counter
deriving DecidableEq, Repr

def Path.start (place position : Nat) (slots : Slots) : Path := ⟨place, position, slots, [], []⟩

/-- A way that waits: to be followed, or to end in a match. -/
inductive Frame
  | follow (path : Path)
  | accept (position : Nat) (slots : Slots)
deriving DecidableEq, Repr

def Frame.position : Frame → Nat
  | follow path => path.position
  | accept position _ => position

/-- The waiting ways, the last one first. -/
structure Stack where
  frames : List Frame
  maxDepth : Nat
  groups : Nat
  /-- How many ways wait in the searches around this one. -/
  base : Nat
deriving DecidableEq, Repr

namespace Stack

/-- An empty stack of a search inside others, in which some ways wait. -/
def nested (maxDepth groups base : Nat) : Stack := ⟨[], maxDepth, groups, base⟩

def new (maxDepth groups : Nat) : Stack := nested maxDepth groups 0

/-- Number of ways that wait here and in the searches around. -/
def depth (s : Stack) : Nat := s.base + s.frames.length

def isEmpty (s : Stack) : Bool := s.frames.isEmpty

def push (s : Stack) (frame : Frame) : Except Error Stack :=
  if s.maxDepth ≤ s.depth then .error (LimitFault.pendingDepth s.maxDepth).error
  else .ok { s with frames := frame :: s.frames }

/-- Puts a way with the slots of all groups on the stack. -/
def pushAt (s : Stack) (place position : Nat) (slots : Slots) : Except Error Stack :=
  if slots.length = 2 * s.groups then s.push (.follow (.start place position slots))
  else .error (CallFault.slotCount (2 * s.groups) slots.length).error

def peek? (s : Stack) : Option Frame := s.frames.head?

def pop? (s : Stack) : Option (Frame × Stack) :=
  match s.frames with
  | frame :: rest => some (frame, { s with frames := rest })
  | [] => none

def reset (s : Stack) : Stack := { s with frames := [] }

/-- Changes the greatest depth. The ways that wait already stay. -/
def setMaxDepth (s : Stack) (maxDepth : Nat) : Stack := { s with maxDepth := maxDepth }

def emptySlots (s : Stack) : Slots := .unset s.groups

end Stack

end RegexEngine
