import RegexEngine.Automaton.Matcher

/-!
The places where capture groups open and close. Every group has two slots, one after the other, and
the first group has the first two. A slot that was never filled is empty. A group keeps the place
where it first opened and the place where it last closed.
-/

namespace RegexEngine

abbrev Slots := List (Option Nat)

namespace Slots

def unset (groups : Nat) : Slots := List.replicate (2 * groups) none

/-- The slot for the start of a group. The one for its end comes next. -/
def startSlot (group : Nat) : Nat := 2 * (group - 1)

/-- Opens a group, unless it was opened before. -/
def openAt (slots : Slots) (group position : Nat) : Slots :=
  slots.modify (startSlot group) fun slot => slot.or (some position)

def closeAt (slots : Slots) (group position : Nat) : Slots :=
  slots.set (startSlot group + 1) (some position)

def start? (slots : Slots) (group : Nat) : Option Nat := slots[startSlot group]?.join

def stop? (slots : Slots) (group : Nat) : Option Nat := slots[startSlot group + 1]?.join

/-- The part of the input that a group has taken: the group opened and did not close before that. -/
def span? (slots : Slots) (group : Nat) : Option (Nat × Nat) :=
  if group = 0 then none
  else
    match slots.start? group, slots.stop? group with
    | some start, some stop => if start ≤ stop then some (start, stop) else none
    | _, _ => none

def isCaptured (slots : Slots) (group : Nat) : Bool := (slots.span? group).isSome

/-- Tries the text that a group has taken once more at a place of the input. -/
def backref? (slots : Slots) (input : Array Char) (group : Nat) (nocase : Bool) (position : Nat) :
    Option Nat :=
  match slots.span? group with
  | some (start, stop) => Matcher.matchRun? nocase input (input.extract start stop).toList position
  | none => none

end Slots

end RegexEngine
