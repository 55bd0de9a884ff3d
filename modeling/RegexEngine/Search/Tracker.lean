import RegexEngine.Search.Limits

/-!
What a search has used up. Whenever a search takes a step it passes a checkpoint, which counts the
step and stops the search at its bounds. The count of transitions starts over with every place where
a match may start; the greatest depth and the deadline are those of the whole search.

Time is a function of the work done: a clock says how many milliseconds have passed after a number
of transitions.
-/

namespace RegexEngine

/-- The milliseconds that have passed since a search started, by the transitions it has taken. -/
abbrev Clock := Nat → Nat

def Clock.still : Clock := fun _ => 0

structure Tracker where
  limits : SearchLimits
  /-- When the search has to stop. -/
  deadline : Option Nat
  /-- Transitions of the current attempt. -/
  transitions : Nat
  /-- Transitions of all attempts. -/
  total : Nat
  peakDepth : Nat
  timedOut : Bool
  stopped : Bool
deriving DecidableEq, Repr

/-- A computation that may fail, and that counts what it does in either case. -/
abbrev Tracked := ExceptT Error (StateM Tracker)

namespace Tracker

def new (limits : SearchLimits) : Tracker := ⟨limits, none, 0, 0, 0, false, false⟩

def empty : Tracker := new ⟨0, 0, 0⟩

/-- Changes the bounds. The deadline changes when a search starts. -/
def setLimits (t : Tracker) (limits : SearchLimits) : Tracker := { t with limits := limits }

/-- Starts a search. Without a longest time there is no deadline. -/
def start (t : Tracker) : Tracker :=
  let duration := t.limits.maxDurationMs
  ⟨t.limits, if duration = 0 then none else some duration, 0, 0, 0, false, false⟩

def beginAttempt (t : Tracker) : Tracker := { t with transitions := 0 }

/-- True when a checkpoint stopped the last search. A stack that refuses a way leaves no mark. -/
def aborted (t : Tracker) : Bool := t.stopped || t.timedOut

def stop (t : Tracker) : Tracker := { t with stopped := true }

def count (t : Tracker) (depth : Nat) : Tracker :=
  { t with
    transitions := t.transitions + 1
    total := t.total + 1
    peakDepth := max t.peakDepth depth }

/-- Counts a transition, and stops the search at the bound of transitions and at the deadline. A
bound of zero is none. -/
def checkpoint (clock : Clock) (depth : Nat) : Tracked Unit := do
  let t := (← getThe Tracker).count depth
  let most := t.limits.maxTransitions
  if 0 < most && most < t.transitions then
    set t.stop
    throw (LimitFault.transitions most).error
  else if t.deadline.any (· ≤ clock t.total) then
    set { t with timedOut := true }
    throw LimitFault.deadline.error
  else set t

/-- Checks that one more way may wait beside those that wait already. -/
def checkPush (depth : Nat) : Tracked Unit := do
  let t ← getThe Tracker
  if t.limits.maxDepth ≤ depth then
    set t.stop
    throw (LimitFault.pendingDepth t.limits.maxDepth).error
  else set { t with peakDepth := max t.peakDepth (depth + 1) }

end Tracker

end RegexEngine
