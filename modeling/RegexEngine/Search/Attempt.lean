import RegexEngine.Search.Bailout
import RegexEngine.Search.Slots
import RegexEngine.Search.Tracker

/-!
An attempt is a search for a match that starts at one place of an input. It says where the match
ends and what the groups have taken, or that there is none. All ways of searching have this form,
and all pass the same checkpoints.
-/

namespace RegexEngine

inductive SearchMode
  /-- One way after the other. -/
  | backtracking
  /-- All ways at the same time, where that can be done. -/
  | lockstep
deriving DecidableEq, Repr

/-- What a search goes through and what holds for all its attempts. -/
structure Search where
  input : Array Char
  /-- A match has to reach the end of the input. -/
  full : Bool
  mode : SearchMode
  bailout : Option Bailout
  /-- The pattern was written as a raw literal. -/
  raw : Bool
  clock : Clock

/-- Where a match ends, and what its groups have taken. -/
structure Found where
  stop : Nat
  slots : Slots
deriving DecidableEq, Repr

structure Attempt where
  found : Option Found
  /-- The attempt has ruled out all later starts. -/
  committed : Bool
deriving DecidableEq, Repr

/-- An attempt that has ruled out nothing. -/
def Attempt.ofFound (found : Option Found) : Attempt := ⟨found, false⟩

namespace Search

def probe (s : Search) (t : Tracker) (depth position : Nat) : Probe :=
  ⟨depth, t.transitions, s.clock t.total, Text.byteOffset s.input position, s.raw⟩

/-- Passes a checkpoint at a depth and a place. False when the current way is to be abandoned. -/
def checkpoint (s : Search) (depth position : Nat) : Tracked Bool := do
  Tracker.checkpoint s.clock depth
  match s.bailout with
  | none => pure true
  | some bailout =>
    let t ← getThe Tracker
    match bailout.probe (s.probe t depth position) with
    | .proceed => pure true
    | .abandon => pure false
    | .abort =>
      set t.stop
      throw LimitFault.bailedOut.error

/-- Passes the checkpoint for one more way that will wait at a place. False when it is to be
dropped. -/
def checkPush (s : Search) (depth position : Nat) : Tracked Bool := do
  Tracker.checkPush depth
  s.checkpoint (depth + 1) position

def endsAt (s : Search) (position : Nat) : Bool := !s.full || position == s.input.size

end Search

end RegexEngine
