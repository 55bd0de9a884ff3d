import RegexEngine.Automaton.Basic

/-!
Cutting the alphabet into intervals. The ends of the ranges on some transitions cut the code points
into intervals such that each of the ranges covers an interval as a whole or not at all. One
character of an interval then speaks for all of it.
-/

namespace RegexEngine

structure Edge where
  ranges : CharRanges
  target : Nat

/-- Removes repetitions from a sorted list. -/
def dropRepeats : List Nat → List Nat
  | [] => []
  | [n] => [n]
  | n :: m :: rest => if n = m then dropRepeats (m :: rest) else n :: dropRepeats (m :: rest)

def ascending (numbers : List Nat) : List Nat := dropRepeats (numbers.mergeSort (· ≤ ·))

/-- The code points where a range of some edge starts, or where one has just ended. -/
def cutPoints (edges : List Edge) : List Nat :=
  ascending (edges.flatMap fun e => e.ranges.pairs.flatMap fun (lo, hi) => [lo, hi + 1])

/-- The intervals between neighbouring points. Those that start with no character are left out. -/
def intervalsBetween : List Nat → List (Nat × Nat)
  | lo :: next :: rest =>
    let others := intervalsBetween (next :: rest)
    if (charOfCode? lo).isSome then (lo, next - 1) :: others else others
  | _ => []

def intervals (edges : List Edge) : List (Nat × Nat) := intervalsBetween (cutPoints edges)

/-- Adds an interval to the group with a key, or starts a new group after the others. -/
def addToGroup {κ : Type} [BEq κ] (key : κ) (interval : Nat × Nat) :
    List (κ × List (Nat × Nat)) → List (κ × List (Nat × Nat))
  | [] => [(key, [interval])]
  | (other, found) :: rest =>
    if other == key then (other, found ++ [interval]) :: rest
    else (other, found) :: addToGroup key interval rest

end RegexEngine
