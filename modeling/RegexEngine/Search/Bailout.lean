import RegexEngine.Pattern.Basic

/-!
Strategies that give up on searches before they reach their bounds. At every checkpoint each
strategy is asked whether it wants to act, and the one with the highest priority decides: the search
goes on, it abandons the way it is on, or it stops.
-/

namespace RegexEngine

/-- A search at a checkpoint. The position is a byte offset. -/
structure Probe where
  depth : Nat
  /-- Transitions of the current attempt. -/
  transitions : Nat
  elapsedMs : Nat
  position : Nat
  /-- The pattern was written as a raw literal. -/
  raw : Bool
deriving DecidableEq, Repr

inductive Verdict
  | proceed | abandon | abort
deriving DecidableEq, Repr

/-- Acts on patterns that are too complex for the depth of the search. -/
structure ComplexityRule where
  states : Nat
  branching : Float
  repetitions : Nat
  threshold : Float

namespace ComplexityRule

def ofPattern (p : Pattern) (threshold : Float) : ComplexityRule :=
  let f := p.fingerprint
  ⟨f.states, f.branching, f.quantifiers, threshold⟩

/-- The score of a search: that of the pattern, half as much again for raw literals, and one
hundredth more for every way that waits. -/
def score (r : ComplexityRule) (probe : Probe) : Float :=
  let repetitions := Float.ofNat r.repetitions
  let plain := Float.ofNat r.states * r.branching + repetitions * repetitions
  let weighted := if probe.raw then plain * 1.5 else plain
  weighted * (1.0 + Float.ofNat probe.depth / 100.0)

end ComplexityRule

/-- A strategy that the host brings along. -/
structure Policy where
  isActive : Probe → Bool
  verdict : Probe → Verdict
  priority : Int

inductive Strategy
  | complexity (rule : ComplexityRule)
  /-- Abandons ways at this depth and beyond. -/
  | depth (most : Nat)
  /-- Stops searches that take this time. -/
  | time (mostMs : Nat)
  | custom (policy : Policy)

namespace Strategy

def name : Strategy → String
  | complexity _ => "pattern complexity"
  | depth _ => "depth only"
  | time _ => "time only"
  | custom _ => "custom"

def isActive (probe : Probe) : Strategy → Bool
  | complexity rule => rule.threshold < rule.score probe
  | depth most => most ≤ probe.depth
  | time mostMs => mostMs ≤ probe.elapsedMs
  | custom policy => policy.isActive probe

def verdict (probe : Probe) : Strategy → Verdict
  | complexity _ | time _ => .abort
  | depth _ => .abandon
  | custom policy => policy.verdict probe

/-- Of the strategies that want to act, the one with the highest priority does. -/
def priority : Strategy → Int
  | complexity _ => 50
  | depth _ => 40
  | time _ => 60
  | custom policy => policy.priority

end Strategy

structure Bailout where
  strategies : List Strategy

namespace Bailout

/-- The strategy that acts: the first of those with the highest priority. -/
def evaluate? (b : Bailout) (probe : Probe) : Option Strategy :=
  (b.strategies.filter (·.isActive probe)).foldl (fun chosen strategy =>
    match chosen with
    | some best => if best.priority < strategy.priority then some strategy else some best
    | none => some strategy) none

def probe (b : Bailout) (probe : Probe) : Verdict :=
  match b.evaluate? probe with
  | some strategy => strategy.verdict probe
  | none => .proceed

end Bailout

end RegexEngine
