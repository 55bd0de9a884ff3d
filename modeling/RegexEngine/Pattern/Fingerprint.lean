import RegexEngine.Pattern.Digest
import RegexEngine.Text.Hundredths

/-!
Fingerprints: what is known of the size and shape of a pattern, and a score of how much work it may
cause. The same pattern always has the same fingerprint.
-/

namespace RegexEngine

namespace Tree

def isAlternation : Tree → Bool
  | alt _ => true
  | _ => false

def isRepetition : Tree → Bool
  | repetition _ _ => true
  | _ => false

mutual

/-- Number of repetitions inside others. `inside` tells whether the tree is inside one. -/
def nestedRepetitions (inside : Bool) : Tree → Nat
  | repetition _ c => (if inside then 1 else 0) + nestedRepetitions true c
  | capture _ _ c | group c | scope _ c | look _ c | atomic c => nestedRepetitions inside c
  | groupCond _ y none => nestedRepetitions inside y
  | groupCond _ y (some n) => nestedRepetitions inside y + nestedRepetitions inside n
  | lookCond _ t y none => nestedRepetitions inside t + nestedRepetitions inside y
  | lookCond _ t y (some n) =>
    nestedRepetitions inside t + nestedRepetitions inside y + nestedRepetitions inside n
  | alt items | concat items => nestedRepetitionsAll inside items
  | _ => 0

def nestedRepetitionsAll (inside : Bool) : List Tree → Nat
  | [] => 0
  | item :: rest => nestedRepetitions inside item + nestedRepetitionsAll inside rest

end

end Tree

structure Fingerprint where
  complexity : Float
  states : Nat
  transitions : Nat
  /-- The average number of transitions of a state. -/
  branching : Float
  nesting : Nat
  alternations : Nat
  quantifiers : Nat
  nestedQuantifiers : Nat
  groups : Nat
  digest : Digest

namespace Fingerprint

/-- How much work a pattern may cause. Every level of nesting, every alternation and every
repetition adds to what the automaton costs, and so does the form of a raw literal. -/
def score (states : Nat) (branching : Float)
    (nesting alternations quantifiers nested : Nat) (raw : Bool) : Float :=
  let size := Float.ofNat states * branching
  let depth := 1.0 + 0.15 * Float.ofNat nesting
  let choice := 1.0 + 0.1 * Float.ofNat alternations
  let loops := 1.0 + 0.05 * Float.ofNat quantifiers + 0.2 * Float.ofNat nested
  let plain := size * depth * choice * loops
  if raw then plain * 1.25 else plain

/-- The fingerprint of a pattern. What depends on a tree is zero without one. -/
def compute (source : Option String) (root : Option Tree) (a : Automaton) (flags : Flags)
    (groups : Nat) (raw : Bool) : Fingerprint :=
  let states := a.stateCount
  let transitions := a.transitionCount
  let branching := if states = 0 then 0.0 else Float.ofNat transitions / Float.ofNat states
  let nodes := (root.map (·.preorder)).getD []
  let nesting := (root.map (·.depth)).getD 0
  let alternations := nodes.countP (·.isAlternation)
  let quantifiers := nodes.countP (·.isRepetition)
  let nested := (root.map (·.nestedRepetitions false)).getD 0
  { complexity := score states branching nesting alternations quantifiers nested raw
    states, transitions, branching, nesting, alternations, quantifiers
    nestedQuantifiers := nested
    groups
    digest := .ofContent source root a flags }

def text (f : Fingerprint) : String :=
  Text.joinWith "\n"
    ["complexity:         " ++ Text.hundredths f.complexity,
     "states:             " ++ toString f.states,
     "transitions:        " ++ toString f.transitions,
     "branching factor:   " ++ Text.hundredths f.branching,
     "max nesting:        " ++ toString f.nesting,
     "alternations:       " ++ toString f.alternations,
     "quantifiers:        " ++ toString f.quantifiers ++ " (" ++ toString f.nestedQuantifiers
       ++ " nested)",
     "capture groups:     " ++ toString f.groups,
     "hash:               " ++ f.digest.text]

/-- True when two fingerprints are the same. Scores are compared as numbers. -/
def same (a b : Fingerprint) : Bool :=
  a.complexity == b.complexity && a.states == b.states && a.transitions == b.transitions
    && a.branching == b.branching && a.nesting == b.nesting && a.alternations == b.alternations
    && a.quantifiers == b.quantifiers && a.nestedQuantifiers == b.nestedQuantifiers
    && a.groups == b.groups && a.digest == b.digest

end Fingerprint

end RegexEngine
