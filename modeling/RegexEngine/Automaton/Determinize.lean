import RegexEngine.Automaton.Intervals
import Std.Data.HashMap

/-!
Making automata deterministic. Every state of the result stands for a set of states, closed under
transitions without labels. Two sets that hold the same states are one state. Intervals of
characters that lead to the same set share a transition.
-/

namespace RegexEngine.Automaton

def defaultSubsetLimit : Nat := 10000

/-- The edges of the transitions of a state. A state with an assertion or an action cannot be one of
a set, and neither can one with a transition that takes several characters. -/
def stateEdges (s : State) : Except Error (List Edge) :=
  if s.action.isSome || s.marks.hasAssertion then .error AutomatonFault.notConvertible.error
  else (s.transitions.filter fun t => !t.isEpsilon).mapM fun t =>
    match t.ranges? with
    | some ranges => .ok ⟨ranges, t.target⟩
    | none => .error AutomatonFault.multiCharacter.error

structure Subsets where
  dfa : Automaton
  /-- The state of each set that was met. -/
  places : Std.HashMap (List Nat) Nat
  /-- Sets whose transitions are still to be made. -/
  waiting : List (List Nat)

namespace Subsets

def noteOf (members : List Nat) : String :=
  "\x7b" ++ Text.joinWith "," (members.map toString) ++ "\x7d"

def add (nfa : Automaton) (members : List Nat) (b : Subsets) : Fresh (Nat × Subsets) := do
  let accepting := members.any fun s => nfa.states[s]?.any (·.accepting)
  let id ← freshId
  let (place, dfa) := b.dfa.addState { State.new id accepting with note := some (noteOf members) }
  pure (place, ⟨dfa, b.places.insert members place, b.waiting ++ [members]⟩)

/-- The state of a set. A set that was not met before needs room for one more state. -/
def placeOf (nfa : Automaton) (limit : Nat) (members : List Nat) (b : Subsets) :
    Fresh (Except Error (Nat × Subsets)) :=
  match b.places[members]? with
  | some place => pure (.ok (place, b))
  | none =>
    if limit ≤ b.dfa.stateCount then
      pure (.error (AutomatonFault.tooManySubsets limit).error)
    else do pure (.ok (← add nfa members b))

/-- The targets that some edges share, with the intervals of characters that lead to them. -/
def moves (edges : List Edge) : List (List Nat × List (Nat × Nat)) :=
  (intervals edges).foldl (fun groups interval =>
    let hit := edges.filter fun e => e.ranges.containsCode interval.1
    if hit.isEmpty then groups
    else addToGroup (ascending (hit.map (·.target))) interval groups) []

def connectAll (nfa : Automaton) (limit source : Nat) :
    List (List Nat × List (Nat × Nat)) → Subsets → Fresh (Except Error Subsets)
  | [], b => pure (.ok b)
  | (targets, pairs) :: rest, b => do
    match ← placeOf nfa limit (nfa.closure targets) b with
    | .error e => pure (.error e)
    | .ok (place, b) =>
      match Label.ofText (CharRanges.ofPairs pairs).spec with
      | .error e => pure (.error e)
      | .ok label =>
        connectAll nfa limit source rest
          { b with dfa := b.dfa.connect source place (some label) 0 }

/-- Works on waiting sets until there are none. The fuel exceeds the number of sets that the limit
allows. -/
def run (nfa : Automaton) (edges : Array (List Edge)) (limit : Nat) :
    Nat → Subsets → Fresh (Except Error Automaton)
  | 0, b => pure (.ok b.dfa)
  | fuel + 1, b =>
    match b.waiting with
    | [] => pure (.ok b.dfa)
    | members :: waiting => do
      let source := b.places[members]?.getD 0
      let leaving := members.flatMap fun s => edges[s]?.getD []
      match ← connectAll nfa limit source (moves leaving) { b with waiting := waiting } with
      | .error e => pure (.error e)
      | .ok b => run nfa edges limit fuel b

end Subsets

/-- The deterministic automaton that accepts the same inputs, of a bounded number of states.
Captures are lost. -/
def toDfaWithLimit (nfa : Automaton) (limit : Nat) : Fresh (Except Error Automaton) :=
  match nfa.initial with
  | none => pure (.error AutomatonFault.noInitial.error)
  | some initial =>
    match nfa.states.mapM stateEdges with
    | .error e => pure (.error e)
    | .ok edges => do
      let dfa := { Automaton.empty .dfa with flags := nfa.flags }
      let (start, b) ← Subsets.add nfa (nfa.closure [initial]) ⟨dfa, ∅, []⟩
      let b := { b with dfa := { b.dfa with initial := some start, current := some start } }
      Subsets.run nfa edges limit (limit + 2) b

def toDfa (nfa : Automaton) : Fresh (Except Error Automaton) :=
  nfa.toDfaWithLimit defaultSubsetLimit

end RegexEngine.Automaton
