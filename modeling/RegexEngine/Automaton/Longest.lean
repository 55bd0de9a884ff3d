import RegexEngine.Automaton.Basic
import RegexEngine.Search.Attempt

/-!
Searches with deterministic automata. There is one way through the automaton, and the longest match
along it counts. Groups are not followed.
-/

namespace RegexEngine.Automaton

/-- The place as the end of a match, if the automaton accepts there and the match may end there. -/
def acceptedAt (a : Automaton) (search : Search) (state position : Nat) : Option Nat :=
  if a.states[state]?.any (·.accepting) && search.endsAt position then some position else none

/-- The first transition of a state that takes input, with the place after what it takes. -/
def advance? (a : Automaton) (input : Array Char) (state position : Nat) : Option (Nat × Nat) :=
  (a.states[state]?.map (·.transitions)).bind fun transitions =>
    transitions.findSome? fun t =>
      ((t.matchAt? input position).filter (position < ·)).map fun next => (t.target, next)

/-- Walks on from a state, and answers with the last end of a match. Every step takes input, so the
fuel is the length of the rest of the input and one more. -/
def walk (a : Automaton) (search : Search) : Nat → Nat → Nat → Option Nat → Tracked (Option Nat)
  | 0, _, _, last => pure last
  | fuel + 1, state, position, last => do
    if ← search.checkpoint 0 position then
      match a.advance? search.input state position with
      | some (target, next) =>
        a.walk search fuel target next ((a.acceptedAt search target next).or last)
      | none => pure last
    else pure last

def longest (a : Automaton) (search : Search) (initial start : Nat) : Tracked Attempt := do
  let fuel := search.input.size - start + 1
  let last ← a.walk search fuel initial start (a.acceptedAt search initial start)
  pure (.ofFound (last.map fun stop => ⟨stop, .unset a.groupCount⟩))

end RegexEngine.Automaton
