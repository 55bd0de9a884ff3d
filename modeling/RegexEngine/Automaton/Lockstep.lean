import RegexEngine.Automaton.Code
import RegexEngine.Graph

/-!
Searches that follow all ways of an automaton at the same time, one character after the other. The
ways that are alive at a place stand in a list, the one with the highest priority first, which is
the order in which backtracking would try them. So when a way accepts, those after it are dropped
and those before it go on; the match that backtracking finds is the last one that is found here.

At each place a state is entered once, by the first way that comes to it. That takes automata
without actions whose labels take one character each.
-/

namespace RegexEngine

/-- A way that has taken all it can without input. -/
inductive Thread
  /-- Wants to take a transition with the next character. -/
  | wait (t : Transition) (slots : Slots)
  /-- Accepts here. -/
  | accept (slots : Slots)

/-- What is left to do where ways spread without input. -/
inductive Errand
  | visit (state : Nat) (slots : Slots)
  | keep (thread : Thread)

/-- The ways at a place, and the states that were entered there. -/
structure Front where
  threads : List Thread
  seen : Array Bool

namespace Automaton

/-- True when all ways through the automaton can be followed at the same time. -/
def supportsLockstep (a : Automaton) : Bool :=
  !a.hasActions && a.transitions.all fun t => t.label.all (·.matcher.isSingle)

/-- What is to be done after a state was entered: over its transitions in their order, and to accept
comes last. -/
def errands (s : State) (slots : Slots) : List Errand :=
  s.transitions.map (fun t =>
    if t.isEpsilon then .visit t.target slots else .keep (.wait t slots))
    ++ (if s.accepting then [.keep (.accept slots)] else [])

/-- Enters a state at a place, with this many errands left to do. -/
def visit (a : Automaton) (search : Search) (position waiting state : Nat) (slots : Slots) :
    Tracked (List Errand) := do
  if ← search.checkpoint waiting position then
    match a.states[state]? with
    | some s =>
      if s.marks.holdAt search.input position then pure (errands s (s.capture position slots))
      else pure []
    | none => pure []
  else pure []

/-- Does errands one after the other, and answers with the ways that are kept and the states that
were entered. -/
def spread (a : Automaton) (search : Search) (position : Nat) (seen : Array Bool)
    (threads : List Thread) : List Errand → Tracked Front
  | [] => pure ⟨threads.reverse, seen⟩
  | .keep thread :: rest => spread a search position seen (thread :: threads) rest
  | .visit s slots :: rest =>
    if h : s < seen.size then
      if hs : seen[s] = true then spread a search position seen threads rest
      else do
        let more ← a.visit search position rest.length s slots
        spread a search position (seen.set s true) threads (more ++ rest)
    else spread a search position seen threads rest
termination_by errands => (seen.count false, errands.length)
decreasing_by
  · exact Prod.Lex.right _ (by simp)
  · exact Prod.Lex.right _ (by simp)
  · exact Prod.Lex.left _ _ (Graph.count_set_lt seen s h hs)
  · exact Prod.Lex.right _ (by simp)

def join (a : Automaton) (search : Search) (position : Nat) (front : Front) (state : Nat)
    (slots : Slots) : Tracked Front := do
  let more ← a.spread search position front.seen [] [.visit state slots]
  pure ⟨front.threads ++ more.threads, more.seen⟩

def noFront (a : Automaton) : Front := ⟨[], Graph.unseen a.stateCount⟩

/-- Moves ways over the next character, up to the first that accepts. Answers with the ways after
the character, and with what was found. -/
def advanceAll (a : Automaton) (search : Search) (position : Nat) :
    Front → Option Found → List Thread → Tracked (Front × Option Found)
  | front, found, [] => pure (front, found)
  | front, found, .accept slots :: rest =>
    if search.endsAt position then pure (front, some ⟨position, slots⟩)
    else a.advanceAll search position front found rest
  | front, found, .wait t slots :: rest => do
    if search.input[position]?.any t.matchesChar then
      let front ← a.join search (position + 1) front t.target slots
      a.advanceAll search position front found rest
    else a.advanceAll search position front found rest

/-- Moves ways over the rest of the input, whose length and one more is the fuel. -/
def race (a : Automaton) (search : Search) :
    Nat → Nat → List Thread → Option Found → Tracked (Option Found)
  | 0, _, _, found => pure found
  | _ + 1, _, [], found => pure found
  | fuel + 1, position, threads, found => do
    let (front, found) ← a.advanceAll search position a.noFront found threads
    a.race search fuel (position + 1) front.threads found

/-- The match with the highest priority that starts at a place. -/
def lockstep (a : Automaton) (search : Search) (initial start : Nat) : Tracked Attempt := do
  let fuel := search.input.size - start + 1
  let front ← a.join search start a.noFront initial (.unset a.groupCount)
  .ofFound <$> a.race search fuel start front.threads none

end Automaton

end RegexEngine
