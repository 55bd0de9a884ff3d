import RegexEngine.Automaton.Minimal

/-!
Simplifying automata without changing the inputs that they accept. Four passes are repeated until
none of them finds anything: states that cannot be reached are removed, then states from which no
match can be completed, then transitions that repeat an earlier one, and last, transitions into
states that only lead on are made to go where those lead. A deterministic automaton is minimized at
the end.

A condition tells its branches apart by their places, and takes the second branch for the first one
when the first one leads to a state that is removed.
-/

namespace RegexEngine.Automaton

/-- Keeps some states, and tells whether any was removed. -/
def retainOnly (a : Automaton) (kept : List Nat) : Bool × Automaton :=
  let keep := Graph.mark a.stateCount kept
  if keep.all id then (false, a) else (true, a.retain keep)

def removeUnreachable (a : Automaton) : Bool × Automaton :=
  a.retainOnly a.reachable

/-- True for states where a match or a body can end. -/
def isFinal (s : State) : Bool :=
  s.accepting || s.marks.contains .bodyEnd || s.action == some .accept

def targets (a : Automaton) (s : Nat) : List Nat :=
  match a.states[s]? with
  | some state => state.transitions.map (·.target)
  | none => []

/-- Removes the states from which no state can be reached where something ends. Bodies are kept, for
their end is decided by the state that owns them. -/
def removeDead (a : Automaton) : Bool × Automaton :=
  let size := a.stateCount
  let finals := (List.range size).filter fun s => a.states[s]?.any isFinal
  let bodies := a.states.toList.filterMap fun s => s.action.bind Action.body?
  let inBodies := Graph.depthFirst a.targets (Graph.unseen size) bodies
  let backward := Graph.predecessors size a.targets
  let live := Graph.depthFirst (fun s => backward[s]?.getD []) (Graph.unseen size)
    (finals ++ inBodies)
  a.retainOnly (a.initial.toList ++ live)

/-- Removes the transitions that go where an earlier one goes with the same label. -/
def dropRepeatedEdges (kept : List Transition) : List Transition → List Transition
  | [] => kept.reverse
  | t :: rest =>
    if kept.any (·.sameEdge t) then dropRepeatedEdges kept rest
    else dropRepeatedEdges (t :: kept) rest

/-- True for states whose transitions are told apart by their place. -/
def isBranch (s : State) : Bool :=
  match s.action with
  | some (.branch _) => true
  | _ => false

def mergeTransitions (a : Automaton) : Bool × Automaton :=
  let merge := fun s : State =>
    if isBranch s then s else { s with transitions := dropRepeatedEdges [] s.transitions }
  let merged := { a with states := a.states.map merge }
  (merged.transitionCount != a.transitionCount, merged)

/-- Where a state leads, if it does nothing else. -/
def forwardOf? (s : State) (index : Nat) : Option Nat :=
  match s.isPlain, s.transitions with
  | true, [t] => if t.isEpsilon && t.target != index then some t.target else none
  | _, _ => none

/-- Follows states that only lead on. A state that leads into a circle of them stays. -/
def resolveForward (forward : Array (Option Nat)) (start : Nat) : Nat → Nat → Nat
  | 0, _ => start
  | fuel + 1, s =>
    match forward[s]?.join with
    | some next => resolveForward forward start fuel next
    | none => s

/-- Makes transitions and bodies go past states that only lead on. -/
def bypassForwarders (a : Automaton) : Bool × Automaton :=
  let size := a.stateCount
  let forward := a.states.zipIdx.map fun (s, i) => forwardOf? s i
  let resolved : Array Nat :=
    (Array.range size).map fun s => resolveForward forward s (size + 1) s
  let resolve := fun s => resolved[s]?.getD s
  let change := fun s : State =>
    { s with
      transitions := s.transitions.map fun t => { t with target := resolve t.target }
      action := s.action.map (·.mapBody resolve) }
  let moved := a.states.any fun s => s.successors.any fun t => resolve t != t
  match a.initial with
  | some i =>
    if resolve i = i then (moved, { a with states := a.states.map change })
    else
      (true, { a with
        states := a.states.map change, initial := some (resolve i), current := some (resolve i) })
  | none => (moved, { a with states := a.states.map change })

def simplifyOnce (a : Automaton) : Bool × Automaton :=
  let (first, a) := a.removeUnreachable
  let (second, a) := a.removeDead
  let (third, a) := a.mergeTransitions
  let (fourth, a) := a.bypassForwarders
  (first || second || third || fourth, a)

/-- Repeats the passes until nothing changes. The fuel exceeds the number of rounds: of any two
rounds that change something, one removes a state or a transition. -/
def simplifyFully : Nat → Automaton → Automaton
  | 0, a => a
  | fuel + 1, a =>
    match a.simplifyOnce with
    | (true, a) => simplifyFully fuel a
    | (false, a) => a

/-- Simplifies an automaton. One without an initial state stays as it is. -/
def optimize (a : Automaton) : Fresh (Except Error Unit × Automaton) :=
  match a.initial, a.checkIntegrity with
  | none, _ => pure (.ok (), a)
  | some _, .error e => pure (a.refuse e)
  | some _, .ok _ => do
    let a := simplifyFully (2 * (a.stateCount + a.transitionCount) + 2) a
    if a.kind = .dfa && a.isDeterministic then
      match ← a.minimize with
      | .ok least => pure (.ok (), { least with flags := a.flags })
      | .error e => pure (a.refuse e)
    else pure (.ok (), a)

end RegexEngine.Automaton
