import RegexEngine.Automaton.Intervals
import Std.Data.HashMap

/-!
Minimal automata. The states of a deterministic automaton are divided into blocks, at first into
those that accept and those that do not. Blocks are divided further until all states of a block have
transitions on the same intervals of characters, into the same blocks. The result has one state for
each block from which a state that accepts can be reached, and the initial one, numbered breadth
first.

Transitions into blocks from which nothing is accepted are left out after the division, and count in
it like others: a state that has one is told apart from a state that has none. The result may have
states that would be joined if it were divided again.
-/

namespace RegexEngine.Automaton

/-- The reachable part of a deterministic automaton, as a table of moves. States are numbered in
breadth-first order. -/
structure MoveTable where
  accepting : List Bool
  intervals : List (Nat × Nat)
  /-- For each state and each interval, where the state goes. -/
  moves : List (List (Option Nat))

def edgesBetween (position : Nat → Nat) (s : State) : Except Error (List Edge) :=
  s.transitions.mapM fun t =>
    match t.ranges? with
    | some ranges => .ok ⟨ranges, position t.target⟩
    | none => .error AutomatonFault.notDeterministic.error

def moveTable (dfa : Automaton) : Except Error MoveTable := do
  let order := dfa.reachable
  let positions : Array Nat := order.zipIdx.foldl (fun table (s, i) => table.setIfInBounds s i)
    (Array.replicate dfa.stateCount 0)
  let states := order.filterMap fun s => dfa.states[s]?
  let edges ← states.mapM (edgesBetween fun s => positions[s]?.getD 0)
  let cuts := intervals edges.flatten
  let move := fun (leaving : List Edge) (interval : Nat × Nat) =>
    (leaving.find? (·.ranges.containsCode interval.1)).map (·.target)
  pure ⟨states.map (·.accepting), cuts, edges.map fun leaving => cuts.map (move leaving)⟩

/-- Numbers keys in the order in which they first appear. -/
def numberKeys {κ : Type} [BEq κ] [Hashable κ] :
    List κ → Std.HashMap κ Nat → List Nat × Std.HashMap κ Nat
  | [], known => ([], known)
  | key :: rest, known =>
    match known[key]? with
    | some n =>
      let (others, known) := numberKeys rest known
      (n :: others, known)
    | none =>
      let n := known.size
      let (others, known) := numberKeys rest (known.insert key n)
      (n :: others, known)

/-- Divides blocks by where their states go, and answers with the number of blocks too. -/
def splitBlocks (moves : List (List (Option Nat))) (blocks : List Nat) : List Nat × Nat :=
  let table := blocks.toArray
  let signature := fun (row : List (Option Nat)) => row.map (·.map fun t => table[t]?.getD 0)
  let (next, known) := numberKeys (blocks.zip (moves.map signature)) ∅
  (next, known.size)

/-- Divides blocks until none of them divides any more. The fuel is the number of states, since each
round but the last makes more blocks. -/
def refine (moves : List (List (Option Nat))) : Nat → List Nat → Nat → List Nat × Nat
  | 0, blocks, count => (blocks, count)
  | fuel + 1, blocks, count =>
    let (next, found) := splitBlocks moves blocks
    if found = count then (next, found) else refine moves fuel next found

def MoveTable.blocks (table : MoveTable) : List Nat × Nat :=
  let marks := table.accepting.map fun accepting => if accepting then 1 else 0
  refine table.moves (table.accepting.length + 1) marks (ascending marks).length

/-- The automaton whose states are blocks. -/
structure Quotient where
  accepting : Array Bool
  /-- For each block, the blocks that it goes to, with the characters of each move. -/
  edges : Array (List (Nat × CharRanges))
  initial : Nat

/-- The moves of the first state of each block, without those into blocks that reach no state that
accepts. Moves into the same block are one, and the moves are in the order of their characters. -/
def MoveTable.quotient (table : MoveTable) : Quotient :=
  let (blocks, count) := table.blocks
  let blockOf : Array Nat := blocks.toArray
  let block := fun t => blockOf[t]?.getD 0
  let rows := blocks.zip (table.accepting.zip table.moves)
  let firsts : Array (Option (Bool × List (Option Nat))) := rows.foldl (fun found (b, row) =>
    if found[b]?.join.isSome then found else found.setIfInBounds b (some row))
    (Array.replicate count none)
  let first := fun b => firsts[b]?.join
  let accepting := (Array.range count).map fun b => ((first b).map (·.1)).getD false
  let targets : Array (List (Option Nat)) := (Array.range count).map fun b =>
    (((first b).map (·.2)).getD []).map (·.map block)
  let next := fun b => (targets[b]?.getD []).filterMap id
  let backward := Graph.predecessors count next
  let ends := (List.range count).filter fun b => accepting[b]?.getD false
  let useful := Graph.depthFirst (fun b => backward[b]?.getD []) (Graph.unseen count) ends
  let live := Graph.mark count useful
  let edges := targets.map fun row =>
    ((row.zip table.intervals).foldl (fun groups (target, interval) =>
      match target with
      | some b => if live[b]?.getD false then addToGroup b interval groups else groups
      | none => groups) []).map fun (b, pairs) => (b, CharRanges.ofPairs pairs)
  ⟨accepting, edges, block 0⟩

def addStates (a : Automaton) : List Bool → Fresh Automaton
  | [] => pure a
  | accepting :: rest => do
    let (_, a) ← a.createState accepting
    addStates a rest

/-- The automaton of a quotient, numbered breadth first from the initial block. -/
def ofQuotient (q : Quotient) (flags : Flags) : Fresh (Except Error Automaton) := do
  let size := q.edges.size
  let next := fun b => (q.edges[b]?.getD []).map (·.1)
  let order := Graph.breadthFirst next (Graph.unseen size) [q.initial]
  let places : Array Nat := order.zipIdx.foldl (fun table (b, i) => table.setIfInBounds b i)
    (Array.replicate size 0)
  let place := fun b => places[b]?.getD 0
  let start := { Automaton.empty .dfa with flags := flags }
  let made ← addStates start (order.map fun b => q.accepting[b]?.getD false)
  let edges := order.flatMap fun b => (q.edges[b]?.getD []).map fun (t, r) => (place b, place t, r)
  let joined := edges.foldlM (fun (a : Automaton) (source, target, ranges) => do
    let label ← Label.ofText ranges.spec
    pure (a.connect source target (some label) 0)) made
  pure (joined.map fun a => { a with initial := some 0, current := some 0 })

/-- Joins the states of a deterministic automaton that no division tells apart. -/
def minimize (dfa : Automaton) : Fresh (Except Error Automaton) :=
  if !dfa.isDeterministic then pure (.error AutomatonFault.notDeterministic.error)
  else if dfa.initial.isNone then pure (.error AutomatonFault.noInitial.error)
  else
    match dfa.moveTable with
    | .error e => pure (.error e)
    | .ok table => ofQuotient table.quotient dfa.flags

end RegexEngine.Automaton
