/-!
Traversals of finite graphs whose nodes are numbers. Both visit every node that can be reached
through nodes that were not seen before, each one once. A node outside of the table of seen nodes is
no node of the graph.
-/

namespace RegexEngine.Graph

def unseen (size : Nat) : Array Bool := Array.replicate size false

theorem count_set_lt (seen : Array Bool) (s : Nat) (h : s < seen.size) (hs : ¬ seen[s] = true) :
    (seen.set s true).count false < seen.count false := by
  have found : seen[s] = false := by simpa using hs
  have positive : 0 < seen.count false := by
    rw [Array.count_pos_iff]
    exact found ▸ Array.getElem_mem h
  have changed : (seen.set s true).count false = seen.count false - 1 := by
    rw [Array.count_set]
    simp [found]
  omega

/-- Visits nodes depth first: the successors of a node come before the nodes that wait already. -/
def depthFirst (next : Nat → List Nat) (seen : Array Bool) : List Nat → List Nat
  | [] => []
  | s :: waiting =>
    if h : s < seen.size then
      if hs : seen[s] = true then depthFirst next seen waiting
      else s :: depthFirst next (seen.set s true) (next s ++ waiting)
    else depthFirst next seen waiting
termination_by waiting => (seen.count false, waiting.length)
decreasing_by
  · exact Prod.Lex.right _ (by simp)
  · exact Prod.Lex.left _ _ (count_set_lt seen s h hs)
  · exact Prod.Lex.right _ (by simp)

/-- Visits nodes breadth first: the successors of a node come after the nodes that wait already. -/
def breadthFirst (next : Nat → List Nat) (seen : Array Bool) : List Nat → List Nat
  | [] => []
  | s :: waiting =>
    if h : s < seen.size then
      if hs : seen[s] = true then breadthFirst next seen waiting
      else s :: breadthFirst next (seen.set s true) (waiting ++ next s)
    else breadthFirst next seen waiting
termination_by waiting => (seen.count false, waiting.length)
decreasing_by
  · exact Prod.Lex.right _ (by simp)
  · exact Prod.Lex.left _ _ (count_set_lt seen s h hs)
  · exact Prod.Lex.right _ (by simp)

def mark (size : Nat) (nodes : List Nat) : Array Bool :=
  nodes.foldl (fun marked s => marked.setIfInBounds s true) (unseen size)

def predecessors (size : Nat) (next : Nat → List Nat) : Array (List Nat) :=
  (List.range size).foldl (fun table s =>
    (next s).foldl (fun table t => table.modify t (s :: ·)) table) (Array.replicate size [])

end RegexEngine.Graph
