import Mathlib.Logic.Relation
import Mathlib.Tactic.Tauto
import RegexEngine.Graph

/-!
Traversals of graphs, and tables that are indexed by nodes.

What a depth-first traversal visits. From a table in which nothing was seen it visits exactly the
nodes that can be reached from those it starts with, along edges between nodes of the graph.

Soundness says that every visited node can be reached. Completeness is stated of one call: whatever
waits, and whatever a visited node leads to, is visited by this call or was seen before it.
-/

namespace RegexEngine.Graph

variable {next : Nat → List Nat}

/-- There is an edge between two nodes, and the second is in a graph of so many nodes. -/
def Edge (next : Nat → List Nat) (size s t : Nat) : Prop := t ∈ next s ∧ t < size

/-- A node in the graph can be reached from some nodes. -/
def Reached (next : Nat → List Nat) (size : Nat) (start : List Nat) (t : Nat) : Prop :=
  ∃ s ∈ start, s < size ∧ Relation.ReflTransGen (Edge next size) s t

theorem Reached.of_cons {size s : Nat} {waiting : List Nat} {t : Nat}
    (h : Reached next size waiting t) : Reached next size (s :: waiting) t := by
  obtain ⟨u, hu, hlt, hpath⟩ := h
  exact ⟨u, List.mem_cons_of_mem _ hu, hlt, hpath⟩

/-- What a node leads to can be reached from it. -/
theorem Reached.of_next {size s : Nat} {waiting : List Nat} {t : Nat} (hs : s < size)
    (h : Reached next size (next s ++ waiting) t) : Reached next size (s :: waiting) t := by
  obtain ⟨u, hu, hlt, hpath⟩ := h
  rcases List.mem_append.mp hu with hu | hu
  · exact ⟨s, List.mem_cons_self, hs, hpath.head ⟨hu, hlt⟩⟩
  · exact ⟨u, List.mem_cons_of_mem _ hu, hlt, hpath⟩

theorem reached_of_mem_depthFirst (seen : Array Bool) (waiting : List Nat) {t : Nat}
    (h : t ∈ depthFirst next seen waiting) : Reached next seen.size waiting t := by
  fun_induction depthFirst next seen waiting with
  | case1 => cases h
  | case2 seen s waiting hlt hs ih => exact (ih h).of_cons
  | case3 seen s waiting hlt hs ih =>
    rcases List.mem_cons.mp h with rfl | h
    · exact ⟨t, List.mem_cons_self, hlt, .refl⟩
    · have hreached := ih h
      rw [Array.size_set] at hreached
      exact hreached.of_next hlt
  | case4 seen s waiting hlt ih => exact (ih h).of_cons

theorem seen_set {seen : Array Bool} {s : Nat} (h : s < seen.size) {t : Nat}
    (ht : (seen.set s true)[t]? = some true) : t = s ∨ seen[t]? = some true := by
  rw [Array.getElem?_set] at ht
  split at ht
  · rename_i heq
    exact .inl heq.symm
  · exact .inr ht

/-- Whatever waits is visited or was seen, and so is whatever a visited node leads to. -/
theorem depthFirst_closed (seen : Array Bool) (waiting : List Nat) :
    (∀ s ∈ waiting, s < seen.size → seen[s]? = some true ∨ s ∈ depthFirst next seen waiting) ∧
      ∀ s ∈ depthFirst next seen waiting, ∀ t ∈ next s, t < seen.size →
        seen[t]? = some true ∨ t ∈ depthFirst next seen waiting := by
  fun_induction depthFirst next seen waiting with
  | case1 => simp
  | case2 seen s waiting hlt hs ih =>
    refine ⟨?_, ih.2⟩
    intro u hu hult
    rcases List.mem_cons.mp hu with rfl | hu
    · exact .inl (Array.getElem?_eq_some_iff.mpr ⟨hlt, hs⟩)
    · exact ih.1 u hu hult
  | case3 seen s waiting hlt hs ih =>
    rw [Array.size_set] at ih
    have hvisit (t : Nat)
        (ht : (seen.set s true)[t]? = some true ∨
          t ∈ depthFirst next (seen.set s true) (next s ++ waiting)) :
        seen[t]? = some true ∨
          t ∈ s :: depthFirst next (seen.set s true) (next s ++ waiting) := by
      rcases ht with ht | ht
      · rcases seen_set hlt ht with rfl | ht
        · exact .inr List.mem_cons_self
        · exact .inl ht
      · exact .inr (List.mem_cons_of_mem _ ht)
    constructor
    · intro u hu hult
      rcases List.mem_cons.mp hu with rfl | hu
      · exact .inr List.mem_cons_self
      · exact hvisit u (ih.1 u (List.mem_append_right _ hu) hult)
    · intro u hu t ht htlt
      rcases List.mem_cons.mp hu with rfl | hu
      · exact hvisit t (ih.1 t (List.mem_append_left _ ht) htlt)
      · exact hvisit t (ih.2 u hu t ht htlt)
  | case4 seen s waiting hlt ih =>
    refine ⟨?_, ih.2⟩
    intro u hu hult
    rcases List.mem_cons.mp hu with rfl | hu
    · exact absurd hult hlt
    · exact ih.1 u hu hult

/-- A traversal that starts with nothing seen visits what can be reached, and nothing else. -/
theorem mem_depthFirst_unseen (size : Nat) (start : List Nat) (t : Nat) :
    t ∈ depthFirst next (unseen size) start ↔ Reached next size start t := by
  have hsize : (unseen size).size = size := Array.size_replicate
  have hunseen (s : Nat) : (unseen size)[s]? ≠ some true := by
    simp [unseen, Array.getElem?_replicate]
  constructor
  · intro h
    have hreached := reached_of_mem_depthFirst (unseen size) start h
    rwa [hsize] at hreached
  · rintro ⟨s, hs, hlt, hpath⟩
    obtain ⟨hstart, hnext⟩ := @depthFirst_closed next (unseen size) start
    rw [hsize] at hstart hnext
    induction hpath with
    | refl => exact (hstart s hs hlt).resolve_left (hunseen s)
    | tail _ hedge ih => exact (hnext _ ih _ hedge.1 hedge.2).resolve_left (hunseen _)

/-!
What a breadth-first traversal visits. It visits the same nodes as a depth-first one, each of them
once, and it begins with the first node that waits. A traversal that starts with nothing seen
therefore lists the nodes that can be reached, and a node's place in the list is a number for it.
-/

/-- What can be reached depends on the nodes to start with, and not on their order. -/
theorem Reached.mono {size : Nat} {start others : List Nat} (h : ∀ s ∈ start, s ∈ others) {t : Nat}
    (hreached : Reached next size start t) : Reached next size others t := by
  obtain ⟨s, hs, hpath⟩ := hreached
  exact ⟨s, h s hs, hpath⟩

theorem reached_of_mem_breadthFirst (seen : Array Bool) (waiting : List Nat) {t : Nat}
    (h : t ∈ breadthFirst next seen waiting) : Reached next seen.size waiting t := by
  fun_induction breadthFirst next seen waiting with
  | case1 => cases h
  | case2 seen s waiting hlt hs ih => exact (ih h).of_cons
  | case3 seen s waiting hlt hs ih =>
    rcases List.mem_cons.mp h with rfl | h
    · exact ⟨t, List.mem_cons_self, hlt, .refl⟩
    · have hreached := ih h
      rw [Array.size_set] at hreached
      refine Reached.of_next hlt (hreached.mono fun u hu => ?_)
      exact List.mem_append.mpr (List.mem_append.mp hu).symm
  | case4 seen s waiting hlt ih => exact (ih h).of_cons

/-- Whatever waits is visited or was seen, and so is whatever a visited node leads to. -/
theorem breadthFirst_closed (seen : Array Bool) (waiting : List Nat) :
    (∀ s ∈ waiting, s < seen.size → seen[s]? = some true ∨ s ∈ breadthFirst next seen waiting) ∧
      ∀ s ∈ breadthFirst next seen waiting, ∀ t ∈ next s, t < seen.size →
        seen[t]? = some true ∨ t ∈ breadthFirst next seen waiting := by
  fun_induction breadthFirst next seen waiting with
  | case1 => simp
  | case2 seen s waiting hlt hs ih =>
    refine ⟨fun u hu hult => ?_, ih.2⟩
    rcases List.mem_cons.mp hu with rfl | hu
    · exact .inl (Array.getElem?_eq_some_iff.mpr ⟨hlt, hs⟩)
    · exact ih.1 u hu hult
  | case3 seen s waiting hlt hs ih =>
    rw [Array.size_set] at ih
    have hvisit (t : Nat)
        (ht : (seen.set s true)[t]? = some true ∨
          t ∈ breadthFirst next (seen.set s true) (waiting ++ next s)) :
        seen[t]? = some true ∨
          t ∈ s :: breadthFirst next (seen.set s true) (waiting ++ next s) := by
      rcases ht with ht | ht
      · rcases seen_set hlt ht with rfl | ht
        · exact .inr List.mem_cons_self
        · exact .inl ht
      · exact .inr (List.mem_cons_of_mem _ ht)
    constructor
    · intro u hu hult
      rcases List.mem_cons.mp hu with rfl | hu
      · exact .inr List.mem_cons_self
      · exact hvisit u (ih.1 u (List.mem_append_left _ hu) hult)
    · intro u hu t ht htlt
      rcases List.mem_cons.mp hu with rfl | hu
      · exact hvisit t (ih.1 t (List.mem_append_right _ ht) htlt)
      · exact hvisit t (ih.2 u hu t ht htlt)
  | case4 seen s waiting hlt ih =>
    refine ⟨fun u hu hult => ?_, ih.2⟩
    rcases List.mem_cons.mp hu with rfl | hu
    · exact absurd hult hlt
    · exact ih.1 u hu hult

/-- A traversal that starts with nothing seen visits what can be reached, and nothing else. -/
theorem mem_breadthFirst_unseen (size : Nat) (start : List Nat) (t : Nat) :
    t ∈ breadthFirst next (unseen size) start ↔ Reached next size start t := by
  have hsize : (unseen size).size = size := Array.size_replicate
  have hunseen (s : Nat) : (unseen size)[s]? ≠ some true := by
    simp [unseen, Array.getElem?_replicate]
  constructor
  · intro h
    have hreached := reached_of_mem_breadthFirst (unseen size) start h
    rwa [hsize] at hreached
  · rintro ⟨s, hs, hlt, hpath⟩
    obtain ⟨hstart, hnext⟩ := @breadthFirst_closed next (unseen size) start
    rw [hsize] at hstart hnext
    induction hpath with
    | refl => exact (hstart s hs hlt).resolve_left (hunseen s)
    | tail _ hedge ih => exact (hnext _ ih _ hedge.1 hedge.2).resolve_left (hunseen _)

/-- A node that is visited first and marked as seen is not visited again. -/
theorem fresh_cons {seen : Array Bool} {s : Nat} {later : List Nat} (hlt : s < seen.size)
    (hs : ¬seen[s] = true)
    (h : (∀ t ∈ later, (seen.set s true)[t]? = some false) ∧ later.Nodup) :
    (∀ t ∈ s :: later, seen[t]? = some false) ∧ (s :: later).Nodup := by
  have hlater : ∀ t ∈ later, t ≠ s ∧ seen[t]? = some false := by
    intro t ht
    have hfalse := h.1 t ht
    rw [Array.getElem?_set] at hfalse
    split at hfalse
    · cases hfalse
    · rename_i hne
      exact ⟨Ne.symm hne, hfalse⟩
  refine ⟨fun t ht => ?_, List.nodup_cons.mpr ⟨fun hmem => (hlater s hmem).1 rfl, h.2⟩⟩
  rcases List.mem_cons.mp ht with rfl | ht
  · rw [Array.getElem?_eq_getElem hlt]
    simpa using hs
  · exact (hlater t ht).2

/-- No node is visited twice, and none that was seen before. -/
theorem depthFirst_fresh (seen : Array Bool) (waiting : List Nat) :
    (∀ t ∈ depthFirst next seen waiting, seen[t]? = some false) ∧
      (depthFirst next seen waiting).Nodup := by
  fun_induction depthFirst next seen waiting with
  | case1 => simp
  | case2 seen s waiting hlt hs ih => exact ih
  | case3 seen s waiting hlt hs ih => exact fresh_cons hlt hs ih
  | case4 seen s waiting hlt ih => exact ih

/-- No node is visited twice, and none that was seen before. -/
theorem breadthFirst_fresh (seen : Array Bool) (waiting : List Nat) :
    (∀ t ∈ breadthFirst next seen waiting, seen[t]? = some false) ∧
      (breadthFirst next seen waiting).Nodup := by
  fun_induction breadthFirst next seen waiting with
  | case1 => simp
  | case2 seen s waiting hlt hs ih => exact ih
  | case3 seen s waiting hlt hs ih => exact fresh_cons hlt hs ih
  | case4 seen s waiting hlt ih => exact ih

theorem nodup_breadthFirst (seen : Array Bool) (waiting : List Nat) :
    (breadthFirst next seen waiting).Nodup :=
  (breadthFirst_fresh seen waiting).2

/-- A traversal from one node begins there. -/
theorem breadthFirst_start {size s : Nat} (h : s < size) :
    (breadthFirst next (unseen size) [s])[0]? = some s := by
  have hlt : s < (unseen size).size := by simpa [unseen] using h
  have hunseen : ¬(unseen size)[s] = true := by simp [unseen]
  rw [breadthFirst, dif_pos hlt, dif_neg hunseen]
  rfl

end RegexEngine.Graph

/-!
Tables that are indexed by nodes. A table is filled by storing values one after the other; where no
node is stored twice, each node has its own value afterwards, and the other entries are as before.
Numbering the nodes of a list without repetitions by their places is the main use.

With the table of predecessors a graph can be traversed against its edges. Such a traversal marks
the nodes from which those it starts with can be reached.
-/

namespace RegexEngine.Graph

section Store

variable {α β : Type} (key : β → Nat) (value : β → α)

/-- Stores the values of some items, one after the other. -/
def store (table : Array α) (items : List β) : Array α :=
  items.foldl (fun table item => table.setIfInBounds (key item) (value item)) table

/-- Where no item is stored, a table stays as it is. -/
theorem getElem?_store_of_not_mem (table : Array α) {items : List β} {k : Nat}
    (h : k ∉ items.map key) : (store key value table items)[k]? = table[k]? := by
  unfold store
  induction items generalizing table with
  | nil => rfl
  | cons item rest ih =>
    rw [List.map_cons, List.mem_cons, not_or] at h
    rw [List.foldl_cons, ih _ h.2, Array.getElem?_setIfInBounds_ne (Ne.symm h.1)]

/-- Where keys are not repeated, every item can be looked up. -/
theorem getElem?_store (table : Array α) {items : List β} (hnodup : (items.map key).Nodup)
    {item : β} (hitem : item ∈ items) (hlt : key item < table.size) :
    (store key value table items)[key item]? = some (value item) := by
  induction items generalizing table with
  | nil => cases hitem
  | cons first rest ih =>
    obtain ⟨hfirst, hrest⟩ := List.nodup_cons.mp hnodup
    have hcons : store key value table (first :: rest) =
        store key value (table.setIfInBounds (key first) (value first)) rest := rfl
    rw [hcons]
    rcases List.mem_cons.mp hitem with rfl | hitem
    · rw [getElem?_store_of_not_mem key value _ hfirst, Array.getElem?_setIfInBounds_self_of_lt hlt]
    · exact ih _ hrest hitem (by rwa [Array.size_setIfInBounds])

/-- What is found in a table was there before, or was stored. -/
theorem of_getElem?_store {table : Array α} {items : List β} {k : Nat} {v : α}
    (h : (store key value table items)[k]? = some v) :
    table[k]? = some v ∨ ∃ item ∈ items, key item = k ∧ value item = v := by
  unfold store at h
  induction items generalizing table with
  | nil => exact .inl h
  | cons first rest ih =>
    rcases ih h with hbefore | ⟨item, hitem, heq⟩
    · rw [Array.getElem?_setIfInBounds] at hbefore
      split at hbefore
      · rename_i hkey
        split at hbefore
        · exact .inr ⟨first, List.mem_cons_self, hkey, Option.some.inj hbefore⟩
        · cases hbefore
      · exact .inl hbefore
    · exact .inr ⟨item, List.mem_cons_of_mem _ hitem, heq⟩

end Store

/-- The table of the places of the nodes in a list. -/
def places (size : Nat) (order : List Nat) : Array Nat :=
  order.zipIdx.foldl (fun table (s, i) => table.setIfInBounds s i) (Array.replicate size 0)

/-- A node that is listed once is found at its place. -/
theorem getElem?_places {size : Nat} {order : List Nat} (hnodup : order.Nodup) {s i : Nat}
    (hs : order[i]? = some s) (hlt : s < size) : (places size order)[s]? = some i := by
  have hitem : (s, i) ∈ order.zipIdx := List.mem_zipIdx_iff_getElem?.mpr hs
  refine getElem?_store Prod.fst Prod.snd (Array.replicate size 0) ?_ hitem (by simpa using hlt)
  rwa [List.zipIdx_map_fst]

/-- The table of some nodes is true for them only. -/
theorem getElem?_mark {size s : Nat} (nodes : List Nat) (hlt : s < size) :
    (mark size nodes)[s]? = some (decide (s ∈ nodes)) := by
  have hmark : ∀ (nodes : List Nat) (table : Array Bool), s < table.size →
      (nodes.foldl (fun marked s => marked.setIfInBounds s true) table)[s]? =
        some (table[s]?.getD false || decide (s ∈ nodes)) := by
    intro nodes
    induction nodes with
    | nil =>
      intro table hlt
      simp [Array.getElem?_eq_getElem hlt]
    | cons first rest ih =>
      intro table hlt
      rw [List.foldl_cons, ih _ (by simpa using hlt), Array.getElem?_setIfInBounds]
      by_cases heq : first = s
      · simp [heq, hlt]
      · simp [heq, Ne.symm heq]
  have hsize : s < (unseen size).size := by simpa [unseen] using hlt
  rw [mark, hmark nodes (unseen size) hsize]
  simp [unseen, hlt]

theorem size_mark (size : Nat) (nodes : List Nat) : (mark size nodes).size = size := by
  have hsize : ∀ (nodes : List Nat) (table : Array Bool),
      (nodes.foldl (fun marked s => marked.setIfInBounds s true) table).size = table.size := by
    intro nodes
    induction nodes with
    | nil => exact fun _ => rfl
    | cons first rest ih =>
      intro table
      rw [List.foldl_cons, ih, Array.size_setIfInBounds]
  rw [mark, hsize, unseen, Array.size_replicate]

/-- Entering a node with its targets adds it to the entries of these, where the table has them. -/
private theorem mem_entered {s t : Nat} (u : Nat) (targets : List Nat) (table : Array (List Nat)) :
    s ∈ (targets.foldl (fun table t => table.modify t (u :: ·)) table)[t]?.getD [] ↔
      s ∈ table[t]?.getD [] ∨ (s = u ∧ t ∈ targets ∧ t < table.size) := by
  induction targets generalizing table with
  | nil => simp
  | cons first rest ih =>
    rw [List.foldl_cons, ih, Array.size_modify, Array.getElem?_modify, List.mem_cons]
    by_cases heq : first = t
    · subst heq
      rw [if_pos rfl]
      by_cases hlt : first < table.size
      · rw [Array.getElem?_eq_getElem hlt, Option.map_some, Option.getD_some, Option.getD_some,
          List.mem_cons]
        tauto
      · rw [Array.getElem?_eq_none (Nat.le_of_not_lt hlt), Option.map_none]
        tauto
    · rw [if_neg heq]
      have hne : ¬t = first := Ne.symm heq
      tauto

private theorem size_entered (u : Nat) (targets : List Nat) (table : Array (List Nat)) :
    (targets.foldl (fun table t => table.modify t (u :: ·)) table).size = table.size := by
  induction targets generalizing table with
  | nil => rfl
  | cons first rest ih => rw [List.foldl_cons, ih, Array.size_modify]

/-- The predecessors of a node are those that lead to it. -/
theorem mem_predecessors {size : Nat} {next : Nat → List Nat} {s t : Nat} :
    s ∈ (predecessors size next)[t]?.getD [] ↔ s < size ∧ t ∈ next s ∧ t < size := by
  have hsources : ∀ (sources : List Nat) (table : Array (List Nat)),
      s ∈ (sources.foldl (fun table u =>
          (next u).foldl (fun table t => table.modify t (u :: ·)) table) table)[t]?.getD [] ↔
        s ∈ table[t]?.getD [] ∨ (s ∈ sources ∧ t ∈ next s ∧ t < table.size) := by
    intro sources
    induction sources with
    | nil => simp
    | cons u rest ih =>
      intro table
      rw [List.foldl_cons, ih, mem_entered, size_entered, List.mem_cons]
      by_cases heq : s = u
      · subst heq
        tauto
      · tauto
  have hnone : s ∉ (Array.replicate size ([] : List Nat))[t]?.getD [] := by
    rw [Array.getElem?_replicate]
    split <;> simp
  rw [predecessors, hsources, Array.size_replicate, List.mem_range]
  tauto

/-- The nodes from which some others can be reached, as they are found and marked. -/
def leadingTo (size : Nat) (next : Nat → List Nat) (ends : List Nat) : Array Bool :=
  let backward := predecessors size next
  mark size (depthFirst (fun s => backward[s]?.getD []) (unseen size) ends)

/-- A node is marked if a path leads from it to one of the ends. -/
theorem getElem?_leadingTo {size s : Nat} {next : Nat → List Nat} {ends : List Nat}
    (hs : s < size) :
    (leadingTo size next ends)[s]?.getD false = true ↔
      ∃ e ∈ ends, e < size ∧ Relation.ReflTransGen (Edge next size) s e := by
  have hedge : ∀ {u v : Nat}, u < size →
      (Edge (fun s => (predecessors size next)[s]?.getD []) size u v ↔
        v < size ∧ Edge next size v u) := by
    intro u v hu
    rw [Edge, mem_predecessors, Edge]
    tauto
  rw [leadingTo, getElem?_mark _ hs, Option.getD_some, decide_eq_true_iff, mem_depthFirst_unseen]
  constructor
  · rintro ⟨e, he, hlt, hpath⟩
    refine ⟨e, he, hlt, ?_⟩
    have hback : s < size ∧ Relation.ReflTransGen (Edge next size) s e := by
      clear hs
      induction hpath with
      | refl => exact ⟨hlt, .refl⟩
      | tail _ hstep ih =>
        obtain ⟨hv, hforward⟩ := (hedge ih.1).mp hstep
        exact ⟨hv, ih.2.head hforward⟩
    exact hback.2
  · rintro ⟨e, he, hlt, hpath⟩
    refine ⟨e, he, hlt, ?_⟩
    induction hpath using Relation.ReflTransGen.head_induction_on with
    | refl => exact .refl
    | head hstep _ ih => exact (ih hstep.2).tail ((hedge hstep.2).mpr ⟨hs, hstep⟩)

end RegexEngine.Graph
