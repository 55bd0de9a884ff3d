import RegexEngine.Proofs.Automaton.Quotient

/-!
Minimizing a deterministic automaton keeps its language. The result has a state for each block that
can be reached from the initial one, with a transition for each edge of the block. A state of it and
a state of the argument whose block it stands for accept the same words.

Blocks are told apart by where their states go before dead blocks are left out, so two states of the
result may accept the same words. That the result is the smallest automaton is not claimed.
-/

namespace RegexEngine.Automaton

open CharRanges

/-! Drawing states and transitions. -/

/-- A transition takes the characters of an edge, from its source to its target. -/
structure Drawn (edge : Nat × Nat × CharRanges) (t : Transition) : Prop where
  source_eq : t.source = edge.1
  target_eq : t.target = edge.2.1
  priority_eq : t.priority = 0
  ranges : ∃ r, t.ranges? = some r
  takes : ∀ c, t.matchesChar c = true ↔ Covers edge.2.2.pairs c.toNat

/-- The automaton has a state for each mark, and the transitions of some edges. -/
structure Drawing (base : UInt32) (marks : List Bool) (edges : List (Nat × Nat × CharRanges))
    (a : Automaton) : Prop where
  size_eq : a.stateCount = marks.length
  state : ∀ (p : Nat) (accepting : Bool), marks[p]? = some accepting →
    ∃ s, a.states[p]? = some s ∧ s.id = base + UInt32.ofNat p ∧ s.accepting = accepting ∧
      s.marks = .empty ∧ s.action = none ∧
        List.Forall₂ Drawn (edges.filter fun edge => edge.1 = p) s.transitions

/-- Adding states, with identifiers counted on from the first one. -/
theorem run_addStates (rest : List Bool) :
    ∀ {base : UInt32} {marks : List Bool} {a : Automaton}, Drawing base marks [] a →
      ∃ made, (addStates a rest).run (base + UInt32.ofNat marks.length) =
          (made, base + UInt32.ofNat (marks ++ rest).length) ∧
        Drawing base (marks ++ rest) [] made ∧ made = { a with states := made.states } := by
  induction rest with
  | nil =>
    intro base marks a h
    refine ⟨a, ?_, ?_, rfl⟩
    · rw [List.append_nil]
      rfl
    · rwa [List.append_nil]
  | cons accepting rest ih =>
    intro base marks a h
    let first : Automaton := { a with
      states := a.states.push (.new (base + UInt32.ofNat marks.length) accepting) }
    have hsize : a.states.size = marks.length := h.size_eq
    have hfirst : Drawing base (marks ++ [accepting]) [] first := by
      refine ⟨by simp [first, stateCount, hsize], fun p mark hmark => ?_⟩
      by_cases hp : p < marks.length
      · rw [List.getElem?_append_left hp] at hmark
        obtain ⟨s, hs, hstate⟩ := h.state p mark hmark
        refine ⟨s, ?_, hstate⟩
        rw [Array.getElem?_push_lt (hsize ▸ hp), ← hs, Array.getElem?_eq_getElem]
      · have hend : p = marks.length := by
          have hbound := (List.getElem?_eq_some_iff.mp hmark).1
          rw [List.length_append, List.length_singleton] at hbound
          omega
        subst hend
        rw [List.getElem?_concat_length] at hmark
        obtain rfl := Option.some.inj hmark
        refine ⟨.new (base + UInt32.ofNat marks.length) accepting, ?_, rfl, rfl, rfl, rfl, .nil⟩
        have hlast : first.states[a.states.size]? =
            some (.new (base + UInt32.ofNat marks.length) accepting) := Array.getElem?_push_size
        rw [← hsize] at hlast ⊢
        exact hlast
    have hnext : base + UInt32.ofNat marks.length + 1 =
        base + UInt32.ofNat (marks ++ [accepting]).length := by
      rw [List.length_append, List.length_singleton, UInt32.add_assoc, UInt32.ofNat_add]
      rfl
    obtain ⟨made, hrun, hdrawing, hmade⟩ := ih hfirst
    rw [← hnext] at hrun
    refine ⟨made, ?_, ?_, hmade⟩
    · rw [List.append_cons]
      exact hrun
    · rw [List.append_cons]
      exact hdrawing

/-- Connecting two states by an edge. -/
theorem Drawing.connect {base : UInt32} {marks : List Bool}
    {edges : List (Nat × Nat × CharRanges)} {a : Automaton} (h : Drawing base marks edges a)
    (edge : Nat × Nat × CharRanges) {label : Label} {r : CharRanges}
    (hranges : label.matcher.ranges? = some r)
    (htakes : ∀ c, label.matcher.matchesChar c = true ↔ Covers edge.2.2.pairs c.toNat) :
    Drawing base marks (edges ++ [edge]) (a.connect edge.1 edge.2.1 (some label) 0) := by
  refine ⟨?_, fun p accepting hp => ?_⟩
  · simpa [stateCount, Automaton.connect, modifyState] using h.size_eq
  · obtain ⟨s, hs, hid, haccepting, hmarks, haction, hdrawn⟩ := h.state p accepting hp
    have hstates : (a.connect edge.1 edge.2.1 (some label) 0).states[p]? =
        if edge.1 = p then some (s.addTransition ⟨edge.1, edge.2.1, some label, 0⟩)
        else some s := by
      simp only [Automaton.connect, modifyState, Array.getElem?_modify, hs]
      split <;> rfl
    rw [hstates, List.filter_append]
    by_cases heq : edge.1 = p
    · have hpriority : ∀ t ∈ s.transitions, t.priority = 0 := by
        intro t ht
        obtain ⟨k, hk, rfl⟩ := List.mem_iff_getElem.mp ht
        exact (hdrawn.get (hdrawn.length_eq ▸ hk) hk).priority_eq
      refine ⟨_, if_pos heq, hid, haccepting, hmarks, haction, ?_⟩
      rw [Subsets.transitions_addTransition hpriority, List.filter_cons_of_pos (by simpa using heq),
        List.filter_nil]
      exact List.rel_append hdrawn (.cons ⟨rfl, rfl, rfl, ⟨r, hranges⟩, htakes⟩ .nil)
    · refine ⟨s, if_neg heq, hid, haccepting, hmarks, haction, ?_⟩
      rw [List.filter_cons_of_neg (by simpa using heq), List.filter_nil, List.append_nil]
      exact hdrawn

/-- Connects two states by an edge. -/
def drawEdge (a : Automaton) (edge : Nat × Nat × CharRanges) : Except Error Automaton := do
  let label ← Label.ofText edge.2.2.spec
  pure (a.connect edge.1 edge.2.1 (some label) 0)

/-- Drawing all edges succeeds where each of them takes something. -/
theorem exists_drawing {base : UInt32} {marks : List Bool} (rest : List (Nat × Nat × CharRanges))
    (hrest : ∀ edge ∈ rest, Normal edge.2.2.pairs ∧ edge.2.2.pairs ≠ []) :
    ∀ {edges : List (Nat × Nat × CharRanges)} {a : Automaton}, Drawing base marks edges a →
      ∃ made : Automaton, rest.foldlM drawEdge a = .ok made ∧
        Drawing base marks (edges ++ rest) made ∧ made = { a with states := made.states } := by
  induction rest with
  | nil =>
    intro edges a h
    refine ⟨a, rfl, ?_, rfl⟩
    rwa [List.append_nil]
  | cons edge rest ih =>
    intro edges a h
    obtain ⟨hnormal, hne⟩ := hrest edge List.mem_cons_self
    obtain ⟨label, r, hlabel, hranges, htakes⟩ := label_of_spec hnormal hne
    obtain ⟨made, hrun, hdrawing, hmade⟩ :=
      ih (fun e he => hrest e (List.mem_cons_of_mem _ he)) (h.connect edge hranges htakes)
    refine ⟨made, ?_, ?_, hmade⟩
    · rw [List.foldlM_cons, drawEdge, hlabel]
      exact hrun
    · rwa [List.append_cons]

/-! The automaton of a quotient. -/

/-- A transition takes the characters of an edge of a block to the state of its target. -/
structure Draws (order : List Nat) (source : Nat) (e : Nat × CharRanges) (t : Transition) : Prop where
  source_eq : t.source = source
  target : order[t.target]? = some e.1
  ranges : ∃ r, t.ranges? = some r
  takes : ∀ c, t.matchesChar c = true ↔ Covers e.2.pairs c.toNat

/-- An automaton with a state for each of some blocks of a quotient, the initial one first. -/
structure Embodies (q : Quotient) (base : UInt32) (order : List Nat) (a : Automaton) : Prop where
  kind_eq : a.kind = .dfa
  initial_eq : a.initial = some 0
  current_eq : a.current = some 0
  size_eq : a.stateCount = order.length
  start : order[0]? = some q.initial
  nodup : order.Nodup
  inside : ∀ b ∈ order, b < q.edges.size
  entered : ∀ b ∈ order, b = q.initial ∨ ∃ u, ∃ e ∈ q.leaving u, e.1 = b
  state : ∀ (p b : Nat), order[p]? = some b → ∃ s, a.states[p]? = some s ∧
    s.id = base + UInt32.ofNat p ∧ s.accepting = q.accepting[b]?.getD false ∧
      s.marks = .empty ∧ s.action = none ∧ List.Forall₂ (Draws order p) (q.leaving b) s.transitions

/-- Among items that come from different sources, those from one of them. -/
theorem filter_flatMap_eq {β : Type} (f : Nat → List β) (place : Nat → Nat) (key : β → Nat)
    {order : List Nat} (hnodup : order.Nodup) (hinjective : ∀ b ∈ order, ∀ c ∈ order, place b = place c → b = c)
    (hkey : ∀ b ∈ order, ∀ x ∈ f b, key x = place b) {b : Nat} (hb : b ∈ order) :
    (order.flatMap f).filter (fun x => key x = place b) = f b := by
  induction order with
  | nil => cases hb
  | cons first rest ih =>
    obtain ⟨hfirst, hrest⟩ := List.nodup_cons.mp hnodup
    rw [List.flatMap_cons, List.filter_append]
    have hinjective' : ∀ b ∈ rest, ∀ c ∈ rest, place b = place c → b = c := fun b hb c hc =>
      hinjective b (List.mem_cons_of_mem _ hb) c (List.mem_cons_of_mem _ hc)
    have hkey' : ∀ b ∈ rest, ∀ x ∈ f b, key x = place b := fun b hb =>
      hkey b (List.mem_cons_of_mem _ hb)
    rcases List.mem_cons.mp hb with rfl | hmem
    · have hself : (f b).filter (fun x => key x = place b) = f b :=
        List.filter_eq_self.mpr fun x hx => by simpa using hkey b List.mem_cons_self x hx
      have hothers : (rest.flatMap f).filter (fun x => key x = place b) = [] := by
        refine List.filter_eq_nil_iff.mpr fun x hx => ?_
        obtain ⟨c, hc, hx⟩ := List.mem_flatMap.mp hx
        rw [hkey' c hc x hx, decide_eq_true_iff]
        intro heq
        exact hfirst (hinjective c (List.mem_cons_of_mem _ hc) b List.mem_cons_self heq ▸ hc)
      rw [hself, hothers, List.append_nil]
    · have hnone : (f first).filter (fun x => key x = place b) = [] := by
        refine List.filter_eq_nil_iff.mpr fun x hx => ?_
        rw [hkey first List.mem_cons_self x hx, decide_eq_true_iff]
        intro heq
        exact hfirst (hinjective first List.mem_cons_self b hb heq ▸ hmem)
      rw [hnone, List.nil_append, ih hrest hinjective' hkey' hmem]

namespace Quotient

variable {q : Quotient}

/-- The blocks that can be reached, breadth first. -/
def order (q : Quotient) : List Nat :=
  Graph.breadthFirst (fun b => (q.leaving b).map (·.1)) (Graph.unseen q.edges.size) [q.initial]

/-- The place of a block among those that can be reached. -/
def place (q : Quotient) (b : Nat) : Nat := (Graph.places q.edges.size q.order)[b]?.getD 0

theorem mem_order_iff {b : Nat} : b ∈ q.order ↔
    Graph.Reached (fun b => (q.leaving b).map (·.1)) q.edges.size [q.initial] b :=
  Graph.mem_breadthFirst_unseen _ _ _

theorem nodup_order (q : Quotient) : q.order.Nodup := Graph.nodup_breadthFirst _ _

theorem lt_of_mem_order {b : Nat} (h : b ∈ q.order) : b < q.edges.size := by
  obtain ⟨_, _, hlt, hpath⟩ := mem_order_iff.mp h
  cases hpath with
  | refl => exact hlt
  | tail _ hedge => exact hedge.2

theorem getElem?_place {b : Nat} (h : b ∈ q.order) : q.order[q.place b]? = some b := by
  obtain ⟨i, hi⟩ := List.mem_iff_getElem?.mp h
  rw [place, Graph.getElem?_places (nodup_order q) hi (lt_of_mem_order h), Option.getD_some, hi]

theorem place_of_getElem? {p b : Nat} (h : q.order[p]? = some b) : q.place b = p := by
  rw [place, Graph.getElem?_places (nodup_order q) h (lt_of_mem_order (List.mem_of_getElem? h)),
    Option.getD_some]

theorem mem_order_of_leaving {b : Nat} (h : b ∈ q.order) {e : Nat × CharRanges}
    (he : e ∈ q.leaving b) (hlt : e.1 < q.edges.size) : e.1 ∈ q.order := by
  obtain ⟨u, hu, hult, hpath⟩ := mem_order_iff.mp h
  exact mem_order_iff.mpr ⟨u, hu, hult, hpath.tail ⟨List.mem_map_of_mem he, hlt⟩⟩

/-- A block that can be reached is the initial one, or an edge leads to it. -/
theorem entered_of_mem_order {b : Nat} (h : b ∈ q.order) :
    b = q.initial ∨ ∃ u, ∃ e ∈ q.leaving u, e.1 = b := by
  obtain ⟨u, hu, _, hpath⟩ := mem_order_iff.mp h
  obtain rfl := List.mem_singleton.mp hu
  cases hpath with
  | refl => exact .inl rfl
  | tail _ hedge => exact .inr ⟨_, List.mem_map.mp hedge.1⟩

/-- The edges between numbered blocks, block by block. -/
def drawnEdges (q : Quotient) : List (Nat × Nat × CharRanges) :=
  q.order.flatMap fun b => (q.leaving b).map fun e => (q.place b, q.place e.1, e.2)

theorem filter_drawnEdges {p b : Nat} (h : q.order[p]? = some b) :
    q.drawnEdges.filter (fun edge => edge.1 = p) =
      (q.leaving b).map fun e => (p, q.place e.1, e.2) := by
  have hfilter := filter_flatMap_eq
    (fun b => (q.leaving b).map fun e => (q.place b, q.place e.1, e.2)) q.place
    (fun edge : Nat × Nat × CharRanges => edge.1) (nodup_order q) (fun b hb c hc heq => ?_) (fun b hb x hx => ?_) (List.mem_of_getElem? h)
  · rw [place_of_getElem? h] at hfilter
    exact hfilter
  · have hsame := getElem?_place hb
    rw [heq, getElem?_place hc] at hsame
    exact (Option.some.inj hsame).symm
  · obtain ⟨e, _, rfl⟩ := List.mem_map.mp hx
    rfl

end Quotient

/-- Every quotient with edges inside has an automaton. -/
theorem exists_ofQuotient {q : Quotient} (hinitial : q.initial < q.edges.size)
    (hinside : ∀ b, ∀ e ∈ q.leaving b,
      e.1 < q.edges.size ∧ Normal e.2.pairs ∧ e.2.pairs ≠ []) (flags : Flags) (base : UInt32) :
    ∃ least nextId, (ofQuotient q flags).run base = (.ok least, nextId) ∧
      Embodies q base q.order least := by
  let start : Automaton := { Automaton.empty .dfa with flags := flags }
  let marks := q.order.map fun b => q.accepting[b]?.getD false
  have hstart : Drawing base [] [] start := ⟨rfl, by simp⟩
  obtain ⟨made, hmade, hdrawing, hsame⟩ := run_addStates marks hstart
  have hedges : ∀ edge ∈ q.drawnEdges, Normal edge.2.2.pairs ∧ edge.2.2.pairs ≠ [] := by
    intro edge hedge
    obtain ⟨b, _, hedge⟩ := List.mem_flatMap.mp hedge
    obtain ⟨e, he, rfl⟩ := List.mem_map.mp hedge
    exact (hinside b e he).2
  obtain ⟨drawn, hdrawn, hfinal, hsame'⟩ := exists_drawing q.drawnEdges hedges hdrawing
  rw [List.nil_append, List.nil_append] at hfinal
  have hbase : base + UInt32.ofNat ([] : List Bool).length = base := UInt32.add_zero base
  rw [hbase] at hmade
  have hrun : (ofQuotient q flags).run base =
      ((q.drawnEdges.foldlM drawEdge ((addStates start marks).run base).1).map
          fun a : Automaton => { a with initial := some 0, current := some 0 },
        ((addStates start marks).run base).2) := rfl
  rw [hmade] at hrun
  dsimp only at hrun
  rw [hdrawn] at hrun
  refine ⟨_, _, hrun, ?_, rfl, rfl, ?_, Graph.breadthFirst_start hinitial, q.nodup_order,
    fun b hb => Quotient.lt_of_mem_order hb, fun b hb => Quotient.entered_of_mem_order hb,
    fun p b hb => ?_⟩
  · dsimp only
    rw [hsame', hsame]
    rfl
  · exact hfinal.size_eq.trans (List.length_map _)
  · have hmark : marks[p]? = some (q.accepting[b]?.getD false) := by
      rw [List.getElem?_map, hb, Option.map_some]
    obtain ⟨s, hs, hid, haccepting, hmarks, haction, hall⟩ := hfinal.state p _ hmark
    refine ⟨s, hs, hid, haccepting, hmarks, haction, ?_⟩
    rw [Quotient.filter_drawnEdges hb, List.forall₂_map_left_iff] at hall
    have hmem := (List.forall₂_and_left _ _).mpr ⟨fun _ he => he, hall⟩
    refine hmem.imp fun e t => ?_
    rintro ⟨he, hsource, htarget, _, hranges, htakes⟩
    refine ⟨hsource, ?_, hranges, htakes⟩
    rw [htarget]
    exact Quotient.getElem?_place (Quotient.mem_order_of_leaving (List.mem_of_getElem? hb) he
      (hinside b e he).1)

namespace Embodies

variable {dfa least : Automaton} {block : Nat → Nat} {q : Quotient} {base : UInt32}
  {order : List Nat}

/-- Every state stands for a block. -/
theorem exists_block (h : Embodies q base order least) {p : Nat} {s : State}
    (hs : least.states[p]? = some s) : ∃ b, order[p]? = some b ∧
      s.id = base + UInt32.ofNat p ∧ s.accepting = q.accepting[b]?.getD false ∧
        s.marks = .empty ∧ s.action = none ∧
          List.Forall₂ (Draws order p) (q.leaving b) s.transitions := by
  have hlt : p < order.length := by
    have hbound := (Array.getElem?_eq_some_iff.mp hs).1
    have hsize := h.size_eq
    rw [stateCount] at hsize
    omega
  obtain ⟨s', hs', hstate⟩ := h.state p _ (List.getElem?_eq_getElem hlt)
  obtain rfl := Option.some.inj (hs.symm.trans hs')
  exact ⟨order[p], List.getElem?_eq_getElem hlt, hstate⟩

theorem exists_edge_of_mem {p b : Nat} {s : State}
    (hdraws : List.Forall₂ (Draws order p) (q.leaving b) s.transitions) {t : Transition}
    (ht : t ∈ s.transitions) : ∃ e ∈ q.leaving b, Draws order p e t := by
  obtain ⟨k, hk, rfl⟩ := List.mem_iff_getElem.mp ht
  have hk' := hdraws.length_eq ▸ hk
  exact ⟨_, List.getElem_mem hk', hdraws.get hk' hk⟩

theorem exists_transition_of_mem {p b : Nat} {s : State}
    (hdraws : List.Forall₂ (Draws order p) (q.leaving b) s.transitions) {e : Nat × CharRanges}
    (he : e ∈ q.leaving b) : ∃ t ∈ s.transitions, Draws order p e t := by
  obtain ⟨k, hk, rfl⟩ := List.mem_iff_getElem.mp he
  have hk' := hdraws.length_eq ▸ hk
  exact ⟨_, List.getElem_mem hk', hdraws.get hk hk'⟩

/-- Two edges of a block never take the same character. -/
theorem deterministic (h : Embodies q base order least) (hq : Quotients dfa block q) :
    least.Deterministic := by
  refine ⟨fun p s hs => ?_, fun p s hs t ht => ?_, fun p s hs => ?_⟩
  · obtain ⟨_, _, _, _, hmarks, haction, _⟩ := h.exists_block hs
    rw [hmarks]
    exact ⟨haction, rfl⟩
  · obtain ⟨_, _, _, _, _, _, hdraws⟩ := h.exists_block hs
    obtain ⟨_, _, hdraw⟩ := exists_edge_of_mem hdraws ht
    exact hdraw.ranges
  · obtain ⟨b, hb, _, _, _, _, hdraws⟩ := h.exists_block hs
    obtain ⟨u, hu, rfl⟩ := hq.onto b (h.inside b (List.mem_of_getElem? hb))
    have hmem := (List.forall₂_and_left _ _).mpr ⟨fun _ he => he, hdraws⟩
    refine Determinized.pairwise_of_forall₂ ?_ hmem (List.pairwise_map.mp (hq.distinct (block u)))
    rintro e other t step hne ⟨he, hdraw⟩ ⟨hother, hdraw'⟩ c ⟨ht, hstep⟩
    obtain ⟨v, _, hnext, hblock⟩ := hq.follows u hu e he c ((hdraw.takes c).mp ht)
    obtain ⟨w, _, hnext', hblock'⟩ := hq.follows u hu other hother c ((hdraw'.takes c).mp hstep)
    obtain rfl := Option.some.inj (hnext.symm.trans hnext')
    exact hne (hblock.symm.trans hblock')

/-- A state accepts the words that are accepted from the states of its block. -/
theorem acceptsWord_eq (h : Embodies q base order least) (hq : Quotients dfa block q)
    (word : List Char) :
    ∀ p, ∀ s ∈ dfa.reachable, order[p]? = some (block s) →
      least.acceptsWord p word = dfa.acceptsWord s word := by
  induction word with
  | nil =>
    intro p s hs hp
    obtain ⟨state, hstate, _, haccepting, _⟩ := h.state p _ hp
    rw [acceptsWord, acceptsWord, acceptsAt, hstate, Option.any_some, haccepting,
      hq.accepting s hs]
  | cons c rest ih =>
    intro p s hs hp
    obtain ⟨state, hstate, _, _, _, _, hdraws⟩ := h.state p _ hp
    rw [acceptsWord, acceptsWord]
    have hnext : least.next? p c =
        (state.transitions.find? (·.matchesChar c)).map (·.target) := by
      rw [next?, hstate, Option.bind_some]
    cases hfirst : state.transitions.find? (·.matchesChar c) with
    | some t =>
      have htaken : t.matchesChar c = true :=
        List.find?_some (p := fun t : Transition => t.matchesChar c) hfirst
      obtain ⟨e, he, hdraw⟩ := exists_edge_of_mem hdraws (List.mem_of_find?_eq_some hfirst)
      obtain ⟨u, hu, hgoes, hblock⟩ := hq.follows s hs e he c ((hdraw.takes c).mp htaken)
      rw [hnext, hfirst, hgoes]
      exact ih t.target u hu (hblock ▸ hdraw.target)
    | none =>
      rw [hnext, hfirst, Option.map_none]
      cases hgoes : dfa.next? s c with
      | none => rfl
      | some u =>
        -- a missing edge leads to a block from which nothing is accepted
        dsimp only
        rw [eq_comm, Bool.eq_false_iff]
        intro haccepts
        obtain ⟨_, e, he, _, hcovers⟩ := hq.complete s hs c u hgoes ⟨rest, haccepts⟩
        obtain ⟨t, ht, hdraw⟩ := exists_transition_of_mem hdraws he
        have hnone := List.find?_eq_none.mp hfirst t ht
        exact hnone ((hdraw.takes c).mpr hcovers)

/-- Identifiers are counted on from the first one. -/
theorem ids_eq (h : Embodies q base order least) : least.states.toList.map (·.id) =
    (List.range least.stateCount).map fun k => base + UInt32.ofNat k := by
  refine List.ext_getElem (by simp [stateCount]) fun k hk _ => ?_
  have hlt : k < least.states.size := by simpa using hk
  obtain ⟨_, _, hid, _⟩ := h.exists_block (Array.getElem?_eq_getElem hlt)
  simpa using hid

theorem wellFormed (h : Embodies q base order least) (hcount : least.stateCount ≤ UInt32.size) :
    least.WellFormed := by
  have hpositive : 0 < least.stateCount := by
    rw [h.size_eq]
    exact (List.getElem?_eq_some_iff.mp h.start).1
  refine ⟨fun s hs => ?_, fun s hs => ?_, fun p s hs => ?_, ?_, fun _ s hs t ht => ?_⟩
  · rw [h.initial_eq] at hs
    cases hs
    exact hpositive
  · rw [h.current_eq] at hs
    cases hs
    exact hpositive
  · obtain ⟨_, _, _, _, _, haction, hdraws⟩ := h.exists_block hs
    refine ⟨fun t ht => ?_, fun t ht => ?_, fun body hbody => ?_⟩
    · obtain ⟨_, _, hdraw⟩ := exists_edge_of_mem hdraws ht
      exact hdraw.source_eq
    · obtain ⟨_, _, hdraw⟩ := exists_edge_of_mem hdraws ht
      rw [h.size_eq]
      exact (List.getElem?_eq_some_iff.mp hdraw.target).1
    · rw [haction] at hbody
      cases hbody
  · rw [h.ids_eq]
    exact (Determinized.nodup_words_iff base _).mpr hcount
  · obtain ⟨p, hp⟩ := Array.mem_iff_getElem?.mp hs
    obtain ⟨_, _, _, _, _, _, hdraws⟩ := h.exists_block hp
    obtain ⟨_, _, hdraw⟩ := exists_edge_of_mem hdraws ht
    obtain ⟨r, hr⟩ := hdraw.ranges
    exact isEpsilon_eq_false_of_ranges hr

end Embodies

/-! Minimizing. -/

/-- States that differ in their identifiers are no more than there are identifiers. -/
theorem WellFormed.stateCount_le {a : Automaton} (h : a.WellFormed) :
    a.stateCount ≤ UInt32.size := by
  have hwords : ((a.states.toList.map (·.id)).map UInt32.toNat).Nodup :=
    h.distinct.map fun _ _ heq => UInt32.toNat_inj.mp heq
  have hsub : ((a.states.toList.map (·.id)).map UInt32.toNat).Subperm
      (List.range UInt32.size) := by
    refine List.subperm_of_subset hwords fun n hn => ?_
    obtain ⟨id, _, rfl⟩ := List.mem_map.mp hn
    exact List.mem_range.mpr id.toNat_lt_size
  simpa [stateCount] using hsub.length_le

/-- Minimizing a deterministic automaton succeeds and keeps the language. The result is
deterministic and passes the integrity check, it has no more states than the automaton has ones that
can be reached, and from every state but the initial one some word leads to acceptance. -/
theorem minimize_sound {dfa : Automaton} (hdeterministic : dfa.isDeterministic = true)
    (hinitial : dfa.initial.isSome = true) (hcheck : dfa.checkIntegrity = .ok ())
    (base : UInt32) :
    ∃ least nextId, dfa.minimize.run base = (.ok least, nextId) ∧
      (∀ input, least.accepts input = dfa.accepts input) ∧
      least.isDeterministic = true ∧ least.checkIntegrity = .ok () ∧
      least.stateCount ≤ dfa.reachable.length ∧
      ∀ s < least.stateCount, least.initial ≠ some s → ∃ input, least.Wins input s 0 := by
  have hdfa := (isDeterministic_iff dfa).mp hdeterministic
  have hwf := (checkIntegrity_iff dfa).mp hcheck
  obtain ⟨initial, hinitial⟩ := Option.isSome_iff_exists.mp hinitial
  have hfirst : dfa.reachable[0]? = some initial := by
    rw [reachable, hinitial]
    exact Graph.breadthFirst_start (hwf.initial_lt initial hinitial)
  have hreached : initial ∈ dfa.reachable := List.mem_of_getElem? hfirst
  obtain ⟨table, htable, htabulates⟩ := exists_moveTable hdfa hwf
  have hq := quotients_quotient htabulates fun s hs => by
    rwa [← Option.some.inj (hinitial.symm.trans hs)]
  have hstart := hq.initial_eq initial hinitial
  obtain ⟨least, nextId, hrun, hleast⟩ := exists_ofQuotient
    (hstart ▸ hq.block_lt initial hreached) hq.inside dfa.flags base
  have hwords := hleast.deterministic hq
  have hcount : least.stateCount ≤ dfa.reachable.length := by
    have hblocks : table.quotient.order.Subperm (List.range table.quotient.edges.size) :=
      List.subperm_of_subset hleast.nodup fun b hb => List.mem_range.mpr (hleast.inside b hb)
    have hle := hblocks.length_le
    have hsize := hq.size_le
    rw [List.length_range] at hle
    rw [hleast.size_eq]
    omega
  have hstates : dfa.reachable.length ≤ dfa.stateCount := by
    have hall : dfa.reachable.Subperm (List.range dfa.stateCount) :=
      List.subperm_of_subset (nodup_reachable dfa) fun s hs =>
        List.mem_range.mpr (lt_of_mem_reachable hs)
    simpa using hall.length_le
  refine ⟨least, nextId, ?_, fun input => ?_, (isDeterministic_iff least).mpr hwords, ?_, hcount,
    fun s hs hother => ?_⟩
  · rw [minimize, hdeterministic, hinitial, htable]
    exact hrun
  · rw [hwords.accepts_eq, hdfa.accepts_eq, hleast.initial_eq, hinitial, Option.any_some,
      Option.any_some]
    exact hleast.acceptsWord_eq hq input.toList 0 initial hreached (hstart ▸ hleast.start)
  · rw [checkIntegrity_iff]
    have hle := hwf.stateCount_le
    exact hleast.wellFormed (by omega)
  · -- an edge leads to the block of the state, so the block is live
    have hlt : s < table.quotient.order.length := hleast.size_eq ▸ hs
    have hplace := List.getElem?_eq_getElem hlt
    obtain ⟨u, hu, hblock⟩ := hq.onto _ (hleast.inside _ (List.getElem_mem hlt))
    rcases hleast.entered _ (List.getElem_mem hlt) with heq | ⟨b, e, he, htarget⟩
    · have hzero : s = 0 := by
        have hfirst := (List.getElem?_eq_some_iff.mp hleast.start)
        exact (hleast.nodup.getElem_inj_iff).mp (heq.trans hfirst.2.symm)
      rw [hleast.initial_eq, hzero] at hother
      exact absurd rfl hother
    · obtain ⟨word, hword⟩ := hq.live b e he
      refine ⟨word.toArray, (hwords.wins_iff _ s).mpr ?_⟩
      rw [List.toList_toArray, hleast.acceptsWord_eq hq word s u hu (hblock ▸ hplace)]
      exact hword u hu (hblock.trans htarget.symm)

private theorem parse_letterA : Matcher.parse ['a'] = .ok (.literal ['a'] false) := rfl

private theorem parse_letterB : Matcher.parse ['b'] = .ok (.literal ['b'] false) := rfl

/-- A deterministic automaton that takes `a` or `b`, each into a state of its own. -/
private def aOrB : Automaton where
  kind := .dfa
  states := #[
    { State.new 0 false with
      transitions := [⟨0, 1, some ⟨['a'], .literal ['a'] false, parse_letterA⟩, 0⟩,
        ⟨0, 2, some ⟨['b'], .literal ['b'] false, parse_letterB⟩, 0⟩] },
    .new 1 true,
    .new 2 true]
  initial := some 0
  current := none
  flags := .empty
  lastError := none

theorem minimize_sound_aOrB :
    ∃ least nextId, aOrB.minimize.run 3 = (.ok least, nextId) ∧
      (∀ input, least.accepts input = aOrB.accepts input) ∧
      least.isDeterministic = true ∧ least.checkIntegrity = .ok () ∧
      least.stateCount ≤ aOrB.reachable.length ∧
      ∀ s < least.stateCount, least.initial ≠ some s → ∃ input, least.Wins input s 0 :=
  minimize_sound (by decide +kernel) rfl rfl 3

end RegexEngine.Automaton
