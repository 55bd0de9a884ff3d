import RegexEngine.Automaton.Minimal
import RegexEngine.Proofs.Automaton.Words
import RegexEngine.Proofs.Graph

/-!
The table of moves of a deterministic automaton. Every deterministic automaton in which transitions
end inside has one. It says, for each state that can be reached and each interval of characters,
where the state goes with any character of the interval; a character that is in no interval leads
nowhere.
-/

namespace RegexEngine.Automaton

open CharRanges

/-! The states that can be reached. -/

theorem mem_reachable {a : Automaton} {t : Nat} :
    t ∈ a.reachable ↔ Graph.Reached a.successors a.stateCount a.initial.toList t :=
  Graph.mem_breadthFirst_unseen _ _ _

theorem nodup_reachable (a : Automaton) : a.reachable.Nodup := Graph.nodup_breadthFirst _ _

theorem lt_of_mem_reachable {a : Automaton} {s : Nat} (h : s ∈ a.reachable) : s < a.stateCount := by
  obtain ⟨u, _, hlt, hpath⟩ := mem_reachable.mp h
  cases hpath with
  | refl => exact hlt
  | tail _ hedge => exact hedge.2

/-- What a state that can be reached leads to can be reached. -/
theorem mem_reachable_of_successor {a : Automaton} {s t : Nat} (hs : s ∈ a.reachable)
    (ht : t ∈ a.successors s) (hlt : t < a.stateCount) : t ∈ a.reachable := by
  obtain ⟨u, hu, hult, hpath⟩ := mem_reachable.mp hs
  exact mem_reachable.mpr ⟨u, hu, hult, hpath.tail ⟨ht, hlt⟩⟩

/-! Edges between numbered states. -/

theorem filterMap_forall₂ {α β : Type} {f : α → Option β} {items : List α}
    (h : ∀ x ∈ items, (f x).isSome) :
    List.Forall₂ (fun x y => f x = some y) items (items.filterMap f) := by
  induction items with
  | nil => exact .nil
  | cons x rest ih =>
    obtain ⟨y, hy⟩ := Option.isSome_iff_exists.mp (h x List.mem_cons_self)
    rw [List.filterMap_cons_some hy]
    exact .cons hy (ih fun z hz => h z (List.mem_cons_of_mem _ hz))

/-- The edge of a transition: the characters that it takes, and the number of its target. -/
def EdgeOf (position : Nat → Nat) (t : Transition) (e : Edge) : Prop :=
  t.ranges? = some e.ranges ∧ e.target = position t.target

theorem edgesBetween_ok {position : Nat → Nat} {s : State} {edges : List Edge}
    (h : edgesBetween position s = .ok edges) :
    List.Forall₂ (EdgeOf position) s.transitions edges := by
  refine (mapM_eq_ok.mp h).imp fun t e hedge => ?_
  split at hedge
  · rename_i r hr
    cases hedge
    exact ⟨hr, rfl⟩
  · cases hedge

theorem exists_edgesBetween {position : Nat → Nat} {s : State}
    (h : ∀ t ∈ s.transitions, ∃ r, t.ranges? = some r) :
    ∃ edges, edgesBetween position s = .ok edges := by
  refine exists_mapM fun t ht => ?_
  obtain ⟨r, hr⟩ := h t ht
  rw [hr]
  exact ⟨_, rfl⟩

/-- The first edge that takes the start of an interval is that of the first transition that takes a
character of the interval. -/
theorem find?_edges {position : Nat → Nat} {transitions : List Transition} {leaving all : List Edge}
    (h : List.Forall₂ (EdgeOf position) transitions leaving) (hall : ∀ e ∈ leaving, e ∈ all)
    {interval : Nat × Nat} (hgap : Gap (cutPoints all) interval) {c : Char}
    (hlo : interval.1 ≤ c.toNat) (hhi : c.toNat ≤ interval.2) :
    (leaving.find? (·.ranges.containsCode interval.1)).map (·.target) =
      (transitions.find? (·.matchesChar c)).map fun t => position t.target := by
  induction h with
  | nil => rfl
  | @cons t e transitions leaving hedge _ ih =>
    have hsame : e.ranges.containsCode interval.1 = t.matchesChar c := by
      rw [Bool.eq_iff_iff, containsCode_iff, ← (Transition.ranges?_spec hedge.1).2 c]
      exact (hgap.covers_iff (hall e List.mem_cons_self) hlo hhi).symm
    rw [List.find?_cons, List.find?_cons, hsame]
    cases t.matchesChar c with
    | true => rw [Option.map_some, Option.map_some, hedge.2]
    | false => exact ih fun e he => hall e (List.mem_cons_of_mem _ he)

/-! The table. -/

/-- Where a state goes with the characters of an interval. States are numbered by their places in a
list. -/
def Goes (dfa : Automaton) (order : List Nat) (s : Nat) (interval : Nat × Nat) (move : Option Nat) :
    Prop :=
  ∀ c : Char, interval.1 ≤ c.toNat → c.toNat ≤ interval.2 →
    dfa.next? s c = move.bind (order[·]?) ∧ ∀ j ∈ move, j < order.length

/-- The table says of each listed state whether it accepts and where it goes. -/
structure Tabulates (dfa : Automaton) (order : List Nat) (table : MoveTable) : Prop where
  accepting_eq : table.accepting = order.map dfa.acceptsAt
  moves : List.Forall₂ (fun s row => List.Forall₂ (Goes dfa order s) table.intervals row)
    order table.moves
  /-- Whatever a listed state takes is in an interval. -/
  covers : ∀ s ∈ order, ∀ (c : Char) (t : Nat), dfa.next? s c = some t →
    ∃ interval ∈ table.intervals, interval.1 ≤ c.toNat ∧ c.toNat ≤ interval.2
  /-- Intervals start with a character, and hold code points only. -/
  proper : ∀ interval ∈ table.intervals,
    (∃ c : Char, c.toNat = interval.1) ∧ interval.1 ≤ interval.2 ∧ interval.2 ≤ maxCodePoint

/-- A state takes the characters of an interval exactly if one of its edges takes its start. -/
theorem goes_of_edges {dfa : Automaton} {order : List Nat} {position : Nat → Nat} {s : Nat}
    {state : State} {leaving all : List Edge} (hs : dfa.states[s]? = some state)
    (hedges : List.Forall₂ (EdgeOf position) state.transitions leaving)
    (hall : ∀ e ∈ leaving, e ∈ all)
    (hposition : ∀ t ∈ state.transitions, order[position t.target]? = some t.target)
    {interval : Nat × Nat} (hgap : Gap (cutPoints all) interval) :
    Goes dfa order s interval
      ((leaving.find? (·.ranges.containsCode interval.1)).map (·.target)) := by
  intro c hlo hhi
  rw [find?_edges hedges hall hgap hlo hhi, next?, hs, Option.bind_some]
  cases hfirst : state.transitions.find? (·.matchesChar c) with
  | none => exact ⟨rfl, by simp⟩
  | some t =>
    have hplace := hposition t (List.mem_of_find?_eq_some hfirst)
    refine ⟨?_, fun j hj => ?_⟩
    · rw [Option.map_some, Option.map_some, Option.bind_some, hplace]
    · obtain rfl := Option.some.inj hj
      exact (List.getElem?_eq_some_iff.mp hplace).1

/-- A character that an edge takes is in an interval. -/
theorem exists_interval {edges : List Edge} {e : Edge} (he : e ∈ edges)
    (hnormal : Normal e.ranges.pairs) {c : Char} (hc : Covers e.ranges.pairs c.toNat) :
    ∃ interval ∈ intervals edges, interval.1 ≤ c.toNat ∧ c.toNat ≤ interval.2 := by
  obtain ⟨p, hp, hlo, hhi⟩ := hc
  obtain ⟨hstart, hstop⟩ := mem_cutPoints he hp
  obtain ⟨interval, hgap, hfirst, hlast, hlisted⟩ :=
    exists_gap (ascending_ascends _) hstart hstop hlo (Nat.lt_succ_of_le hhi)
  refine ⟨interval, hlisted ?_, hfirst, hlast⟩
  obtain ⟨hcode, hbound⟩ := hnormal.isCode
    ((hgap.covers_iff he hfirst hlast).mp ⟨p, hp, hlo, hhi⟩)
  obtain ⟨c, hc⟩ := charOfCode?_eq_some hcode hbound
  rw [hc, Option.isSome_some]

theorem proper_of_mem_intervals {edges : List Edge} (hnormal : ∀ e ∈ edges, Normal e.ranges.pairs)
    {interval : Nat × Nat} (h : interval ∈ intervals edges) :
    (∃ c : Char, c.toNat = interval.1) ∧ interval.1 ≤ interval.2 ∧
      interval.2 ≤ maxCodePoint := by
  obtain ⟨hgap, hchar⟩ := gap_of_mem (ascending_ascends _) h
  obtain ⟨c, hc⟩ := Option.isSome_iff_exists.mp hchar
  refine ⟨⟨c, toNat_of_charOfCode? hc⟩, hgap.proper, ?_⟩
  obtain ⟨e, he, p, hp, hstop⟩ := of_mem_cutPoints hgap.stops
  have hproper := (hnormal e he).proper p hp
  have hbounded := (hnormal e he).bounded p hp
  omega

theorem map_accepting {dfa : Automaton} {order : List Nat} {states : List State}
    (h : List.Forall₂ (fun s state => dfa.states[s]? = some state) order states) :
    states.map (·.accepting) = order.map dfa.acceptsAt := by
  induction h with
  | nil => rfl
  | cons hs _ ih => rw [List.map_cons, List.map_cons, ih, acceptsAt, hs, Option.any_some]

/-! The table of the states that can be reached. -/

variable {dfa : Automaton}

/-- The place of a state among those that can be reached. -/
def numberOf (dfa : Automaton) (s : Nat) : Nat :=
  (Graph.places dfa.stateCount dfa.reachable)[s]?.getD 0

theorem getElem?_numberOf {s : Nat} (hs : s ∈ dfa.reachable) :
    dfa.reachable[dfa.numberOf s]? = some s := by
  obtain ⟨i, hi⟩ := List.mem_iff_getElem?.mp hs
  rw [numberOf, Graph.getElem?_places (nodup_reachable dfa) hi (lt_of_mem_reachable hs),
    Option.getD_some, hi]

theorem getElem?_numberOf_target (hwf : dfa.WellFormed) {s : Nat} (hs : s ∈ dfa.reachable)
    {state : State} (hstate : dfa.states[s]? = some state) (t : Transition)
    (ht : t ∈ state.transitions) : dfa.reachable[dfa.numberOf t.target]? = some t.target := by
  refine getElem?_numberOf
    (mem_reachable_of_successor hs ?_ ((hwf.fits s state hstate).target_lt t ht))
  rw [successors, hstate]
  exact List.mem_append_left _ (List.mem_map_of_mem ht)

/-- The states that can be reached, in order. -/
def listedStates (dfa : Automaton) : List State := dfa.reachable.filterMap fun s => dfa.states[s]?

theorem forall₂_listedStates (dfa : Automaton) :
    List.Forall₂ (fun s state => dfa.states[s]? = some state) dfa.reachable dfa.listedStates := by
  refine filterMap_forall₂ fun s hs => ?_
  rw [Array.getElem?_eq_getElem (lt_of_mem_reachable hs), Option.isSome_some]

/-- The edges of the states that can be reached, in order. -/
def Lists (dfa : Automaton) (edges : List (List Edge)) : Prop :=
  List.Forall₂ (fun s leaving => leaving ∈ edges ∧ ∃ state, dfa.states[s]? = some state ∧
    List.Forall₂ (EdgeOf dfa.numberOf) state.transitions leaving) dfa.reachable edges

theorem Deterministic.exists_edges (h : dfa.Deterministic) :
    ∃ edges, dfa.listedStates.mapM (edgesBetween dfa.numberOf) = .ok edges ∧ dfa.Lists edges := by
  obtain ⟨edges, hedges⟩ :
      ∃ edges, dfa.listedStates.mapM (edgesBetween dfa.numberOf) = .ok edges := by
    refine exists_mapM fun state hstate => exists_edgesBetween ?_
    obtain ⟨s, _, hs⟩ := List.mem_filterMap.mp hstate
    exact h.ranges s state hs
  have hstates := forall₂_listedStates dfa
  refine ⟨edges, hedges, List.forall₂_iff_get.mpr
    ⟨hstates.length_eq.trans (mapM_eq_ok.mp hedges).length_eq, fun i hi hi' => ?_⟩⟩
  have hmid : i < dfa.listedStates.length := hstates.length_eq ▸ hi
  exact ⟨List.getElem_mem hi', dfa.listedStates[i], hstates.get hi hmid,
    edgesBetween_ok ((mapM_eq_ok.mp hedges).get hmid hi')⟩

theorem Lists.normal {edges : List (List Edge)} (h : dfa.Lists edges) {e : Edge}
    (he : e ∈ edges.flatten) : Normal e.ranges.pairs := by
  obtain ⟨leaving, hmem, he⟩ := List.mem_flatten.mp he
  obtain ⟨i, hi, rfl⟩ := List.mem_iff_getElem.mp hmem
  obtain ⟨_, state, _, hedges⟩ := h.get (h.length_eq ▸ hi) hi
  obtain ⟨k, hk, rfl⟩ := List.mem_iff_getElem.mp he
  exact (Transition.ranges?_spec (hedges.get (hedges.length_eq ▸ hk) hk).1).1

/-- Where the edges of a state lead on the intervals. -/
def rowOf (cuts : List (Nat × Nat)) (leaving : List Edge) : List (Option Nat) :=
  cuts.map fun interval => (leaving.find? (·.ranges.containsCode interval.1)).map (·.target)

theorem moveTable_of_edges {edges : List (List Edge)}
    (h : dfa.listedStates.mapM (edgesBetween dfa.numberOf) = .ok edges) :
    dfa.moveTable = .ok ⟨dfa.listedStates.map (·.accepting), intervals edges.flatten,
      edges.map (rowOf (intervals edges.flatten))⟩ := by
  have hrun : dfa.moveTable = (dfa.listedStates.mapM (edgesBetween dfa.numberOf) >>= fun edges =>
      pure ⟨dfa.listedStates.map (·.accepting), intervals edges.flatten,
        edges.map (rowOf (intervals edges.flatten))⟩) := rfl
  rw [hrun, h]
  rfl

theorem Lists.covers {edges : List (List Edge)} (h : dfa.Lists edges) {s : Nat}
    (hs : s ∈ dfa.reachable) {c : Char} {t : Nat} (hnext : dfa.next? s c = some t) :
    ∃ interval ∈ intervals edges.flatten, interval.1 ≤ c.toNat ∧ c.toNat ≤ interval.2 := by
  obtain ⟨i, hi, rfl⟩ := List.mem_iff_getElem.mp hs
  obtain ⟨hmem, state, hstate, hedges⟩ := h.get hi (h.length_eq ▸ hi)
  obtain ⟨state', hstate', hfirst⟩ := Option.bind_eq_some_iff.mp hnext
  obtain rfl := Option.some.inj (hstate.symm.trans hstate')
  obtain ⟨step, hstep, _⟩ := Option.map_eq_some_iff.mp hfirst
  have htaken : step.matchesChar c = true :=
    List.find?_some (p := fun t : Transition => t.matchesChar c) hstep
  obtain ⟨k, hk, rfl⟩ := List.mem_iff_getElem.mp (List.mem_of_find?_eq_some hstep)
  have hk' := hedges.length_eq ▸ hk
  have hcovers := (Transition.ranges?_spec (hedges.get hk hk').1).2 c
  have hflat := List.mem_flatten.mpr ⟨_, hmem, List.getElem_mem hk'⟩
  exact exists_interval hflat (h.normal hflat) (hcovers.mpr htaken)

/-- Every deterministic automaton has a table of moves, of the states that can be reached. -/
theorem exists_moveTable {dfa : Automaton} (h : dfa.Deterministic) (hwf : dfa.WellFormed) :
    ∃ table, dfa.moveTable = .ok table ∧ Tabulates dfa dfa.reachable table := by
  obtain ⟨edges, hedges, hlists⟩ := h.exists_edges
  have hforall := (List.forall₂_and_left _ _).mpr ⟨fun _ hs => hs, hlists⟩
  refine ⟨_, moveTable_of_edges hedges, map_accepting (forall₂_listedStates dfa), ?_,
    fun s hs c t hnext => hlists.covers hs hnext,
    fun interval hmem => proper_of_mem_intervals (fun _ => hlists.normal) hmem⟩
  refine List.forall₂_map_right_iff.mpr (hforall.imp ?_)
  rintro s leaving ⟨hs, hmem, state, hstate, hleaving⟩
  refine List.forall₂_map_right_iff.mpr (List.forall₂_same.mpr fun interval hinterval => ?_)
  exact goes_of_edges hstate hleaving (fun e he => List.mem_flatten.mpr ⟨leaving, hmem, he⟩)
    (getElem?_numberOf_target hwf hs hstate) (gap_of_mem (ascending_ascends _) hinterval).1

end RegexEngine.Automaton
