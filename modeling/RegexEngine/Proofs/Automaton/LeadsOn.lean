import RegexEngine.Proofs.Automaton.Determines
import RegexEngine.Proofs.Automaton.Splices

/-!
States that only lead on, put into an automaton. Nothing else is found with them than without them,
nothing else is accepted, and with them the automaton can be made deterministic if it can be without
them.
-/

namespace RegexEngine

open Automaton

theorem State.Copies.thins {place : Nat → Nat} {s s' : State} (h : s'.Copies place s) :
    s'.Thins s ∧ s.Thins s' := by
  have hlabels : s'.transitions.map (·.label) = s.transitions.map (·.label) := by
    have hall := h.transitions
    generalize s.transitions = ts at hall
    generalize s'.transitions = ts' at hall
    induction hall with
    | nil => rfl
    | cons ht _ ih => exact congrArg₂ List.cons ht.label_eq ih
  have haction : s'.action.isNone = s.action.isNone := by
    rw [h.action_eq, Option.isNone_map]
  exact ⟨⟨h.accepting_eq, h.marks_eq, haction, hlabels ▸ .refl _⟩,
    ⟨h.accepting_eq.symm, h.marks_eq.symm, haction.symm, hlabels ▸ .refl _⟩⟩

theorem State.Copies.exists_transition {place : Nat → Nat} {s s' : State} (h : s'.Copies place s) :
    (∀ t ∈ s.transitions, ∃ t' ∈ s'.transitions, t'.Imitates place t) ∧
      ∀ t' ∈ s'.transitions, ∃ t ∈ s.transitions, t'.Imitates place t := by
  have hall := h.transitions
  generalize s.transitions = ts at hall
  generalize s'.transitions = ts' at hall
  induction hall with
  | nil => simp
  | cons ht _ ih =>
    simp only [List.forall_mem_cons, List.exists_mem_cons_iff]
    exact ⟨⟨.inl ht.toImitates, fun t hmem => .inr (ih.1 t hmem)⟩,
      ⟨.inl ht.toImitates, fun t' hmem => .inr (ih.2 t' hmem)⟩⟩

namespace Splice

/-- All states that are put in only lead on. -/
def LeadsOn (c : Splice) : Prop := ∀ s ∈ c.states, s.OnlyLeadsTo (c.lift c.target)

variable {c : Splice} {a b : Automaton}

/-- True for the places where states are put in. -/
def IsPut (c : Splice) (s : Nat) : Prop := c.front ≤ s ∧ s < c.front + c.states.length

instance (s : Nat) : Decidable (c.IsPut s) := inferInstanceAs (Decidable (_ ∧ _))

theorem lift_place {s : Nat} (hs : ¬c.IsPut s) : c.lift (c.place s) = s := by
  unfold IsPut at hs
  unfold lift place
  grind

theorem place_of_isPut {s : Nat} (hs : c.IsPut s) : c.place s = c.target := by
  unfold IsPut at hs
  unfold place
  grind

theorem not_isPut_lift (i : Nat) : ¬c.IsPut (c.lift i) := by
  unfold IsPut lift
  grind

/-- Where no state is put in, there is one of the other automaton. -/
theorem Divides.exists_copied (h : c.Divides a b) {s : Nat} (hs : s < a.stateCount)
    (hkept : ¬c.IsPut s) : c.place s < b.stateCount := by
  have hsize := h.size_eq
  have hfront := h.front_le
  unfold IsPut at hkept
  unfold place
  grind

/-- A state that is put in only leads on. -/
theorem Divides.onlyLeadsTo (h : c.Divides a b) (hleads : c.LeadsOn) {s : Nat} {state : State}
    (hs : c.IsPut s) (hstate : a.states[s]? = some state) :
    state.OnlyLeadsTo (c.lift c.target) := by
  obtain ⟨k, rfl⟩ := Nat.exists_eq_add_of_le hs.1
  have hk : k < c.states.length := Nat.lt_of_add_lt_add_left hs.2
  have hput := h.put k _ (List.getElem?_eq_getElem hk)
  cases hstate.symm.trans hput
  exact hleads _ (List.getElem_mem hk)

/-- Where no state is put in, a state is one of the other automaton. -/
theorem Divides.copies (h : c.Divides a b) {s : Nat} {state : State} (hs : ¬c.IsPut s)
    (hstate : a.states[s]? = some state) :
    ∃ state', b.states[c.place s]? = some state' ∧ state'.Copies c.place state := by
  have hlt := h.exists_copied (Array.getElem?_eq_some_iff.mp hstate).1 hs
  obtain ⟨state', hstate', hcopies⟩ := h.kept _ _ (Array.getElem?_eq_getElem hlt)
  rw [lift_place hs] at hstate'
  cases hstate.symm.trans hstate'
  exact ⟨_, Array.getElem?_eq_getElem hlt, hcopies⟩

theorem Divides.groupCount_eq (h : c.Divides a b) (hleads : c.LeadsOn) :
    b.groupCount = a.groupCount := by
  refine groupCount_congr (fun s' hs' g hg => ?_) fun s hs g hg => ?_
  · obtain ⟨k, hk⟩ := List.mem_iff_getElem?.mp hs'
    obtain ⟨s, hs, hcopies⟩ := h.kept k s' (Array.getElem?_toList ▸ hk)
    exact ⟨s, (Array.mem_of_getElem? hs).val, hcopies.groupIndex_eq ▸ hg⟩
  · obtain ⟨k, hk⟩ := List.mem_iff_getElem?.mp hs
    rw [Array.getElem?_toList] at hk
    by_cases hput : c.IsPut k
    · have hplain := (h.onlyLeadsTo hleads hput hk).plain
      simp only [State.isPlain, Bool.and_eq_true, Option.isNone_iff_eq_none] at hplain
      cases hplain.2.symm.trans hg
    · obtain ⟨s', hs', hcopies⟩ := h.copies hput hk
      exact ⟨s', (Array.mem_of_getElem? hs').val, hcopies.groupIndex_eq.trans hg⟩

/-- To leave out states that only lead on is a contraction. -/
def contraction (h : c.Divides a b) (hleads : c.LeadsOn) (hwf : a.WellFormed) :
    Contraction a b where
  Met s := s < a.stateCount
  place := c.place
  forward s := if c.IsPut s then some (c.lift c.target) else none
  rank s := if c.IsPut s then 1 else 0
  groupCount_eq := h.groupCount_eq hleads
  met _ hs := hwf.exists_state hs
  kept s state _ hforward hstate := by
    have hput : ¬c.IsPut s := fun hput => by simp [hput] at hforward
    obtain ⟨state', hstate', hcopies⟩ := h.copies hput hstate
    exact ⟨state', hstate', hcopies.imitates⟩
  skipped s next state _ hforward hstate := by
    obtain ⟨hput, hnext⟩ := Option.ite_none_right_eq_some.mp hforward
    cases hnext
    exact h.onlyLeadsTo hleads hput hstate
  place_forward s next _ hforward := by
    obtain ⟨hput, hnext⟩ := Option.ite_none_right_eq_some.mp hforward
    cases hnext
    rw [place_lift, place_of_isPut hput]
  rank_forward s next _ hforward := by
    obtain ⟨hput, hnext⟩ := Option.ite_none_right_eq_some.mp hforward
    cases hnext
    rw [if_pos hput, if_neg (not_isPut_lift _)]
    exact Nat.one_pos
  injective s t _ _ hkept hkept' heq := by
    have hs : ¬c.IsPut s := fun hput => by simp [hput] at hkept
    have ht : ¬c.IsPut t := fun hput => by simp [hput] at hkept'
    rw [← lift_place hs, heq, lift_place ht]

/-! What is accepted. -/

/-- Where a state is, or where it leads to if it was put in. -/
def past (c : Splice) (s : Nat) : Nat := if c.IsPut s then c.lift c.target else s

theorem not_isPut_past (s : Nat) : ¬c.IsPut (c.past s) := by
  unfold past
  split
  · exact not_isPut_lift _
  · assumption

theorem place_past (s : Nat) : c.place (c.past s) = c.place s := by
  unfold past
  split
  · rename_i hput
    rw [place_lift, place_of_isPut hput]
  · rfl

theorem Divides.past_lt (h : c.Divides a b) (hleads : c.LeadsOn) (hwf : a.WellFormed) {s : Nat}
    (hs : s < a.stateCount) : c.past s < a.stateCount := by
  unfold past
  split
  · rename_i hput
    have hstate : a.states[s]? = some a.states[s] := Array.getElem?_eq_getElem hs
    obtain ⟨_, t, htransitions, _, htarget⟩ := h.onlyLeadsTo hleads hput hstate
    have hmem : t ∈ a.states[s].transitions := htransitions ▸ List.mem_singleton_self t
    exact htarget ▸ (hwf.fits s _ hstate).target_lt t hmem
  · exact hs

/-- Runs from a state lead on from the state that it leads to, and are no longer there. -/
theorem Divides.leads_past (h : c.Divides a b) (hleads : c.LeadsOn) {input : Array Char}
    {n s position : Nat} (hrun : a.Leads input n s position) :
    ∃ m ≤ n, a.Leads input m (c.past s) position := by
  unfold past
  split
  · rename_i hput
    have hs : s < a.stateCount := isOpenAt_lt hrun.isOpen
    have hstate : a.states[s]? = some a.states[s] := Array.getElem?_eq_getElem hs
    obtain ⟨m, rfl, hrest⟩ := leads_of_onlyLeadsTo hstate (h.onlyLeadsTo hleads hput hstate) hrun
    exact ⟨m, Nat.le_succ m, hrest⟩
  · exact ⟨n, Nat.le_refl n, hrun⟩

theorem Divides.wins_of_wins_past (h : c.Divides a b) (hleads : c.LeadsOn) {input : Array Char}
    {s position : Nat} (hs : s < a.stateCount) (hwins : a.Wins input (c.past s) position) :
    a.Wins input s position := by
  unfold past at hwins
  split at hwins
  · rename_i hput
    have hstate : a.states[s]? = some a.states[s] := Array.getElem?_eq_getElem hs
    exact wins_of_onlyLeadsTo hstate (h.onlyLeadsTo hleads hput hstate) hwins
  · exact hwins

/-- Automata with states that only lead on are mirrored without them. -/
theorem Divides.mirrors (h : c.Divides a b) (hleads : c.LeadsOn) (hwf : a.WellFormed) :
    Mirrors a b (fun s => s < a.stateCount ∧ ¬c.IsPut s) c.place := by
  have htarget {s : Nat} {state : State} (hstate : a.states[s]? = some state) {t : Transition}
      (ht : t ∈ state.transitions) : t.target < a.stateCount :=
    (hwf.fits s state hstate).target_lt t ht
  refine ⟨fun s ⟨hs, hput⟩ => ?_, fun s state state' ⟨_, hput⟩ hstate hstate' t ht input n position
    hrun => ?_, fun s state state' ⟨_, hput⟩ hstate hstate' t' ht' => ?_, fun i hi => ?_⟩
  · have hstate : a.states[s]? = some a.states[s] := Array.getElem?_eq_getElem hs
    obtain ⟨state', hstate', hcopies⟩ := h.copies hput hstate
    exact ⟨_, state', hstate, hstate', hcopies.thins.1⟩
  · obtain ⟨other, hother, hcopies⟩ := h.copies hput hstate
    cases hstate'.symm.trans hother
    obtain ⟨t', ht', hcopy⟩ := hcopies.exists_transition.1 t ht
    obtain ⟨m, hm, hrun'⟩ := h.leads_past hleads hrun
    exact ⟨t', ht', hcopy.label_eq, c.past t.target, m,
      ⟨h.past_lt hleads hwf (htarget hstate ht), not_isPut_past _⟩,
      hcopy.target_eq.trans (place_past _).symm, hm, hrun'⟩
  · obtain ⟨other, hother, hcopies⟩ := h.copies hput hstate
    cases hstate'.symm.trans hother
    obtain ⟨t, ht, hcopy⟩ := hcopies.exists_transition.2 t' ht'
    exact ⟨t, ht, hcopy.label_eq, c.past t.target,
      ⟨h.past_lt hleads hwf (htarget hstate ht), not_isPut_past _⟩,
      hcopy.target_eq.trans (place_past _).symm,
      fun _ _ => h.wins_of_wins_past hleads (htarget hstate ht)⟩
  · obtain ⟨state, hstate, _⟩ := h.kept i b.states[i] (Array.getElem?_eq_getElem hi)
    exact ⟨c.lift i, ⟨(Array.getElem?_eq_some_iff.mp hstate).1, not_isPut_lift i⟩, c.place_lift i⟩

end Splice

namespace Automaton

variable {a b : Automaton}

/-- The first automaton is the second one with states put in that only lead on. -/
def IsLed (a b : Automaton) : Prop :=
  ∃ (c : Splice) (i j : Nat), c.Divides a b ∧ c.LeadsOn ∧ a.initial = some i ∧
    b.initial = some j ∧ c.place i = j

/-- What is found without the states that only lead on is what is found with them. -/
theorem IsLed.findsAlike (h : a.IsLed b) (hwf : a.WellFormed) {i j : Nat}
    (hi : a.initial = some i) (hj : b.initial = some j) : a.FindsAlike i b j := by
  obtain ⟨c, i', j', hdivides, hleads, hi', hj', hplace⟩ := h
  cases hi.symm.trans hi'
  cases hj.symm.trans hj'
  intro search start A hgives
  have hgives' :=
    (Splice.contraction hdivides hleads hwf).gives_firstWay (hwf.initial_lt i hi) hgives
  change b.code.Gives search (b.firstWay (c.place i) start) A at hgives'
  rwa [hplace] at hgives'

theorem IsLed.accepts_eq (h : a.IsLed b) (hwf : a.WellFormed) (input : Array Char) :
    b.accepts input = a.accepts input := by
  obtain ⟨c, i, j, hdivides, hleads, hi, hj, hplace⟩ := h
  have hlt := hwf.initial_lt i hi
  refine (hdivides.mirrors hleads hwf).accepts_eq hi
    ⟨hdivides.past_lt hleads hwf hlt, Splice.not_isPut_past i⟩ ?_ (fun input => ?_) input
  · rw [Splice.place_past, hplace, hj]
  · refine ⟨hdivides.wins_of_wins_past hleads hlt, fun ⟨n, hrun⟩ => ?_⟩
    obtain ⟨m, _, hrun'⟩ := hdivides.leads_past hleads hrun
    exact ⟨m, hrun'⟩

theorem IsLed.convertible_iff (h : a.IsLed b) : a.Convertible ↔ b.Convertible := by
  obtain ⟨c, _, _, hdivides, hleads, _⟩ := h
  constructor
  · intro hall s' hs'
    obtain ⟨k, hk⟩ := Array.mem_iff_getElem?.mp hs'
    obtain ⟨s, hs, hcopies⟩ := hdivides.kept k s' hk
    exact isOk_stateEdges_of_thins hcopies.thins.1 (hall s (Array.mem_of_getElem? hs))
  · intro hall s hs
    obtain ⟨k, hk⟩ := Array.mem_iff_getElem?.mp hs
    by_cases hput : c.IsPut k
    · exact isOk_stateEdges_of_onlyLeadsTo (hdivides.onlyLeadsTo hleads hput hk)
    · obtain ⟨s', hs', hcopies⟩ := hdivides.copies hput hk
      exact isOk_stateEdges_of_thins hcopies.thins.2 (hall s' (Array.mem_of_getElem? hs'))

/-- Both automata can be made deterministic, or none of them, unless the sets are too many. What
comes of them accepts the same. -/
theorem IsLed.concur_toDfaWithLimit (h : a.IsLed b) (hwf : a.WellFormed) {limit : Nat}
    (hlimit : max limit 1 ≤ UInt32.size) (base base' : UInt32) :
    Concur (fun x y => Determines a x ∧ Determines a y) ((a.toDfaWithLimit limit).run base).1
      ((b.toDfaWithLimit limit).run base').1 := by
  obtain ⟨_, i, j, _, _, hi, hj, _⟩ := id h
  -- A failure is one of a state that can be no part of a set, and of both, or one of the size.
  have hsame := h.convertible_iff
  cases hx : ((a.toDfaWithLimit limit).run base).1 with
  | error e =>
    by_cases hconvertible : a.Convertible
    · exact .large (.inr ⟨limit, congrArg Error.cause (hconvertible.error_eq hi hx)⟩)
    · cases hy : ((b.toDfaWithLimit limit).run base').1 with
      | error e' => exact .failed e e'
      | ok y => exact absurd (hsame.mpr (convertible_of_isOk (by rw [hy]; rfl))) hconvertible
  | ok x =>
    have hconvertible : a.Convertible := convertible_of_isOk (by rw [hx]; rfl)
    cases hy : ((b.toDfaWithLimit limit).run base').1 with
    | error e' =>
      have hcause := (hsame.mp hconvertible).error_eq hj hy
      exact .large' (.inr ⟨limit, congrArg Error.cause hcause⟩)
    | ok y =>
      have hfirst := Determines.of_toDfa hlimit (Prod.ext hx rfl)
      have hsecond := Determines.of_toDfa hlimit (Prod.ext hy rfl)
      exact .answered ⟨hfirst, hsecond.congr (h.accepts_eq hwf)⟩

end Automaton

end RegexEngine
