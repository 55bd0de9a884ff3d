import Mathlib.Algebra.GroupWithZero.Nat
import Mathlib.Algebra.Order.BigOperators.Group.List
import Mathlib.Algebra.Order.Group.Nat
import RegexEngine.Proofs.Automaton.Language

/-!
Simplifying comes to an end, and what is left is changed by no pass.

No pass adds a state or a transition. What removes states or merges transitions leaves fewer of them
whenever it changes something. To lead transitions past states leaves as many, but then nothing
leads into the states that were gone past, and the next round removes them. So of two rounds that
change something one leaves less, and the rounds are at most twice as many as the states and the
transitions together, and two.
-/

namespace RegexEngine.Automaton

variable {a b c : Automaton}

theorem transitionCount_eq (a : Automaton) :
    a.transitionCount = (a.states.toList.map (·.transitions.length)).sum := by
  have hfold : ∀ (states : List State) (n : Nat),
      states.foldl (fun n s => n + s.transitions.length) n =
        n + (states.map (·.transitions.length)).sum := by
    intro states
    induction states with
    | nil => simp
    | cons s rest ih =>
      intro n
      rw [List.foldl_cons, ih, List.map_cons, List.sum_cons, Nat.add_assoc]
  rw [transitionCount, ← Array.foldl_toList, hfold, Nat.zero_add]

/-- An automaton has no more states and no more transitions than another. -/
structure NoLarger (b a : Automaton) : Prop where
  states : b.stateCount ≤ a.stateCount
  transitions : b.transitionCount ≤ a.transitionCount

theorem NoLarger.refl (a : Automaton) : a.NoLarger a := ⟨Nat.le_refl _, Nat.le_refl _⟩

theorem NoLarger.trans (h' : c.NoLarger b) (h : b.NoLarger a) : c.NoLarger a :=
  ⟨Nat.le_trans h'.states h.states, Nat.le_trans h'.transitions h.transitions⟩

/-- How many states and transitions there are. -/
def extent (a : Automaton) : Nat := a.stateCount + a.transitionCount

theorem NoLarger.extent_le (h : b.NoLarger a) : b.extent ≤ a.extent :=
  Nat.add_le_add h.states h.transitions

/-- A pass that reports nothing changed nothing, and one that reports something left less. -/
def Shrinks (a : Automaton) (result : Bool × Automaton) : Prop :=
  result = (false, a) ∨ result.1 = true ∧ result.2.extent < a.extent

theorem Shrinks.andThen {first second : Bool} (h : a.Shrinks (first, b))
    (h' : b.Shrinks (second, c)) : a.Shrinks (first || second, c) := by
  rcases h with h | ⟨hfirst, hless⟩
  · cases h
    exact h'
  · subst hfirst
    refine .inr ⟨Bool.true_or second, ?_⟩
    rcases h' with h' | ⟨_, hless'⟩
    · cases h'
      exact hless
    · exact Nat.lt_trans hless' hless

/-! Removing states. -/

theorem length_transitions_movedState (kept : List Nat) (i : Nat) (state : State) :
    (movedState kept i state).transitions.length ≤ state.transitions.length :=
  List.length_filterMap_le _ _

theorem noLarger_retain (keep : Array Bool) : (a.retain keep).NoLarger a := by
  let lengthAt : Nat → Nat := fun s => (a.states[s]?.getD (.new 0 false)).transitions.length
  have hall : (List.range a.stateCount).map lengthAt =
      a.states.toList.map (·.transitions.length) := by
    refine List.ext_getElem (by simp [stateCount]) fun s hs _ => ?_
    have hlt : s < a.states.size := by simpa [stateCount] using hs
    simp [lengthAt, hlt]
  constructor
  · rw [stateCount_retain]
    exact (List.length_filter_le _ _).trans_eq List.length_range
  · calc (a.retain keep).transitionCount
        ≤ ((a.keptStates keep).zipIdx.map fun item => lengthAt item.1).sum := by
          rw [transitionCount_eq, states_retain, List.toList_toArray, List.map_map]
          exact List.sum_le_sum fun item _ => length_transitions_movedState _ _ _
      _ = ((a.keptStates keep).map lengthAt).sum := by
          rw [← List.zipIdx_map_fst 0 (a.keptStates keep), List.map_map, List.zipIdx_map_fst]
          rfl
      _ ≤ ((List.range a.stateCount).map lengthAt).sum := by
          exact List.Sublist.sum_le_sum (List.filter_sublist.map _) fun _ _ => Nat.zero_le _
      _ = a.transitionCount := by rw [hall, transitionCount_eq]

theorem noLarger_retainOnly (kept : List Nat) : (a.retainOnly kept).2.NoLarger a := by
  unfold retainOnly
  dsimp only
  split
  · exact .refl a
  · exact noLarger_retain _

/-- A state is removed, unless all are kept. -/
theorem shrinks_retainOnly (kept : List Nat) : a.Shrinks (a.retainOnly kept) := by
  unfold retainOnly
  dsimp only
  split
  · exact .inl rfl
  · rename_i hall
    refine .inr ⟨rfl, ?_⟩
    have hmissing : ∃ s < a.stateCount, s ∉ kept := by
      apply Classical.byContradiction
      intro hnone
      push Not at hnone
      exact hall (all_mark hnone)
    obtain ⟨s, hs, hnot⟩ := hmissing
    have hfewer : (a.keptStates (Graph.mark a.stateCount kept)).length < a.stateCount := by
      have hlength : (List.range a.stateCount).length = a.stateCount := List.length_range
      conv_rhs => rw [← hlength]
      apply List.length_filter_lt_length_iff_exists.mpr
      refine ⟨s, List.mem_range.mpr hs, fun hkept => hnot ?_⟩
      exact (mem_keptStates_mark.mp (mem_keptStates.mpr ⟨hs, hkept⟩)).2
    have htransitions := (noLarger_retain (a := a) (Graph.mark a.stateCount kept)).transitions
    rw [← stateCount_retain] at hfewer
    exact Nat.add_lt_add_of_lt_of_le hfewer htransitions

/-- Where a state cannot be reached, it is removed. -/
theorem removeUnreachable_fst (hwf : a.WellFormed) {s : Nat} (hs : s < a.stateCount)
    (hnot : ¬ a.IsReached s) : a.removeUnreachable.1 = true := by
  unfold removeUnreachable retainOnly
  dsimp only
  split
  · rename_i hall
    have hsize : s < (Graph.mark a.stateCount a.reachable).size := by rwa [Graph.size_mark]
    have hmarked := Array.all_eq_true.mp hall s hsize
    have hentry := Graph.getElem?_mark a.reachable hs
    rw [Array.getElem?_eq_getElem hsize, Option.some.injEq] at hentry
    rw [id, hentry, decide_eq_true_iff] at hmarked
    exact absurd ((mem_reachable_iff hwf).mp hmarked) hnot
  · rfl

/-! Merging transitions. -/

theorem transitionCount_mapStates {f : State → State} {initial current : Option Nat} :
    (a.mapStates f initial current).transitionCount =
      (a.states.toList.map fun s => (f s).transitions.length).sum := by
  rw [transitionCount_eq, mapStates, Array.toList_map, List.map_map]
  rfl

theorem length_transitions_merged (s : State) :
    (merged s).transitions.length ≤ s.transitions.length :=
  (merged_transitions_sublist s).length_le

theorem noLarger_mergeTransitions : a.mergeTransitions.2.NoLarger a := by
  change (a.mapStates merged a.initial a.current).NoLarger a
  refine ⟨Nat.le_of_eq stateCount_mapStates, ?_⟩
  rw [transitionCount_mapStates, transitionCount_eq]
  exact List.sum_le_sum fun s _ => length_transitions_merged s

/-- A state that keeps as many transitions keeps them all. -/
theorem merged_eq_self {s : State}
    (hlength : s.transitions.length ≤ (merged s).transitions.length) : merged s = s := by
  have hsame := (merged_transitions_sublist s).eq_of_length_le hlength
  unfold merged at hsame ⊢
  split
  · rfl
  · rename_i hbranch
    rw [if_neg hbranch] at hsame
    exact congrArg (fun kept => { s with transitions := kept }) hsame

theorem shrinks_mergeTransitions : a.Shrinks a.mergeTransitions := by
  have hcount := noLarger_mergeTransitions (a := a)
  have hflag : a.mergeTransitions.1 =
      (a.mergeTransitions.2.transitionCount != a.transitionCount) := rfl
  by_cases hsame : a.mergeTransitions.2.transitionCount = a.transitionCount
  · left
    have hlengths : ∀ s ∈ a.states.toList,
        s.transitions.length ≤ (merged s).transitions.length := by
      apply Classical.byContradiction
      intro hnot
      push Not at hnot
      have hless := List.sum_lt_sum (fun s => (merged s).transitions.length)
        (fun s => s.transitions.length) (fun s _ => length_transitions_merged s) hnot
      have hmerged : a.mergeTransitions.2.transitionCount =
          (a.states.toList.map fun s => (merged s).transitions.length).sum :=
        transitionCount_mapStates
      rw [← hmerged, ← transitionCount_eq] at hless
      exact Nat.ne_of_lt hless hsame
    have hstates : a.states.map merged = a.states := by
      rw [← Array.toList_inj, Array.toList_map]
      exact (List.map_congr_left fun s hs => merged_eq_self (hlengths s hs)).trans (List.map_id _)
    have hresult : a.mergeTransitions.2 = a := by
      change a.mapStates merged a.initial a.current = a
      rw [mapStates, hstates]
    have hfirst : a.mergeTransitions.1 = false := by rw [hflag, hsame, bne_self_eq_false]
    exact Prod.ext hfirst hresult
  · right
    constructor
    · rw [hflag, bne_iff_ne]
      exact hsame
    · exact Nat.add_lt_add_of_le_of_lt hcount.states (Nat.lt_of_le_of_ne hcount.transitions hsame)

/-! Going past states. -/

theorem EndsAfter.leadsOnTo?_eq_none {k s e : Nat} (h : a.EndsAfter k s e) :
    a.leadsOnTo? e = none := by
  induction h with
  | here hnone => exact hnone
  | step _ _ ih => exact ih

/-- From where a transition is led no transition is led on. -/
theorem resolved_resolved {s : Nat} (hwf : a.WellFormed) (hs : s < a.stateCount) :
    a.resolved (a.resolved s) = a.resolved s := by
  have hlt := resolved_lt hwf hs
  rcases resolveForward_cases (a := a) s (a.stateCount + 1) s with hstays | ⟨k, _, hends⟩
  · rw [← resolved_eq hs] at hstays
    rw [hstays, hstays]
  · rw [← resolved_eq hs] at hends
    exact resolved_of_leadsOnTo?_none hlt hends.leadsOnTo?_eq_none

theorem bypassed_eq_self {s : State} (hstays : ∀ t ∈ s.successors, a.resolved t = t) :
    a.bypassed s = s := by
  have htransitions : s.transitions.map (fun t => { t with target := a.resolved t.target }) =
      s.transitions := by
    refine (List.map_congr_left fun t ht => ?_).trans (List.map_id _)
    rw [hstays t.target (Contraction.mem_successors_target ht)]
    rfl
  have haction : s.action.map (·.mapBody a.resolved) = s.action := by
    cases hs : s.action with
    | none => rfl
    | some action =>
      refine congrArg some ((mapBody_congr fun body hbody => ?_).trans (mapBody_id action))
      apply hstays body
      apply Contraction.mem_successors_body
      rw [hs]
      exact hbody
  rw [bypassed, htransitions, haction]

theorem successors_bypassed (s : State) :
    (a.bypassed s).successors = s.successors.map a.resolved := by
  cases haction : s.action with
  | none => simp [State.successors, bypassed, haction, Function.comp_def]
  | some action =>
    simp [State.successors, bypassed, haction, body?_mapBody, Function.comp_def,
      Option.toList_map]

theorem noLarger_bypassForwarders (hwf : a.WellFormed) {i : Nat} (hi : a.initial = some i) :
    a.bypassForwarders.2.NoLarger a := by
  obtain ⟨current, heq, _⟩ := bypassForwarders_eq hwf hi
  rw [heq]
  refine ⟨Nat.le_of_eq stateCount_mapStates, Nat.le_of_eq ?_⟩
  rw [transitionCount_mapStates, transitionCount_eq]
  simp [bypassed]

/-- A state that is gone past cannot be reached any more. -/
theorem not_isReached_bypassed (hwf : a.WellFormed) {i : Nat} (hi : a.initial = some i)
    {current : Option Nat} {t : Nat} (hmoved : a.resolved t ≠ t) :
    ¬ (a.mapStates a.bypassed (some (a.resolved i)) current).IsReached t := by
  rintro ⟨j, hj, hpath⟩
  obtain ⟨s, hs, rfl⟩ : ∃ s < a.stateCount, t = a.resolved s := by
    rcases hpath.cases_tail with rfl | ⟨u, _, hstep⟩
    · exact ⟨i, hwf.initial_lt i hi, (Option.some.inj hj).symm⟩
    · cases hstate : (a.mapStates a.bypassed (some (a.resolved i)) current).states[u]? with
      | none => simp [successors, hstate] at hstep
      | some state =>
        rw [successors_eq hstate] at hstep
        rw [getElem?_mapStates] at hstate
        obtain ⟨before, hbefore, rfl⟩ := Option.map_eq_some_iff.mp hstate
        rw [successors_bypassed] at hstep
        obtain ⟨s, hs, rfl⟩ := List.mem_map.mp hstep
        exact ⟨s, hwf.successor_lt hbefore hs, rfl⟩
  exact hmoved (resolved_resolved hwf hs)

theorem bypassForwarders_fst (i : Nat) (hi : a.initial = some i) :
    a.bypassForwarders.1 = (a.resolved i != i ||
      a.states.any fun s => s.successors.any fun t => a.resolved t != t) := by
  rw [bypassForwarders_def i hi]
  by_cases hstays : a.resolved i = i
  · simp [hstays]
  · simp [hstays]

/-- To lead transitions past states changes nothing, or leaves a state that nothing leads into. -/
theorem bypassForwarders_cases (hwf : a.WellFormed) {i : Nat} (hi : a.initial = some i) :
    a.bypassForwarders = (false, a) ∨
      a.bypassForwarders.1 = true ∧ a.bypassForwarders.2.removeUnreachable.1 = true := by
  cases hflag : a.bypassForwarders.1 with
  | false =>
    left
    rw [bypassForwarders_fst i hi, Bool.or_eq_false_iff, bne_eq_false_iff_eq] at hflag
    obtain ⟨hstays, hflag⟩ := hflag
    have hsame : ∀ s ∈ a.states, a.bypassed s = s := by
      intro s hs
      apply bypassed_eq_self
      intro t ht
      apply Classical.byContradiction
      intro hmoved
      have hany := Array.any_eq_false'.mp hflag s hs
      exact hany (List.any_eq_true.mpr ⟨t, ht, bne_iff_ne.mpr hmoved⟩)
    have hstates : a.states.map a.bypassed = a.states := by
      rw [← Array.toList_inj, Array.toList_map]
      exact (List.map_congr_left fun s hs => hsame s (Array.mem_toList_iff.mp hs)).trans
        (List.map_id _)
    have hresult : a.bypassForwarders.2 = a := by
      rw [bypassForwarders_def i hi, if_pos hstays, mapStates, hstates]
    exact Prod.ext (bypassForwarders_fst i hi ▸ by simp [hstays, hflag]) hresult
  | true =>
    right
    refine ⟨rfl, ?_⟩
    obtain ⟨t, ht, hmoved⟩ : ∃ t < a.stateCount, a.resolved t ≠ t := by
      rw [bypassForwarders_fst i hi, Bool.or_eq_true, bne_iff_ne] at hflag
      rcases hflag with hmoved | hany
      · exact ⟨i, hwf.initial_lt i hi, hmoved⟩
      · obtain ⟨k, hk, hany⟩ := Array.any_eq_true.mp hany
        obtain ⟨t, ht, hmoved⟩ := List.any_eq_true.mp hany
        exact ⟨t, hwf.successor_lt (Array.getElem?_eq_getElem hk) ht, bne_iff_ne.mp hmoved⟩
    have hwf' := hwf.bypassForwarders hi
    obtain ⟨current, heq, _⟩ := bypassForwarders_eq hwf hi
    rw [heq] at hwf' ⊢
    apply removeUnreachable_fst hwf'
    · rwa [stateCount_mapStates]
    · exact not_isReached_bypassed hwf hi hmoved

/-! Rounds. -/

/-- What is left to do, at most: twice what there is, and one round more if nothing is out of
reach. -/
def roundsLeft (a : Automaton) : Nat :=
  2 * a.extent + if a.removeUnreachable.1 then 0 else 1

theorem roundsLeft_lt_of_extent_lt (h : b.extent < a.extent) : b.roundsLeft < a.roundsLeft := by
  unfold roundsLeft
  split <;> split <;> omega

/-- What a round leaves before it leads transitions past states. -/
theorem exists_simplifyOnce_eq (hwf : a.WellFormed) {i : Nat} (hi : a.initial = some i) :
    ∃ flag b, a.simplifyOnce = (flag || b.bypassForwarders.1, b.bypassForwarders.2) ∧
      a.Shrinks (flag, b) ∧ (flag = false → a.removeUnreachable.1 = false) ∧ b.NoLarger a ∧
      Restates a b := by
  have hfirst := restates_removeUnreachable hwf hi
  obtain ⟨j, hj⟩ := hfirst.exists_initial
  have hsecond := restates_removeDead hfirst.wellFormed hj
  obtain ⟨k, hk⟩ := hsecond.exists_initial
  have hthird := restates_mergeTransitions hsecond.wellFormed hk
  have hunreachable : a.Shrinks a.removeUnreachable := shrinks_retainOnly _
  have hdead : a.removeUnreachable.2.Shrinks a.removeUnreachable.2.removeDead :=
    shrinks_retainOnly _
  have hfewer : a.removeUnreachable.2.NoLarger a := noLarger_retainOnly _
  have hlive : a.removeUnreachable.2.removeDead.2.NoLarger a.removeUnreachable.2 :=
    noLarger_retainOnly _
  refine ⟨a.removeUnreachable.1 || a.removeUnreachable.2.removeDead.1 ||
      a.removeUnreachable.2.removeDead.2.mergeTransitions.1,
    a.removeUnreachable.2.removeDead.2.mergeTransitions.2, rfl, ?_, fun hflag => ?_, ?_, ?_⟩
  · exact (hunreachable.andThen hdead).andThen shrinks_mergeTransitions
  · simp only [Bool.or_eq_false_iff] at hflag
    exact hflag.1.1
  · exact noLarger_mergeTransitions.trans (hlive.trans hfewer)
  · exact (hfirst.trans hsecond).trans hthird

theorem noLarger_simplifyOnce (hwf : a.WellFormed) {i : Nat} (hi : a.initial = some i) :
    a.simplifyOnce.2.NoLarger a := by
  obtain ⟨flag, b, honce, _, _, hless, hrestates⟩ := exists_simplifyOnce_eq hwf hi
  obtain ⟨j, hj⟩ := hrestates.exists_initial
  rw [honce]
  exact (noLarger_bypassForwarders hrestates.wellFormed hj).trans hless

/-- A round changes nothing, or leaves less to do. -/
theorem simplifyOnce_cases (hwf : a.WellFormed) {i : Nat} (hi : a.initial = some i) :
    a.simplifyOnce = (false, a) ∨
      a.simplifyOnce.1 = true ∧ a.simplifyOnce.2.roundsLeft < a.roundsLeft := by
  obtain ⟨flag, b, honce, hshrinks, hfull, _, hrestates⟩ := exists_simplifyOnce_eq hwf hi
  obtain ⟨j, hj⟩ := hrestates.exists_initial
  have hextent := (noLarger_bypassForwarders hrestates.wellFormed hj).extent_le
  rw [honce]
  rcases hshrinks with hnothing | ⟨rfl, hless⟩
  · cases hnothing
    rcases bypassForwarders_cases hwf hj with hstays | ⟨hmoved, hleft⟩
    · left
      rw [hstays, Bool.or_false]
    · -- as much is left, but something of it is out of reach now
      refine .inr ⟨hmoved, ?_⟩
      rw [roundsLeft, roundsLeft, hleft, hfull rfl]
      simp only [if_true, Bool.false_eq_true, if_false]
      omega
  · refine .inr ⟨Bool.true_or b.bypassForwarders.1, roundsLeft_lt_of_extent_lt ?_⟩
    exact Nat.lt_of_le_of_lt hextent hless

theorem noLarger_simplifyFully (fuel : Nat) (hwf : a.WellFormed) {i : Nat}
    (hi : a.initial = some i) : (simplifyFully fuel a).NoLarger a :=
  simplifyFully_keeps (fun _ _ hwf hi h => (noLarger_simplifyOnce hwf hi).trans h) fuel hwf hi
    (.refl a)

/-- With as many rounds as are left, the last one changes nothing. -/
theorem simplifyOnce_simplifyFully {fuel : Nat} (hwf : a.WellFormed) {i : Nat}
    (hi : a.initial = some i) (hfuel : a.roundsLeft < fuel) :
    (simplifyFully fuel a).simplifyOnce = (false, simplifyFully fuel a) := by
  induction fuel generalizing a i with
  | zero => exact absurd hfuel (Nat.not_lt_zero _)
  | succ fuel ih =>
    rcases simplifyOnce_cases hwf hi with hsame | ⟨hchanged, hless⟩
    · have hstays : simplifyFully (fuel + 1) a = a := by rw [simplifyFully, hsame]
      rw [hstays, hsame]
    · have honce := restates_simplifyOnce hwf hi
      obtain ⟨j, hj⟩ := honce.exists_initial
      have hnext : simplifyFully (fuel + 1) a = simplifyFully fuel a.simplifyOnce.2 := by
        rw [simplifyFully]
        generalize a.simplifyOnce = result at hchanged
        obtain ⟨flag, b⟩ := result
        subst hchanged
        rfl
      rw [hnext]
      exact ih honce.wellFormed hj (by omega)

/-- What a pass does not change any more stays as it is, however often it is simplified. -/
theorem simplifyFully_eq_self (hsame : a.simplifyOnce = (false, a)) (fuel : Nat) :
    simplifyFully fuel a = a := by
  cases fuel with
  | zero => rfl
  | succ fuel => rw [simplifyFully, hsame]

/-- To simplify a nondeterministic automaton succeeds, keeps its structure sound and its language,
adds nothing, and comes to an end: of what is left no round changes anything, and to simplify it
again gives it back. -/
theorem exists_optimize_settled (hkind : a.kind = .nfa) {i : Nat} (hi : a.initial = some i)
    (hintegrity : a.checkIntegrity = .ok ()) (nextId : UInt32) :
    ∃ b, a.optimize.run nextId = ((.ok (), b), nextId) ∧ b.checkIntegrity = .ok () ∧
      b.stateCount ≤ a.stateCount ∧ b.transitionCount ≤ a.transitionCount ∧
      (∀ input, b.accepts input = a.accepts input) ∧ b.simplifyOnce = (false, b) ∧
      ∀ otherId, b.optimize.run otherId = ((.ok (), b), otherId) := by
  have hwf := (checkIntegrity_iff a).mp hintegrity
  have hfuel : a.roundsLeft < 2 * (a.stateCount + a.transitionCount) + 2 := by
    unfold roundsLeft extent
    split <;> omega
  have hrestates := restates_simplifyFully (2 * (a.stateCount + a.transitionCount) + 2) hwf hi
  have hlarger := noLarger_simplifyFully (2 * (a.stateCount + a.transitionCount) + 2) hwf hi
  have hsame := simplifyOnce_simplifyFully hwf hi hfuel
  have hrun := optimize_run_eq hwf hi hkind nextId
  generalize simplifyFully (2 * (a.stateCount + a.transitionCount) + 2) a = b at *
  obtain ⟨j, hj⟩ := hrestates.exists_initial
  refine ⟨b, hrun, (checkIntegrity_iff b).mpr hrestates.wellFormed, hlarger.states,
    hlarger.transitions, hrestates.accepts_eq, hsame, fun otherId => ?_⟩
  rw [optimize_run_eq hrestates.wellFormed hj (hrestates.kind_eq.trans hkind),
    simplifyFully_eq_self hsame]

private theorem parse_letterC : Matcher.parse ['c'] = .ok (.literal ['c'] false) := rfl

/-- Takes many `c` that no other follows, with a repeated transition, a state that only leads on, two that
do so in a circle, and one that nothing leads into. -/
private def roundabout : Automaton where
  kind := .nfa
  states := #[
    { (State.new 0 false).openGroup 1 with
      transitions := [⟨0, 1, none, 0⟩, ⟨0, 2, none, 0⟩, ⟨0, 1, none, 1⟩] },
    { State.new 1 false with
      transitions := [⟨1, 1, some ⟨['c'], .literal ['c'] false, parse_letterC⟩, 0⟩,
        ⟨1, 4, none, 0⟩] },
    { State.new 2 false with transitions := [⟨2, 3, none, 0⟩] },
    { State.new 3 false with transitions := [⟨3, 2, none, 0⟩] },
    { State.new 4 false with transitions := [⟨4, 5, none, 0⟩] },
    { State.new 5 true with action := some (.look .notAhead 6) },
    { State.new 6 false with
      transitions := [⟨6, 7, some ⟨['c'], .literal ['c'] false, parse_letterC⟩, 0⟩] },
    { State.new 7 false with marks := .bodyEnd },
    { State.new 8 false with transitions := [⟨8, 4, none, 0⟩] }]
  initial := some 0
  current := some 8
  flags := .empty
  lastError := none

theorem exists_optimize_settled_roundabout :
    (roundabout.kind = .nfa ∧ roundabout.initial = some 0 ∧
      roundabout.checkIntegrity = .ok ()) ∧
    ∃ b, roundabout.optimize.run 9 = ((.ok (), b), 9) ∧ b.checkIntegrity = .ok () ∧
      b.stateCount ≤ 9 ∧ b.transitionCount ≤ 10 ∧
      (∀ input, b.accepts input = roundabout.accepts input) ∧ b.simplifyOnce = (false, b) ∧
      ∀ otherId, b.optimize.run otherId = ((.ok (), b), otherId) :=
  ⟨⟨rfl, rfl, rfl⟩, exists_optimize_settled rfl rfl rfl 9⟩

end RegexEngine.Automaton
