import RegexEngine.Proofs.Automaton.Retain

/-!
The passes that change transitions: one drops those that repeat an earlier one, the other leads them
past states that only lead on. Both are contractions.

A state is skipped if following the states that only lead on comes to an end elsewhere. The state
that it leads on to comes to the same end in one step less, which is the rank that contractions ask
for. In a circle no end is reached, and none of its states is skipped.
-/

namespace RegexEngine.Automaton

variable {a : Automaton}

/-- An automaton with other states in place of its own, and another start. -/
def mapStates (a : Automaton) (f : State → State) (initial current : Option Nat) : Automaton :=
  { a with states := a.states.map f, initial := initial, current := current }

section MapStates

variable {f : State → State} {initial current : Option Nat}

theorem stateCount_mapStates : (a.mapStates f initial current).stateCount = a.stateCount :=
  Array.size_map

theorem getElem?_mapStates (i : Nat) :
    (a.mapStates f initial current).states[i]? = a.states[i]?.map f :=
  Array.getElem?_map

theorem groupCount_mapStates (hgroup : ∀ s, (f s).groupIndex = s.groupIndex) :
    (a.mapStates f initial current).groupCount = a.groupCount := by
  have hstates : (a.mapStates f initial current).states = a.states.map f := rfl
  rw [groupCount, hstates, Array.foldl_map]
  simp only [hgroup]
  rfl

/-- Changing states one by one keeps an automaton well formed. -/
theorem WellFormed.mapStates (hwf : a.WellFormed) (hid : ∀ s, (f s).id = s.id)
    (hlabels : ∀ s, ∀ t ∈ (f s).transitions, ∃ e ∈ s.transitions, t.label = e.label)
    (hfits : ∀ i s, a.states[i]? = some s → (f s).FitsAt a.stateCount i)
    (hinitial : ∀ i, initial = some i → i < a.stateCount)
    (hcurrent : ∀ i, current = some i → i < a.stateCount) :
    (a.mapStates f initial current).WellFormed := by
  refine ⟨fun i hi => ?_, fun i hi => ?_, fun i s hs => ?_, ?_, fun hdfa s hs t ht => ?_⟩
  · rw [stateCount_mapStates]
    exact hinitial i hi
  · rw [stateCount_mapStates]
    exact hcurrent i hi
  · rw [getElem?_mapStates] at hs
    obtain ⟨state, hstate, rfl⟩ := Option.map_eq_some_iff.mp hs
    rw [stateCount_mapStates]
    exact hfits i state hstate
  · have hids : (a.mapStates f initial current).states.toList.map (·.id) =
        a.states.toList.map (·.id) := by
      simp [Automaton.mapStates, Function.comp_def, hid]
    rw [hids]
    exact hwf.distinct
  · obtain ⟨state, hstate, rfl⟩ := Array.mem_map.mp hs
    obtain ⟨e, he, hlabel⟩ := hlabels state t ht
    have hinput := hwf.takes_input hdfa state hstate e he
    rwa [Transition.isEpsilon, ← hlabel] at hinput

end MapStates

/-! Merging transitions. -/

theorem imitates_id (t : Transition) : t.Imitates id t := ⟨rfl, rfl⟩

/-- What is dropped repeats an edge that is kept. -/
theorem dropRepeatedEdges_thins (ts : List Transition) : ∀ kept : List Transition,
    ∃ ts', dropRepeatedEdges kept ts = kept.reverse ++ ts' ∧ Thinned id kept ts ts' ∧
      ts'.Sublist ts := by
  induction ts with
  | nil => exact fun kept => ⟨[], by simp [dropRepeatedEdges], .nil, by simp⟩
  | cons t rest ih =>
    intro kept
    unfold dropRepeatedEdges
    split
    · rename_i hseen
      obtain ⟨e, he, hsame⟩ := List.any_eq_true.mp hseen
      simp only [Transition.sameEdge, Bool.and_eq_true, beq_iff_eq] at hsame
      obtain ⟨ts', heq, hthins, hsublist⟩ := ih kept
      exact ⟨ts', heq, .drop he ⟨hsame.2, hsame.1⟩ hthins, hsublist.cons t⟩
    · obtain ⟨ts', heq, hthins, hsublist⟩ := ih (t :: kept)
      exact ⟨t :: ts', by simp [heq], .keep (imitates_id t) hthins, hsublist.cons_cons t⟩

/-- A state without the transitions that repeat an earlier one. -/
def merged (s : State) : State :=
  if isBranch s then s else { s with transitions := dropRepeatedEdges [] s.transitions }

theorem mapBody_id (action : Action) : action.mapBody id = action := by
  cases action with
  | branch condition => cases condition <;> rfl
  | _ => rfl

theorem merged_imitates (s : State) : (merged s).Imitates id s := by
  have haction : s.action = s.action.map (·.mapBody id) := by
    cases s.action with
    | none => rfl
    | some action => exact congrArg some (mapBody_id action).symm
  unfold merged
  split
  · have hthins := thinned_map imitates_id s.transitions []
    have hall := forall₂_map imitates_id s.transitions
    rw [List.map_id'] at hthins hall
    exact ⟨rfl, rfl, rfl, haction, hthins, fun _ => hall⟩
  · rename_i hbranch
    obtain ⟨ts', heq, hthins, _⟩ := dropRepeatedEdges_thins s.transitions []
    rw [List.reverse_nil, List.nil_append] at heq
    exact ⟨rfl, rfl, rfl, haction, heq ▸ hthins, fun h => absurd h hbranch⟩

/-- To merge transitions is a contraction that leaves states in their places. -/
def mergeContraction (hwf : a.WellFormed) :
    Contraction a (a.mapStates merged a.initial a.current) where
  Met s := s < a.stateCount
  place := id
  forward _ := none
  rank _ := 0
  groupCount_eq := groupCount_mapStates fun s => (merged_imitates s).groupIndex_eq
  met s hs := ⟨a.states[s], Array.getElem?_eq_getElem hs,
    fun t ht => hwf.successor_lt (Array.getElem?_eq_getElem hs) ht⟩
  kept s state _ _ hstate := by
    refine ⟨merged state, ?_, merged_imitates state⟩
    rw [getElem?_mapStates, id, hstate, Option.map_some]
  skipped _ _ _ _ h := nomatch h
  place_forward _ _ _ h := nomatch h
  rank_forward _ _ _ h := nomatch h
  injective _ _ _ _ _ _ heq := heq

theorem merged_transitions_sublist (s : State) :
    (merged s).transitions.Sublist s.transitions := by
  unfold merged
  split
  · exact .refl _
  · obtain ⟨ts', heq, _, hsublist⟩ := dropRepeatedEdges_thins s.transitions []
    rw [List.reverse_nil, List.nil_append] at heq
    exact heq ▸ hsublist

theorem merged_fits {s : State} {count index : Nat} (h : s.FitsAt count index) :
    (merged s).FitsAt count index := by
  have hmem := (merged_transitions_sublist s).subset
  refine ⟨fun t ht => h.source_eq t (hmem ht), fun t ht => h.target_lt t (hmem ht), ?_⟩
  unfold merged
  split <;> exact h.body_lt

theorem WellFormed.mergeTransitions (hwf : a.WellFormed) : a.mergeTransitions.2.WellFormed := by
  have hid (s : State) : (merged s).id = s.id := by
    unfold merged
    split <;> rfl
  exact hwf.mapStates hid
    (fun s t ht => ⟨t, (merged_transitions_sublist s).subset ht, rfl⟩)
    (fun i s hs => merged_fits (hwf.fits i s hs)) hwf.initial_lt hwf.current_lt

/-- To merge transitions changes nothing that is found. -/
theorem Trim.mergeTransitions {i : Nat} (h : a.Trim i) :
    a.mergeTransitions.2.Trim i ∧ a.FindsAlike i a.mergeTransitions.2 i := by
  have hi := h.wellFormed.initial_lt i h.initial_eq
  change (a.mapStates merged a.initial a.current).Trim i ∧
    a.FindsAlike i (a.mapStates merged a.initial a.current) i
  refine ⟨⟨h.wellFormed.mergeTransitions, h.kind_eq, h.initial_eq, fun s hs => ?_,
    fun s state' hstate' hgroup => ?_⟩,
    fun _ _ _ hgives => (mergeContraction h.wellFormed).gives_firstWay hi hgives⟩
  · rw [stateCount_mapStates] at hs
    exact (mergeContraction h.wellFormed).isLive_place hs (h.live s hs)
  · rw [getElem?_mapStates] at hstate'
    obtain ⟨state, hstate, rfl⟩ := Option.map_eq_some_iff.mp hstate'
    rw [(merged_imitates state).groupIndex_eq] at hgroup
    exact ((mergeContraction h.wellFormed).isReached_place h.initial_eq hi h.initial_eq
      (h.grouped s state hstate hgroup)).2

/-! Skipping states. -/

/-- For each state the one that it leads on to, if it does nothing else. -/
def forwardTable (a : Automaton) : Array (Option Nat) :=
  a.states.zipIdx.map fun (s, i) => forwardOf? s i

/-- The state that a state leads on to, if it does nothing else. -/
def leadsOnTo? (a : Automaton) (s : Nat) : Option Nat := a.forwardTable[s]?.join

/-- Where transitions into a state are led. -/
def resolved (a : Automaton) (s : Nat) : Nat :=
  ((Array.range a.stateCount).map fun s =>
    resolveForward a.forwardTable s (a.stateCount + 1) s)[s]?.getD s

/-- A state with its transitions and its body led past others. -/
def bypassed (a : Automaton) (s : State) : State :=
  { s with
    transitions := s.transitions.map fun t => { t with target := a.resolved t.target }
    action := s.action.map (·.mapBody a.resolved) }

theorem leadsOnTo?_eq_some {s next : Nat} (h : a.leadsOnTo? s = some next) :
    ∃ state, a.states[s]? = some state ∧ state.OnlyLeadsTo next := by
  have hentry := Option.join_eq_some_iff.mp h
  simp only [forwardTable, Array.getElem?_map, Array.getElem?_zipIdx, Option.map_map,
    Option.map_eq_some_iff, Function.comp_apply, Nat.zero_add] at hentry
  obtain ⟨state, hstate, hforward⟩ := hentry
  refine ⟨state, hstate, ?_⟩
  unfold forwardOf? at hforward
  split at hforward
  · rename_i t hplain htransitions
    split at hforward
    · rename_i hleads
      simp only [Bool.and_eq_true] at hleads
      cases hforward
      exact ⟨hplain, t, htransitions, hleads.1, rfl⟩
    · cases hforward
  · cases hforward

/-- Following states that only lead on comes to an end after so many steps. -/
inductive EndsAfter (a : Automaton) : Nat → Nat → Nat → Prop
  | here {s : Nat} : a.leadsOnTo? s = none → EndsAfter a 0 s s
  | step {k s next e : Nat} : a.leadsOnTo? s = some next → EndsAfter a k next e →
      EndsAfter a (k + 1) s e

/-- How many states are followed, at most as many as the fuel. -/
def forwardSteps (a : Automaton) : Nat → Nat → Nat
  | 0, _ => 0
  | fuel + 1, s =>
    match a.leadsOnTo? s with
    | some next => forwardSteps a fuel next + 1
    | none => 0

theorem EndsAfter.resolveForward_eq {k s e : Nat} (h : a.EndsAfter k s e) (start : Nat) :
    ∀ fuel, k < fuel → resolveForward a.forwardTable start fuel s = e := by
  induction h with
  | here hnone =>
    intro fuel hfuel
    obtain ⟨fuel, rfl⟩ := Nat.exists_eq_succ_of_ne_zero (Nat.ne_of_gt hfuel)
    unfold resolveForward
    rw [show a.forwardTable[_]?.join = none from hnone]
  | step hsome _ ih =>
    intro fuel hfuel
    obtain ⟨fuel, rfl⟩ := Nat.exists_eq_succ_of_ne_zero (by omega : fuel ≠ 0)
    unfold resolveForward
    rw [show a.forwardTable[_]?.join = some _ from hsome]
    exact ih fuel (by omega)

theorem EndsAfter.forwardSteps_eq {k s e : Nat} (h : a.EndsAfter k s e) :
    ∀ fuel, k < fuel → a.forwardSteps fuel s = k := by
  induction h with
  | here hnone =>
    intro fuel hfuel
    obtain ⟨fuel, rfl⟩ := Nat.exists_eq_succ_of_ne_zero (Nat.ne_of_gt hfuel)
    simp [forwardSteps, hnone]
  | step hsome _ ih =>
    intro fuel hfuel
    obtain ⟨fuel, rfl⟩ := Nat.exists_eq_succ_of_ne_zero (by omega : fuel ≠ 0)
    simp [forwardSteps, hsome, ih fuel (by omega)]

/-- A state is led to an end, or stays where it is. -/
theorem resolveForward_cases (start : Nat) : ∀ fuel s : Nat,
    resolveForward a.forwardTable start fuel s = start ∨
      ∃ k < fuel, a.EndsAfter k s (resolveForward a.forwardTable start fuel s) := by
  intro fuel
  induction fuel with
  | zero => exact fun _ => .inl rfl
  | succ fuel ih =>
    intro s
    unfold resolveForward
    cases hnext : a.leadsOnTo? s with
    | none =>
      rw [show a.forwardTable[s]?.join = none from hnext]
      exact .inr ⟨0, Nat.succ_pos _, .here hnext⟩
    | some next =>
      rw [show a.forwardTable[s]?.join = some next from hnext]
      rcases ih next with heq | ⟨k, hk, hends⟩
      · exact .inl heq
      · exact .inr ⟨k + 1, Nat.succ_lt_succ hk, .step hnext hends⟩

theorem resolved_eq {s : Nat} (hs : s < a.stateCount) :
    a.resolved s = resolveForward a.forwardTable s (a.stateCount + 1) s := by
  simp [resolved, hs]

/-- A state that does not lead on stays where it is. -/
theorem resolved_of_leadsOnTo?_none {s : Nat} (hs : s < a.stateCount)
    (hnone : a.leadsOnTo? s = none) : a.resolved s = s := by
  rw [resolved_eq hs, resolveForward]
  rw [show a.forwardTable[s]?.join = none from hnone]

theorem resolved_of_kept {s : Nat} (hs : s < a.stateCount)
    (hkept : (if a.resolved s = s then none else a.leadsOnTo? s) = none) : a.resolved s = s := by
  split at hkept
  · assumption
  · exact resolved_of_leadsOnTo?_none hs hkept

/-- A state that is led elsewhere leads on, and the next one is led to the same place. -/
theorem resolved_next (hwf : a.WellFormed) {s next : Nat} (hs : s < a.stateCount)
    (hmoved : a.resolved s ≠ s) (hnext : a.leadsOnTo? s = some next) :
    a.resolved next = a.resolved s ∧
      a.forwardSteps (a.stateCount + 1) next < a.forwardSteps (a.stateCount + 1) s := by
  obtain ⟨state, hstate, _, t, htransitions, _, rfl⟩ := leadsOnTo?_eq_some hnext
  have hlt : t.target < a.stateCount :=
    (hwf.fits s state hstate).target_lt t (htransitions ▸ List.mem_singleton.mpr rfl)
  rw [resolved_eq hs] at hmoved
  obtain ⟨k, hk, hends⟩ := (resolveForward_cases s _ s).resolve_left hmoved
  rw [← resolved_eq hs] at hends
  have hsteps := hends.forwardSteps_eq _ hk
  generalize a.resolved s = e at hends ⊢
  cases hends with
  | here hnone => cases hnext.symm.trans hnone
  | step hnext' hrest =>
    obtain rfl := Option.some.inj (hnext.symm.trans hnext')
    rw [resolved_eq hlt, hrest.resolveForward_eq _ _ (by omega), hsteps,
      hrest.forwardSteps_eq _ (by omega)]
    exact ⟨rfl, Nat.lt_succ_self _⟩

/-- A transition is never led out of the automaton. -/
theorem resolved_lt (hwf : a.WellFormed) {s : Nat} (hs : s < a.stateCount) :
    a.resolved s < a.stateCount := by
  have hends {k s e : Nat} (h : a.EndsAfter k s e) (hs : s < a.stateCount) : e < a.stateCount := by
    induction h with
    | here _ => exact hs
    | step hnext _ ih =>
      obtain ⟨state, hstate, _, t, htransitions, _, rfl⟩ := leadsOnTo?_eq_some hnext
      exact ih ((hwf.fits _ state hstate).target_lt t (htransitions ▸ List.mem_singleton.mpr rfl))
  rw [resolved_eq hs]
  rcases resolveForward_cases s (a.stateCount + 1) s with heq | ⟨k, _, h⟩
  · rwa [heq]
  · exact hends h hs

theorem bypassed_imitates (s : State) : (a.bypassed s).Imitates a.resolved s := by
  have hedges (t : Transition) :
      Transition.Imitates a.resolved { t with target := a.resolved t.target } t :=
    ⟨rfl, rfl⟩
  exact ⟨rfl, rfl, rfl, rfl, thinned_map hedges _ _, fun _ => forall₂_map hedges _⟩

theorem bypassed_fits (hwf : a.WellFormed) {s : State} {index : Nat}
    (h : s.FitsAt a.stateCount index) : (a.bypassed s).FitsAt a.stateCount index := by
  refine ⟨fun t ht => ?_, fun t ht => ?_, fun body hbody => ?_⟩
  · obtain ⟨e, he, rfl⟩ := List.mem_map.mp ht
    exact h.source_eq e he
  · obtain ⟨e, he, rfl⟩ := List.mem_map.mp ht
    exact resolved_lt hwf (h.target_lt e he)
  · obtain ⟨action, haction, hbody⟩ := Option.bind_eq_some_iff.mp hbody
    obtain ⟨before, hbefore, rfl⟩ := Option.map_eq_some_iff.mp haction
    rw [body?_mapBody] at hbody
    obtain ⟨place, hplace, rfl⟩ := Option.map_eq_some_iff.mp hbody
    exact resolved_lt hwf (h.body_lt place (by rw [hbefore]; exact hplace))

/-- To lead transitions past states is a contraction that skips these. -/
def bypassContraction (hwf : a.WellFormed) (initial current : Option Nat) :
    Contraction a (a.mapStates a.bypassed initial current) where
  Met s := s < a.stateCount
  place := a.resolved
  forward s := if a.resolved s = s then none else a.leadsOnTo? s
  rank := a.forwardSteps (a.stateCount + 1)
  groupCount_eq := groupCount_mapStates fun _ => rfl
  met s hs := ⟨a.states[s], Array.getElem?_eq_getElem hs,
    fun t ht => hwf.successor_lt (Array.getElem?_eq_getElem hs) ht⟩
  kept s state hs hkept hstate := by
    refine ⟨a.bypassed state, ?_, bypassed_imitates state⟩
    rw [resolved_of_kept hs hkept, getElem?_mapStates, hstate, Option.map_some]
  skipped s next state hs hforward hstate := by
    split at hforward
    · cases hforward
    · obtain ⟨state', hstate', hleads⟩ := leadsOnTo?_eq_some hforward
      cases hstate.symm.trans hstate'
      exact hleads
  place_forward s next hs hforward := by
    split at hforward
    · cases hforward
    · rename_i hmoved
      exact (resolved_next hwf hs hmoved hforward).1
  rank_forward s next hs hforward := by
    split at hforward
    · cases hforward
    · rename_i hmoved
      exact (resolved_next hwf hs hmoved hforward).2
  injective s t hs ht hskept htkept heq := by
    rwa [resolved_of_kept hs hskept, resolved_of_kept ht htkept] at heq

/-- What leading transitions past states comes to, and whether any is led elsewhere. -/
theorem bypassForwarders_def (i : Nat) (hi : a.initial = some i) :
    a.bypassForwarders = if a.resolved i = i
      then (a.states.any fun s => s.successors.any fun t => a.resolved t != t,
        a.mapStates a.bypassed a.initial a.current)
      else (true, a.mapStates a.bypassed (some (a.resolved i)) (some (a.resolved i))) := by
  have hdef : a.bypassForwarders = (match a.initial with
      | some i => if a.resolved i = i
        then (a.states.any fun s => s.successors.any fun t => a.resolved t != t,
          a.mapStates a.bypassed a.initial a.current)
        else (true, a.mapStates a.bypassed (some (a.resolved i)) (some (a.resolved i)))
      | none => (a.states.any fun s => s.successors.any fun t => a.resolved t != t,
          a.mapStates a.bypassed a.initial a.current) : Bool × Automaton) := rfl
  rw [hdef, hi]

theorem bypassForwarders_eq (hwf : a.WellFormed) {i : Nat} (hi : a.initial = some i) :
    ∃ current, a.bypassForwarders.2 = a.mapStates a.bypassed (some (a.resolved i)) current ∧
      ∀ s, current = some s → s < a.stateCount := by
  rw [bypassForwarders_def i hi]
  by_cases hstays : a.resolved i = i
  · exact ⟨a.current, by rw [if_pos hstays, hstays, hi], hwf.current_lt⟩
  · refine ⟨some (a.resolved i), by rw [if_neg hstays], fun s hs => ?_⟩
    cases hs
    exact resolved_lt hwf (hwf.initial_lt i hi)

theorem WellFormed.bypassForwarders (hwf : a.WellFormed) {i : Nat} (hi : a.initial = some i) :
    a.bypassForwarders.2.WellFormed := by
  obtain ⟨current, heq, hcurrent⟩ := bypassForwarders_eq hwf hi
  rw [heq]
  refine hwf.mapStates (fun _ => rfl) (fun s t ht => ?_)
    (fun i s hs => bypassed_fits hwf (hwf.fits i s hs)) (fun s hs => ?_) hcurrent
  · obtain ⟨e, he, rfl⟩ := List.mem_map.mp ht
    exact ⟨e, he, rfl⟩
  · cases hs
    exact resolved_lt hwf (hwf.initial_lt i hi)

/-- Every state still leads to an end, those that are skipped from now on too. -/
theorem isLive_bypassed (hwf : a.WellFormed) {s : Nat} (hs : s < a.stateCount) (h : a.IsLive s)
    (initial current : Option Nat) : (a.mapStates a.bypassed initial current).IsLive s := by
  obtain ⟨e, state, hpath, hstate, hfinal⟩ := h
  rcases hpath.cases_head with rfl | ⟨t, hstep, hpath⟩
  · refine ⟨s, a.bypassed state, .refl, by rw [getElem?_mapStates, hstate, Option.map_some], ?_⟩
    simp only [isFinal, Bool.or_eq_true, beq_iff_eq] at hfinal ⊢
    exact hfinal.imp_right fun haction => by rw [bypassed, haction]; rfl
  · have hsource : a.states[s]? = some a.states[s] := Array.getElem?_eq_getElem hs
    obtain ⟨e', he', rfl⟩ := (mem_targets_iff hsource).mp hstep
    have htlt := (hwf.fits s _ hsource).target_lt e' he'
    obtain ⟨end_, state', hpath', hend⟩ :=
      (bypassContraction hwf initial current).isLive_place htlt ⟨e, state, hpath, hstate, hfinal⟩
    refine ⟨end_, state', hpath'.head ?_, hend⟩
    refine (mem_targets_iff (by rw [getElem?_mapStates, hsource, Option.map_some])).mpr ?_
    exact ⟨_, List.mem_map_of_mem he', rfl⟩

/-- To lead transitions past states changes nothing that is found. -/
theorem Trim.bypassForwarders {i : Nat} (h : a.Trim i) :
    a.bypassForwarders.2.Trim (a.resolved i) ∧
      a.FindsAlike i a.bypassForwarders.2 (a.resolved i) := by
  have hwf := h.wellFormed
  have hi := hwf.initial_lt i h.initial_eq
  have hwf' := hwf.bypassForwarders h.initial_eq
  obtain ⟨current, heq, _⟩ := bypassForwarders_eq hwf h.initial_eq
  rw [heq] at hwf' ⊢
  refine ⟨⟨hwf', h.kind_eq, rfl, fun s hs => ?_, fun s state' hstate' hgroup => ?_⟩,
    fun _ _ _ hgives => (bypassContraction hwf _ _).gives_firstWay hi hgives⟩
  · rw [stateCount_mapStates] at hs
    exact isLive_bypassed hwf hs (h.live s hs) _ _
  · rw [getElem?_mapStates] at hstate'
    obtain ⟨state, hstate, rfl⟩ := Option.map_eq_some_iff.mp hstate'
    have hs : s < a.stateCount := (Array.getElem?_eq_some_iff.mp hstate).1
    have hreached := ((bypassContraction hwf (some (a.resolved i)) current).isReached_place
      h.initial_eq hi rfl (h.grouped s state hstate hgroup)).2
    have hstays : a.resolved s = s := by
      refine resolved_of_leadsOnTo?_none hs (Option.eq_none_iff_forall_ne_some.mpr ?_)
      intro next hnext
      obtain ⟨other, hother, hplain, _⟩ := leadsOnTo?_eq_some hnext
      cases hstate.symm.trans hother
      simp only [State.isPlain, Bool.and_eq_true, Option.isNone_iff_eq_none] at hplain
      exact hgroup hplain.2
    rwa [show (bypassContraction hwf _ current).place s = s from hstays] at hreached

/-! All passes together. -/

/-- One round of the passes changes nothing that is found. -/
theorem Trim.simplifyOnce {i : Nat} (h : a.Trim i) :
    ∃ j, a.simplifyOnce.2.Trim j ∧ a.FindsAlike i a.simplifyOnce.2 j := by
  obtain ⟨j, htrim, hfinds⟩ := h.removeUnreachable
  have hmerged := htrim.mergeTransitions
  have hbypassed := hmerged.1.bypassForwarders
  have heq : a.simplifyOnce.2 = a.removeUnreachable.2.mergeTransitions.2.bypassForwarders.2 := by
    unfold Automaton.simplifyOnce
    simp only [htrim.removeDead]
  rw [heq]
  exact ⟨_, hbypassed.1, fun search start A hgives =>
    hbypassed.2 search start A (hmerged.2 search start A (hfinds search start A hgives))⟩

theorem Trim.simplifyFully (fuel : Nat) {i : Nat} (h : a.Trim i) :
    ∃ j, (simplifyFully fuel a).Trim j ∧ a.FindsAlike i (simplifyFully fuel a) j := by
  induction fuel generalizing a i with
  | zero => exact ⟨i, h, fun _ _ _ hgives => hgives⟩
  | succ fuel ih =>
    obtain ⟨j, htrim, hfinds⟩ := h.simplifyOnce
    unfold Automaton.simplifyFully
    split
    · rename_i b heq
      rw [heq] at htrim hfinds
      obtain ⟨k, htrim', hfinds'⟩ := ih htrim
      exact ⟨k, htrim', fun search start A hgives =>
        hfinds' search start A (hfinds search start A hgives)⟩
    · rename_i b heq
      rw [heq] at htrim hfinds
      exact ⟨j, htrim, hfinds⟩

/-- Simplifying a trim automaton succeeds, and changes nothing that is found. -/
theorem Trim.optimize {i : Nat} (h : a.Trim i) (nextId : UInt32) :
    ∃ b j, (a.optimize nextId).1 = (.ok (), b) ∧ b.Trim j ∧ a.FindsAlike i b j := by
  obtain ⟨j, htrim, hfinds⟩ := h.simplifyFully (2 * (a.stateCount + a.transitionCount) + 2)
  refine ⟨_, j, ?_, htrim, hfinds⟩
  unfold Automaton.optimize
  simp only [h.initial_eq, (checkIntegrity_iff a).mpr h.wellFormed, htrim.kind_eq, reduceCtorEq,
    decide_false, Bool.false_and, Bool.false_eq_true, if_false]
  rfl

end RegexEngine.Automaton
