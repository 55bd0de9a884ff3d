import RegexEngine.Proofs.Automaton.Shortcuts
import RegexEngine.Proofs.Automaton.Stops
import RegexEngine.Proofs.Automaton.Words

/-!
Simplifying keeps the language of every automaton, whatever its kind and whatever its states are
for. Each pass leaves an automaton that mirrors the one before: its states are some of those,
transitions from which no run leads on may be missing, and the others may lead to states from which
the same runs lead on. What states ask for and what transitions take is never changed, so a
deterministic automaton stays deterministic, and one that can be followed in lockstep stays so.
-/

namespace RegexEngine

/-- A state asks for the same as another one, and takes no other input in no other order. -/
structure State.Thins (s' s : State) : Prop where
  accepting_eq : s'.accepting = s.accepting
  marks_eq : s'.marks = s.marks
  action_eq : s'.action.isNone = s.action.isNone
  labels : (s'.transitions.map (·.label)).Sublist (s.transitions.map (·.label))

/-- A state without the number that it is told apart by. -/
def State.unnumbered (s : State) : State := { s with id := 0 }

theorem State.Thins.refl (s : State) : s.Thins s := ⟨rfl, rfl, rfl, .refl _⟩

theorem State.thins_of_unnumbered {s s' : State} (h : s'.unnumbered = s.unnumbered) :
    s'.Thins s where
  accepting_eq := (congrArg State.accepting h :)
  marks_eq := (congrArg State.marks h :)
  action_eq := (congrArg (fun s : State => s.action.isNone) h :)
  labels := by
    have heq : s'.transitions = s.transitions := (congrArg State.transitions h :)
    rw [heq]

theorem State.Thins.trans {s s' s'' : State} (h' : s''.Thins s') (h : s'.Thins s) : s''.Thins s :=
  ⟨h'.accepting_eq.trans h.accepting_eq, h'.marks_eq.trans h.marks_eq,
    h'.action_eq.trans h.action_eq, h'.labels.trans h.labels⟩

theorem State.Thins.exists_transition {s s' : State} (h : s'.Thins s) {t' : Transition}
    (ht' : t' ∈ s'.transitions) : ∃ t ∈ s.transitions, t.label = t'.label :=
  List.mem_map.mp (h.labels.subset (List.mem_map_of_mem ht'))

namespace Automaton

variable {a b : Automaton}

/-- The second automaton mirrors those states of the first that are met. -/
structure Mirrors (a b : Automaton) (Met : Nat → Prop) (place : Nat → Nat) : Prop where
  exists_state : ∀ s, Met s → ∃ state state', a.states[s]? = some state ∧
    b.states[place s]? = some state' ∧ state'.Thins state
  /-- Where a run leads on from a transition, one that is as short leads on from its image. -/
  keeps : ∀ s state state', Met s → a.states[s]? = some state → b.states[place s]? = some state' →
    ∀ t ∈ state.transitions, ∀ input n position, a.Leads input n t.target position →
      ∃ t' ∈ state'.transitions, t'.label = t.label ∧ ∃ u m, Met u ∧ t'.target = place u ∧
        m ≤ n ∧ a.Leads input m u position
  /-- Where a run leads on from what a transition mirrors, one leads on from the transition that it
  is the image of. -/
  adds_nothing : ∀ s state state', Met s → a.states[s]? = some state →
    b.states[place s]? = some state' → ∀ t' ∈ state'.transitions,
      ∃ t ∈ state.transitions, t'.label = t.label ∧ ∃ u, Met u ∧ t'.target = place u ∧
        ∀ input position, a.Wins input u position → a.Wins input t.target position
  onto : ∀ i < b.stateCount, ∃ s, Met s ∧ place s = i

namespace Mirrors

variable {Met : Nat → Prop} {place : Nat → Nat} {input : Array Char}

theorem isOpenAt_eq {s s' : Nat} {state state' : State} (hstate : a.states[s]? = some state)
    (hstate' : b.states[s']? = some state') (hthins : state'.Thins state) (position : Nat) :
    b.isOpenAt input position s' = a.isOpenAt input position s := by
  simp only [isOpenAt, hstate, hstate', hthins.marks_eq, hthins.action_eq]

theorem isEpsilon_congr {t t' : Transition} (h : t'.label = t.label) :
    t'.isEpsilon = t.isEpsilon := by
  rw [Transition.isEpsilon, h, Transition.isEpsilon]

theorem matchesChar_congr {t t' : Transition} (h : t'.label = t.label) (c : Char) :
    t'.matchesChar c = t.matchesChar c := by
  rw [Transition.matchesChar, h, Transition.matchesChar]

theorem wins_of_wins_place (h : Mirrors a b Met place) {n s position : Nat} (hs : Met s)
    (hrun : b.Leads input n (place s) position) : a.Wins input s position := by
  generalize hplace : place s = i at hrun
  induction hrun generalizing s with
  | accept hopen hstate' haccepting =>
    subst hplace
    obtain ⟨state, other, hstate, hother, hthins⟩ := h.exists_state s hs
    cases hstate'.symm.trans hother
    rw [isOpenAt_eq hstate hother hthins] at hopen
    exact ⟨0, .accept hopen hstate (hthins.accepting_eq ▸ haccepting)⟩
  | pass hopen ht _ ih =>
    subst hplace
    obtain ⟨state, state', hstate, hstate', hthins⟩ := h.exists_state s hs
    rw [isOpenAt_eq hstate hstate' hthins] at hopen
    obtain ⟨t', ht', hepsilon, rfl⟩ := (mem_epsilonTargets_iff hstate').mp ht
    obtain ⟨t, ht, hlabel, u, hu, htarget, hwins⟩ :=
      h.adds_nothing s state state' hs hstate hstate' t' ht'
    obtain ⟨n, hn⟩ := hwins _ _ (ih hu htarget.symm)
    rw [isEpsilon_congr hlabel] at hepsilon
    exact ⟨n + 1, .pass hopen ((mem_epsilonTargets_iff hstate).mpr ⟨t, ht, hepsilon, rfl⟩) hn⟩
  | take hopen hc ht _ ih =>
    subst hplace
    obtain ⟨state, state', hstate, hstate', hthins⟩ := h.exists_state s hs
    rw [isOpenAt_eq hstate hstate' hthins] at hopen
    obtain ⟨t', ht', htakes, rfl⟩ := (mem_targetsOn_singleton_iff hstate').mp ht
    obtain ⟨t, ht, hlabel, u, hu, htarget, hwins⟩ :=
      h.adds_nothing s state state' hs hstate hstate' t' ht'
    obtain ⟨n, hn⟩ := hwins _ _ (ih hu htarget.symm)
    rw [matchesChar_congr hlabel] at htakes
    exact ⟨n + 1, .take hopen hc ((mem_targetsOn_singleton_iff hstate).mpr ⟨t, ht, htakes, rfl⟩) hn⟩

theorem wins_place_of_wins (h : Mirrors a b Met place) {n s position : Nat} (hs : Met s)
    (hrun : a.Leads input n s position) : b.Wins input (place s) position := by
  -- the run that `keeps` gives may be shorter by more than one step
  induction n using Nat.strong_induction_on generalizing s position with
  | _ n ih =>
    obtain ⟨state, state', hstate, hstate', hthins⟩ := h.exists_state s hs
    have hopens : ∀ position, b.isOpenAt input position (place s) = a.isOpenAt input position s :=
      isOpenAt_eq hstate hstate' hthins
    cases hrun with
    | accept hopen hother haccepting =>
      cases hstate.symm.trans hother
      rw [← hopens] at hopen
      exact ⟨0, .accept hopen hstate' (hthins.accepting_eq.trans haccepting)⟩
    | @pass n _ _ _ hopen htarget hrest =>
      rw [← hopens] at hopen
      obtain ⟨t, ht, hepsilon, rfl⟩ := (mem_epsilonTargets_iff hstate).mp htarget
      obtain ⟨t', ht', hlabel, u, m, hu, himage, hm, hn⟩ :=
        h.keeps s state state' hs hstate hstate' t ht _ _ _ hrest
      obtain ⟨k, hk⟩ := ih m (Nat.lt_succ_of_le hm) hu hn
      rw [← isEpsilon_congr hlabel] at hepsilon
      rw [← himage] at hk
      exact ⟨k + 1, .pass hopen ((mem_epsilonTargets_iff hstate').mpr ⟨t', ht', hepsilon, rfl⟩) hk⟩
    | @take n _ _ _ c hopen hc htarget hrest =>
      rw [← hopens] at hopen
      obtain ⟨t, ht, htakes, rfl⟩ := (mem_targetsOn_singleton_iff hstate).mp htarget
      obtain ⟨t', ht', hlabel, u, m, hu, himage, hm, hn⟩ :=
        h.keeps s state state' hs hstate hstate' t ht _ _ _ hrest
      obtain ⟨k, hk⟩ := ih m (Nat.lt_succ_of_le hm) hu hn
      rw [← matchesChar_congr hlabel] at htakes
      rw [← himage] at hk
      have hmem := (mem_targetsOn_singleton_iff hstate').mpr ⟨t', ht', htakes, rfl⟩
      exact ⟨k + 1, .take hopen hc hmem hk⟩

theorem wins_iff (h : Mirrors a b Met place) {s : Nat} (hs : Met s) (position : Nat) :
    b.Wins input (place s) position ↔ a.Wins input s position :=
  ⟨fun ⟨_, hrun⟩ => h.wins_of_wins_place hs hrun, fun ⟨_, hrun⟩ => h.wins_place_of_wins hs hrun⟩

theorem accepts_eq (h : Mirrors a b Met place) {i u : Nat} (hinitial : a.initial = some i)
    (hu : Met u) (hinitial' : b.initial = some (place u))
    (hsame : ∀ input, a.Wins input u 0 ↔ a.Wins input i 0) (input : Array Char) :
    b.accepts input = a.accepts input := by
  rw [Bool.eq_iff_iff, accepts_iff, accepts_iff]
  simp only [hinitial, hinitial', Option.some.injEq, exists_eq_left']
  rw [h.wins_iff hu, hsame]

theorem exists_thinned (h : Mirrors a b Met place) {s' : State} (hs' : s' ∈ b.states) :
    ∃ s ∈ a.states, s'.Thins s := by
  obtain ⟨i, hi⟩ := Array.mem_iff_getElem?.mp hs'
  obtain ⟨s, hs, rfl⟩ := h.onto i (Array.getElem?_eq_some_iff.mp hi).1
  obtain ⟨state, state', hstate, hstate', hthins⟩ := h.exists_state s hs
  cases hi.symm.trans hstate'
  exact ⟨state, Array.mem_of_getElem? hstate, hthins⟩

end Mirrors

/-- What a simplification leaves of an automaton. -/
structure Restates (a b : Automaton) : Prop where
  wellFormed : b.WellFormed
  kind_eq : b.kind = a.kind
  exists_initial : ∃ i, b.initial = some i
  accepts_eq : ∀ input, b.accepts input = a.accepts input
  exists_thinned : ∀ s' ∈ b.states, ∃ s ∈ a.states, s'.Thins s

namespace Restates

theorem refl (hwf : a.WellFormed) {i : Nat} (hi : a.initial = some i) : Restates a a :=
  ⟨hwf, rfl, ⟨i, hi⟩, fun _ => rfl, fun s hs => ⟨s, hs, .refl s⟩⟩

theorem trans {c : Automaton} (h : Restates a b) (h' : Restates b c) : Restates a c := by
  refine ⟨h'.wellFormed, h'.kind_eq.trans h.kind_eq, h'.exists_initial,
    fun input => (h'.accepts_eq input).trans (h.accepts_eq input), fun s'' hs'' => ?_⟩
  obtain ⟨s', hs', hthins'⟩ := h'.exists_thinned s'' hs''
  obtain ⟨s, hs, hthins⟩ := h.exists_thinned s' hs'
  exact ⟨s, hs, hthins'.trans hthins⟩

theorem exists_state (h : Restates a b) {i : Nat} {state' : State}
    (hstate' : b.states[i]? = some state') :
    ∃ (s : Nat) (state : State), a.states[s]? = some state ∧ state'.Thins state := by
  obtain ⟨state, hmem, hthins⟩ := h.exists_thinned state' (Array.mem_of_getElem? hstate')
  obtain ⟨s, hs⟩ := Array.mem_iff_getElem?.mp hmem
  exact ⟨s, state, hs, hthins⟩

theorem allOpen (h : Restates a b) (hopen : a.AllOpen) : b.AllOpen := by
  intro i state' hstate'
  obtain ⟨s, state, hs, hthins⟩ := h.exists_state hstate'
  obtain ⟨haction, hmarks⟩ := hopen s state hs
  rw [hthins.marks_eq]
  exact ⟨Option.isNone_iff_eq_none.mp (by rw [hthins.action_eq, haction]; rfl), hmarks⟩

theorem supportsLockstep (h : Restates a b) (hsupported : a.supportsLockstep = true) :
    b.supportsLockstep = true := by
  unfold Automaton.supportsLockstep
  rw [Bool.and_eq_true, Bool.not_eq_true', hasActions, Array.any_eq_false', List.all_eq_true]
  refine ⟨fun s' hs' => ?_, fun t' ht' => ?_⟩
  · obtain ⟨s, hs, hthins⟩ := h.exists_thinned s' hs'
    obtain ⟨i, hi⟩ := Array.mem_iff_getElem?.mp hs
    have hnone := action_eq_none (hasActions_eq_false hsupported) hi
    rw [Option.not_isSome_iff_eq_none, ← Option.isNone_iff_eq_none, hthins.action_eq, hnone]
    rfl
  · obtain ⟨s', hs', ht'⟩ := List.mem_flatMap.mp ht'
    obtain ⟨s, hs, hthins⟩ := h.exists_thinned s' (Array.mem_toList_iff.mp hs')
    obtain ⟨i, hi⟩ := Array.mem_iff_getElem?.mp hs
    obtain ⟨t, ht, hlabel⟩ := hthins.exists_transition ht'
    rw [← hlabel]
    exact label_isSingle hsupported hi ht

theorem deterministic (h : Restates a b) (hdeterministic : a.Deterministic) : b.Deterministic := by
  refine ⟨h.allOpen hdeterministic.allOpen, fun i state' hstate' t' ht' => ?_,
    fun i state' hstate' => ?_⟩
  · obtain ⟨s, state, hs, hthins⟩ := h.exists_state hstate'
    obtain ⟨t, ht, hlabel⟩ := hthins.exists_transition ht'
    have hranges := hdeterministic.ranges s state hs t ht
    rwa [Transition.ranges?, hlabel] at hranges
  · obtain ⟨s, state, hs, hthins⟩ := h.exists_state hstate'
    have hlabels : (state.transitions.map (·.label)).Pairwise fun label label' =>
        ∀ c, ¬(label.any (·.matcher.matchesChar c) = true ∧
          label'.any (·.matcher.matchesChar c) = true) :=
      List.pairwise_map.mpr (hdeterministic.disjoint s state hs)
    exact List.pairwise_map.mp (hlabels.sublist hthins.labels)

end Restates

/-! Numbers and flags count for nothing. -/

theorem mirrors_of_unnumbered (hwf : a.WellFormed)
    (hsame : b.states.map State.unnumbered = a.states.map State.unnumbered) :
    Mirrors a b (· < a.stateCount) id := by
  have himage (s : Nat) :
      b.states[s]?.map State.unnumbered = a.states[s]?.map State.unnumbered := by
    simpa using congrArg (·[s]?) hsame
  have htransitions {s : Nat} {state state' : State} (hstate : a.states[s]? = some state)
      (hstate' : b.states[s]? = some state') : state'.transitions = state.transitions := by
    have heq := himage s
    rw [hstate, hstate'] at heq
    exact (congrArg State.transitions (Option.some.inj heq) :)
  refine ⟨fun s hs => ?_, fun s state state' _ hstate hstate' t ht input n position hrun => ?_,
    fun s state state' _ hstate hstate' t ht => ?_, fun i hi => ⟨i, ?_, rfl⟩⟩
  · have hstate : a.states[s]? = some a.states[s] := Array.getElem?_eq_getElem hs
    have heq := himage s
    rw [hstate] at heq
    obtain ⟨state', hstate', hequal⟩ := Option.map_eq_some_iff.mp heq
    exact ⟨_, state', hstate, hstate', State.thins_of_unnumbered hequal⟩
  · rw [htransitions hstate hstate']
    exact ⟨t, ht, rfl, t.target, n, (hwf.fits s state hstate).target_lt t ht, rfl, Nat.le_refl n,
      hrun⟩
  · rw [htransitions hstate hstate'] at ht
    exact ⟨t, ht, rfl, t.target, (hwf.fits s state hstate).target_lt t ht, rfl,
      fun _ _ hrun => hrun⟩
  · have hcount : b.stateCount = a.stateCount := by
      simpa [stateCount] using congrArg Array.size hsame
    rwa [← hcount]

/-- Automata that differ in the numbers of their states and in their flags restate each other. -/
theorem restates_of_unnumbered (hwf : a.WellFormed) (hwf' : b.WellFormed) {i : Nat}
    (hi : a.initial = some i) (hi' : b.initial = some i) (hkind : b.kind = a.kind)
    (hsame : b.states.map State.unnumbered = a.states.map State.unnumbered) : Restates a b := by
  have hmirrors := mirrors_of_unnumbered hwf hsame
  exact ⟨hwf', hkind, ⟨i, hi'⟩,
    hmirrors.accepts_eq hi (hwf.initial_lt i hi) hi' fun _ => .rfl,
    fun _ => hmirrors.exists_thinned⟩

theorem WellFormed.withFlags (h : a.WellFormed) (flags : Flags) :
    WellFormed { a with flags := flags } :=
  ⟨h.initial_lt, h.current_lt, h.fits, h.distinct, h.takes_input⟩

theorem restates_withFlags (hwf : a.WellFormed) {i : Nat} (hi : a.initial = some i)
    (flags : Flags) : Restates a { a with flags := flags } :=
  restates_of_unnumbered hwf (hwf.withFlags flags) hi hi rfl rfl

/-! States that are left out. -/

/-- Of what does not depend on the ends of transitions, moving a state leaves a part. -/
theorem map_moved_sublist {α : Type} {f : Transition → α}
    (hf : ∀ (t : Transition) (source target : Nat), f { t with source, target } = f t)
    (kept : List Nat) (i : Nat) (state : State) :
    ((movedState kept i state).transitions.map f).Sublist (state.transitions.map f) := by
  unfold movedState
  dsimp only
  induction state.transitions with
  | nil => exact .slnil
  | cons t rest ih =>
    rw [List.filterMap_cons, List.map_cons]
    cases kept.idxOf? t.target with
    | none => exact ih.cons _
    | some target =>
      rw [Option.map_some, List.map_cons, hf]
      exact ih.cons_cons _

theorem movedState_thins (kept : List Nat) (i : Nat) (state : State) :
    (movedState kept i state).Thins state :=
  ⟨rfl, rfl, Option.isNone_map, map_moved_sublist (fun _ _ _ => rfl) kept i state⟩

/-- To keep some states mirrors them, if runs lead on to kept states only. -/
theorem mirrors_retain {keep : Array Bool}
    (hwins : ∀ s ∈ a.keptStates keep, ∀ t ∈ a.targets s,
      ∀ input position, a.Wins input t position → t ∈ a.keptStates keep) :
    Mirrors a (a.retain keep) (· ∈ a.keptStates keep) fun s => (a.keptStates keep).idxOf s where
  exists_state s hs := by
    have hlt : s < a.states.size := (mem_keptStates.mp hs).1
    have hstate : a.states[s]? = some a.states[s] := Array.getElem?_eq_getElem hlt
    exact ⟨_, _, hstate, getElem?_retain.mpr ⟨s, _, getElem?_idxOf hs, hstate, rfl⟩,
      movedState_thins ..⟩
  keeps s state state' hs hstate hstate' t ht input n position hrun := by
    obtain ⟨u, other, hu, hother, rfl⟩ := getElem?_retain.mp hstate'
    cases (getElem?_idxOf hs).symm.trans hu
    cases hstate.symm.trans hother
    have hkept := hwins s hs t.target ((mem_targets_iff hstate).mpr ⟨t, ht, rfl⟩) input position
      ⟨n, hrun⟩
    exact ⟨_, mem_movedState_iff.mpr ⟨t, ht, hkept, rfl⟩, rfl, t.target, n, hkept, rfl,
      Nat.le_refl n, hrun⟩
  adds_nothing s state state' hs hstate hstate' t' ht' := by
    obtain ⟨u, other, hu, hother, rfl⟩ := getElem?_retain.mp hstate'
    cases (getElem?_idxOf hs).symm.trans hu
    cases hstate.symm.trans hother
    obtain ⟨t, ht, hkept, rfl⟩ := mem_movedState_iff.mp ht'
    exact ⟨t, ht, rfl, t.target, hkept, rfl, fun _ _ hrun => hrun⟩
  onto i hi := by
    rw [stateCount_retain] at hi
    exact ⟨(a.keptStates keep)[i], List.getElem_mem hi, nodup_keptStates.idxOf_getElem i hi⟩

theorem restates_retainOnly (hwf : a.WellFormed) {i : Nat} (hi : a.initial = some i)
    {kept : List Nat} (hkept : i ∈ kept)
    (hbodies : a.KeepsBodies kept)
    (hwins : ∀ s ∈ kept, ∀ t ∈ a.targets s, ∀ input position, a.Wins input t position → t ∈ kept) :
    Restates a (a.retainOnly kept).2 := by
  unfold retainOnly
  dsimp only
  split
  · exact .refl hwf hi
  · have hmem {s : Nat} : s ∈ a.keptStates (Graph.mark a.stateCount kept) ↔
        s < a.stateCount ∧ s ∈ kept := mem_keptStates_mark
    have hfirst := hmem.mpr ⟨hwf.initial_lt i hi, hkept⟩
    have hclosed (s : Nat) (hs : s ∈ a.keptStates (Graph.mark a.stateCount kept)) (t : Nat)
        (ht : t ∈ a.targets s) (input : Array Char) (position : Nat)
        (h : a.Wins input t position) : t ∈ a.keptStates (Graph.mark a.stateCount kept) := by
      obtain ⟨n, hrun⟩ := h
      exact hmem.mpr
        ⟨isOpenAt_lt hrun.isOpen, hwins s (hmem.mp hs).2 t ht input position ⟨n, hrun⟩⟩
    have hmirrors := mirrors_retain hclosed
    have hinitial : (a.retain (Graph.mark a.stateCount kept)).initial =
        some ((a.keptStates (Graph.mark a.stateCount kept)).idxOf i) := by
      simp [retain_eq, hi, idxOf?_of_mem hfirst]
    refine ⟨hwf.retain fun s hs state hstate body hbody => ?_, ?_, ⟨_, hinitial⟩,
      hmirrors.accepts_eq hi hfirst hinitial fun _ => .rfl, fun _ => hmirrors.exists_thinned⟩
    · exact hmem.mpr ⟨(hwf.fits s state hstate).body_lt body hbody,
        hbodies s state hstate body hbody (hmem.mp hs).2⟩
    · rw [retain_eq]

/-- To remove what cannot be reached keeps the language. -/
theorem restates_removeUnreachable (hwf : a.WellFormed) {i : Nat} (hi : a.initial = some i) :
    Restates a a.removeUnreachable.2 := by
  apply restates_retainOnly hwf hi _ hwf.keepsBodies_reachable
  · intro s hs t ht _ _ _
    obtain ⟨j, hj, hpath⟩ := (mem_reachable_iff hwf).mp hs
    exact (mem_reachable_iff hwf).mpr ⟨j, hj, hpath.tail (mem_targets_mem_successors ht)⟩
  · exact (mem_reachable_iff hwf).mpr ⟨i, hi, .refl⟩

theorem Leads.isLive {input : Array Char} {n s position : Nat} (h : a.Leads input n s position) :
    a.IsLive s := by
  induction h with
  | accept _ hstate haccepting => exact ⟨_, _, .refl, hstate, by simp [isFinal, haccepting]⟩
  | @pass n s t position hopen ht _ ih =>
    obtain ⟨e, state, hpath, hend⟩ := ih
    have hlt := isOpenAt_lt hopen
    have hstate : a.states[s]? = some a.states[s] := Array.getElem?_eq_getElem hlt
    obtain ⟨edge, hedge, _, rfl⟩ := (mem_epsilonTargets_iff hstate).mp ht
    exact ⟨e, state, hpath.head ((mem_targets_iff hstate).mpr ⟨edge, hedge, rfl⟩), hend⟩
  | @take n s t position c hopen _ ht _ ih =>
    obtain ⟨e, state, hpath, hend⟩ := ih
    have hlt := isOpenAt_lt hopen
    have hstate : a.states[s]? = some a.states[s] := Array.getElem?_eq_getElem hlt
    obtain ⟨edge, hedge, _, rfl⟩ := (mem_targetsOn_singleton_iff hstate).mp ht
    exact ⟨e, state, hpath.head ((mem_targets_iff hstate).mpr ⟨edge, hedge, rfl⟩), hend⟩

/-- To remove what leads to no end keeps the language. -/
theorem restates_removeDead (hwf : a.WellFormed) {i : Nat} (hi : a.initial = some i) :
    Restates a a.removeDead.2 := by
  rw [removeDead_eq]
  apply restates_retainOnly hwf hi (List.mem_append_left _ (by simp [hi]))
    hwf.keepsBodies_livePart
  rintro s _ t _ input position ⟨n, hrun⟩
  exact hwf.mem_livePart (isOpenAt_lt hrun.isOpen) hrun.isLive

/-! Transitions that are left out or led elsewhere. -/

/-- To change transitions in place mirrors all states, if runs lead on from the same ones. -/
theorem mirrors_mapStates {f : State → State} {initial current : Option Nat}
    (hthins : ∀ state, (f state).Thins state)
    (hkeeps : ∀ (s : Nat) (state : State), a.states[s]? = some state → ∀ t ∈ state.transitions,
      ∀ input n position, a.Leads input n t.target position →
        ∃ t' ∈ (f state).transitions, t'.label = t.label ∧ ∃ m ≤ n,
          a.Leads input m t'.target position)
    (hnothing : ∀ (s : Nat) (state : State), a.states[s]? = some state →
      ∀ t' ∈ (f state).transitions, ∃ t ∈ state.transitions, t'.label = t.label ∧ t'.target < a.stateCount ∧
        ∀ input position, a.Wins input t'.target position → a.Wins input t.target position) :
    Mirrors a (a.mapStates f initial current) (· < a.stateCount) id where
  exists_state s hs := by
    have hstate : a.states[s]? = some a.states[s] := Array.getElem?_eq_getElem hs
    exact ⟨_, _, hstate, by rw [getElem?_mapStates, id, hstate, Option.map_some], hthins _⟩
  keeps s state state' _ hstate hstate' t ht input n position hrun := by
    rw [getElem?_mapStates, id, hstate, Option.map_some, Option.some.injEq] at hstate'
    subst hstate'
    obtain ⟨t', ht', hlabel, m, hm, hrun'⟩ := hkeeps s state hstate t ht input n position hrun
    exact ⟨t', ht', hlabel, t'.target, m, isOpenAt_lt hrun'.isOpen, rfl, hm, hrun'⟩
  adds_nothing s state state' _ hstate hstate' t' ht' := by
    rw [getElem?_mapStates, id, hstate, Option.map_some, Option.some.injEq] at hstate'
    subst hstate'
    obtain ⟨t, ht, hlabel, hlt, hwins⟩ := hnothing s state hstate t' ht'
    exact ⟨t, ht, hlabel, t'.target, hlt, rfl, hwins⟩
  onto i hi := ⟨i, by rwa [stateCount_mapStates] at hi, rfl⟩

theorem merged_thins (s : State) : (merged s).Thins s := by
  have himitates := merged_imitates s
  refine ⟨himitates.accepting_eq, himitates.marks_eq, ?_, (merged_transitions_sublist s).map _⟩
  rw [himitates.action_eq, Option.isNone_map]

/-- To merge transitions keeps the language. -/
theorem restates_mergeTransitions (hwf : a.WellFormed) {i : Nat} (hi : a.initial = some i) :
    Restates a a.mergeTransitions.2 := by
  have hmirrors : Mirrors a (a.mapStates merged a.initial a.current) (· < a.stateCount) id := by
    refine mirrors_mapStates merged_thins (fun s state hstate t ht input n position hrun => ?_)
      fun s state hstate t' ht' => ?_
    · obtain ⟨t', ht', hedge⟩ := (merged_imitates state).thinned.exists_imitating ht
      refine ⟨t', by simpa using ht', hedge.label_eq, n, Nat.le_refl n, ?_⟩
      rwa [hedge.target_eq]
    · have ht := (merged_transitions_sublist state).subset ht'
      exact ⟨t', ht, rfl, (hwf.fits s state hstate).target_lt t' ht, fun _ _ hrun => hrun⟩
  exact ⟨hwf.mergeTransitions, rfl, ⟨i, hi⟩,
    hmirrors.accepts_eq hi (hwf.initial_lt i hi) hi fun _ => .rfl,
    fun _ => hmirrors.exists_thinned⟩

theorem leads_of_onlyLeadsTo {s next : Nat} {state : State} (hstate : a.states[s]? = some state)
    (hleads : state.OnlyLeadsTo next) {input : Array Char} {n position : Nat}
    (h : a.Leads input n s position) : ∃ m, n = m + 1 ∧ a.Leads input m next position := by
  obtain ⟨hplain, t, htransitions, hepsilon, rfl⟩ := hleads
  simp only [State.isPlain, Bool.and_eq_true, Bool.not_eq_true'] at hplain
  cases h with
  | accept _ hother haccepting =>
    cases hstate.symm.trans hother
    cases hplain.1.1.1.symm.trans haccepting
  | pass _ ht hrest =>
    obtain ⟨e, he, _, rfl⟩ := (mem_epsilonTargets_iff hstate).mp ht
    rw [htransitions, List.mem_singleton] at he
    exact ⟨_, rfl, he ▸ hrest⟩
  | take _ _ ht _ =>
    obtain ⟨e, he, htakes, _⟩ := (mem_targetsOn_singleton_iff hstate).mp ht
    rw [htransitions, List.mem_singleton] at he
    rw [he, Transition.matchesChar, Option.isNone_iff_eq_none.mp hepsilon] at htakes
    cases htakes

theorem wins_of_onlyLeadsTo {s next : Nat} {state : State} (hstate : a.states[s]? = some state)
    (hleads : state.OnlyLeadsTo next) {input : Array Char} {position : Nat}
    (h : a.Wins input next position) : a.Wins input s position := by
  obtain ⟨hplain, t, htransitions, hepsilon, rfl⟩ := hleads
  simp only [State.isPlain, Bool.and_eq_true, Bool.not_eq_true', Option.isNone_iff_eq_none]
    at hplain
  have hmarks : state.marks = .empty := congrArg Marks.mk (eq_of_beq hplain.1.1.2)
  have hholds : Marks.empty.holdAt input position = true := by
    simp [Marks.holdAt, show Marks.empty.hasAssertion = false by decide]
  have hopen : a.isOpenAt input position s = true := by
    simp [isOpenAt, hstate, hmarks, hholds, hplain.1.2]
  obtain ⟨n, hrun⟩ := h
  have htarget := (mem_epsilonTargets_iff hstate).mpr
    ⟨t, htransitions ▸ List.mem_singleton_self t, hepsilon, rfl⟩
  exact ⟨n + 1, .pass hopen htarget hrun⟩

theorem EndsAfter.leads {k s e : Nat} (h : a.EndsAfter k s e) {input : Array Char}
    {n position : Nat} (hrun : a.Leads input n s position) :
    ∃ m ≤ n, a.Leads input m e position := by
  induction h generalizing n with
  | here _ => exact ⟨n, Nat.le_refl n, hrun⟩
  | step hnext _ ih =>
    obtain ⟨state, hstate, hleads⟩ := leadsOnTo?_eq_some hnext
    obtain ⟨m, rfl, hrest⟩ := leads_of_onlyLeadsTo hstate hleads hrun
    obtain ⟨l, hl, hend⟩ := ih hrest
    exact ⟨l, by omega, hend⟩

theorem EndsAfter.wins {k s e : Nat} (h : a.EndsAfter k s e) {input : Array Char} {position : Nat}
    (hrun : a.Wins input e position) : a.Wins input s position := by
  induction h with
  | here _ => exact hrun
  | step hnext _ ih =>
    obtain ⟨state, hstate, hleads⟩ := leadsOnTo?_eq_some hnext
    exact wins_of_onlyLeadsTo hstate hleads (ih hrun)

/-- The runs from where a transition is led are those from where it went, and no longer. -/
theorem leads_resolved {s : Nat} (hs : s < a.stateCount) {input : Array Char} {n position : Nat}
    (hrun : a.Leads input n s position) : ∃ m ≤ n, a.Leads input m (a.resolved s) position := by
  rw [resolved_eq hs]
  rcases resolveForward_cases s (a.stateCount + 1) s with heq | ⟨k, _, hends⟩
  · rw [heq]
    exact ⟨n, Nat.le_refl n, hrun⟩
  · exact hends.leads hrun

theorem wins_of_wins_resolved {s : Nat} (hs : s < a.stateCount) {input : Array Char}
    {position : Nat} (h : a.Wins input (a.resolved s) position) : a.Wins input s position := by
  rw [resolved_eq hs] at h
  rcases resolveForward_cases s (a.stateCount + 1) s with heq | ⟨k, _, hends⟩
  · rwa [heq] at h
  · exact hends.wins h

theorem bypassed_thins (s : State) : (a.bypassed s).Thins s := by
  refine ⟨rfl, rfl, Option.isNone_map, ?_⟩
  simp [bypassed, Function.comp_def]

/-- To lead transitions past states that only lead on keeps the language. -/
theorem restates_bypassForwarders (hwf : a.WellFormed) {i : Nat} (hi : a.initial = some i) :
    Restates a a.bypassForwarders.2 := by
  have hlt := hwf.initial_lt i hi
  have hwf' := hwf.bypassForwarders hi
  obtain ⟨current, heq, _⟩ := bypassForwarders_eq hwf hi
  rw [heq] at hwf' ⊢
  have hmirrors : Mirrors a (a.mapStates a.bypassed (some (a.resolved i)) current)
      (· < a.stateCount) id := by
    refine mirrors_mapStates bypassed_thins (fun s state hstate t ht input n position hrun => ?_)
      fun s state hstate t' ht' => ?_
    · obtain ⟨m, hm, hrun'⟩ := leads_resolved ((hwf.fits s state hstate).target_lt t ht) hrun
      exact ⟨_, List.mem_map_of_mem ht, rfl, m, hm, hrun'⟩
    · obtain ⟨t, ht, rfl⟩ := List.mem_map.mp ht'
      have htarget := (hwf.fits s state hstate).target_lt t ht
      exact ⟨t, ht, rfl, resolved_lt hwf htarget, fun _ _ => wins_of_wins_resolved htarget⟩
  refine ⟨hwf', rfl, ⟨_, rfl⟩, hmirrors.accepts_eq hi (resolved_lt hwf hlt) rfl fun input => ?_,
    fun _ => hmirrors.exists_thinned⟩
  refine ⟨wins_of_wins_resolved hlt, fun ⟨n, hrun⟩ => ?_⟩
  obtain ⟨m, _, hrun'⟩ := leads_resolved hlt hrun
  exact ⟨m, hrun'⟩

/-! All passes together. -/

theorem restates_simplifyOnce (hwf : a.WellFormed) {i : Nat} (hi : a.initial = some i) :
    Restates a a.simplifyOnce.2 := by
  have hfirst := restates_removeUnreachable hwf hi
  obtain ⟨j, hj⟩ := hfirst.exists_initial
  have hsecond := restates_removeDead hfirst.wellFormed hj
  obtain ⟨k, hk⟩ := hsecond.exists_initial
  have hthird := restates_mergeTransitions hsecond.wellFormed hk
  obtain ⟨l, hl⟩ := hthird.exists_initial
  have hfourth := restates_bypassForwarders hthird.wellFormed hl
  exact ((hfirst.trans hsecond).trans hthird).trans hfourth

/-- However often the passes are repeated, what each round keeps is kept. -/
theorem simplifyFully_keeps {P : Automaton → Prop}
    (hround : ∀ (b : Automaton) (i : Nat), b.WellFormed → b.initial = some i → P b →
      P b.simplifyOnce.2) (fuel : Nat) (hwf : a.WellFormed) {i : Nat} (hi : a.initial = some i)
    (h : P a) : P (simplifyFully fuel a) := by
  induction fuel generalizing a i with
  | zero => exact h
  | succ fuel ih =>
    have honce := restates_simplifyOnce hwf hi
    obtain ⟨j, hj⟩ := honce.exists_initial
    have hkept := hround a i hwf hi h
    unfold simplifyFully
    split
    · rename_i b heq
      rw [heq] at honce hj hkept
      exact ih honce.wellFormed hj hkept
    · rename_i b heq
      rw [heq] at hkept
      exact hkept

theorem restates_simplifyFully (fuel : Nat) (hwf : a.WellFormed) {i : Nat}
    (hi : a.initial = some i) : Restates a (simplifyFully fuel a) :=
  simplifyFully_keeps (fun _ _ hwf hi h => h.trans (restates_simplifyOnce hwf hi)) fuel hwf hi
    (.refl hwf hi)

/-- Simplifying a nondeterministic automaton is to repeat the passes. -/
theorem optimize_run_eq (hwf : a.WellFormed) {i : Nat} (hi : a.initial = some i)
    (hkind : a.kind = .nfa) (nextId : UInt32) :
    a.optimize.run nextId =
      ((.ok (), simplifyFully (2 * (a.stateCount + a.transitionCount) + 2) a), nextId) := by
  have hrestates := restates_simplifyFully (2 * (a.stateCount + a.transitionCount) + 2) hwf hi
  unfold optimize
  simp only [hi, (checkIntegrity_iff a).mpr hwf, hrestates.kind_eq.trans hkind, reduceCtorEq,
    decide_false, Bool.false_and, Bool.false_eq_true, if_false]
  rfl

/-- Simplifying a nondeterministic automaton succeeds and keeps the language. -/
theorem exists_optimize (hwf : a.WellFormed) {i : Nat} (hi : a.initial = some i)
    (hkind : a.kind = .nfa) (nextId : UInt32) :
    ∃ b, a.optimize.run nextId = ((.ok (), b), nextId) ∧ Restates a b :=
  ⟨_, optimize_run_eq hwf hi hkind nextId, restates_simplifyFully _ hwf hi⟩

end Automaton

end RegexEngine
