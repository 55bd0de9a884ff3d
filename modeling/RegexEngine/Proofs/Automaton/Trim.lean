import RegexEngine.Proofs.Graph
import RegexEngine.Proofs.Search.Contraction

/-!
Automata without loose parts, and the passes that find nothing to remove in them but what is never
entered. From every state of a trim automaton one can be reached where something ends, and what
opens or closes a group can be reached from the initial state. Compiled automata are trim, and a
contraction keeps them so. To keep the states that can be reached is a contraction that renames
states; to remove those that lead nowhere changes nothing.
-/

namespace RegexEngine

namespace Automaton

variable {a b : Automaton}

/-- A state from which one can be reached, over transitions, where a match or a body can end. -/
def IsLive (a : Automaton) (s : Nat) : Prop :=
  ∃ e state, Relation.ReflTransGen (fun u v => v ∈ a.targets u) s e ∧
    a.states[e]? = some state ∧ isFinal state = true

/-- A state that can be reached from the initial one, over transitions and bodies. -/
def IsReached (a : Automaton) (s : Nat) : Prop :=
  ∃ i, a.initial = some i ∧ Relation.ReflTransGen (fun u v => v ∈ a.successors u) i s

/-- A well-formed nondeterministic automaton without loose parts. -/
structure Trim (a : Automaton) (initial : Nat) : Prop where
  wellFormed : a.WellFormed
  kind_eq : a.kind = .nfa
  initial_eq : a.initial = some initial
  live : ∀ s < a.stateCount, a.IsLive s
  grouped : ∀ s state, a.states[s]? = some state → state.groupIndex ≠ none → a.IsReached s

/-- What a search from a place of the first automaton finds, one from a place of the second finds
too. -/
def FindsAlike (a : Automaton) (initial : Nat) (b : Automaton) (initial' : Nat) : Prop :=
  ∀ (search : Search) (start : Nat) (A : Attempt),
    a.code.Gives search (a.firstWay initial start) A →
      b.code.Gives search (b.firstWay initial' start) A

theorem mem_targets_iff {s t : Nat} {state : State} (hstate : a.states[s]? = some state) :
    t ∈ a.targets s ↔ ∃ e ∈ state.transitions, e.target = t := by
  simp [targets, hstate]

theorem successors_eq {s : Nat} {state : State} (hstate : a.states[s]? = some state) :
    a.successors s = state.successors := by
  simp [successors, hstate]

theorem WellFormed.successor_lt (hwf : a.WellFormed) {s t : Nat} {state : State}
    (hstate : a.states[s]? = some state) (ht : t ∈ state.successors) : t < a.stateCount := by
  have hfits := hwf.fits s state hstate
  rcases List.mem_append.mp ht with ht | ht
  · obtain ⟨e, he, rfl⟩ := List.mem_map.mp ht
    exact hfits.target_lt e he
  · exact hfits.body_lt t (by simpa using ht)

theorem WellFormed.exists_state (hwf : a.WellFormed) {s : Nat} (hs : s < a.stateCount) :
    ∃ state, a.states[s]? = some state ∧ ∀ t ∈ state.successors, t < a.stateCount := by
  have hstate : a.states[s]? = some a.states[s] := Array.getElem?_eq_getElem hs
  exact ⟨_, hstate, fun t ht => hwf.successor_lt hstate ht⟩

theorem mem_targets_mem_successors {s t : Nat} (h : t ∈ a.targets s) : t ∈ a.successors s := by
  cases hstate : a.states[s]? with
  | none => simp [targets, hstate] at h
  | some state =>
    obtain ⟨e, he, rfl⟩ := (mem_targets_iff hstate).mp h
    rw [successors_eq hstate]
    exact Contraction.mem_successors_target he

/-- The reachable states are those that can be reached. -/
theorem mem_reachable_iff (hwf : a.WellFormed) {s : Nat} :
    s ∈ a.reachable ↔ a.IsReached s := by
  unfold reachable
  rw [Graph.mem_breadthFirst_unseen]
  constructor
  · rintro ⟨i, hi, _, hpath⟩
    exact ⟨i, by simpa using hi, Relation.ReflTransGen.mono (fun _ _ h => h.1) _ _ hpath⟩
  · rintro ⟨i, hi, hpath⟩
    refine ⟨i, by simpa using hi, hwf.initial_lt i hi, ?_⟩
    refine Relation.ReflTransGen.mono (fun u v h => ⟨h, ?_⟩) _ _ hpath
    cases hstate : a.states[u]? with
    | none => simp [successors, hstate] at h
    | some state =>
      rw [successors_eq hstate] at h
      exact hwf.successor_lt hstate h

theorem groupCount_le_iff {n : Nat} :
    a.groupCount ≤ n ↔ ∀ s ∈ a.states.toList, s.groupIndex.getD 0 ≤ n := by
  have hfold : ∀ (states : List State) (m : Nat),
      states.foldl (fun n s => max n (s.groupIndex.getD 0)) m ≤ n ↔
        m ≤ n ∧ ∀ s ∈ states, s.groupIndex.getD 0 ≤ n := by
    intro states
    induction states with
    | nil => simp
    | cons s rest ih =>
      intro m
      rw [List.foldl_cons, ih, Nat.max_le, List.forall_mem_cons, and_assoc]
  rw [groupCount, ← Array.foldl_toList, hfold]
  simp

/-- Automata with the same groups have the same number of them. -/
theorem groupCount_congr
    (hle : ∀ s ∈ b.states.toList, ∀ g, s.groupIndex = some g →
      ∃ s' ∈ a.states.toList, s'.groupIndex = some g)
    (hge : ∀ s ∈ a.states.toList, ∀ g, s.groupIndex = some g →
      ∃ s' ∈ b.states.toList, s'.groupIndex = some g) : b.groupCount = a.groupCount := by
  have hbound {a b : Automaton} (h : ∀ s ∈ b.states.toList, ∀ g, s.groupIndex = some g →
      ∃ s' ∈ a.states.toList, s'.groupIndex = some g) : b.groupCount ≤ a.groupCount := by
    refine groupCount_le_iff.mpr fun s hs => ?_
    cases hg : s.groupIndex with
    | none => exact Nat.zero_le _
    | some g =>
      obtain ⟨s', hs', hg'⟩ := h s hs g hg
      have hle := groupCount_le_iff.mp (Nat.le_refl a.groupCount) s' hs'
      rwa [hg'] at hle
  exact Nat.le_antisymm (hbound hle) (hbound hge)

end Automaton

/-! What contractions keep. -/

/-- Every transition is imitated by one that is left, or by one before. -/
theorem Thinned.exists_imitating {place : Nat → Nat} {before ts ts' : List Transition}
    (h : Thinned place before ts ts') {t : Transition} (ht : t ∈ ts) :
    ∃ t' ∈ before ++ ts', t'.Imitates place t := by
  induction h with
  | nil => cases ht
  | @keep before ts ts' first first' hfirst _ ih =>
    rcases List.mem_cons.mp ht with rfl | ht
    · exact ⟨first', by simp, hfirst⟩
    · obtain ⟨t', ht', himitates⟩ := ih ht
      exact ⟨t', by simpa [or_left_comm] using ht', himitates⟩
  | drop hmem hfirst _ ih =>
    rcases List.mem_cons.mp ht with rfl | ht
    · exact ⟨_, List.mem_append_left _ hmem, hfirst⟩
    · exact ih ht

namespace Contraction

open Automaton

variable {a b : Automaton} (c : Contraction a b) {s t : Nat}

/-- A skipped state and the one that it leads on to have the same place. -/
theorem place_eq_of_skipped {next : Nat} {state : State} (hs : c.Met s)
    (hforward : c.forward s = some next) (hstate : a.states[s]? = some state)
    (ht : t ∈ state.successors) : c.place t = c.place s := by
  obtain ⟨hplain, e, htransitions, _, rfl⟩ := c.skipped s next state hs hforward hstate
  have haction : state.action = none := by
    simp only [State.isPlain, Bool.and_eq_true, Option.isNone_iff_eq_none] at hplain
    exact hplain.1.2
  have heq : t = e.target := by simpa [State.successors, htransitions, haction] using ht
  exact heq ▸ c.place_forward s e.target hs hforward

theorem targets_step (hs : c.Met s) (ht : t ∈ a.targets s) :
    c.Met t ∧ (c.place t = c.place s ∨ c.place t ∈ b.targets (c.place s)) := by
  obtain ⟨state, hstate, hmet⟩ := c.met s hs
  obtain ⟨e, he, rfl⟩ := (mem_targets_iff hstate).mp ht
  refine ⟨hmet _ (mem_successors_target he), ?_⟩
  cases hforward : c.forward s with
  | some next => exact .inl (c.place_eq_of_skipped hs hforward hstate (mem_successors_target he))
  | none =>
    obtain ⟨state', hstate', himitates⟩ := c.kept s state hs hforward hstate
    obtain ⟨e', he', hedge⟩ := himitates.thinned.exists_imitating he
    exact .inr ((mem_targets_iff hstate').mpr ⟨e', by simpa using he', hedge.target_eq⟩)

theorem successors_step (hs : c.Met s) (ht : t ∈ a.successors s) :
    c.Met t ∧ (c.place t = c.place s ∨ c.place t ∈ b.successors (c.place s)) := by
  obtain ⟨state, hstate, hmet⟩ := c.met s hs
  rw [successors_eq hstate] at ht
  refine ⟨hmet t ht, ?_⟩
  rcases List.mem_append.mp ht with htarget | hbody
  · obtain ⟨e, he, rfl⟩ := List.mem_map.mp htarget
    have hstep := (c.targets_step hs ((mem_targets_iff hstate).mpr ⟨e, he, rfl⟩)).2
    exact hstep.imp_right mem_targets_mem_successors
  · cases hforward : c.forward s with
    | some next => exact .inl (c.place_eq_of_skipped hs hforward hstate ht)
    | none =>
      obtain ⟨state', hstate', himitates⟩ := c.kept s state hs hforward hstate
      obtain ⟨action, haction, hbody⟩ := Option.bind_eq_some_iff.mp (by simpa using hbody)
      refine .inr ?_
      rw [successors_eq hstate']
      refine mem_successors_body ?_
      rw [himitates.action_eq, haction]
      cases action with
      | look kind body =>
        cases hbody
        rfl
      | atomic body =>
        cases hbody
        rfl
      | branch condition =>
        cases condition with
        | group index => cases hbody
        | look kind body =>
          cases hbody
          rfl
      | backref group nocase => cases hbody
      | fail => cases hbody
      | accept => cases hbody
      | commit => cases hbody

/-- Where something ends, it ends in the contraction. -/
theorem isFinal_place {state : State} (hs : c.Met s) (hstate : a.states[s]? = some state)
    (hfinal : isFinal state = true) :
    ∃ state', b.states[c.place s]? = some state' ∧ isFinal state' = true := by
  cases hforward : c.forward s with
  | some next =>
    have hplain := (c.skipped s next state hs hforward hstate).plain
    simp only [State.isPlain, Bool.and_eq_true, Bool.not_eq_true', Option.isNone_iff_eq_none]
      at hplain
    obtain ⟨⟨⟨haccepting, hmarks⟩, haction⟩, _⟩ := hplain
    have hmarks : state.marks = .empty := congrArg Marks.mk (eq_of_beq hmarks)
    have hnone : Marks.empty.contains .bodyEnd = false := by decide
    simp [isFinal, haccepting, hmarks, haction, hnone] at hfinal
  | none =>
    obtain ⟨state', hstate', himitates⟩ := c.kept s state hs hforward hstate
    refine ⟨state', hstate', ?_⟩
    simp only [isFinal, himitates.accepting_eq, himitates.marks_eq, himitates.action_eq]
    simp only [isFinal, Bool.or_eq_true, beq_iff_eq] at hfinal ⊢
    exact hfinal.imp_right fun haction => by rw [haction]; rfl

theorem isLive_place (hs : c.Met s) (hlive : a.IsLive s) : b.IsLive (c.place s) := by
  obtain ⟨e, state, hpath, hstate, hfinal⟩ := hlive
  induction hpath using Relation.ReflTransGen.head_induction_on with
  | refl =>
    obtain ⟨state', hstate', hfinal'⟩ := c.isFinal_place hs hstate hfinal
    exact ⟨_, state', .refl, hstate', hfinal'⟩
  | head hstep _ ih =>
    obtain ⟨hmet, hstep⟩ := c.targets_step hs hstep
    rcases hstep with heq | hstep
    · exact heq ▸ ih hmet
    · obtain ⟨e', state', hpath', hend⟩ := ih hmet
      exact ⟨e', state', hpath'.head hstep, hend⟩

/-- What can be reached is met, and can be reached in the contraction. -/
theorem isReached_place {initial : Nat} (hinitial : a.initial = some initial)
    (hmet : c.Met initial) (hinitial' : b.initial = some (c.place initial))
    (hreached : a.IsReached s) : c.Met s ∧ b.IsReached (c.place s) := by
  obtain ⟨i, hi, hpath⟩ := hreached
  obtain rfl := Option.some.inj (hinitial.symm.trans hi)
  induction hpath with
  | refl => exact ⟨hmet, _, hinitial', .refl⟩
  | tail _ hstep ih =>
    obtain ⟨hmet', j, hj, hpath'⟩ := ih
    obtain ⟨hmet'', hstep⟩ := c.successors_step hmet' hstep
    refine ⟨hmet'', ?_⟩
    rcases hstep with heq | hstep
    · exact heq ▸ ⟨j, hj, hpath'⟩
    · exact ⟨j, hj, hpath'.tail hstep⟩

end Contraction

end RegexEngine
