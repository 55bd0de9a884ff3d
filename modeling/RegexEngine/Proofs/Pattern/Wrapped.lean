import RegexEngine.Proofs.Search.Attempts
import RegexEngine.Proofs.Search.Traces

/-!
Patterns that are made of an automaton. Any automaton that passes the integrity check and has an
initial state can be wrapped, whatever groups its states open and close, unless a state carries a
name for the group zero: names have places from the first group on, and wrapping breaks off there.

The pattern has a place for each group up to the highest, with a name that some state of the group
carries. Nothing in the automaton leads out of it, so no search for the pattern fails but at a
bound, whichever way the automaton is walked.
-/

namespace RegexEngine

open Tracked

/-! Names of groups. -/

namespace Pattern

/-- A state carries a name for a group that no name has a place for. -/
def NamesGroupZero (s : State) : Prop := s.groupIndex = some 0 ∧ s.groupName.isSome = true

theorem putName_eq_none_iff {names : Array (Option String)} {s : State} :
    putName names s = none ↔ NamesGroupZero s := by
  unfold putName NamesGroupZero
  split
  · rename_i name hindex hname
    simp [hindex, hname]
  · rename_i i name hindex hname
    simp [hindex]
  · rename_i hzero _
    simp only [reduceCtorEq, false_iff]
    rintro ⟨hindex, hname⟩
    obtain ⟨name, hname⟩ := Option.isSome_iff_exists.mp hname
    exact hzero name hindex hname

/-- A name is put in the place of its group, and all others stay. -/
theorem getElem?_of_putName {names names' : Array (Option String)} {s : State}
    (h : putName names s = some names') {i : Nat} (hi : i < names.size) :
    names'[i]? =
      if s.groupIndex = some (i + 1) ∧ s.groupName.isSome = true then some s.groupName
      else names[i]? := by
  unfold putName at h
  split at h
  · cases h
  · rename_i place name hindex hname
    cases h
    rw [Array.getElem?_setIfInBounds, hindex, hname]
    by_cases heq : place = i
    · simp [heq, hi]
    · simp [heq]
  · rename_i hzero hsucc
    cases h
    rw [if_neg]
    rintro ⟨hindex, hname⟩
    obtain ⟨name, hname⟩ := Option.isSome_iff_exists.mp hname
    exact hsucc i name hindex hname

theorem size_of_putName {names names' : Array (Option String)} {s : State}
    (h : putName names s = some names') : names'.size = names.size := by
  unfold putName at h
  split at h <;> cases h <;> simp

theorem foldlM_putName_eq_none_iff (states : List State) (names : Array (Option String)) :
    states.foldlM putName names = none ↔ ∃ s ∈ states, NamesGroupZero s := by
  induction states generalizing names with
  | nil => simp
  | cons s rest ih =>
    simp only [List.mem_cons, exists_eq_or_imp]
    rw [List.foldlM_cons, ← @putName_eq_none_iff names]
    cases putName names s with
    | none => simp
    | some names' => simpa using ih names'

/-- A place holds the name of the last state that carries one for its group. -/
theorem getElem?_of_foldlM_putName {states : List State} :
    ∀ {names names' : Array (Option String)}, states.foldlM putName names = some names' →
      names'.size = names.size ∧ ∀ i < names.size,
        (∃ s ∈ states, s.groupIndex = some (i + 1) ∧ s.groupName.isSome = true ∧
          names'[i]? = some s.groupName) ∨
        ((∀ s ∈ states, s.groupIndex = some (i + 1) → s.groupName = none) ∧
          names'[i]? = names[i]?) := by
  induction states with
  | nil =>
    intro names names' h
    cases h
    exact ⟨rfl, fun i _ => .inr ⟨by simp, rfl⟩⟩
  | cons s rest ih =>
    intro names names' h
    rw [List.foldlM_cons] at h
    obtain ⟨next, hnext, hrest⟩ := Option.bind_eq_some_iff.mp h
    obtain ⟨hsize, hnames⟩ := ih hrest
    rw [size_of_putName hnext] at hsize hnames
    refine ⟨hsize, fun i hi => ?_⟩
    rcases hnames i hi with ⟨s', hs', hcarries⟩ | ⟨hnone, heq⟩
    · exact .inl ⟨s', List.mem_cons_of_mem _ hs', hcarries⟩
    · have hput := getElem?_of_putName hnext hi
      by_cases hnamed : s.groupIndex = some (i + 1) ∧ s.groupName.isSome = true
      · rw [if_pos hnamed] at hput
        exact .inl ⟨s, List.mem_cons_self, hnamed.1, hnamed.2, heq.trans hput⟩
      · rw [if_neg hnamed] at hput
        refine .inr ⟨List.forall_mem_cons.mpr ⟨fun hindex => ?_, hnone⟩, heq.trans hput⟩
        simpa [hindex] using hnamed

variable {a : Automaton}

/-- The names fail for the group zero only. -/
theorem namesOf?_eq_none_iff : namesOf? a = none ↔ ∃ s ∈ a.states, NamesGroupZero s := by
  simp only [← Array.mem_toList_iff]
  rw [← foldlM_putName_eq_none_iff _ (Array.replicate a.groupCount none), Array.foldlM_toList,
    namesOf?]
  simp

/-- The names have places for all groups up to the highest. A group that some state names has the
name that some state carries for it, and no other group has a name. -/
theorem namesOf?_eq_some {names : List (Option String)} (h : namesOf? a = some names) :
    names.length = a.groupCount ∧ ∀ i < a.groupCount,
      (∃ s ∈ a.states, s.groupIndex = some (i + 1) ∧ s.groupName.isSome = true ∧
        names[i]? = some s.groupName) ∨
      ((∀ s ∈ a.states, s.groupIndex = some (i + 1) → s.groupName = none) ∧
        names[i]? = some none) := by
  obtain ⟨table, htable, rfl⟩ := Option.map_eq_some_iff.mp h
  rw [← Array.foldlM_toList] at htable
  obtain ⟨hsize, hnames⟩ := getElem?_of_foldlM_putName htable
  rw [Array.size_replicate] at hsize hnames
  refine ⟨by simpa using hsize, fun i hi => ?_⟩
  have hplace := hnames i hi
  simpa [Array.getElem?_replicate, hi] using hplace

/-- Wrapping breaks off where an automaton that passes all checks carries a name for the group zero,
and nowhere else. -/
theorem ofAutomaton?_eq_none_iff : ofAutomaton? a = none ↔
    checkAutomaton a = .ok () ∧ ∃ s ∈ a.states, NamesGroupZero s := by
  unfold ofAutomaton?
  split
  · rename_i e he
    simp [he]
  · rename_i hcheck
    rw [Option.map_eq_none_iff, namesOf?_eq_none_iff, hcheck]
    exact ⟨fun h => ⟨rfl, h⟩, fun h => h.2⟩

end Pattern

/-! Attempts that fail at bounds only. -/

/-- No attempt fails but at a bound, in any mode. -/
theorem Automaton.WellFormed.attempt_unfailing {a : Automaton} (hwf : a.WellFormed) {initial : Nat}
    (hinitial : a.initial = some initial) (search : Search) (start : Nat) :
    Upholds (fun _ => True) (fun e _ => e.IsLimit) (a.attempt search start) fun _ => True := by
  have hcheckpoint (depth position : Nat) :=
    upholds_of_ensures (search.checkpoint_unfailing depth position)
  unfold attempt
  simp only [hinitial]
  split
  · exact longest_upholds (hcheckpoint 0) _ _
  · split
    · exact lockstep_upholds hcheckpoint _ _
    · exact upholds_of_ensures (hwf.closedOn.search_unfailing (hwf.initial_lt initial hinitial))

/-- Matching and finding fail at bounds only. -/
theorem Automaton.WellFormed.searches_unfailing {a : Automaton} (hwf : a.WellFormed) {initial : Nat}
    (hinitial : a.initial = some initial) {x : Searcher} (hx : x.attempt = a.attempt)
    (hlimits : x.scaledLimits = none) (c : Context) (e : Error) :
    ((c.matchWhole x).1 = .error e → e.IsLimit) ∧
      ∀ most, (c.findAll x most).1 = .error e → e.IsLimit := by
  have hobeys : Context.Obeys x c.mode (fun _ => True) fun e _ => e.IsLimit :=
    ⟨fun search start _ => hx ▸ hwf.attempt_unfailing hinitial search start, fun _ _ => trivial⟩
  obtain ⟨registry, tracker, hbegin⟩ := c.exists_begin (x := x) (by simp [hlimits])
  obtain ⟨hwhole, -, hall⟩ := Context.searches_leave hobeys rfl hbegin trivial
  exact ⟨hwhole.of_error, fun most => (hall most).of_error⟩

namespace Pattern

variable {a : Automaton}

/-- An automaton that passes the integrity check and has an initial state can be wrapped if no state
carries a name for the group zero. The pattern has a place for each group up to the highest, with a
name that a state of the group carries if there is one. No search for it fails but at a bound. -/
theorem exists_ofAutomaton? (hcheck : a.checkIntegrity = .ok ()) {initial : Nat}
    (hinitial : a.initial = some initial) (hnames : ∀ s ∈ a.states, ¬NamesGroupZero s) :
    ∃ p, ofAutomaton? a = some (.ok p) ∧ p.groupNames.length = a.groupCount ∧
      (∀ i < a.groupCount,
        (∃ s ∈ a.states, s.groupIndex = some (i + 1) ∧ s.groupName.isSome = true ∧
          p.groupNames[i]? = some s.groupName) ∨
        ((∀ s ∈ a.states, s.groupIndex = some (i + 1) → s.groupName = none) ∧
          p.groupNames[i]? = some none)) ∧
      ∀ (c : Context) (e : Error), ((c.matchWhole p.searcher).1 = .error e → e.IsLimit) ∧
        ∀ most, (c.findAll p.searcher most).1 = .error e → e.IsLimit := by
  have hchecked : checkAutomaton a = .ok () := by
    unfold checkAutomaton
    rw [hcheck, hinitial]
    rfl
  cases hnamed : namesOf? a with
  | none =>
    obtain ⟨s, hs, hzero⟩ := namesOf?_eq_none_iff.mp hnamed
    exact absurd hzero (hnames s hs)
  | some names =>
    obtain ⟨hlength, hplaces⟩ := namesOf?_eq_some hnamed
    refine ⟨_, by rw [ofAutomaton?, hchecked, hnamed, Option.map_some], hlength, hplaces, ?_⟩
    intro c e
    have hwf := (Automaton.checkIntegrity_iff a).mp hcheck
    exact hwf.searches_unfailing hinitial rfl rfl c e

end Pattern

end RegexEngine
