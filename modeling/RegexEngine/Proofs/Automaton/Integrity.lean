import RegexEngine.Automaton.Basic

/-!
What the integrity check of automata means. `WellFormed` says it of the automaton as a whole: the
initial and the current state are there, transitions start where they stand and end inside, bodies
are inside, no two states share an identifier, and a deterministic automaton takes input on every
transition. The check succeeds exactly on the automata that are well formed.
-/

namespace RegexEngine

namespace State

/-- Nothing that the state at this place refers to is outside of an automaton of so many states. -/
structure FitsAt (s : State) (count index : Nat) : Prop where
  source_eq : ∀ t ∈ s.transitions, t.source = index
  target_lt : ∀ t ∈ s.transitions, t.target < count
  body_lt : ∀ body, s.action.bind Action.body? = some body → body < count

end State

namespace Automaton

/-- Nothing in the automaton refers to what is not there, and identifiers tell states apart. -/
structure WellFormed (a : Automaton) : Prop where
  initial_lt : ∀ s, a.initial = some s → s < a.stateCount
  current_lt : ∀ s, a.current = some s → s < a.stateCount
  fits : ∀ (index : Nat) (s : State), a.states[index]? = some s → s.FitsAt a.stateCount index
  distinct : (a.states.toList.map (·.id)).Nodup
  takes_input : a.kind = .dfa → ∀ s ∈ a.states, ∀ t ∈ s.transitions, t.isEpsilon = false

/-- Nothing in the automaton refers to what is not there, whatever the identifiers are. -/
structure Inside (a : Automaton) : Prop where
  initial_lt : ∀ s, a.initial = some s → s < a.stateCount
  fits : ∀ (index : Nat) (s : State), a.states[index]? = some s → s.FitsAt a.stateCount index

theorem WellFormed.inside {a : Automaton} (h : a.WellFormed) : a.Inside :=
  ⟨h.initial_lt, h.fits⟩

theorem checkState_iff (count index : Nat) (ids : List UInt32) (s : State) :
    checkState count index ids s = .ok () ↔ s.id ∉ ids ∧ s.FitsAt count index := by
  unfold checkState
  split
  · rename_i hseen
    have hmem : s.id ∈ ids := by simpa using hseen
    simp [hmem]
  · rename_i hseen
    have hnew : s.id ∉ ids := by simpa using hseen
    split
    · rename_i hbad
      obtain ⟨t, ht, hout⟩ := List.any_eq_true.mp hbad
      simp only [reduceCtorEq, false_iff, not_and]
      intro _ hfits
      have hsource := hfits.source_eq t ht
      have htarget := hfits.target_lt t ht
      simp at hout
      omega
    · rename_i hgood
      have hgood : ∀ t ∈ s.transitions, t.source = index ∧ t.target < count := by
        simpa using hgood
      split
      · rename_i hbad
        simp only [reduceCtorEq, false_iff, not_and]
        intro _ hfits
        cases hbody : s.action.bind Action.body? with
        | none => simp [hbody] at hbad
        | some body =>
          have hlt := hfits.body_lt body hbody
          simp [hbody] at hbad
          omega
      · rename_i hbodies
        refine ⟨fun _ => ⟨hnew, fun t ht => (hgood t ht).1, fun t ht => (hgood t ht).2, ?_⟩,
          fun _ => rfl⟩
        intro body hbody
        simpa [hbody] using hbodies

/-- Checking states in order finds each of them in its place, with an identifier of its own. -/
theorem checkStates_iff (count index : Nat) (ids : List UInt32) (states : List State) :
    checkStates count index ids states = .ok () ↔
      (∀ (k : Nat) (s : State), states[k]? = some s → s.FitsAt count (index + k)) ∧
        (states.map (·.id)).Nodup ∧ ∀ s ∈ states, s.id ∉ ids := by
  induction states generalizing index ids with
  | nil => simp [checkStates]
  | cons s rest ih =>
    have hbind : checkStates count index ids (s :: rest) = .ok () ↔
        checkState count index ids s = .ok () ∧
          checkStates count (index + 1) (s.id :: ids) rest = .ok () := by
      rw [checkStates]
      cases checkState count index ids s with
      | error e => simp [bind, Except.bind]
      | ok _ => simp [bind, Except.bind]
    rw [hbind, checkState_iff, ih]
    constructor
    · rintro ⟨⟨hnew, hfits⟩, hrest, hnodup, hids⟩
      refine ⟨?_, ?_, ?_⟩
      · intro k s' hk
        cases k with
        | zero =>
          cases hk
          exact hfits
        | succ k => simpa [Nat.add_assoc, Nat.add_comm 1 k] using hrest k s' hk
      · rw [List.map_cons, List.nodup_cons]
        refine ⟨?_, hnodup⟩
        intro hmem
        obtain ⟨s', hs', hid⟩ := List.mem_map.mp hmem
        exact hids s' hs' (hid ▸ List.mem_cons_self)
      · intro s' hs'
        rcases List.mem_cons.mp hs' with rfl | hs'
        · exact hnew
        · exact fun hmem => hids s' hs' (List.mem_cons_of_mem _ hmem)
    · rintro ⟨hfits, hnodup, hids⟩
      rw [List.map_cons, List.nodup_cons] at hnodup
      refine ⟨⟨hids s List.mem_cons_self, hfits 0 s rfl⟩, ?_, hnodup.2, ?_⟩
      · intro k s' hk
        simpa [Nat.add_assoc, Nat.add_comm 1 k] using hfits (k + 1) s' hk
      · intro s' hs' hmem
        rcases List.mem_cons.mp hmem with hid | hmem
        · exact hnodup.1 (List.mem_map.mpr ⟨s', hs', hid⟩)
        · exact hids s' (List.mem_cons_of_mem _ hs') hmem

theorem any_isEpsilon_eq_false (a : Automaton) :
    a.transitions.any (·.isEpsilon) = false ↔
      ∀ s ∈ a.states, ∀ t ∈ s.transitions, t.isEpsilon = false := by
  simp only [transitions, List.any_flatMap, List.any_eq_false, Bool.not_eq_true,
    Array.mem_toList_iff]

theorem any_le_eq_false (place : Option Nat) (count : Nat) :
    place.any (count ≤ ·) = false ↔ ∀ s, place = some s → s < count := by
  cases place <;> simp

/-- The integrity check succeeds exactly on well-formed automata. -/
theorem checkIntegrity_iff (a : Automaton) : a.checkIntegrity = .ok () ↔ a.WellFormed := by
  have hstates := checkStates_iff a.stateCount 0 [] a.states.toList
  simp only [Nat.zero_add, List.not_mem_nil, not_false_eq_true, implies_true, and_true,
    Array.getElem?_toList] at hstates
  unfold checkIntegrity
  dsimp only
  by_cases hinitial : a.initial.any (a.stateCount ≤ ·) = true
  · rw [if_pos hinitial]
    simp only [reduceCtorEq, false_iff]
    intro hwf
    rw [(any_le_eq_false ..).mpr hwf.initial_lt] at hinitial
    cases hinitial
  rw [if_neg hinitial]
  by_cases hcurrent : a.current.any (a.stateCount ≤ ·) = true
  · rw [if_pos hcurrent]
    simp only [reduceCtorEq, false_iff]
    intro hwf
    rw [(any_le_eq_false ..).mpr hwf.current_lt] at hcurrent
    cases hcurrent
  rw [if_neg hcurrent]
  cases hcheck : checkStates a.stateCount 0 [] a.states.toList with
  | error e =>
    simp only [bind, Except.bind, reduceCtorEq, false_iff]
    intro hwf
    rw [hstates.mpr ⟨hwf.fits, hwf.distinct⟩] at hcheck
    cases hcheck
  | ok _ =>
    obtain ⟨hfits, hdistinct⟩ := hstates.mp hcheck
    simp only [bind, Except.bind]
    by_cases hepsilon : (decide (a.kind = .dfa) && a.transitions.any (·.isEpsilon)) = true
    · rw [if_pos hepsilon]
      simp only [Bool.and_eq_true, decide_eq_true_eq] at hepsilon
      simp only [reduceCtorEq, false_iff]
      intro hwf
      rw [(any_isEpsilon_eq_false a).mpr (hwf.takes_input hepsilon.1)] at hepsilon
      cases hepsilon.2
    · rw [if_neg hepsilon]
      refine ⟨fun _ => ⟨?_, ?_, hfits, hdistinct, ?_⟩, fun _ => rfl⟩
      · exact (any_le_eq_false ..).mp (by simpa using hinitial)
      · exact (any_le_eq_false ..).mp (by simpa using hcurrent)
      · intro hkind
        exact (any_isEpsilon_eq_false a).mp (by simpa [hkind] using hepsilon)

end Automaton

end RegexEngine
