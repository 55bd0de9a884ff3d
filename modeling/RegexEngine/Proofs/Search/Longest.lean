import Mathlib.Order.Lattice.Nat
import RegexEngine.Automaton.Longest
import RegexEngine.Proofs.Automaton.Words
import RegexEngine.Proofs.Search.Ends

/-!
The walk through a deterministic automaton finds the longest match. Every step of it takes the one
character that stands where the walk is, so after some steps it is where the word that was taken
leads, and it has passed all places where a match may end up to there.
-/

namespace RegexEngine.Automaton

open Tracked

variable {a : Automaton} {search : Search}

theorem matchAt?_filter {t : Transition} {r : CharRanges} (h : t.ranges? = some r)
    (input : Array Char) (position : Nat) :
    (t.matchAt? input position).filter (position < ·) =
      if input[position]?.any t.matchesChar then some (position + 1) else none := by
  obtain ⟨label, hlabel, hranges⟩ := Option.bind_eq_some_iff.mp h
  have htakes : t.matchesChar = label.matcher.matchesChar := by
    funext c
    rw [Transition.matchesChar, hlabel, Option.any_some]
  rw [Transition.matchAt?, hlabel, htakes]
  dsimp only
  rw [Matcher.matchAt?_of_isSingle (Matcher.isSingle_of_ranges? hranges)]
  split
  · rw [Option.filter_some, if_pos (by simp)]
  · rfl

theorem findSome?_eq_find? {transitions : List Transition}
    (h : ∀ t ∈ transitions, ∃ r, t.ranges? = some r) (input : Array Char) (position : Nat) :
    (transitions.findSome? fun t =>
      ((t.matchAt? input position).filter (position < ·)).map fun next => (t.target, next)) =
        input[position]?.bind fun c =>
          (transitions.find? (·.matchesChar c)).map fun t => (t.target, position + 1) := by
  induction transitions with
  | nil => cases input[position]? <;> rfl
  | cons t rest ih =>
    obtain ⟨⟨r, hr⟩, hrest⟩ := List.forall_mem_cons.mp h
    rw [List.findSome?_cons, matchAt?_filter hr, ih hrest]
    cases input[position]? with
    | none => rfl
    | some c =>
      simp only [Option.any_some, Option.bind_some, List.find?_cons]
      by_cases htakes : t.matchesChar c = true <;> simp [htakes]

namespace Deterministic

theorem advance?_eq (h : a.Deterministic) (input : Array Char) (s position : Nat) :
    a.advance? input s position =
      input[position]?.bind fun c => (a.next? s c).map fun t => (t, position + 1) := by
  unfold advance? next?
  cases hstate : a.states[s]? with
  | none => cases input[position]? <;> rfl
  | some state =>
    simp only [Option.map_some, Option.bind_some, Option.map_map]
    exact findSome?_eq_find? (h.ranges s state hstate) input position

end Deterministic

/-- The ends of matches of an automaton between two places, from a state on. -/
def EndsFrom (a : Automaton) (search : Search) (s start : Nat) : Set Nat :=
  {stop | start ≤ stop ∧ stop ≤ search.input.size ∧ search.endsAt stop = true ∧
    a.acceptsWord s (search.input.extract start stop).toList = true}

theorem toList_extract_cons {input : Array Char} {position stop : Nat} {c : Char}
    (hc : input[position]? = some c) (hlt : position < stop) :
    (input.extract position stop).toList = c :: (input.extract (position + 1) stop).toList := by
  obtain ⟨hposition, rfl⟩ := Array.getElem?_eq_some_iff.mp hc
  rw [Array.toList_extract, Array.toList_extract, List.extract_eq_take_drop,
    List.extract_eq_take_drop, List.drop_eq_getElem_cons (by simpa using hposition), Array.getElem_toList]
  obtain ⟨k, hk⟩ : ∃ k, stop - position = k + 1 := ⟨stop - position - 1, by omega⟩
  rw [hk, List.take_succ_cons, show stop - (position + 1) = k by omega]

theorem acceptedAt_eq_some_iff {s position stop : Nat} :
    a.acceptedAt search s position = some stop ↔
      stop = position ∧ a.acceptsAt s = true ∧ search.endsAt position = true := by
  unfold acceptedAt
  rw [← Bool.and_eq_true]
  change (if a.acceptsAt s && search.endsAt position then _ else _) = _ ↔ _
  by_cases h : (a.acceptsAt s && search.endsAt position) = true
  · rw [if_pos h, and_iff_left h, Option.some.injEq, eq_comm]
  · rw [if_neg h]
    simp [h]

theorem mem_endsFrom_self {s position : Nat} (hposition : position ≤ search.input.size) :
    position ∈ a.EndsFrom search s position ↔ a.acceptedAt search s position = some position := by
  have hnothing : (search.input.extract position position).toList = [] := by simp
  rw [acceptedAt_eq_some_iff, EndsFrom, Set.mem_ofPred_eq, hnothing, acceptsWord]
  simp [hposition, and_comm]

theorem mem_endsFrom_of_lt {s position stop : Nat} {c : Char}
    (hc : search.input[position]? = some c) (hlt : position < stop) :
    stop ∈ a.EndsFrom search s position ↔
      ∃ t, a.next? s c = some t ∧ stop ∈ a.EndsFrom search t (position + 1) := by
  simp only [EndsFrom, Set.mem_ofPred_eq, toList_extract_cons hc hlt, acceptsWord]
  cases a.next? s c with
  | none => simp
  | some t =>
    simp only [Option.some.injEq, exists_eq_left']
    rw [and_iff_right hlt.le, and_iff_right (Nat.succ_le_of_lt hlt)]

/-- What the walk answers from a state on, where `last` is the last end that it has passed. -/
def Walked (a : Automaton) (search : Search) (s position : Nat) (last answer : Option Nat) : Prop :=
  (∃ stop, answer = some stop ∧
      IsGreatest {stop ∈ a.EndsFrom search s position | position < stop} stop) ∨
    ((∀ stop ∈ a.EndsFrom search s position, stop ≤ position) ∧ answer = last)

theorem walked_of_stuck {s position : Nat}
    (h : ∀ stop, position < stop → stop ∉ a.EndsFrom search s position) (last : Option Nat) :
    a.Walked search s position last last :=
  .inr ⟨fun stop hstop => Nat.le_of_not_lt fun hlater => h stop hlater hstop, rfl⟩

/-- One step of the walk: what is answered from the next state on is answered from this one on. -/
theorem Walked.of_next {s t position : Nat} {c : Char} {last answer : Option Nat}
    (hc : search.input[position]? = some c) (hnext : a.next? s c = some t)
    (h : a.Walked search t (position + 1) ((a.acceptedAt search t (position + 1)).or last) answer) :
    a.Walked search s position last answer := by
  have hlater {stop : Nat} (hstop : position < stop) :
      stop ∈ a.EndsFrom search s position ↔ stop ∈ a.EndsFrom search t (position + 1) := by
    rw [mem_endsFrom_of_lt hc hstop, hnext]
    simp
  have hlt : position + 1 ≤ search.input.size := (Array.getElem?_eq_some_iff.mp hc).1
  have hhere : position + 1 ∈ a.EndsFrom search t (position + 1) ↔
      a.acceptedAt search t (position + 1) = some (position + 1) := mem_endsFrom_self hlt
  rcases h with ⟨stop, rfl, ⟨hstop, hbeyond⟩, hgreatest⟩ | ⟨hnone, rfl⟩
  · refine .inl ⟨stop, rfl, ⟨(hlater (by omega)).mpr hstop, by omega⟩, ?_⟩
    rintro other ⟨hother, hlt'⟩
    by_cases hfirst : other = position + 1
    · omega
    · exact hgreatest ⟨(hlater hlt').mp hother, by omega⟩
  · -- no end is beyond the next place, so it depends on whether that place is one
    cases haccepted : a.acceptedAt search t (position + 1) with
    | none =>
      refine walked_of_stuck (fun stop hbeyond hstop => ?_) last
      rw [hlater hbeyond] at hstop
      obtain rfl : stop = position + 1 := Nat.le_antisymm (hnone stop hstop) hbeyond
      rw [hhere, haccepted] at hstop
      cases hstop
    | some stop =>
      obtain ⟨rfl, _⟩ := acceptedAt_eq_some_iff.mp haccepted
      have hmem := (hlater (Nat.lt_succ_self position)).mpr (hhere.mpr haccepted)
      refine .inl ⟨_, rfl, ⟨hmem, Nat.lt_succ_self _⟩, ?_⟩
      exact fun other hother => hnone other ((hlater hother.2).mp hother.1)

theorem walk_ensures (h : a.Deterministic) (hbailout : search.bailout = none) (fuel : Nat) :
    ∀ (s position : Nat) (last : Option Nat), position ≤ search.input.size →
      search.input.size - position < fuel →
        Ensures (a.walk search fuel s position last) (a.Walked search s position last) := by
  induction fuel with
  | zero => exact fun _ _ _ _ hfuel => absurd hfuel (Nat.not_lt_zero _)
  | succ fuel ih =>
    intro s position last hposition hfuel
    unfold walk
    refine ensures_bind (Search.checkpoint_ensures hbailout _ _) fun admitted hadmitted => ?_
    rw [hadmitted, if_pos rfl, h.advance?_eq]
    cases hc : search.input[position]? with
    | none =>
      have hend := Array.getElem?_eq_none_iff.mp hc
      refine ensures_pure (walked_of_stuck (fun stop hlater hstop => ?_) last)
      exact absurd (Nat.le_trans hstop.2.1 hend) (Nat.not_le_of_lt hlater)
    | some c =>
      have hlt : position < search.input.size := (Array.getElem?_eq_some_iff.mp hc).1
      rw [Option.bind_some]
      cases hnext : a.next? s c with
      | none =>
        refine ensures_pure (walked_of_stuck (fun stop hlater hstop => ?_) last)
        obtain ⟨t, ht, _⟩ := (mem_endsFrom_of_lt hc hlater).mp hstop
        cases hnext.symm.trans ht
      | some t =>
        exact ensures_mono (ih t (position + 1) _ hlt (by omega)) fun _ => Walked.of_next hc hnext

/-- The walk through a deterministic automaton finds the last place where a match can end. -/
theorem longest_meets (h : a.Deterministic) (hbailout : search.bailout = none) {initial start : Nat}
    (hstart : start ≤ search.input.size) :
    Ensures (a.longest search initial start) fun A =>
      A.Meets fun stop => IsGreatest (a.EndsFrom search initial start) stop := by
  have hhere := mem_endsFrom_self (a := a) (s := initial) hstart
  unfold longest
  refine ensures_bind (walk_ensures h hbailout _ initial start _ hstart (Nat.lt_succ_self _))
    fun answer hanswer => ensures_pure ?_
  suffices hmeets :
      (∀ stop, answer = some stop → IsGreatest (a.EndsFrom search initial start) stop) ∧
        (answer = none → ∀ stop, ¬IsGreatest (a.EndsFrom search initial start) stop) by
    refine ⟨rfl, fun found hfound => ?_, fun hnone => hmeets.2 (Option.map_eq_none_iff.mp hnone)⟩
    obtain ⟨stop, hstop, rfl⟩ := Option.map_eq_some_iff.mp hfound
    exact hmeets.1 stop hstop
  rcases hanswer with ⟨stop, rfl, ⟨hstop, hbeyond⟩, hgreatest⟩ | ⟨hnone, rfl⟩
  · refine ⟨fun stop' heq => ?_, fun heq => (nomatch heq)⟩
    obtain rfl := Option.some.inj heq
    refine ⟨hstop, fun other hother => ?_⟩
    by_cases hfirst : other = start
    · omega
    · exact hgreatest ⟨hother, Nat.lt_of_le_of_ne hother.1 (Ne.symm hfirst)⟩
  · refine ⟨fun stop hstop => ?_, fun hrefused stop hstop => ?_⟩
    · obtain ⟨rfl, _⟩ := acceptedAt_eq_some_iff.mp hstop
      exact ⟨hhere.mpr hstop, hnone⟩
    · obtain rfl : stop = start := Nat.le_antisymm (hnone stop hstop.1) hstop.1.1
      cases hrefused.symm.trans (hhere.mp hstop.1)

/-! The ends of matches, told by what an automaton accepts. -/

/-- The ends of the matches that start at a place: what stands up to there is accepted. -/
def Ends (a : Automaton) (search : Search) (start : Nat) : Set Nat :=
  {stop | start ≤ stop ∧ stop ≤ search.input.size ∧ search.endsAt stop = true ∧
    a.accepts (search.input.extract start stop) = true}

theorem ends_congr {b : Automaton} (h : ∀ input, b.accepts input = a.accepts input) :
    b.Ends = a.Ends := by
  unfold Ends
  simp only [h]

/-- There is a last end wherever there is one. -/
theorem exists_isGreatest_ends {start : Nat} :
    (∃ stop, IsGreatest (a.Ends search start) stop) ↔ ∃ stop, stop ∈ a.Ends search start := by
  refine ⟨fun ⟨stop, hstop⟩ => ⟨stop, hstop.1⟩, fun hsome => ?_⟩
  have hbounded : BddAbove (a.Ends search start) :=
    ⟨search.input.size, fun _ hstop => hstop.2.1⟩
  exact ⟨_, Nat.sSup_mem hsome hbounded, fun _ hstop => le_csSup hbounded hstop⟩

/-- An attempt finds some end of a match, if all that the automaton asks for is one character after
the other. -/
theorem AllOpen.attempt_meets (hopen : a.AllOpen) (hsupported : a.supportsLockstep = true)
    (hwf : a.WellFormed) (hkind : a.kind = .nfa) (hbailout : search.bailout = none) {start : Nat}
    (hinitial : ∃ i, a.initial = some i) (hstart : start ≤ search.input.size) :
    Ensures (a.attempt search start) fun A => A.Meets (· ∈ a.Ends search start) := by
  obtain ⟨i, hi⟩ := hinitial
  refine ensures_mono (attempt_meets_leadsUpTo hsupported hwf.inside hkind hbailout hi hstart)
    fun A hA => hA.congr fun stop => ?_
  rw [Ends, Set.mem_ofPred_eq, accepts_iff]
  simp only [hi, Option.some.injEq, exists_eq_left']
  constructor
  · rintro ⟨hends, n, hn⟩
    have hle := hn.le
    have hstop := hn.stop_le hstart
    exact ⟨hle, hstop, hends, (hopen.leadsUpTo_iff_wins hle hstop).mp ⟨n, hn⟩⟩
  · exact fun ⟨hle, hstop, hends, hwins⟩ => ⟨hends, (hopen.leadsUpTo_iff_wins hle hstop).mpr hwins⟩

/-- An attempt on a deterministic automaton finds the last end of a match. -/
theorem Deterministic.attempt_meets (h : a.Deterministic) (hkind : a.kind = .dfa)
    (hbailout : search.bailout = none) {start : Nat} (hinitial : ∃ i, a.initial = some i)
    (hstart : start ≤ search.input.size) :
    Ensures (a.attempt search start) fun A => A.Meets (IsGreatest (a.Ends search start)) := by
  obtain ⟨i, hi⟩ := hinitial
  have hends : a.Ends search start = a.EndsFrom search i start := by
    unfold Ends EndsFrom
    simp only [h.accepts_eq, hi, Option.any_some]
  rw [hends, attempt, hi]
  dsimp only
  rw [if_pos hkind]
  exact longest_meets h hbailout hstart

end RegexEngine.Automaton
