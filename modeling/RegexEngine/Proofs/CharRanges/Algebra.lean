import RegexEngine.Proofs.CharClass.Escape
import RegexEngine.Proofs.CharRanges.Normal

/-!
Sets of ranges as the sets of characters that they are. A set made of any pairs of words has the
characters between the ends of some pair, and asking for a character by halving the list finds it.
Union is disjunction, and complement is negation, unless the set goes up to the largest word: then
the complement has every character.

Two normal lists with the same characters are the same list. So a set is told by its characters:
complementing twice gives the set back, and every normal list is the one that is found by asking
about each code point in turn.
-/

namespace RegexEngine.CharRanges

/-! Asking by halving. -/

/-- The ranges of a tidy list are in ascending order, by their first and by their last. -/
theorem Tidy.ascends {pairs : List (Nat × Nat)} (h : Tidy pairs) {i j : Nat} {p q : Nat × Nat}
    (hp : pairs[i]? = some p) (hq : pairs[j]? = some q) (hij : i ≤ j) : p.1 ≤ q.1 ∧ p.2 ≤ q.2 := by
  rcases Nat.lt_or_eq_of_le hij with hlt | rfl
  · obtain ⟨hi, rfl⟩ := List.getElem?_eq_some_iff.mp hp
    obtain ⟨hj, rfl⟩ := List.getElem?_eq_some_iff.mp hq
    have hgap := List.pairwise_iff_getElem.mp h.apart i j hi hj hlt
    have hfirst := h.proper _ (List.getElem_mem hi)
    have hlast := h.proper _ (List.getElem_mem hj)
    omega
  · obtain rfl := Option.some.inj (hp.symm.trans hq)
    exact ⟨Nat.le_refl _, Nat.le_refl _⟩

/-- Halving finds a range that holds the code point, if there is one at the places asked about. -/
theorem search_iff {ranges : Array (Nat × Nat)} (h : Tidy ranges.toList) (n first after : Nat)
    (hafter : after ≤ ranges.size) :
    search ranges n first after = true ↔
      ∃ i p, first ≤ i ∧ i < after ∧ ranges.toList[i]? = some p ∧ p.1 ≤ n ∧ n ≤ p.2 := by
  fun_induction search ranges n first after with
  | case1 first after hlt lo hi₀ hmiddle hbelow ih =>
    rw [← Array.getElem?_toList] at hmiddle
    rw [ih hafter]
    constructor
    · rintro ⟨i, p, hfirst, hfound⟩
      exact ⟨i, p, by omega, hfound⟩
    · rintro ⟨i, p, hfirst, hi, hp, hlo, hhi⟩
      refine ⟨i, p, Nat.lt_of_not_le fun hnot => ?_, hi, hp, hlo, hhi⟩
      have hle : p.2 ≤ hi₀ := (h.ascends hp hmiddle hnot).2
      omega
  | case2 first after hlt lo₀ hi₀ hmiddle hnotBelow habove ih =>
    rw [← Array.getElem?_toList] at hmiddle
    rw [ih (by omega)]
    constructor
    · rintro ⟨i, p, hfirst, hi, hfound⟩
      exact ⟨i, p, hfirst, by omega, hfound⟩
    · rintro ⟨i, p, hfirst, hi, hp, hlo, hhi⟩
      refine ⟨i, p, hfirst, Nat.lt_of_not_le fun hnot => ?_, hp, hlo, hhi⟩
      have hle : lo₀ ≤ p.1 := (h.ascends hmiddle hp hnot).1
      omega
  | case3 first after hlt lo hi hmiddle hnotBelow hnotAbove =>
    rw [← Array.getElem?_toList] at hmiddle
    simp only [true_iff]
    exact ⟨_, (lo, hi), by omega, by omega, hmiddle, by omega, by omega⟩
  | case4 first after hlt hmiddle =>
    have hout := Array.getElem?_eq_none_iff.mp hmiddle
    omega
  | case5 first after hnot =>
    simp only [Bool.false_eq_true, false_iff]
    rintro ⟨i, _, hfirst, hi, _⟩
    omega

theorem contains_iff {r : CharRanges} (h : Tidy r.pairs) (c : Char) :
    r.contains c = true ↔ Covers r.pairs c.toNat := by
  have hsearch := @search_iff r.pairs.toArray h c.toNat 0 r.pairs.length (Nat.le_refl _)
  rw [contains, hsearch]
  constructor
  · rintro ⟨i, p, _, _, hp, hlo, hhi⟩
    exact ⟨p, List.mem_of_getElem? hp, hlo, hhi⟩
  · rintro ⟨p, hp, hlo, hhi⟩
    obtain ⟨i, hi, hget⟩ := List.getElem_of_mem hp
    exact ⟨i, p, Nat.zero_le _, hi, List.getElem?_eq_some_iff.mpr ⟨hi, hget⟩, hlo, hhi⟩

/-! The operations on what sets have. -/

/-- A set has the characters between the ends of some pair that it was made of. -/
theorem contains_ofPairs (pairs : List (Nat × Nat)) (c : Char) :
    (ofPairs pairs).contains c = true ↔ ∃ p ∈ pairs, p.1 ≤ c.toNat ∧ c.toNat ≤ p.2 := by
  rw [contains_iff (tidy_ofPairs pairs), covers_ofPairs, and_iff_right (noSurrogate_toNat c)]
  rfl

theorem tidy_union (a b : CharRanges) : Tidy (a.union b).pairs := tidy_ofPairs _

theorem tidy_negate (r : CharRanges) : Tidy r.negate.pairs := tidy_ofPairs _

/-- The union has the characters of either set. -/
theorem contains_union {a b : CharRanges} (ha : Tidy a.pairs) (hb : Tidy b.pairs) (c : Char) :
    (a.union b).contains c = (a.contains c || b.contains c) := by
  rw [Bool.eq_iff_iff, Bool.or_eq_true, contains_iff (tidy_union a b), contains_iff ha,
    contains_iff hb, covers_union_of_tidy ha hb]

/-- The complement of a set without the largest word has the characters that the set has not. -/
theorem contains_negate {r : CharRanges} (h : Tidy r.pairs)
    (hwords : ∀ p ∈ r.pairs, p.2 < 0xFFFFFFFF) (c : Char) :
    r.negate.contains c = !r.contains c := by
  rw [Bool.eq_iff_iff, Bool.not_eq_true', ← Bool.not_eq_true, contains_iff (tidy_negate r),
    contains_iff h, covers_negate_of_tidy h hwords (toNat_le_maxCodePoint c),
    and_iff_right (noSurrogate_toNat c)]

theorem covers_gaps_of_getLast {pairs : List (Nat × Nat)} {next lo : Nat}
    (hlast : pairs.getLast? = some (lo, 0xFFFFFFFF)) {n : Nat} (hn : n ≤ maxCodePoint) :
    Covers (gaps next pairs) n := by
  induction pairs generalizing next with
  | nil => cases hlast
  | cons p rest ih =>
    rw [gaps, covers_append]
    refine .inr ?_
    cases rest with
    | nil =>
      obtain rfl := Option.some.inj hlast
      simpa [gaps] using hn
    | cons q rest => exact ih (by rwa [List.getLast?_cons_cons] at hlast)

/-- No word comes after the largest one, so that the complement of a set that goes up to it begins
anew at the first code point: it has every character, also those of the set. -/
theorem contains_negate_of_getLast {r : CharRanges} {lo : Nat}
    (hlast : r.pairs.getLast? = some (lo, 0xFFFFFFFF)) (c : Char) :
    r.negate.contains c = true := by
  rw [contains_iff (tidy_negate r), negate, covers_ofPairs]
  exact ⟨noSurrogate_toNat c, covers_gaps_of_getLast hlast (toNat_le_maxCodePoint c)⟩

/-! Sets with the same characters. -/

theorem charOfCode?_eq_some {n : Nat} (hn : NoSurrogate n) (hbound : n ≤ maxCodePoint) :
    ∃ c, charOfCode? n = some c := by
  unfold NoSurrogate at hn
  refine ⟨Char.ofNat n, if_pos ?_⟩
  omega

theorem Tidy.first_le {p : Nat × Nat} {pairs : List (Nat × Nat)} (h : Tidy (p :: pairs)) {n : Nat}
    (hn : Covers (p :: pairs) n) : p.1 ≤ n := by
  have hproper := h.proper p List.mem_cons_self
  rcases (covers_cons p pairs n).mp hn with hn | hn
  · exact hn.1
  · have hbeyond := h.lt_of_covers hn
    omega

/-- The first range of a list that holds the same ends no later. -/
theorem Tidy.last_le {p q : Nat × Nat} {pairs others : List (Nat × Nat)} (h : Tidy (p :: pairs))
    (hsame : ∀ n, Covers (p :: pairs) n ↔ Covers (q :: others) n) (hfirst : q.1 ≤ p.1) :
    q.2 ≤ p.2 := by
  have hproper := h.proper p List.mem_cons_self
  refine Nat.le_of_not_lt fun hlt => ?_
  have hnext := (hsame (p.2 + 1)).mpr ((covers_cons q others _).mpr (.inl ⟨by omega, hlt⟩))
  rcases (covers_cons p pairs _).mp hnext with hn | hn
  · omega
  · have hbeyond := h.lt_of_covers hn
    omega

/-- Two tidy lists that hold the same are the same. -/
theorem Tidy.ext {pairs others : List (Nat × Nat)} (h : Tidy pairs) (h' : Tidy others)
    (hsame : ∀ n, Covers pairs n ↔ Covers others n) : pairs = others := by
  have hstarts {p : Nat × Nat} {pairs : List (Nat × Nat)} (h : Tidy (p :: pairs)) :
      Covers (p :: pairs) p.1 :=
    (covers_cons p pairs p.1).mpr (.inl ⟨Nat.le_refl _, h.proper p List.mem_cons_self⟩)
  induction pairs generalizing others with
  | nil =>
    cases others with
    | nil => rfl
    | cons q others => exact absurd ((hsame q.1).mpr (hstarts h')) (covers_nil q.1)
  | cons p pairs ih =>
    cases others with
    | nil => exact absurd ((hsame p.1).mp (hstarts h)) (covers_nil p.1)
    | cons q others =>
      have hqp : q.1 ≤ p.1 := h'.first_le ((hsame p.1).mp (hstarts h))
      have hpq : p.1 ≤ q.1 := h.first_le ((hsame q.1).mpr (hstarts h'))
      have hlast : q.2 ≤ p.2 := h.last_le hsame hqp
      have hlast' : p.2 ≤ q.2 := h'.last_le (fun n => (hsame n).symm) hpq
      obtain rfl : p = q := Prod.ext (by omega) (by omega)
      refine congrArg (p :: ·) (ih h.tail h'.tail fun n => ?_)
      -- What the rest of either list holds is beyond the first range.
      constructor
      · intro hn
        have hbeyond := h.lt_of_covers hn
        have hcovered := (hsame n).mp ((covers_cons p pairs n).mpr (.inr hn))
        exact ((covers_cons p others n).mp hcovered).resolve_left fun hin => by omega
      · intro hn
        have hbeyond := h'.lt_of_covers hn
        have hcovered := (hsame n).mpr ((covers_cons p others n).mpr (.inr hn))
        exact ((covers_cons p pairs n).mp hcovered).resolve_left fun hin => by omega

/-- Two normal sets with the same characters are the same. -/
theorem eq_of_contains {a b : CharRanges} (ha : Normal a.pairs) (hb : Normal b.pairs)
    (hsame : ∀ c, a.contains c = b.contains c) : a = b := by
  have hpairs : a.pairs = b.pairs := by
    refine ha.tidy.ext hb.tidy fun n => ?_
    by_cases hcode : NoSurrogate n ∧ n ≤ maxCodePoint
    · obtain ⟨c, hc⟩ := charOfCode?_eq_some hcode.1 hcode.2
      rw [← toNat_of_charOfCode? hc, ← contains_iff ha.tidy, ← contains_iff hb.tidy, hsame]
    · exact iff_of_false (fun h => hcode (ha.isCode h)) fun h => hcode (hb.isCode h)
  cases a
  cases b
  exact congrArg CharRanges.mk hpairs

theorem contains_negate_of_normal {r : CharRanges} (h : Normal r.pairs) (c : Char) :
    r.negate.contains c = !r.contains c :=
  contains_negate h.tidy (fun p hp => Nat.lt_of_le_of_lt (h.bounded p hp) (by decide)) c

/-- Complementing twice gives the set back. -/
theorem negate_negate {r : CharRanges} (h : Normal r.pairs) : r.negate.negate = r := by
  refine eq_of_contains (normal_negate (normal_negate h)) h fun c => ?_
  rw [contains_negate_of_normal (normal_negate h), contains_negate_of_normal h, Bool.not_not]

/-! Sets that are found by asking about each code point. -/

/-- One step of the search: `open?` is where the run of hits began that the code point before ends,
and the runs before it are closed. -/
def scanStep (holds : Char → Bool) (state : Option Nat × List (Nat × Nat)) (n : Nat) :
    Option Nat × List (Nat × Nat) :=
  match (charOfCode? n).any holds, state with
  | true, (none, closed) => (some n, closed)
  | false, (some start, closed) => (none, closed ++ [(start, n - 1)])
  | _, state => state

/-- The set of the characters that a predicate holds of, found by asking about each code point in
turn, and about one more to close the last run. -/
def ofPredicate (holds : Char → Bool) : CharRanges :=
  ofPairs ((List.range (maxCodePoint + 2)).foldl (scanStep holds) (none, [])).2

/-- What the search knows after the code points below `n`: the runs that it has found hold those that
the predicate holds of. -/
structure Scanned (holds : Char → Bool) (n : Nat) (state : Option Nat × List (Nat × Nat)) : Prop where
  opened : ∀ start, state.1 = some start → start < n
  closed : ∀ p ∈ state.2, p.2 < n
  covers : ∀ m < n, (charOfCode? m).any holds = true ↔
    Covers state.2 m ∨ ∃ start, state.1 = some start ∧ start ≤ m

theorem Scanned.not_covers {holds : Char → Bool} {n : Nat} {state : Option Nat × List (Nat × Nat)}
    (h : Scanned holds n state) : ¬ Covers state.2 n := by
  rintro ⟨p, hp, _, hhi⟩
  have hclosed := h.closed p hp
  omega

theorem Scanned.step {holds : Char → Bool} {n : Nat} {state : Option Nat × List (Nat × Nat)}
    (h : Scanned holds n state) : Scanned holds (n + 1) (scanStep holds state n) := by
  have hbeyond := h.not_covers
  obtain ⟨run, closed⟩ := state
  have hcovers := h.covers
  have hclosed : ∀ p ∈ closed, p.2 < n + 1 := fun p hp => Nat.lt_succ_of_lt (h.closed p hp)
  -- Of the code points below `n + 1`, only `n` is new.
  have hsplit {m : Nat} (hm : m < n + 1) : m < n ∨ m = n := by omega
  cases hhit : (charOfCode? n).any holds with
  | true =>
    cases run with
    | none =>
      rw [show scanStep holds (none, closed) n = (some n, closed) by simp [scanStep, hhit]]
      refine ⟨fun start hstart => ?_, hclosed, fun m hm => ?_⟩
      · obtain rfl := Option.some.inj hstart
        exact Nat.lt_succ_self n
      · rcases hsplit hm with hlt | rfl
        · simp only [hcovers m hlt, reduceCtorEq, false_and, exists_false, Option.some.injEq,
            exists_eq_left', or_false]
          exact (or_iff_left (by omega)).symm
        · exact iff_of_true hhit (.inr ⟨m, rfl, Nat.le_refl m⟩)
    | some start =>
      have hstart : start < n := h.opened start rfl
      rw [show scanStep holds (some start, closed) n = (some start, closed) by
        simp [scanStep, hhit]]
      refine ⟨fun start hstart => Nat.lt_succ_of_lt (h.opened start hstart), hclosed, fun m hm => ?_⟩
      rcases hsplit hm with hlt | rfl
      · exact hcovers m hlt
      · exact iff_of_true hhit (.inr ⟨start, rfl, Nat.le_of_lt hstart⟩)
  | false =>
    have hmiss : ¬ (charOfCode? n).any holds = true := by simp [hhit]
    cases run with
    | none =>
      rw [show scanStep holds (none, closed) n = (none, closed) by simp [scanStep, hhit]]
      refine ⟨fun _ hstart => (nomatch hstart), hclosed, fun m hm => ?_⟩
      rcases hsplit hm with hlt | rfl
      · exact hcovers m hlt
      · exact iff_of_false hmiss (by simpa using hbeyond)
    | some start =>
      have hstart : start < n := h.opened start rfl
      rw [show scanStep holds (some start, closed) n = (none, closed ++ [(start, n - 1)]) by
        simp [scanStep, hhit]]
      refine ⟨fun _ hstart => (nomatch hstart), fun p hp => ?_, fun m hm => ?_⟩
      · rcases List.mem_append.mp hp with hp | hp
        · exact hclosed p hp
        · obtain rfl := List.mem_singleton.mp hp
          show n - 1 < n + 1
          omega
      · simp only [covers_append, covers_cons, covers_nil, or_false, reduceCtorEq, false_and,
          exists_false]
        rcases hsplit hm with hlt | rfl
        · simp only [hcovers m hlt, Option.some.injEq, exists_eq_left']
          exact or_congr_right (by omega)
        · refine iff_of_false hmiss ?_
          rintro (hcovered | hrange)
          · exact hbeyond hcovered
          · omega

theorem scanned_foldl (holds : Char → Bool) (n : Nat) :
    Scanned holds n ((List.range n).foldl (scanStep holds) (none, [])) := by
  induction n with
  | zero =>
    exact ⟨fun _ hstart => (nomatch hstart), fun _ hp => (nomatch hp),
      fun m hm => absurd hm (Nat.not_lt_zero m)⟩
  | succ n ih =>
    rw [List.range_succ, List.foldl_append]
    exact ih.step

theorem charOfCode?_eq_none {n : Nat} (hn : maxCodePoint < n) : charOfCode? n = none := by
  unfold maxCodePoint at hn
  exact if_neg (by unfold maxCodePoint; omega)

/-- The search finds all characters that the predicate holds of, and nothing else. -/
theorem covers_ofPredicate (holds : Char → Bool) (n : Nat) :
    Covers (ofPredicate holds).pairs n ↔ (charOfCode? n).any holds = true := by
  have hscanned := scanned_foldl holds (maxCodePoint + 2)
  rw [ofPredicate, covers_ofPairs]
  generalize (List.range (maxCodePoint + 2)).foldl (scanStep holds) (none, []) = state at hscanned ⊢
  have hlast := hscanned.covers (maxCodePoint + 1) (Nat.lt_succ_self _)
  rw [charOfCode?_eq_none (Nat.lt_succ_self _)] at hlast
  -- The code point after the last one closes the last run.
  have hopen (start : Nat) (hstart : state.1 = some start) : False := by
    have hle := Nat.le_of_lt_succ (hscanned.opened start hstart)
    cases hlast.mpr (.inr ⟨start, hstart, hle⟩)
  constructor
  · rintro ⟨_, p, hp, hlo, hhi⟩
    have hlt := Nat.lt_of_le_of_lt hhi (hscanned.closed p hp)
    exact (hscanned.covers n hlt).mpr (.inl ⟨p, hp, hlo, hhi⟩)
  · intro hhit
    obtain ⟨c, hc, _⟩ := (Option.any_eq_true _ _).mp hhit
    rw [← toNat_of_charOfCode? hc]
    have hbound := toNat_le_maxCodePoint c
    rw [← toNat_of_charOfCode? hc] at hhit
    rcases (hscanned.covers c.toNat (by omega)).mp hhit with hcovered | ⟨start, hstart, _⟩
    · exact ⟨noSurrogate_toNat c, hcovered⟩
    · exact (hopen start hstart).elim

theorem normal_ofPredicate (holds : Char → Bool) : Normal (ofPredicate holds).pairs := by
  refine (tidy_ofPairs _).normal fun n hn => Nat.le_of_not_lt fun hlt => ?_
  have hhit := (covers_ofPredicate holds n).mp hn
  rw [charOfCode?_eq_none hlt] at hhit
  cases hhit

/-- The set has the characters that the predicate holds of, whatever the predicate is. -/
theorem contains_ofPredicate (holds : Char → Bool) (c : Char) :
    (ofPredicate holds).contains c = holds c := by
  rw [Bool.eq_iff_iff, contains_iff (normal_ofPredicate holds).tidy, covers_ofPredicate,
    charOfCode?_toNat, Option.any_some]

/-- A normal set is found by asking about each code point. -/
theorem eq_ofPredicate {r : CharRanges} (h : Normal r.pairs) : r = ofPredicate r.contains :=
  eq_of_contains h (normal_ofPredicate _) fun c => (contains_ofPredicate _ c).symm

end RegexEngine.CharRanges
