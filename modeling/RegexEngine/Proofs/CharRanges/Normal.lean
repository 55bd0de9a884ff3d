import RegexEngine.CharRanges

/-!
Sets of characters as lists of ranges. `Covers` is the meaning of a list: which code points its
ranges hold. A list in normal form is sorted, its ranges neither overlap nor touch, and all that
they hold are code points of characters.

`ofPairs` makes a normal form of any list of code points, and holds what the list holds except for
surrogates. Union and complement come down to it. Lists of words beyond the last code point keep all
of the normal form but the bound, and are called tidy; the complement of one is right as long as it
leaves out the largest word, which no other word comes after.
-/

namespace RegexEngine.CharRanges

/-- A range of the list holds the code point. -/
def Covers (pairs : List (Nat × Nat)) (n : Nat) : Prop := ∃ p ∈ pairs, p.1 ≤ n ∧ n ≤ p.2

/-- Not the code point of half a character. -/
def NoSurrogate (n : Nat) : Prop := n < 0xD800 ∨ 0xDFFF < n

/-- A list in normal form, but for the bound. -/
structure Tidy (pairs : List (Nat × Nat)) : Prop where
  apart : pairs.Pairwise fun p q => p.2 + 1 < q.1
  proper : ∀ p ∈ pairs, p.1 ≤ p.2
  noSurrogate : ∀ p ∈ pairs, p.2 < 0xD800 ∨ 0xDFFF < p.1

/-- A list in normal form. -/
structure Normal (pairs : List (Nat × Nat)) : Prop where
  apart : pairs.Pairwise fun p q => p.2 + 1 < q.1
  proper : ∀ p ∈ pairs, p.1 ≤ p.2
  bounded : ∀ p ∈ pairs, p.2 ≤ maxCodePoint
  noSurrogate : ∀ p ∈ pairs, p.2 < 0xD800 ∨ 0xDFFF < p.1

theorem inRanges_iff (pairs : List (Nat × Nat)) (n : Nat) :
    Text.inRanges pairs n = true ↔ Covers pairs n := by
  simp [Text.inRanges, Covers]

theorem containsCode_iff (r : CharRanges) (n : Nat) :
    r.containsCode n = true ↔ Covers r.pairs n :=
  inRanges_iff r.pairs n

@[simp] theorem covers_nil (n : Nat) : ¬ Covers [] n := by
  simp [Covers]

@[simp] theorem covers_cons (p : Nat × Nat) (pairs : List (Nat × Nat)) (n : Nat) :
    Covers (p :: pairs) n ↔ (p.1 ≤ n ∧ n ≤ p.2) ∨ Covers pairs n := by
  simp [Covers]

@[simp] theorem covers_append (pairs others : List (Nat × Nat)) (n : Nat) :
    Covers (pairs ++ others) n ↔ Covers pairs n ∨ Covers others n := by
  simp only [Covers, List.mem_append, or_and_right, exists_or]

theorem covers_flatMap {α : Type} (items : List α) (pairs : α → List (Nat × Nat)) (n : Nat) :
    Covers (items.flatMap pairs) n ↔ ∃ item ∈ items, Covers (pairs item) n := by
  simp only [Covers, List.mem_flatMap]
  constructor
  · rintro ⟨p, ⟨item, hitem, hp⟩, hn⟩
    exact ⟨item, hitem, p, hp, hn⟩
  · rintro ⟨item, hitem, p, hp, hn⟩
    exact ⟨p, ⟨item, hitem, hp⟩, hn⟩

theorem noSurrogate_toNat (c : Char) : NoSurrogate c.toNat := by
  have hvalid := c.valid
  simp only [UInt32.isValidChar, Nat.isValidChar] at hvalid
  have hcode : c.toNat = c.val.toNat := rfl
  unfold NoSurrogate
  omega

theorem toNat_le_maxCodePoint (c : Char) : c.toNat ≤ maxCodePoint := by
  have hvalid := c.valid
  simp only [UInt32.isValidChar, Nat.isValidChar] at hvalid
  have hcode : c.toNat = c.val.toNat := rfl
  unfold maxCodePoint
  omega

theorem Normal.tidy {pairs : List (Nat × Nat)} (h : Normal pairs) : Tidy pairs :=
  ⟨h.apart, h.proper, h.noSurrogate⟩

/-- A tidy list is in normal form if it holds nothing beyond the last character. -/
theorem Tidy.normal {pairs : List (Nat × Nat)} (h : Tidy pairs)
    (hbounded : ∀ n, Covers pairs n → n ≤ maxCodePoint) : Normal pairs :=
  ⟨h.apart, h.proper, fun p hp => hbounded p.2 ⟨p, hp, h.proper p hp, Nat.le_refl _⟩,
    h.noSurrogate⟩

theorem Tidy.tail {p : Nat × Nat} {pairs : List (Nat × Nat)} (h : Tidy (p :: pairs)) :
    Tidy pairs :=
  ⟨(List.pairwise_cons.mp h.apart).2, fun q hq => h.proper q (List.mem_cons_of_mem _ hq),
    fun q hq => h.noSurrogate q (List.mem_cons_of_mem _ hq)⟩

/-- A tidy list holds no surrogates. -/
theorem Tidy.isNoSurrogate {pairs : List (Nat × Nat)} (h : Tidy pairs) {n : Nat}
    (hn : Covers pairs n) : NoSurrogate n := by
  obtain ⟨p, hp, hlo, hhi⟩ := hn
  have hsurrogate := h.noSurrogate p hp
  unfold NoSurrogate
  omega

/-- What the ranges after the first one hold is beyond it, and does not touch it. -/
theorem Tidy.lt_of_covers {p : Nat × Nat} {pairs : List (Nat × Nat)} (h : Tidy (p :: pairs))
    {n : Nat} (hn : Covers pairs n) : p.2 + 1 < n := by
  obtain ⟨q, hq, hqn, _⟩ := hn
  have hgap := (List.pairwise_cons.mp h.apart).1 q hq
  omega

/-- All that a normal list holds are code points of characters. -/
theorem Normal.isCode {pairs : List (Nat × Nat)} (h : Normal pairs) {n : Nat}
    (hn : Covers pairs n) : NoSurrogate n ∧ n ≤ maxCodePoint := by
  refine ⟨h.tidy.isNoSurrogate hn, ?_⟩
  obtain ⟨p, hp, _, hhi⟩ := hn
  exact Nat.le_trans hhi (h.bounded p hp)

/-! Joining ranges that overlap or touch. -/

theorem precedes_trans (a b c : Nat × Nat) :
    precedes a b = true → precedes b c = true → precedes a c = true := by
  simp only [precedes, Bool.or_eq_true, Bool.and_eq_true, decide_eq_true_eq, beq_iff_eq]
  omega

theorem precedes_total (a b : Nat × Nat) : (precedes a b || precedes b a) = true := by
  simp only [precedes, Bool.or_eq_true, Bool.and_eq_true, decide_eq_true_eq, beq_iff_eq]
  omega

/-- A list in ascending order of first code points. -/
def Ascending (pairs : List (Nat × Nat)) : Prop := pairs.Pairwise fun p q => p.1 ≤ q.1

theorem ascending_mergeSort (pairs : List (Nat × Nat)) : Ascending (pairs.mergeSort precedes) := by
  refine (List.pairwise_mergeSort precedes_trans precedes_total pairs).imp ?_
  intro p q hpq
  simp only [precedes, Bool.or_eq_true, Bool.and_eq_true, decide_eq_true_eq, beq_iff_eq] at hpq
  omega

/-- What joining the ranges of a list after a first one comes to. -/
structure Joined (lo hi : Nat) (rest joined : List (Nat × Nat)) : Prop where
  apart : joined.Pairwise fun p q => p.2 + 1 < q.1
  proper : ∀ p ∈ joined, p.1 ≤ p.2
  from_lo : ∀ p ∈ joined, lo ≤ p.1
  covers : ∀ n, Covers joined n ↔ (lo ≤ n ∧ n ≤ hi) ∨ Covers rest n

theorem mergeFrom_joined {lo hi : Nat} {rest : List (Nat × Nat)} (hlo : lo ≤ hi)
    (hproper : ∀ p ∈ rest, p.1 ≤ p.2) (hstart : ∀ p ∈ rest, lo ≤ p.1) (hsorted : Ascending rest) :
    Joined lo hi rest (mergeFrom lo hi rest) := by
  induction rest generalizing lo hi with
  | nil => exact ⟨by simp [mergeFrom], by simpa [mergeFrom] using hlo, by simp [mergeFrom],
      by simp [mergeFrom]⟩
  | cons p rest ih =>
    obtain ⟨next, last⟩ := p
    have hnext : next ≤ last := hproper _ List.mem_cons_self
    have hlonext : lo ≤ next := hstart _ List.mem_cons_self
    have hproperRest := fun p hp => hproper p (List.mem_cons_of_mem _ hp)
    obtain ⟨hafter, hsortedRest⟩ := List.pairwise_cons.mp hsorted
    rw [mergeFrom]
    split
    · rename_i htouch
      have hjoined := @ih lo (max hi last) (by omega) hproperRest
        (fun p hp => hstart p (List.mem_cons_of_mem _ hp)) hsortedRest
      refine ⟨hjoined.apart, hjoined.proper, hjoined.from_lo, ?_⟩
      intro n
      rw [hjoined.covers, covers_cons]
      constructor
      · rintro (hn | hn)
        · by_cases hfirst : n ≤ hi
          · exact .inl ⟨hn.1, hfirst⟩
          · exact .inr (.inl ⟨by dsimp only; omega, by dsimp only; omega⟩)
        · exact .inr (.inr hn)
      · rintro (hn | hn | hn)
        · exact .inl ⟨hn.1, by omega⟩
        · exact .inl ⟨by dsimp only at hn; omega, by dsimp only at hn; omega⟩
        · exact .inr hn
    · rename_i hgap
      have hjoined := ih hnext hproperRest hafter hsortedRest
      refine ⟨List.pairwise_cons.mpr ⟨?_, hjoined.apart⟩, ?_, ?_, ?_⟩
      · intro q hq
        have hfrom := hjoined.from_lo q hq
        dsimp only
        omega
      · intro q hq
        rcases List.mem_cons.mp hq with rfl | hq
        · exact hlo
        · exact hjoined.proper q hq
      · intro q hq
        rcases List.mem_cons.mp hq with rfl | hq
        · exact Nat.le_refl _
        · exact Nat.le_trans hlonext (hjoined.from_lo q hq)
      · intro n
        rw [covers_cons, hjoined.covers, covers_cons]

/-- Joining the ranges of a sorted list keeps what they hold, and leaves gaps between them. -/
theorem mergeSorted_spec {pairs : List (Nat × Nat)} (hproper : ∀ p ∈ pairs, p.1 ≤ p.2)
    (hsorted : Ascending pairs) :
    (mergeSorted pairs).Pairwise (fun p q => p.2 + 1 < q.1) ∧
      (∀ p ∈ mergeSorted pairs, p.1 ≤ p.2) ∧
        ∀ n, Covers (mergeSorted pairs) n ↔ Covers pairs n := by
  cases pairs with
  | nil => simp [mergeSorted]
  | cons p rest =>
    obtain ⟨lo, hi⟩ := p
    obtain ⟨hafter, hsortedRest⟩ := List.pairwise_cons.mp hsorted
    have hjoined := mergeFrom_joined (hproper _ List.mem_cons_self)
      (fun p hp => hproper p (List.mem_cons_of_mem _ hp)) hafter hsortedRest
    refine ⟨hjoined.apart, hjoined.proper, fun n => ?_⟩
    rw [mergeSorted, hjoined.covers, covers_cons]

/-! Leaving out surrogates. -/

theorem mem_withoutSurrogates {p q : Nat × Nat} (hp : p.1 ≤ p.2)
    (hq : q ∈ withoutSurrogates p) :
    p.1 ≤ q.1 ∧ q.1 ≤ q.2 ∧ q.2 ≤ p.2 ∧ (q.2 < 0xD800 ∨ 0xDFFF < q.1) := by
  obtain ⟨lo, hi⟩ := p
  simp only [withoutSurrogates] at hq
  split at hq
  · obtain rfl := List.mem_singleton.mp hq
    dsimp only at hp ⊢
    omega
  · rcases List.mem_append.mp hq with hq | hq
    all_goals
      split at hq
      · obtain rfl := List.mem_singleton.mp hq
        dsimp only at hp ⊢
        omega
      · cases hq

theorem covers_withoutSurrogates (p : Nat × Nat) (n : Nat) :
    Covers (withoutSurrogates p) n ↔ NoSurrogate n ∧ p.1 ≤ n ∧ n ≤ p.2 := by
  obtain ⟨lo, hi⟩ := p
  simp only [withoutSurrogates, NoSurrogate]
  split
  · simp only [covers_cons, covers_nil, or_false]
    omega
  · split <;> split <;>
      simp only [covers_append, covers_cons, covers_nil, or_false, false_or, false_iff] <;> omega

theorem apart_withoutSurrogates (p : Nat × Nat) :
    (withoutSurrogates p).Pairwise fun p q => p.2 + 1 < q.1 := by
  obtain ⟨lo, hi⟩ := p
  simp only [withoutSurrogates]
  split
  · exact List.pairwise_singleton _ _
  · split <;> split <;> simp

theorem apart_flatMap_withoutSurrogates {pairs : List (Nat × Nat)}
    (happart : pairs.Pairwise fun p q => p.2 + 1 < q.1) (hproper : ∀ p ∈ pairs, p.1 ≤ p.2) :
    (pairs.flatMap withoutSurrogates).Pairwise fun p q => p.2 + 1 < q.1 := by
  induction pairs with
  | nil => exact .nil
  | cons p rest ih =>
    obtain ⟨hafter, happartRest⟩ := List.pairwise_cons.mp happart
    have hproperRest := fun p hp => hproper p (List.mem_cons_of_mem _ hp)
    rw [List.flatMap_cons, List.pairwise_append]
    refine ⟨apart_withoutSurrogates p, ih happartRest hproperRest, ?_⟩
    intro q hq other hother
    obtain ⟨source, hsource, hother⟩ := List.mem_flatMap.mp hother
    have hq := mem_withoutSurrogates (hproper p List.mem_cons_self) hq
    have hother := mem_withoutSurrogates (hproperRest source hsource) hother
    have hgap := hafter source hsource
    omega

/-! The operations. -/

/-- The pairs that hold some number, in ascending order. -/
def sorted (pairs : List (Nat × Nat)) : List (Nat × Nat) :=
  (pairs.filter fun p => p.1 ≤ p.2).mergeSort precedes

theorem ofPairs_eq (pairs : List (Nat × Nat)) :
    ofPairs pairs = ⟨(mergeSorted (sorted pairs)).flatMap withoutSurrogates⟩ := rfl

theorem mem_sorted {pairs : List (Nat × Nat)} {p : Nat × Nat} :
    p ∈ sorted pairs ↔ p ∈ pairs ∧ p.1 ≤ p.2 := by
  simp [sorted, List.mem_mergeSort, List.mem_filter]

theorem sorted_proper (pairs : List (Nat × Nat)) : ∀ p ∈ sorted pairs, p.1 ≤ p.2 :=
  fun _ hp => (mem_sorted.mp hp).2

theorem covers_ofPairs (pairs : List (Nat × Nat)) (n : Nat) :
    Covers (ofPairs pairs).pairs n ↔ NoSurrogate n ∧ Covers pairs n := by
  obtain ⟨_, _, hcovers⟩ := mergeSorted_spec (sorted_proper pairs) (ascending_mergeSort _)
  have hsorted : Covers (sorted pairs) n ↔ Covers pairs n := by
    constructor
    · rintro ⟨p, hp, hn⟩
      exact ⟨p, (mem_sorted.mp hp).1, hn⟩
    · rintro ⟨p, hp, hn⟩
      exact ⟨p, mem_sorted.mpr ⟨hp, Nat.le_trans hn.1 hn.2⟩, hn⟩
  rw [ofPairs_eq, covers_flatMap, ← hsorted, ← hcovers n]
  simp only [covers_withoutSurrogates]
  constructor
  · rintro ⟨p, hp, hn, hrange⟩
    exact ⟨hn, p, hp, hrange⟩
  · rintro ⟨hn, p, hp, hrange⟩
    exact ⟨p, hp, hn, hrange⟩

/-- `ofPairs` makes a tidy list of every list. -/
theorem tidy_ofPairs (pairs : List (Nat × Nat)) : Tidy (ofPairs pairs).pairs := by
  obtain ⟨happart, hproperMerged, _⟩ :=
    mergeSorted_spec (sorted_proper pairs) (ascending_mergeSort _)
  have hpart {q : Nat × Nat} (hq : q ∈ (mergeSorted (sorted pairs)).flatMap withoutSurrogates) :
      q.1 ≤ q.2 ∧ (q.2 < 0xD800 ∨ 0xDFFF < q.1) := by
    obtain ⟨p, hp, hq⟩ := List.mem_flatMap.mp hq
    have hq := mem_withoutSurrogates (hproperMerged p hp) hq
    exact ⟨hq.2.1, hq.2.2.2⟩
  rw [ofPairs_eq]
  exact ⟨apart_flatMap_withoutSurrogates happart hproperMerged, fun _ hq => (hpart hq).1,
    fun _ hq => (hpart hq).2⟩

/-- `ofPairs` makes a normal form of every list that holds nothing beyond the last character. -/
theorem normal_ofPairs {pairs : List (Nat × Nat)}
    (hbounded : ∀ p ∈ pairs, p.2 ≤ maxCodePoint) : Normal (ofPairs pairs).pairs := by
  refine (tidy_ofPairs pairs).normal fun n hn => ?_
  obtain ⟨p, hp, _, hhi⟩ := ((covers_ofPairs pairs n).mp hn).2
  exact Nat.le_trans hhi (hbounded p hp)

theorem normal_single (c : Char) : Normal (single c).pairs := by
  have hcode := noSurrogate_toNat c
  have hbound := toNat_le_maxCodePoint c
  unfold NoSurrogate at hcode
  exact ⟨List.pairwise_singleton _ _, by simp [single], by simpa [single] using hbound,
    by simpa [single] using hcode⟩

theorem normal_union {a b : CharRanges} (ha : Normal a.pairs) (hb : Normal b.pairs) :
    Normal (a.union b).pairs := by
  refine normal_ofPairs fun p hp => ?_
  rcases List.mem_append.mp hp with hp | hp
  · exact ha.bounded p hp
  · exact hb.bounded p hp

theorem covers_union_of_tidy {a b : CharRanges} (ha : Tidy a.pairs) (hb : Tidy b.pairs) (n : Nat) :
    Covers (a.union b).pairs n ↔ Covers a.pairs n ∨ Covers b.pairs n := by
  rw [union, covers_ofPairs, covers_append]
  refine ⟨fun h => h.2, fun h => ⟨?_, h⟩⟩
  rcases h with h | h
  · exact ha.isNoSurrogate h
  · exact hb.isNoSurrogate h

theorem covers_union {a b : CharRanges} (ha : Normal a.pairs) (hb : Normal b.pairs) (n : Nat) :
    Covers (a.union b).pairs n ↔ Covers a.pairs n ∨ Covers b.pairs n :=
  covers_union_of_tidy ha.tidy hb.tidy n

theorem gaps_bounded {next : Nat} {pairs : List (Nat × Nat)}
    (hbounded : ∀ p ∈ pairs, p.1 ≤ maxCodePoint + 1) :
    ∀ p ∈ gaps next pairs, p.2 ≤ maxCodePoint := by
  induction pairs generalizing next with
  | nil =>
    intro p hp
    simp only [gaps] at hp
    split at hp
    · obtain rfl := List.mem_singleton.mp hp
      exact Nat.le_refl _
    · cases hp
  | cons q rest ih =>
    intro p hp
    have hq := hbounded q List.mem_cons_self
    rw [gaps] at hp
    rcases List.mem_append.mp hp with hp | hp
    · split at hp
      · obtain rfl := List.mem_singleton.mp hp
        dsimp only
        omega
      · cases hp
    · exact ih (fun p hp => hbounded p (List.mem_cons_of_mem _ hp)) p hp

/-- Up to the last character, the gaps of a tidy list hold what the list does not hold. -/
theorem covers_gaps {next : Nat} {pairs : List (Nat × Nat)} (h : Tidy pairs)
    (hwords : ∀ p ∈ pairs, p.2 < 0xFFFFFFFF) (hnext : ∀ p ∈ pairs, next ≤ p.1) {n : Nat}
    (hn : n ≤ maxCodePoint) :
    Covers (gaps next pairs) n ↔ next ≤ n ∧ ¬ Covers pairs n := by
  induction pairs generalizing next with
  | nil =>
    simp only [gaps]
    split
    · simp [hn]
    · simp
      omega
  | cons p rest ih =>
    obtain ⟨lo, hi⟩ := p
    have hlo : lo ≤ hi := h.proper _ List.mem_cons_self
    have hhi : hi < 0xFFFFFFFF := hwords _ List.mem_cons_self
    have hstart : next ≤ lo := hnext _ List.mem_cons_self
    have hafter := (List.pairwise_cons.mp h.apart).1
    have hword : (hi + 1) % 0x100000000 = hi + 1 := by omega
    have hlater := ih h.tail (fun q hq => hwords q (List.mem_cons_of_mem _ hq))
      fun q hq => Nat.le_of_lt (hafter q hq)
    rw [gaps, covers_append, hword, hlater, covers_cons]
    dsimp only
    by_cases hcovered : Covers rest n
    · have hgt : hi + 1 < n := h.lt_of_covers hcovered
      simp only [hcovered, not_true_eq_false, and_false, or_true, or_false, iff_false]
      split
      · simp only [covers_cons, covers_nil, or_false]
        omega
      · simp
    · simp only [hcovered, not_false_eq_true, and_true, or_false]
      split
      · simp only [covers_cons, covers_nil, or_false]
        omega
      · simp only [covers_nil, false_or]
        omega

theorem normal_negate {r : CharRanges} (h : Normal r.pairs) : Normal r.negate.pairs := by
  refine normal_ofPairs (gaps_bounded fun p hp => ?_)
  have hproper := h.proper p hp
  have hbounded := h.bounded p hp
  omega

/-- Up to the last character, the complement of a tidy list without the largest word holds what the
list does not hold. -/
theorem covers_negate_of_tidy {r : CharRanges} (h : Tidy r.pairs)
    (hwords : ∀ p ∈ r.pairs, p.2 < 0xFFFFFFFF) {n : Nat} (hn : n ≤ maxCodePoint) :
    Covers r.negate.pairs n ↔ NoSurrogate n ∧ ¬ Covers r.pairs n := by
  rw [negate, covers_ofPairs, covers_gaps h hwords (fun _ _ => Nat.zero_le _) hn]
  simp

theorem covers_negate {r : CharRanges} (h : Normal r.pairs) (n : Nat) :
    Covers r.negate.pairs n ↔ NoSurrogate n ∧ n ≤ maxCodePoint ∧ ¬ Covers r.pairs n := by
  have hwords : ∀ p ∈ r.pairs, p.2 < 0xFFFFFFFF := fun p hp =>
    Nat.lt_of_le_of_lt (h.bounded p hp) (by decide)
  constructor
  · intro hcovered
    have hn := ((normal_negate h).isCode hcovered).2
    have hspec := (covers_negate_of_tidy h.tidy hwords hn).mp hcovered
    exact ⟨hspec.1, hn, hspec.2⟩
  · rintro ⟨hcode, hn, hnot⟩
    exact (covers_negate_of_tidy h.tidy hwords hn).mpr ⟨hcode, hnot⟩

end RegexEngine.CharRanges
