import RegexEngine.Automaton.State
import RegexEngine.Proofs.CharRanges.Algebra
import RegexEngine.Search.Slots

/-!
A class that is asked about one character and a class that is turned into ranges are the same set of
characters, and so are the two views of a matcher. When case is ignored, the ranges are closed under
the other cases of characters; that takes the table of all characters that have another case to be
complete.

Which characters are the same when case is ignored depends on who asks. A literal and a back
reference take the other cases of the character that they want, a class those of the character that
it is given. Either relation is the converse of the other, and among the characters of ASCII they
are one relation.
-/

namespace RegexEngine

open CharRanges

namespace PerlClass

theorem pairs_bounded (name : PerlClass) : ∀ p ∈ name.pairs, p.2 ≤ maxCodePoint := by
  cases name <;> decide

end PerlClass

namespace PosixClass

theorem pairs_bounded (name : PosixClass) : ∀ p ∈ name.pairs, p.2 ≤ maxCodePoint := by
  cases name <;> decide

end PosixClass

namespace UnicodeProperty

theorem pairs_bounded (name : UnicodeProperty) : ∀ p ∈ name.pairs, p.2 ≤ maxCodePoint := by
  cases name <;> decide +kernel

end UnicodeProperty

namespace ClassItem

variable (item : ClassItem)

theorem table_bounded : ∀ p ∈ item.table.1, p.2 ≤ maxCodePoint := by
  cases item with
  | range first last =>
    intro p hp
    obtain rfl := List.mem_singleton.mp hp
    exact toNat_le_maxCodePoint last
  | perl name _ => exact name.pairs_bounded
  | posix name _ => exact name.pairs_bounded
  | property name _ => exact name.pairs_bounded

theorem normal_ranges : Normal item.ranges.pairs := by
  have hcovered := normal_ofPairs item.table_bounded
  unfold ranges
  dsimp only
  split
  · exact normal_negate hcovered
  · exact hcovered

theorem covers_ranges (c : Char) :
    Covers item.ranges.pairs c.toNat ↔ item.contains c = true := by
  have hcovered := normal_ofPairs item.table_bounded
  have htable : Covers (ofPairs item.table.1).pairs c.toNat ↔
      Text.inRanges item.table.1 c.toNat = true := by
    rw [covers_ofPairs, inRanges_iff]
    exact and_iff_right (noSurrogate_toNat c)
  unfold ranges contains
  dsimp only
  split
  · rename_i hnegated
    rw [covers_negate hcovered, htable, hnegated]
    simp [noSurrogate_toNat c, toNat_le_maxCodePoint c]
  · rename_i hnegated
    have hplain : item.table.2 = false := by simpa using hnegated
    rw [htable, hplain]
    simp

theorem contains_ranges (c : Char) : item.ranges.contains c = item.contains c := by
  rw [Bool.eq_iff_iff, contains_iff item.normal_ranges.tidy, covers_ranges]

/-- The ranges of a part are found by asking the part about each code point. -/
theorem ranges_eq_ofPredicate : item.ranges = .ofPredicate item.contains :=
  calc item.ranges = .ofPredicate item.ranges.contains := eq_ofPredicate item.normal_ranges
    _ = .ofPredicate item.contains := congrArg _ (funext item.contains_ranges)

end ClassItem

namespace Text

theorem CaseRun.mem_sources {run : CaseRun} {n : Nat} (h : run.covers n = true) :
    n ∈ run.sources := by
  simp only [CaseRun.covers, Bool.and_eq_true, decide_eq_true_eq, beq_iff_eq] at h
  obtain ⟨⟨hfirst, hlast⟩, hstride⟩ := h
  refine List.mem_filterMap.mpr ⟨n - run.first, List.mem_range.mpr (by omega), ?_⟩
  simp only [hstride, beq_self_eq_true, if_true]
  congr 1
  omega

theorem CaseRun.le_last {run : CaseRun} {n : Nat} (h : n ∈ run.sources) : n ≤ run.last := by
  obtain ⟨k, hk, hn⟩ := List.mem_filterMap.mp h
  have hlt := List.mem_range.mp hk
  split at hn
  · obtain rfl := Option.some.inj hn
    omega
  · cases hn

theorem mem_sources_of_applyRuns {runs : List CaseRun} {c v : Char}
    (h : applyRuns runs c = some v) : c.toNat ∈ runs.flatMap CaseRun.sources := by
  obtain ⟨run, hrun, _⟩ := Option.map_eq_some_iff.mp h
  have hcovers := List.find?_some hrun
  exact List.mem_flatMap.mpr ⟨run, List.mem_of_find?_eq_some hrun, CaseRun.mem_sources hcovers⟩

/-- A character that has another case is among those that are known to have one. -/
theorem mem_casedCodePoints {c v : Char} (h : v ∈ caseVariants c) : c.toNat ∈ casedCodePoints := by
  unfold casedCodePoints
  rw [List.flatMap_append, List.mem_append]
  cases hlower : lowercase? c with
  | some w => exact .inl (mem_sources_of_applyRuns hlower)
  | none =>
    cases hupper : uppercase? c with
    | some w => exact .inr (mem_sources_of_applyRuns hupper)
    | none => simp [caseVariants, hlower, hupper] at h

theorem casedCodePoints_le {n : Nat} (h : n ∈ casedCodePoints) : n ≤ maxCodePoint := by
  have hruns : ∀ run ∈ lowercaseRuns ++ uppercaseRuns, run.last ≤ maxCodePoint := by
    decide +kernel
  obtain ⟨run, hrun, hn⟩ := List.mem_flatMap.mp h
  exact Nat.le_trans (CaseRun.le_last hn) (hruns run hrun)

end Text

namespace CharClass

theorem mem_casePairs {n m : Nat} :
    (n, m) ∈ casePairs ↔
      n ∈ Text.casedCodePoints ∧ ∃ v ∈ Text.caseVariants (Char.ofNat n), v.toNat = m := by
  simp only [casePairs, List.mem_flatMap, List.mem_map, Prod.mk.injEq]
  constructor
  · rintro ⟨k, hk, v, hv, rfl, rfl⟩
    exact ⟨hk, v, hv, rfl⟩
  · rintro ⟨hn, v, hv, rfl⟩
    exact ⟨n, hn, v, hv, rfl, rfl⟩

theorem normal_closeUnderCase {r : CharRanges} (h : Normal r.pairs) :
    Normal (closeUnderCase r).pairs := by
  refine normal_ofPairs fun p hp => ?_
  rcases List.mem_append.mp hp with hp | hp
  · exact h.bounded p hp
  · obtain ⟨⟨n, m⟩, hnm, rfl⟩ := List.mem_map.mp hp
    exact Text.casedCodePoints_le (mem_casePairs.mp (List.mem_filter.mp hnm).1).1

/-- The set closed under case has the characters that have another case in the set. -/
theorem covers_closeUnderCase (r : CharRanges) (c : Char) :
    Covers (closeUnderCase r).pairs c.toNat ↔
      Covers r.pairs c.toNat ∨ ∃ v ∈ Text.caseVariants c, Covers r.pairs v.toNat := by
  unfold closeUnderCase union
  rw [covers_ofPairs, covers_append, and_iff_right (noSurrogate_toNat c)]
  refine or_congr_right ?_
  constructor
  · rintro ⟨p, hp, hlo, hhi⟩
    obtain ⟨⟨n, m⟩, hnm, rfl⟩ := List.mem_map.mp hp
    dsimp only at hlo hhi
    obtain rfl : n = c.toNat := by omega
    obtain ⟨hpair, hcovered⟩ := List.mem_filter.mp hnm
    obtain ⟨_, v, hv, rfl⟩ := mem_casePairs.mp hpair
    rw [Char.ofNat_toNat] at hv
    exact ⟨v, hv, (r.containsCode_iff _).mp hcovered⟩
  · rintro ⟨v, hv, hcovered⟩
    refine ⟨(c.toNat, c.toNat), List.mem_map.mpr ⟨(c.toNat, v.toNat), ?_, rfl⟩, Nat.le_refl _,
      Nat.le_refl _⟩
    refine List.mem_filter.mpr ⟨mem_casePairs.mpr ⟨Text.mem_casedCodePoints hv, v, ?_, rfl⟩, ?_⟩
    · rwa [Char.ofNat_toNat]
    · exact (r.containsCode_iff _).mpr hcovered

variable (cls : CharClass)

/-- The characters that some part covers, as ranges. -/
private def itemRanges : CharRanges :=
  .ofPairs (cls.items.flatMap fun item => item.ranges.pairs)

private theorem normal_itemRanges : Normal cls.itemRanges.pairs := by
  refine normal_ofPairs fun p hp => ?_
  obtain ⟨item, _, hp⟩ := List.mem_flatMap.mp hp
  exact item.normal_ranges.bounded p hp

private theorem covers_itemRanges (c : Char) :
    Covers cls.itemRanges.pairs c.toNat ↔ cls.covers c = true := by
  rw [itemRanges, covers_ofPairs, and_iff_right (noSurrogate_toNat c), covers_flatMap]
  simp only [ClassItem.covers_ranges, covers, List.any_eq_true]

/-- The ranges of a class are in normal form, and hold exactly the characters that the class has. -/
theorem ranges_spec (nocase : Bool) :
    Normal (cls.ranges nocase).pairs ∧
      ∀ c, Covers (cls.ranges nocase).pairs c.toNat ↔ cls.contains c nocase = true := by
  have hclosed : Normal (if nocase then closeUnderCase cls.itemRanges else cls.itemRanges).pairs := by
    split
    · exact normal_closeUnderCase cls.normal_itemRanges
    · exact cls.normal_itemRanges
  have hcovers (c : Char) :
      Covers (if nocase then closeUnderCase cls.itemRanges else cls.itemRanges).pairs c.toNat ↔
        (cls.covers c || (nocase && (Text.caseVariants c).any cls.covers)) = true := by
    cases nocase with
    | false => simp [covers_itemRanges]
    | true => simp [covers_closeUnderCase, covers_itemRanges]
  have hranges : cls.ranges nocase =
      if cls.negated then
        (if nocase then closeUnderCase cls.itemRanges else cls.itemRanges).negate
      else if nocase then closeUnderCase cls.itemRanges else cls.itemRanges := rfl
  rw [hranges]
  cases hnegated : cls.negated with
  | false =>
    refine ⟨hclosed, fun c => ?_⟩
    rw [if_neg Bool.false_ne_true, hcovers, contains, hnegated, bne_iff_ne, Bool.ne_false_iff]
  | true =>
    refine ⟨normal_negate hclosed, fun c => ?_⟩
    rw [if_pos rfl, covers_negate hclosed, hcovers, contains, hnegated, bne_iff_ne]
    exact ⟨fun h => h.2.2, fun h => ⟨noSurrogate_toNat c, toNat_le_maxCodePoint c, h⟩⟩

theorem contains_ranges (nocase : Bool) (c : Char) : (cls.ranges nocase).contains c = cls.contains c nocase := by
  obtain ⟨hnormal, hcovers⟩ := cls.ranges_spec nocase
  rw [Bool.eq_iff_iff, contains_iff hnormal.tidy, hcovers]

/-- The ranges of a class are found by asking the class about each code point. -/
theorem ranges_eq_ofPredicate (nocase : Bool) :
    cls.ranges nocase = .ofPredicate fun c => cls.contains c nocase :=
  calc cls.ranges nocase = .ofPredicate (cls.ranges nocase).contains :=
        eq_ofPredicate (cls.ranges_spec nocase).1
    _ = .ofPredicate fun c => cls.contains c nocase :=
        congrArg _ (funext (cls.contains_ranges nocase))

end CharClass

namespace Matcher

theorem foldl_union_single (others : List Char) {r : CharRanges} (h : Normal r.pairs) :
    Normal (others.foldl (fun r v => r.union (.single v)) r).pairs ∧
      ∀ n, Covers (others.foldl (fun r v => r.union (.single v)) r).pairs n ↔
        Covers r.pairs n ∨ ∃ v ∈ others, v.toNat = n := by
  induction others generalizing r with
  | nil => simpa using h
  | cons v others ih =>
    obtain ⟨hnormal, hcovers⟩ := ih (normal_union h (normal_single v))
    refine ⟨hnormal, fun n => ?_⟩
    rw [List.foldl_cons, hcovers, covers_union h (normal_single v)]
    have hsingle : Covers (CharRanges.single v).pairs n ↔ v.toNat = n := by
      simp only [CharRanges.single, covers_cons, covers_nil, or_false]
      omega
    rw [hsingle]
    simp [or_assoc]

theorem covers_single (c d : Char) : Covers (CharRanges.single c).pairs d.toNat ↔ c = d := by
  simp only [CharRanges.single, covers_cons, covers_nil, or_false]
  rw [← Char.toNat_inj]
  omega

theorem normal_all : Normal CharRanges.all.pairs :=
  normal_ofPairs (by simp)

/-- The ranges of a matcher are in normal form, and hold exactly the characters that it takes. -/
theorem ranges?_spec {m : Matcher} {r : CharRanges} (h : m.ranges? = some r) :
    Normal r.pairs ∧ ∀ c, Covers r.pairs c.toNat ↔ m.matchesChar c = true := by
  cases m with
  | literal chars nocase =>
    match chars with
    | [] => cases h
    | [wanted] =>
      obtain rfl := Option.some.inj h
      obtain ⟨hnormal, hcovers⟩ := foldl_union_single
        (if nocase then Text.caseVariants wanted else []) (normal_single wanted)
      refine ⟨hnormal, fun c => ?_⟩
      rw [hcovers, covers_single]
      cases nocase with
      | false => simp [matchesChar, Text.sameChar]
      | true => simp [matchesChar, Text.sameChar, Char.toNat_inj]
    | _ :: _ :: _ => cases h
  | any dotAll =>
    cases dotAll with
    | true =>
      obtain rfl := Option.some.inj h
      refine ⟨normal_all, fun c => ⟨fun _ => by simp [matchesChar], fun _ => ?_⟩⟩
      rw [CharRanges.all, covers_ofPairs]
      exact ⟨noSurrogate_toNat c, _, List.mem_singleton_self _, Nat.zero_le _,
        toNat_le_maxCodePoint c⟩
    | false =>
      obtain rfl := Option.some.inj h
      have hline := normal_single '\n'
      refine ⟨normal_negate hline, fun c => ?_⟩
      rw [covers_negate hline, covers_single, matchesChar, Bool.false_or, bne_iff_ne]
      exact ⟨fun h => Ne.symm h.2.2,
        fun h => ⟨noSurrogate_toNat c, toNat_le_maxCodePoint c, Ne.symm h⟩⟩
  | cls set nocase =>
    obtain rfl := Option.some.inj h
    exact set.ranges_spec nocase

variable {m : Matcher} {r : CharRanges}

theorem contains_ranges (h : m.ranges? = some r) (c : Char) : r.contains c = m.matchesChar c := by
  obtain ⟨hnormal, hcovers⟩ := ranges?_spec h
  rw [Bool.eq_iff_iff, contains_iff hnormal.tidy, hcovers]

theorem matchRun?_singleton (nocase : Bool) {input : Array Char} (wanted : Char) {position : Nat}
    {c : Char} (hc : input[position]? = some c) :
    matchRun? nocase input [wanted] position =
      if Text.sameChar wanted c nocase then some (position + 1) else none := by
  rw [matchRun?, hc]
  rfl

/-- A matcher of one character takes the next character or nothing. -/
theorem matchAt?_of_isSingle (h : m.isSingle = true) (input : Array Char) (position : Nat) :
    m.matchAt? input position =
      if input[position]?.any m.matchesChar then some (position + 1) else none := by
  cases m with
  | literal chars nocase =>
    obtain ⟨c, rfl⟩ := List.length_eq_one_iff.mp (by simpa [isSingle] using h)
    cases hc : input[position]? with
    | none => simp [matchAt?, matchRun?, hc]
    | some d =>
      simp only [matchAt?, matchRun?_singleton nocase c hc, Option.any_some, matchesChar]
      rfl
  | any dotAll => cases hc : input[position]? <;> simp [matchAt?, hc]
  | cls set nocase => cases hc : input[position]? <;> simp [matchAt?, hc]

/-- A matcher has ranges if it takes one character at a time. -/
theorem isSome_ranges? (m : Matcher) : m.ranges?.isSome = m.isSingle := by
  cases m with
  | literal chars nocase =>
    match chars with
    | [] => rfl
    | [_] => rfl
    | _ :: _ :: _ => rfl
  | any dotAll => cases dotAll <;> rfl
  | cls set nocase => rfl

theorem isSingle_of_ranges? (h : m.ranges? = some r) : m.isSingle = true := by
  rw [← isSome_ranges?, h]
  rfl

/-- A matcher that has ranges takes the character at a place, or nothing. -/
theorem matchAt?_of_ranges? (h : m.ranges? = some r) {input : Array Char} {position : Nat} {c : Char}
    (hc : input[position]? = some c) :
    m.matchAt? input position = if m.matchesChar c then some (position + 1) else none := by
  rw [matchAt?_of_isSingle (isSingle_of_ranges? h), hc, Option.any_some]

/-- Characters are taken where they stand themselves. -/
theorem matchRun?_self (nocase : Bool) (before chars : List Char) :
    matchRun? nocase (before ++ chars).toArray chars before.length =
      some (before.length + chars.length) := by
  induction chars generalizing before with
  | nil => rfl
  | cons c rest ih =>
    have hnext : (before ++ c :: rest).toArray[before.length]? = some c := by simp
    have hsame : Text.sameChar c c nocase = true := by simp [Text.sameChar]
    have hrest := ih (before ++ [c])
    rw [List.append_assoc, List.length_append, List.length_singleton] at hrest
    rw [matchRun?, hnext, List.length_cons, Nat.add_comm rest.length, ← Nat.add_assoc, ← hrest]
    exact if_pos hsame

/-- A matcher takes one character at a time if everything that it takes is one character. -/
theorem isSingle_iff : m.isSingle = true ↔
    ∀ input position next, m.matchAt? input position = some next → next = position + 1 := by
  constructor
  · intro hsingle input position next hnext
    rw [matchAt?_of_isSingle hsingle] at hnext
    split at hnext
    · exact (Option.some.inj hnext).symm
    · cases hnext
  · intro h
    cases m with
    | literal chars nocase =>
      have hwhole := h chars.toArray 0 _ (matchRun?_self nocase [] chars)
      simpa [isSingle] using hwhole
    | any dotAll => rfl
    | cls set nocase => rfl

/-- The set of ranges of a class is the class: it is what asking about each code point finds, and
has the same characters, whether case is ignored or not. The set of ranges of a matcher has the
characters that the matcher takes, and these are the characters over which a match goes on to the
next place. -/
theorem range_form_agrees :
    (∀ (set : CharClass) (nocase : Bool),
      (set.ranges nocase = .ofPredicate fun c => set.contains c nocase) ∧
        ∀ c, set.contains c nocase = (set.ranges nocase).contains c) ∧
    ∀ (m : Matcher) (r : CharRanges), m.ranges? = some r → ∀ c,
      m.matchesChar c = r.contains c ∧
        ∀ (input : Array Char) (position : Nat), input[position]? = some c →
          (m.matchAt? input position = some (position + 1) ↔ m.matchesChar c = true) := by
  refine ⟨fun set nocase => ⟨set.ranges_eq_ofPredicate nocase, fun c => ?_⟩, fun m r hr c => ?_⟩
  · exact (set.contains_ranges nocase c).symm
  · refine ⟨(contains_ranges hr c).symm, fun input position hc => ?_⟩
    rw [matchAt?_of_ranges? hr hc]
    split <;> simp_all

theorem range_form_agrees_on_letterK :
    let m := Matcher.literal ['k'] true
    let r := (CharRanges.single 'k').union (.single 'K')
    m.ranges? = some r ∧ #['x', 'K'][1]? = some 'K' ∧ m.matchesChar 'K' = r.contains 'K' ∧
      (m.matchAt? #['x', 'K'] 1 = some 2 ↔ m.matchesChar 'K' = true) := by
  have hvariants : Text.caseVariants 'k' = ['K'] := by decide
  have hranges : (Matcher.literal ['k'] true).ranges? =
      some ((CharRanges.single 'k').union (.single 'K')) := by
    rw [ranges?, if_pos rfl, hvariants]
    rfl
  have hagrees := range_form_agrees.2 _ _ hranges 'K'
  exact ⟨hranges, rfl, hagrees.1, hagrees.2 #['x', 'K'] 1 rfl⟩

end Matcher

namespace Transition

theorem ranges?_spec {t : Transition} {r : CharRanges} (h : t.ranges? = some r) :
    Normal r.pairs ∧ ∀ c, Covers r.pairs c.toNat ↔ t.matchesChar c = true := by
  obtain ⟨label, hlabel, hranges⟩ := Option.bind_eq_some_iff.mp h
  obtain ⟨hnormal, hcovers⟩ := Matcher.ranges?_spec hranges
  refine ⟨hnormal, fun c => ?_⟩
  rw [hcovers, matchesChar, hlabel, Option.any_some]

end Transition

/-! Ignoring case. -/

/-- The class of one character. -/
def CharClass.only (c : Char) : CharClass := ⟨false, [.range c c]⟩

theorem CharClass.covers_only (c d : Char) : (only c).covers d = (d == c) := by
  rw [Bool.eq_iff_iff, beq_iff_eq, ← Char.toNat_inj]
  simp only [covers, only, ClassItem.contains, ClassItem.table, Text.inRanges, List.any_cons,
    List.any_nil, Bool.or_false, bne_iff_ne, ne_eq, Bool.not_eq_false, Bool.and_eq_true,
    decide_eq_true_eq]
  omega

/-- A class takes the other cases of the character that it is asked about, a literal those of the
character that it wants. So the class of one character is the converse of the literal. -/
theorem Matcher.only_converse (c d : Char) :
    (cls (.only c) true).matchesChar d = (literal [d] true).matchesChar c := by
  have hcovers : (CharClass.only c).covers = (· == c) := funext (CharClass.covers_only c)
  simp only [matchesChar, CharClass.contains, hcovers, Text.sameChar, Bool.true_and]
  rw [show (CharClass.only c).negated = false from rfl, Bool.bne_false, List.contains_eq_any_beq]
  simp only [Bool.beq_comm]

/-- A back reference to a group that has taken one character takes what the literal takes. -/
theorem Slots.backref?_single {slots : Slots} {input : Array Char} {group start position : Nat}
    {c d : Char} (hspan : slots.span? group = some (start, start + 1)) (hc : input[start]? = some c)
    (hd : input[position]? = some d) :
    slots.backref? input group true position =
      if (Matcher.literal [c] true).matchesChar d then some (position + 1) else none := by
  obtain ⟨hstart, rfl⟩ := Array.getElem?_eq_some_iff.mp hc
  have htext : (input.extract start (start + 1)).toList = [input[start]] := by
    rw [Array.toList_extract, List.extract_eq_take_drop, Nat.add_sub_cancel_left,
      List.drop_eq_getElem_cons (by simpa using hstart)]
    rfl
  simp only [backref?, hspan, htext]
  exact Matcher.matchRun?_singleton true input[start] hd

namespace Text

theorem mem_caseVariants {c v : Char} :
    v ∈ caseVariants c ↔ lowercase? c = some v ∨ uppercase? c = some v := by
  unfold caseVariants
  cases lowercase? c <;> cases uppercase? c <;> dsimp only
  · simp
  · simp [eq_comm]
  · simp [eq_comm]
  · split <;> simp_all [eq_comm]

/-- Runs that begin beyond a character leave it alone. -/
theorem applyRuns_of_lt {run : CaseRun} {later : List CaseRun} {c : Char}
    (hlater : ∀ other ∈ later, c.toNat < other.first) :
    applyRuns (run :: later) c = applyRuns [run] c := by
  have hnone : later.find? (·.covers c.toNat) = none := by
    refine List.find?_eq_none.mpr fun other hother => ?_
    have hlt := hlater other hother
    simp [CaseRun.covers]
    omega
  simp only [applyRuns, List.find?_cons, List.find?_nil, hnone]

theorem lowercase?_of_ascii {c : Char} (hc : c.toNat < 0x80) :
    lowercase? c = applyRuns [⟨0x41, 0x5A, 1, 32⟩] c := by
  have hlater : ∀ other ∈ lowercaseRuns.tail, 0x80 ≤ other.first := by
    decide +kernel
  exact applyRuns_of_lt fun other hother => Nat.lt_of_lt_of_le hc (hlater other hother)

theorem uppercase?_of_ascii {c : Char} (hc : c.toNat < 0x80) :
    uppercase? c = applyRuns [⟨0x61, 0x7A, 1, -32⟩] c := by
  have hlater : ∀ other ∈ uppercaseRuns.tail, 0x80 ≤ other.first := by
    decide +kernel
  exact applyRuns_of_lt fun other hother => Nat.lt_of_lt_of_le hc (hlater other hother)

/-- Between characters of ASCII, to be another case goes both ways. -/
theorem mem_caseVariants_symm_of_ascii {c d : Char} (hc : c.toNat < 0x80) (hd : d.toNat < 0x80)
    (h : d ∈ caseVariants c) : c ∈ caseVariants d := by
  have hback : ∀ n < 0x80,
      (applyRuns [⟨0x41, 0x5A, 1, 32⟩] (Char.ofNat n)).all (fun v =>
          applyRuns [⟨0x61, 0x7A, 1, -32⟩] v == some (Char.ofNat n)) = true ∧
        (applyRuns [⟨0x61, 0x7A, 1, -32⟩] (Char.ofNat n)).all (fun v =>
          applyRuns [⟨0x41, 0x5A, 1, 32⟩] v == some (Char.ofNat n)) = true := by
    decide
  obtain ⟨hlower, hupper⟩ := hback c.toNat hc
  rw [Char.ofNat_toNat] at hlower hupper
  rw [mem_caseVariants, lowercase?_of_ascii hc, uppercase?_of_ascii hc] at h
  rw [mem_caseVariants, lowercase?_of_ascii hd, uppercase?_of_ascii hd]
  rcases h with h | h
  · rw [h] at hlower
    exact .inr (by simpa using hlower)
  · rw [h] at hupper
    exact .inl (by simpa using hupper)

end Text

/-- Among characters of ASCII, a class of one character takes what the literal takes. -/
theorem Matcher.only_eq_literal_of_ascii {c d : Char} (hc : c.toNat < 0x80) (hd : d.toNat < 0x80) :
    (cls (.only c) true).matchesChar d = (literal [c] true).matchesChar d := by
  have hsymm : d ∈ Text.caseVariants c ↔ c ∈ Text.caseVariants d :=
    ⟨Text.mem_caseVariants_symm_of_ascii hc hd, Text.mem_caseVariants_symm_of_ascii hd hc⟩
  rw [only_converse, Bool.eq_iff_iff]
  simp only [matchesChar, Text.sameChar, Bool.true_and, Bool.or_eq_true, beq_iff_eq,
    List.contains_iff_mem]
  exact or_congr eq_comm hsymm.symm

/-- Beyond ASCII they differ: the sign of the unit kelvin has the small letter k as another case, but
the other case of that letter is the capital. -/
theorem Matcher.only_ne_literal_of_kelvin :
    (cls (.only 'k') true).matchesChar '\u212A' = true ∧
      (literal ['k'] true).matchesChar '\u212A' = false := by
  decide

end RegexEngine
