import RegexEngine.Proofs.CharClass.Escape
import RegexEngine.Proofs.CharClass.Ranges

/-!
A set of characters that is written as text reads back as the same set. The text is one character or
a bracket expression; either way it spells a matcher that takes the characters of the set and no
others, so it can stand as the label of a transition.
-/

namespace RegexEngine

open Text (Cursor)
open CharRanges

/-- What a written character begins with means nothing between brackets or in front of a label. -/
theorem head_escapeChar (c : Char) :
    ∃ first more, escapeChar c = first :: more ∧
      first ≠ '-' ∧ first ≠ ']' ∧ first ≠ '[' ∧ first ≠ '^' ∧ first ≠ '(' ∧ first ≠ '.' := by
  rcases escapeChar_cases c with ⟨heq, hplain⟩ | ⟨more, heq, _⟩
  · refine ⟨c, [], heq, ?_⟩
    refine ⟨?_, ?_, ?_, ?_, ?_, ?_⟩
    all_goals
      rintro rfl
      exact absurd hplain (by decide)
  · exact ⟨'\\', more, heq, by decide⟩

namespace CharClass

/-- A written character is read as itself between brackets. -/
theorem readAtom_escapeChar (strict : Bool) (c : Char) (offset : Nat) (rest : List Char)
    {first : Char} {more : List Char} (hfirst : escapeChar c = first :: more) :
    ∃ next, readAtom strict ⟨offset, escapeChar c ++ rest⟩ first = .ok (.char c, ⟨next, rest⟩) := by
  have hbracket : (first == '[') = false := by
    obtain ⟨other, others, heq, _, _, hne, _⟩ := head_escapeChar c
    obtain ⟨rfl, rfl⟩ := List.cons.inj (hfirst.symm.trans heq)
    simpa using hne
  rcases escapeChar_cases c with ⟨heq, hplain⟩ | ⟨others, heq, hread⟩
  · obtain ⟨rfl, rfl⟩ := List.cons.inj (heq.symm.trans hfirst)
    have hescape : (c == '\\') = false := by
      rw [beq_eq_false_iff_ne]
      rintro rfl
      exact absurd hplain (by decide)
    refine ⟨offset + c.utf8Size, ?_⟩
    simp [readAtom, hbracket, hescape, heq, Cursor.drop]
  · obtain ⟨rfl, rfl⟩ := List.cons.inj (heq.symm.trans hfirst)
    obtain ⟨next, hnext⟩ := hread strict (offset + '\\'.utf8Size) rest
    refine ⟨next, ?_⟩
    simp only [readAtom, heq, hbracket, Bool.false_and, Bool.false_eq_true, if_false, beq_self_eq_true,
      if_true, readBackslash, List.cons_append, Cursor.drop, hnext]

theorem startsRange_eq_false {cur : Cursor} (h : ∀ rest, cur.rest ≠ '-' :: rest) :
    startsRange cur = false := by
  unfold startsRange
  split
  · rename_i rest heq
    exact absurd heq (h _)
  · rfl

/-- A written character that no dash follows is read as a range of one character. -/
theorem readItem_single (strict : Bool) (c : Char) (offset : Nat) {rest : List Char} {first : Char}
    {more : List Char} (hfirst : escapeChar c = first :: more)
    (hrest : ∀ others, rest ≠ '-' :: others) :
    ∃ next, readItem strict ⟨offset, escapeChar c ++ rest⟩ first =
      .ok (.range c c, ⟨next, rest⟩) := by
  obtain ⟨next, hatom⟩ := readAtom_escapeChar strict c offset rest hfirst
  have hdash : startsRange ⟨next, rest⟩ = false := startsRange_eq_false hrest
  refine ⟨next, ?_⟩
  simp only [readItem, hatom, bind, Except.bind, hdash]
  rfl

/-- Two written characters with a dash between them are read as a range. -/
theorem readItem_range (strict : Bool) {c d : Char} (hle : c.toNat ≤ d.toNat) (offset : Nat)
    (rest : List Char) {first : Char} {more : List Char} (hfirst : escapeChar c = first :: more) :
    ∃ next, readItem strict ⟨offset, escapeChar c ++ '-' :: (escapeChar d ++ rest)⟩ first =
      .ok (.range c d, ⟨next, rest⟩) := by
  obtain ⟨next, hatom⟩ := readAtom_escapeChar strict c offset ('-' :: (escapeChar d ++ rest)) hfirst
  obtain ⟨last, others, hlast, _, hclose, hopen, _⟩ := head_escapeChar d
  obtain ⟨final, hend⟩ := readAtom_escapeChar strict d (next + '-'.utf8Size) rest hlast
  have hdash : startsRange ⟨next, '-' :: (escapeChar d ++ rest)⟩ = true := by
    simp [startsRange, hlast, hclose]
  have hbracket : (last == '[') = false := by simpa using hopen
  have horder : ¬ d < c := by
    rw [Char.lt_def, UInt32.lt_iff_toNat_lt]
    exact Nat.not_lt.mpr hle
  have hreadEnd : readRangeEnd strict ⟨next, '-' :: (escapeChar d ++ rest)⟩ last =
      .ok (d, ⟨final, rest⟩) := by
    simp only [readRangeEnd, hbracket, Bool.false_and, Bool.false_eq_true, if_false, Cursor.drop]
    rw [hend]
    rfl
  have hdrop : Cursor.drop 1 ⟨next, '-' :: (escapeChar d ++ rest)⟩ =
      ⟨next + '-'.utf8Size, last :: (others ++ rest)⟩ := by
    simp [Cursor.drop, hlast]
  refine ⟨final, ?_⟩
  simp only [readItem, hatom, bind, Except.bind, hdash, hdrop, hreadEnd, if_neg horder]
  rfl

end CharClass

namespace Label

/-- A text that spells a matcher is a label with that matcher. -/
theorem ofChars_eq {text : List Char} {m : Matcher} (h : Matcher.parse text = .ok m) :
    ofChars text = .ok ⟨text, m, h⟩ := by
  unfold ofChars
  split
  · rename_i other hother
    cases h.symm.trans hother
    rfl
  · rename_i e herror
    cases h.symm.trans herror

end Label

namespace CharRanges

/-- The ends of a range are characters. -/
structure Spells (p : Nat × Nat) (first last : Char) : Prop where
  first_eq : first.toNat = p.1
  last_eq : last.toNat = p.2
  text_eq : rangeText p =
    if p.1 = p.2 then escapeChar first else escapeChar first ++ '-' :: escapeChar last

theorem Normal.spells {pairs : List (Nat × Nat)} (h : Normal pairs) {p : Nat × Nat}
    (hp : p ∈ pairs) : ∃ first last, Spells p first last := by
  have hproper := h.proper p hp
  obtain ⟨hcode, hbound⟩ := h.isCode ⟨p, hp, Nat.le_refl _, hproper⟩
  obtain ⟨hcode', hbound'⟩ := h.isCode ⟨p, hp, hproper, Nat.le_refl _⟩
  obtain ⟨first, hfirst⟩ := charOfCode?_eq_some hcode hbound
  obtain ⟨last, hlast⟩ := charOfCode?_eq_some hcode' hbound'
  refine ⟨first, last, toNat_of_charOfCode? hfirst, toNat_of_charOfCode? hlast, ?_⟩
  obtain ⟨lo, hi⟩ := p
  simp only [rangeText, hfirst, hlast]

/-- A written range is read back as the range. -/
theorem Spells.readItem {p : Nat × Nat} {first last : Char} (h : Spells p first last)
    (strict : Bool) (hproper : p.1 ≤ p.2) (offset : Nat) {rest : List Char}
    (hrest : ∀ others, rest ≠ '-' :: others) :
    ∃ lead more next, rangeText p = lead :: more ∧ lead ≠ '-' ∧ lead ≠ ']' ∧ lead ≠ '^' ∧
      CharClass.readItem strict ⟨offset, rangeText p ++ rest⟩ lead =
        .ok (.range first last, ⟨next, rest⟩) := by
  obtain ⟨lead, more, hlead, hdash, hclose, _, hcaret, _⟩ := head_escapeChar first
  have htext := h.text_eq
  split at htext
  · rename_i hsingle
    obtain rfl : first = last := by
      rw [← Char.toNat_inj, h.first_eq, h.last_eq, hsingle]
    obtain ⟨next, hread⟩ := CharClass.readItem_single strict first offset hlead hrest
    exact ⟨lead, more, next, htext.trans hlead, hdash, hclose, hcaret, htext ▸ hread⟩
  · have hle : first.toNat ≤ last.toNat := by
      rw [h.first_eq, h.last_eq]
      exact hproper
    obtain ⟨next, hread⟩ := CharClass.readItem_range strict hle offset rest hlead
    refine ⟨lead, more ++ '-' :: escapeChar last, next, ?_, hdash, hclose, hcaret, ?_⟩
    · rw [htext, hlead, List.cons_append]
    · rw [htext, List.append_assoc]
      exact hread

/-- What the written ranges of a list and a closing bracket begin with. -/
theorem head_rangeTexts {pairs : List (Nat × Nat)} (h : Normal pairs) :
    ∃ first more, pairs.flatMap rangeText ++ [']'] = first :: more ∧ first ≠ '-' ∧ first ≠ '^' := by
  cases pairs with
  | nil => exact ⟨']', [], rfl, by decide, by decide⟩
  | cons p rest =>
    obtain ⟨first, last, hspells⟩ := h.spells List.mem_cons_self
    obtain ⟨lead, more, next, htext, hdash, _, hcaret, _⟩ :=
      hspells.readItem false (h.proper p List.mem_cons_self) 0
        (fun others => (List.cons_ne_nil '-' others).symm)
    refine ⟨lead, more ++ (rest.flatMap rangeText ++ [']']), ?_, hdash, hcaret⟩
    rw [List.flatMap_cons, htext]
    simp

theorem Normal.tail {p : Nat × Nat} {rest : List (Nat × Nat)} (h : Normal (p :: rest)) :
    Normal rest :=
  ⟨(List.pairwise_cons.mp h.apart).2, fun q hq => h.proper q (List.mem_cons_of_mem _ hq),
    fun q hq => h.bounded q (List.mem_cons_of_mem _ hq),
    fun q hq => h.noSurrogate q (List.mem_cons_of_mem _ hq)⟩

/-- The written ranges of a list are read back as items that cover what the list holds. -/
theorem readItems_rangeTexts (strict : Bool) {pairs : List (Nat × Nat)} (h : Normal pairs)
    (opened : Nat) :
    ∀ (fuel offset : Nat), pairs.length < fuel →
      ∃ items next, CharClass.readItems strict opened fuel
          ⟨offset, pairs.flatMap rangeText ++ [']']⟩ = .ok (items, ⟨next, []⟩) ∧
        items.length = pairs.length ∧
          ∀ c : Char, items.any (·.contains c) = true ↔ Covers pairs c.toNat := by
  induction pairs with
  | nil =>
    intro fuel offset hfuel
    obtain ⟨fuel, rfl⟩ := Nat.exists_eq_succ_of_ne_zero (Nat.ne_of_gt hfuel)
    refine ⟨[], offset + ']'.utf8Size, rfl, rfl, fun c => by simp⟩
  | cons p rest ih =>
    intro fuel offset hfuel
    obtain ⟨fuel, rfl⟩ := Nat.exists_eq_succ_of_ne_zero (Nat.ne_of_gt (Nat.zero_lt_of_lt hfuel))
    obtain ⟨first, last, hspells⟩ := h.spells List.mem_cons_self
    obtain ⟨after, others, hafter, hdash, _⟩ := head_rangeTexts h.tail
    have hrest : ∀ more, rest.flatMap rangeText ++ [']'] ≠ '-' :: more := by
      intro more heq
      exact hdash (List.cons.inj (hafter.symm.trans heq)).1
    obtain ⟨lead, more, next, htext, _, hclose, _, hitem⟩ :=
      hspells.readItem strict (h.proper p List.mem_cons_self) offset hrest
    obtain ⟨items, final, hitems, hlength, hcovers⟩ := ih h.tail fuel next (by
      rw [List.length_cons] at hfuel
      omega)
    refine ⟨.range first last :: items, final, ?_, by simp [hlength], ?_⟩
    · rw [List.flatMap_cons, List.append_assoc, CharClass.readItems]
      rw [htext, List.cons_append] at hitem
      simp only [htext, List.cons_append, hitem, bind, Except.bind, hitems]
      rfl
    · intro c
      rw [List.any_cons, Bool.or_eq_true, hcovers, covers_cons, ← hspells.first_eq,
        ← hspells.last_eq]
      refine or_congr_left ?_
      simp [ClassItem.contains, ClassItem.table, Text.inRanges]

end CharRanges

namespace Matcher

/-- Nothing is stripped from a label that does not begin with a parenthesis. -/
theorem stripMarks_eq (text : List Char) (h : ∀ rest, text ≠ '(' :: rest) (nocase dotAll : Bool)
    (fuel : Nat) : stripMarks nocase dotAll fuel text = (nocase, dotAll, text) := by
  have hstrip (more : List Char) : Text.strip? ('(' :: more) text = none := by
    cases text with
    | nil => rfl
    | cons c rest =>
      have hne : ('(' == c) = false := by
        rw [beq_eq_false_iff_ne]
        rintro rfl
        exact h rest rfl
      simp [Text.strip?, hne]
  cases fuel with
  | zero => rfl
  | succ fuel =>
    have hnocase : Text.strip? nocaseMark text = none := hstrip _
    have hdotAll : Text.strip? dotAllMark text = none := hstrip _
    rw [stripMarks, hnocase, hdotAll]

/-- The characters of a label that is one written character. -/
theorem readChars_escapeChar (c : Char) (nocase : Bool) (whole : List Char) (fuel : Nat) :
    readChars nocase whole true (fuel + 2) (.start (escapeChar c)) = .ok (.literal [c] nocase) := by
  have hend (offset : Nat) : readChars nocase whole false (fuel + 1) ⟨offset, []⟩ =
      .ok (.literal [] nocase) := rfl
  rcases escapeChar_cases c with ⟨heq, hplain⟩ | ⟨more, heq, hread⟩
  · have hescape : c ≠ '\\' := by
      rintro rfl
      exact absurd hplain (by decide)
    rw [heq, readChars]
    simp only [Cursor.start, Cursor.drop, hend]
    rfl
  · obtain ⟨next, hnext⟩ := hread false (0 + '\\'.utf8Size) []
    rw [List.append_nil] at hnext
    rw [heq, readChars]
    simp only [Cursor.start, Cursor.drop, hnext, hend]
    rfl

/-- The mark that makes a label ignore case is the only one in front of it. -/
theorem stripMarks_marked (nocase : Bool) (text : List Char) (h : ∀ rest, text ≠ '(' :: rest) :
    stripMarks false false ((if nocase then nocaseMark else []) ++ text).length
      ((if nocase then nocaseMark else []) ++ text) = (nocase, false, text) := by
  cases nocase with
  | false => exact stripMarks_eq text h false false _
  | true =>
    have hmark : Text.strip? nocaseMark (nocaseMark ++ text) = some text := rfl
    have hlength : (nocaseMark ++ text).length = (text.length + 3) + 1 := by
      simp [nocaseMark]
    rw [if_pos rfl, hlength, stripMarks, hmark]
    exact stripMarks_eq text h true false _

/-- The label of a character. -/
theorem parse_literal (nocase : Bool) (c : Char) :
    parse ((if nocase then nocaseMark else []) ++ escapeChar c) = .ok (.literal [c] nocase) := by
  obtain ⟨first, more, heq, _, _, hbracket, _, hparen, hdot⟩ := head_escapeChar c
  have hstrip := stripMarks_marked nocase (escapeChar c) (by
    intro rest hrest
    exact hparen (List.cons.inj (heq.symm.trans hrest)).1)
  have hchars := readChars_escapeChar c nocase (escapeChar c) more.length
  unfold parse
  rw [hstrip]
  dsimp only
  split
  · rename_i hnil
    rw [heq] at hnil
    cases hnil
  · rename_i hsingle
    rw [heq] at hsingle
    exact absurd (List.cons.inj hsingle).1 hdot
  · rename_i rest hcons
    rw [heq] at hcons
    exact absurd (List.cons.inj hcons).1 hbracket
  · rw [← hchars, heq]
    rfl

end Matcher

namespace CharRanges

theorem length_le_rangeTexts {pairs : List (Nat × Nat)} (h : Normal pairs) :
    pairs.length ≤ (pairs.flatMap rangeText).length := by
  induction pairs with
  | nil => simp
  | cons p rest ih =>
    obtain ⟨first, last, hspells⟩ := h.spells List.mem_cons_self
    obtain ⟨lead, more, _, htext, _⟩ :=
      hspells.readItem false (h.proper p List.mem_cons_self) 0
        (fun others => (List.cons_ne_nil '-' others).symm)
    have hrest := ih h.tail
    rw [List.flatMap_cons, List.length_append, htext, List.length_cons, List.length_cons]
    omega

/-- A set that is written as a bracket expression is read back as a class with its characters. -/
theorem parseWith_bracketText (strict : Bool) {r : CharRanges} (h : Normal r.pairs)
    (hne : r.pairs ≠ []) :
    ∃ cls, CharClass.parseWith strict r.bracketText = .ok cls ∧ cls.ranges false = r := by
  obtain ⟨first, more, hhead, _, hcaret⟩ := head_rangeTexts h
  have hfuel : r.pairs.length < (r.pairs.flatMap rangeText ++ [']']).length + 1 := by
    have hlength := length_le_rangeTexts h
    rw [List.length_append]
    omega
  obtain ⟨items, next, hitems, hlength, hcovers⟩ :=
    readItems_rangeTexts strict h 0 _ (0 + '['.utf8Size) hfuel
  have hsome : items.isEmpty = false := by
    rw [List.isEmpty_eq_false_iff]
    rintro rfl
    exact hne (List.length_eq_zero_iff.mp hlength.symm)
  have hpeek : (Cursor.peek? ⟨0 + '['.utf8Size, r.pairs.flatMap rangeText ++ [']']⟩ ==
      some '^') = false := by
    simp [Cursor.peek?, hhead, hcaret]
  refine ⟨⟨false, items⟩, ?_, ?_⟩
  · simp only [CharClass.parseWith, CharClass.read, CharClass.readBracket, Cursor.start, bracketText,
      List.cons_append, Cursor.drop, hpeek, Bool.false_eq_true, if_false, hitems, bind, Except.bind,
      hsome]
    rfl
  · refine eq_of_contains (CharClass.ranges_spec _ false).1 h fun c => ?_
    rw [CharClass.contains_ranges, Bool.eq_iff_iff, contains_iff h.tidy, ← hcovers]
    simp [CharClass.contains, CharClass.covers]

theorem eq_single_of_singleton? {r : CharRanges} {c : Char} (h : r.singleton? = some c) :
    r = .single c := by
  unfold singleton? at h
  split at h
  · rename_i lo hi hpairs
    split at h
    · rename_i heq
      have hcode := toNat_of_charOfCode? h
      obtain ⟨pairs⟩ := r
      cases hpairs
      rw [single, hcode, heq]
    · cases h
  · cases h

end CharRanges

namespace Matcher

/-- True for a matcher that takes the other cases of its characters too. -/
def ignoresCase : Matcher → Bool
  | literal _ nocase | cls _ nocase => nocase
  | any _ => false

end Matcher

namespace CharRanges

/-- A set of characters that is not empty spells a matcher of single characters, those of the set,
in their own case only. -/
theorem parse_spec {r : CharRanges} (h : Normal r.pairs) (hne : r.pairs ≠ []) :
    ∃ m : Matcher, Matcher.parse r.spec.toList = .ok m ∧ m.ignoresCase = false ∧
      m.ranges? = some r := by
  unfold spec
  rw [String.toList_ofList]
  split
  · rename_i c hsingle
    refine ⟨.literal [c] false, Matcher.parse_literal false c, rfl, ?_⟩
    rw [eq_single_of_singleton? hsingle]
    rfl
  · obtain ⟨cls, hcls, hranges⟩ := parseWith_bracketText false h hne
    refine ⟨.cls cls false, ?_, rfl, congrArg some hranges⟩
    have hstrip := Matcher.stripMarks_eq r.bracketText (by
      intro rest hrest
      exact absurd (List.cons.inj hrest).1 (by decide)) false false r.bracketText.length
    unfold Matcher.parse
    rw [hstrip]
    simp only [bracketText, List.cons_append]
    rw [show '[' :: (r.pairs.flatMap rangeText ++ [']']) = r.bracketText from rfl, hcls]
    rfl

/-- A set of characters that is not empty spells a label that takes its characters and no others,
one at a time. -/
theorem label_of_spec {r : CharRanges} (h : Normal r.pairs) (hne : r.pairs ≠ []) :
    ∃ (label : Label) (ranges : CharRanges), Label.ofText r.spec = .ok label ∧
      label.matcher.ranges? = some ranges ∧
        ∀ c, label.matcher.matchesChar c = true ↔ Covers r.pairs c.toNat := by
  obtain ⟨m, hm, _, hranges⟩ := parse_spec h hne
  refine ⟨⟨r.spec.toList, m, hm⟩, r, Label.ofChars_eq hm, hranges, fun c => ?_⟩
  exact ((Matcher.ranges?_spec hranges).2 c).symm

/-- A text that begins with a bracket is no written character. -/
theorem spec_of_bracket {r : CharRanges} {rest : List Char} (h : r.spec.toList = '[' :: rest) :
    r.spec.toList = r.bracketText := by
  unfold spec at h ⊢
  rw [String.toList_ofList] at h ⊢
  split at h
  · rename_i c _
    obtain ⟨first, more, hfirst, _, _, hbracket, _⟩ := head_escapeChar c
    exact absurd (List.cons.inj (hfirst.symm.trans h)).1 hbracket
  · rfl

/-- A set of characters that is written as text is read back as the same set, wherever the text
stands: as the label of a transition it spells a matcher with just these ranges, which goes by case,
and if it is a bracket expression, it is a class with just these ranges to both readings of
classes. -/
theorem spec_read_back {r : CharRanges} (h : Normal r.pairs) (hne : r.isEmpty = false) :
    (∃ m, Matcher.parse r.spec.toList = .ok m ∧ m.ignoresCase = false ∧ m.ranges? = some r) ∧
      ∀ rest, r.spec.toList = '[' :: rest →
        (∃ cls, CharClass.parse r.spec = .ok cls ∧ cls.ranges false = r) ∧
          ∃ cls, CharClass.parseStrict r.spec = .ok cls ∧ cls.ranges false = r := by
  have hpairs : r.pairs ≠ [] := by simpa [isEmpty] using hne
  refine ⟨parse_spec h hpairs, fun rest hrest => ?_⟩
  rw [CharClass.parse, CharClass.parseStrict, spec_of_bracket hrest]
  exact ⟨parseWith_bracketText false h hpairs, parseWith_bracketText true h hpairs⟩

/-- A line end, a dash, the brackets up to the caret, and all that follows the Hangul syllables, on
both sides of the surrogates. -/
theorem spec_read_back_awkward :
    let r : CharRanges :=
      ⟨[(0x0A, 0x0A), (0x2D, 0x2D), (0x5B, 0x5E), (0xD7A4, 0xD7FF), (0xE000, 0x10FFFF)]⟩
    Normal r.pairs ∧ r.isEmpty = false ∧
      (∃ m, Matcher.parse r.spec.toList = .ok m ∧ m.ignoresCase = false ∧ m.ranges? = some r) ∧
      ∃ rest, r.spec.toList = '[' :: rest ∧
        (∃ cls, CharClass.parse r.spec = .ok cls ∧ cls.ranges false = r) ∧
          ∃ cls, CharClass.parseStrict r.spec = .ok cls ∧ cls.ranges false = r := by
  intro r
  have hnormal : Normal r.pairs := ⟨by decide, by decide, by decide, by decide⟩
  have hbracket : r.spec.toList = '[' :: (r.pairs.flatMap rangeText ++ [']']) := by
    rw [spec, String.toList_ofList]
    rfl
  obtain ⟨hlabel, hclass⟩ := spec_read_back hnormal rfl
  exact ⟨hnormal, rfl, hlabel, _, hbracket, hclass _ hbracket⟩

example : (CharRanges.mk [(0x0A, 0x0A), (0x2D, 0x2D), (0x30, 0x39)]).spec = "[\\n\\-0-9]" := by
  decide +kernel

end CharRanges

end RegexEngine
