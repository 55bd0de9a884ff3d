import Mathlib.Data.List.Forall2
import Mathlib.Data.Nat.Digits.Defs
import RegexEngine.Proofs.CharClass.Escape
import RegexEngine.Suite.Quoted

/-!
Escapes in the strings of suites. A text can be written in many ways, each character as itself or as
an escape. Whatever the way, decoding answers with the text. What stands at a backslash is an escape
in one way at most, so decoding goes wrong exactly at the first backslash at which none begins.
-/

namespace RegexEngine

namespace Text

/-- A digit of base sixteen, in either case, and its value. -/
def IsHexDigit (c : Char) (value : Nat) : Prop :=
  value < 16 ∧ (c = value.digitChar ∨ c = value.digitChar.toUpper)

/-- Digits of base sixteen, and the number that they spell. -/
def IsHexNumber (digits : List Char) (n : Nat) : Prop :=
  ∃ values, List.Forall₂ IsHexDigit digits values ∧ Nat.ofDigits 16 values.reverse = n

theorem hexDigit?_eq_some_iff {c : Char} {value : Nat} :
    hexDigit? c = some value ↔ IsHexDigit c value := by
  constructor
  · intro h
    have hsmall : c.toNat < 128 ∧ value < 16 := by
      simp only [hexDigit?, Bool.and_eq_true, decide_eq_true_eq] at h
      split at h
      · cases h
        omega
      · split at h
        · cases h
          omega
        · split at h
          · cases h
            omega
          · cases h
    have hall : ∀ n < 128, ∀ value < 16, hexDigit? (Char.ofNat n) = some value →
        Char.ofNat n = value.digitChar ∨ Char.ofNat n = value.digitChar.toUpper := by
      decide +kernel
    have hcase := hall c.toNat hsmall.1 value hsmall.2
    rw [Char.ofNat_toNat] at hcase
    exact ⟨hsmall.2, hcase h⟩
  · rintro ⟨hvalue, hcase⟩
    have hall : ∀ value < 16, hexDigit? value.digitChar = some value ∧
        hexDigit? value.digitChar.toUpper = some value := by
      decide
    rcases hcase with rfl | rfl
    · exact (hall value hvalue).1
    · exact (hall value hvalue).2

/-- Digits are read from the most significant one on. -/
theorem foldlM_digits_eq_some_iff {digits : List Char} {start n : Nat} :
    digits.foldlM (fun value c => do
        let d ← hexDigit? c
        if d < 16 then some (value * 16 + d) else none) start = some n ↔
      ∃ values, List.Forall₂ IsHexDigit digits values ∧
        values.foldl (fun value d => d + 16 * value) start = n := by
  induction digits generalizing start with
  | nil => simp
  | cons c rest ih =>
    rw [List.foldlM_cons]
    simp only [List.forall₂_cons_left_iff, ← hexDigit?_eq_some_iff]
    cases hdigit : hexDigit? c with
    | none => simp
    | some d =>
      have hsmall := (hexDigit?_eq_some_iff.mp hdigit).1
      rw [Option.bind_eq_bind, Option.bind_some, if_pos hsmall]
      refine Iff.trans ih ?_
      constructor
      · rintro ⟨values, hvalues, rfl⟩
        exact ⟨d :: values, ⟨d, values, rfl, hvalues, rfl⟩, by rw [List.foldl_cons]; congr 1; omega⟩
      · rintro ⟨_, ⟨d', values, hd, hvalues, rfl⟩, rfl⟩
        cases hd
        exact ⟨values, hvalues, by rw [List.foldl_cons]; congr 1; omega⟩

theorem digitsValue?_eq_some_iff {digits : List Char} {n : Nat} :
    digitsValue? 16 digits = some n ↔ IsHexNumber digits n := by
  rw [digitsValue?, foldlM_digits_eq_some_iff]
  simp only [IsHexNumber, Nat.ofDigits_eq_foldr, List.foldr_reverse]
  rfl

theorem isHexDigit_of_isHexNumber {digits : List Char} {n : Nat} (h : IsHexNumber digits n) :
    ∀ c ∈ digits, isHexDigit c = true := by
  obtain ⟨values, hvalues, -⟩ := h
  intro c hc
  obtain ⟨i, hi, rfl⟩ := List.getElem_of_mem hc
  have hdigit := hvalues.get hi (hvalues.length_eq ▸ hi)
  rw [isHexDigit]
  exact Option.isSome_iff_exists.mpr ⟨_, hexDigit?_eq_some_iff.mpr hdigit⟩

end Text

namespace Suite

open Text (IsHexNumber byteLength)

/-! Escapes. -/

/-- An escape from its backslash on, and the character that it stands for. -/
inductive Escape : List Char → Char → Prop
  | lineFeed : Escape ['\\', 'n'] '\n'
  | carriageReturn : Escape ['\\', 'r'] '\r'
  | tab : Escape ['\\', 't'] '\t'
  | nul : Escape ['\\', '0'] '\x00'
  | backslash : Escape ['\\', '\\'] '\\'
  | singleQuote : Escape ['\\', '\''] '\''
  | doubleQuote : Escape ['\\', '"'] '"'
  | byte {a b c : Char} : IsHexNumber [a, b] c.toNat → Escape ['\\', 'x', a, b] c
  | codePoint {digits : List Char} {c : Char} : 1 ≤ digits.length → digits.length ≤ 6 →
      IsHexNumber digits c.toNat → Escape ('\\' :: 'u' :: '{' :: (digits ++ ['}'])) c

/-- An escape begins with a backslash. -/
theorem Escape.exists_eq {written : List Char} {c : Char} (h : Escape written c) :
    ∃ more, written = '\\' :: more := by
  cases h <;> exact ⟨_, rfl⟩

theorem codePoint?_eq_some_iff {digits : List Char} {c : Char} :
    codePoint? digits = some c ↔ IsHexNumber digits c.toNat := by
  unfold codePoint?
  constructor
  · intro h
    split at h
    · obtain ⟨n, hn, hc⟩ := Option.bind_eq_some_iff.mp h
      rw [toNat_of_charOfCode? hc]
      exact Text.digitsValue?_eq_some_iff.mp hn
    · cases h
  · intro h
    rw [if_pos (List.all_eq_true.mpr (Text.isHexDigit_of_isHexNumber h)),
      Text.digitsValue?_eq_some_iff.mpr h, Option.bind_some, charOfCode?_toNat]

theorem escape_of_letterEscape? {letter c : Char} (h : letterEscape? letter = some c) :
    Escape ['\\', letter] c := by
  unfold letterEscape? at h
  split at h <;> cases h
  · exact .lineFeed
  · exact .carriageReturn
  · exact .tab
  · exact .nul
  · exact .backslash
  · exact .singleQuote
  · exact .doubleQuote

theorem escape_of_readCodePoint? {letter c : Char} {rest after : List Char}
    (h : readCodePoint? letter rest = some (c, after)) :
    ∃ written, rest = written ++ after ∧ Escape ('\\' :: letter :: written) c := by
  unfold readCodePoint? at h
  split at h
  · rename_i a b rest
    obtain ⟨_, hcode, hpair⟩ := Option.map_eq_some_iff.mp h
    cases hpair
    exact ⟨[a, b], rfl, .byte (codePoint?_eq_some_iff.mp hcode)⟩
  · split at h
    · rename_i digits _ hsplit
      obtain ⟨rfl, -⟩ := Text.splitAtChar?_eq_some_iff.mp hsplit
      split at h
      · rename_i hlength
        obtain ⟨_, hcode, hpair⟩ := Option.map_eq_some_iff.mp h
        cases hpair
        exact ⟨'{' :: (digits ++ ['}']), by simp,
          .codePoint hlength.1 hlength.2 (codePoint?_eq_some_iff.mp hcode)⟩
      · cases h
    · cases h
  · cases h

/-- What is read after a backslash is an escape that stands there, and there is no other one. -/
theorem readEscape?_eq_some_iff {rest after : List Char} {c : Char} :
    readEscape? rest = some (c, after) ↔
      ∃ written, rest = written ++ after ∧ Escape ('\\' :: written) c := by
  constructor
  · intro h
    unfold readEscape? at h
    split at h
    · cases h
    · rename_i letter rest
      split at h
      · rename_i decoded hletter
        cases h
        exact ⟨[letter], rfl, escape_of_letterEscape? hletter⟩
      · obtain ⟨written, rfl, hescape⟩ := escape_of_readCodePoint? h
        exact ⟨letter :: written, rfl, hescape⟩
  · rintro ⟨written, rfl, hescape⟩
    cases hescape with
    | lineFeed | carriageReturn | tab | nul | backslash | singleQuote | doubleQuote => rfl
    | byte hcode =>
      show (codePoint? _).map _ = _
      rw [codePoint?_eq_some_iff.mpr hcode]
      rfl
    | @codePoint digits c hmin hmax hcode =>
      have hbrace : '}' ∉ digits := by
        intro hmem
        exact absurd (Text.isHexDigit_of_isHexNumber hcode _ hmem) (by decide)
      have hsplit := Text.splitAtChar?_append hbrace after
      have hread : readCodePoint? 'u' ('{' :: (digits ++ '}' :: after)) = some (c, after) := by
        simp only [readCodePoint?, hsplit, if_pos (And.intro hmin hmax),
          codePoint?_eq_some_iff.mpr hcode, Option.map_some]
      rw [← hread]
      simp [readEscape?, letterEscape?]

/-- Nothing is read after a backslash at which no escape begins. -/
theorem readEscape?_eq_none_iff {rest : List Char} : readEscape? rest = none ↔
    ∀ written c after, Escape written c → '\\' :: rest ≠ written ++ after := by
  rw [Option.eq_none_iff_forall_not_mem]
  constructor
  · rintro h written c after hescape heq
    obtain ⟨more, rfl⟩ := hescape.exists_eq
    exact h (c, after) (readEscape?_eq_some_iff.mpr ⟨more, (List.cons.inj heq).2, hescape⟩)
  · rintro h ⟨c, after⟩ hread
    obtain ⟨written, rfl, hescape⟩ := readEscape?_eq_some_iff.mp hread
    exact h _ c after hescape rfl

/-! Contents. -/

/-- A way to write a text between two quotes: each character as itself, or as an escape. -/
inductive Writes (quote : Char) : List Char → List Char → Prop
  | nil : Writes quote [] []
  | plain {c : Char} {content text : List Char} : c ≠ quote → c ≠ '\\' → c ≠ '\n' →
      Writes quote content text → Writes quote (c :: content) (c :: text)
  | escape {c : Char} {written content text : List Char} : Escape written c →
      Writes quote content text → Writes quote (written ++ content) (c :: text)

/-- The first escape of a content that stands for nothing: up to its backslash the content is
written as it should be, and no escape begins there. -/
structure FirstOther (quote : Char) (content before after : List Char) : Prop where
  content_eq : content = before ++ '\\' :: after
  writes : ∃ text, Writes quote before text
  other : ∀ written c rest, Escape written c → '\\' :: after ≠ written ++ rest

theorem Escape.length_pos {written : List Char} {c : Char} (h : Escape written c) :
    0 < written.length := by
  obtain ⟨more, rfl⟩ := h.exists_eq
  exact Nat.succ_pos _

theorem decodeFrom_plain {c : Char} (h : c ≠ '\\') (fuel start : Nat) (rest : List Char) :
    decodeFrom (fuel + 1) start (c :: rest) =
      (decodeFrom fuel (start + c.utf8Size) rest).map (c :: ·) := by
  rw [decodeFrom]
  · rfl
  · exact h

/-- An escape is passed as a whole. -/
theorem decodeFrom_escape {written : List Char} {c : Char} (h : Escape written c) (fuel start : Nat)
    (rest : List Char) : decodeFrom (fuel + 1) start (written ++ rest) =
      (decodeFrom fuel (start + byteLength written) rest).map (c :: ·) := by
  obtain ⟨more, rfl⟩ := h.exists_eq
  have hread := readEscape?_eq_some_iff.mpr ⟨more, (rfl : more ++ rest = _), h⟩
  have htaken : (more ++ rest).take ((more ++ rest).length - rest.length) = more := by
    rw [List.length_append, Nat.add_sub_cancel, List.take_left]
  have hsize : '\\'.utf8Size = 1 := by decide
  rw [List.cons_append, decodeFrom, hread, byteLength, hsize, ← Nat.add_assoc]
  dsimp only
  rw [htaken]
  rfl

/-- A content is decoded from its beginning on, as far as it is written as it should be. -/
theorem decodeFrom_append {quote : Char} {content text : List Char} (h : Writes quote content text)
    (rest : List Char) :
    ∀ fuel start, content.length + rest.length ≤ fuel → ∃ fuel', rest.length ≤ fuel' ∧
      decodeFrom fuel start (content ++ rest) =
        (decodeFrom fuel' (start + byteLength content) rest).map (text ++ ·) := by
  -- Each character and each escape of the content costs one of the fuel.
  induction h with
  | nil =>
    intro fuel start hfuel
    rw [List.length_nil, Nat.zero_add] at hfuel
    refine ⟨fuel, hfuel, ?_⟩
    rw [List.nil_append, byteLength, Nat.add_zero]
    cases decodeFrom fuel start rest <;> rfl
  | @plain c content text _ hbackslash _ _ ih =>
    intro fuel start hfuel
    rw [List.length_cons] at hfuel
    obtain ⟨fuel, rfl⟩ := Nat.exists_eq_add_one_of_ne_zero (show fuel ≠ 0 by omega)
    obtain ⟨fuel', hfuel', hrest⟩ := ih fuel (start + c.utf8Size) (by omega)
    refine ⟨fuel', hfuel', ?_⟩
    rw [List.cons_append, decodeFrom_plain hbackslash, hrest, byteLength, ← Nat.add_assoc]
    cases decodeFrom fuel' (start + c.utf8Size + byteLength content) rest <;> rfl
  | @escape c written content text hescape _ ih =>
    intro fuel start hfuel
    have hpos := hescape.length_pos
    rw [List.length_append] at hfuel
    obtain ⟨fuel, rfl⟩ := Nat.exists_eq_add_one_of_ne_zero (show fuel ≠ 0 by omega)
    obtain ⟨fuel', hfuel', hrest⟩ := ih fuel (start + byteLength written) (by omega)
    refine ⟨fuel', hfuel', ?_⟩
    rw [List.append_assoc, decodeFrom_escape hescape, hrest, Text.byteLength_append,
      ← Nat.add_assoc]
    cases decodeFrom fuel' (start + byteLength written + byteLength content) rest <;> rfl

theorem inside_eq (quote : Char) (content : List Char) :
    inside (quote :: (content ++ [quote])) = content := by
  rw [inside, List.tail_cons, List.dropLast_concat]

/-- What was written for a text is decoded to it. -/
theorem decode_of_writes {quote : Char} {content text : List Char} (h : Writes quote content text)
    (start : Nat) : decode start (quote :: (content ++ [quote])) = .ok text := by
  have hfuel : content.length + 0 ≤ (quote :: (content ++ [quote])).length := by
    rw [List.length_cons, List.length_append]
    omega
  obtain ⟨fuel, -, hread⟩ := decodeFrom_append h [] _ (start + 1) hfuel
  have hend : decodeFrom fuel (start + 1 + byteLength content) [] = .ok [] := by
    cases fuel <;> rfl
  rw [List.append_nil, hend] at hread
  rw [decode, inside_eq, hread]
  exact congrArg Except.ok (List.append_nil text)

/-- Where no escape begins at a backslash, decoding fails there. -/
theorem decode_of_firstOther {quote : Char} {content before after : List Char}
    (h : FirstOther quote content before after) (start : Nat) :
    decode start (quote :: (content ++ [quote])) =
      .error (escapeError (start + 1 + byteLength before) after) := by
  obtain ⟨rfl, ⟨text, hwrites⟩, hother⟩ := h
  have hfuel : before.length + ('\\' :: after).length ≤
      (quote :: (before ++ '\\' :: after ++ [quote])).length := by
    simp only [List.length_cons, List.length_append]
    omega
  obtain ⟨fuel, hfuel, hread⟩ := decodeFrom_append hwrites ('\\' :: after) _ (start + 1) hfuel
  obtain ⟨fuel, rfl⟩ := Nat.exists_eq_add_one_of_ne_zero (Nat.ne_of_gt (Nat.zero_lt_of_lt hfuel))
  rw [decode, inside_eq, hread, decodeFrom, readEscape?_eq_none_iff.mpr hother]
  rfl

end Suite

end RegexEngine
