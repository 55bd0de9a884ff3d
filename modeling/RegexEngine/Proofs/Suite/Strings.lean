import Mathlib.Tactic.SplitIfs
import RegexEngine.Proofs.Suite.Escapes
import RegexEngine.Suite.Token

/-!
The strings of suites. Between its quotes a string has a content, in which a quote stands only
behind a backslash, so that a string ends where it was meant to. Inputs and groups are what the
content was written for. In patterns the escapes are kept, but for the backslashes that keep the
quote from ending the string.
-/

namespace RegexEngine.Suite

open Text (byteLength)
open SuiteToken (isQuote)

/-! Strings as tokens. -/

/-- What may stand between two quotes: neither a line end, nor the quote unless it is behind a
backslash that is not itself behind one. -/
inductive Enclosed (quote : Char) : List Char → Prop
  | nil : Enclosed quote []
  | plain {c : Char} {content : List Char} : c ≠ quote → c ≠ '\\' → c ≠ '\n' →
      Enclosed quote content → Enclosed quote (c :: content)
  | pair {c : Char} {content : List Char} : c ≠ '\n' → Enclosed quote content →
      Enclosed quote ('\\' :: c :: content)

theorem isQuote_cases {c : Char} (h : isQuote c = true) : c = '"' ∨ c = '\'' := by
  simpa [isQuote] using h

/-- A string ends at the first quote that is not behind a backslash. -/
theorem stringLength?_eq_some_iff {quote : Char} (hquote : isQuote quote = true) {text : List Char}
    {n : Nat} : SuiteToken.stringLength? quote text = some n ↔ ∃ content rest,
      text = content ++ quote :: rest ∧ Enclosed quote content ∧ n = content.length + 1 := by
  have hbackslash : quote ≠ '\\' := by
    rcases isQuote_cases hquote with rfl | rfl <;> decide
  constructor
  · intro h
    fun_induction SuiteToken.stringLength? quote text generalizing n with
    | case1 => cases h
    | case2 rest => cases h
    | case3 c rest hline ih =>
      obtain ⟨k, hk, rfl⟩ := Option.map_eq_some_iff.mp h
      obtain ⟨content, after, rfl, henclosed, rfl⟩ := ih hk
      exact ⟨_, after, rfl, .pair hline henclosed, rfl⟩
    | case4 rest =>
      cases h
      exact ⟨[], rest, rfl, .nil, rfl⟩
    | case5 => cases h
    | case6 c rest _ hends hstops ih =>
      obtain ⟨k, hk, rfl⟩ := Option.map_eq_some_iff.mp h
      obtain ⟨content, after, rfl, henclosed, rfl⟩ := ih hk
      rw [not_or] at hstops
      exact ⟨_, after, rfl, .plain hends hstops.2 hstops.1 henclosed, rfl⟩
  · rintro ⟨content, rest, rfl, henclosed, rfl⟩
    induction henclosed with
    | nil =>
      rw [List.nil_append, SuiteToken.stringLength?]
      · rw [if_pos rfl]
        rfl
      · exact fun _ _ h _ => hbackslash h
    | plain hends hescape hline _ ih =>
      rw [List.cons_append, SuiteToken.stringLength?, if_neg hends,
        if_neg (not_or.mpr ⟨hline, hescape⟩), ih]
      · rfl
      · exact fun _ _ h _ => hescape h
    | pair hline _ ih =>
      rw [List.cons_append, List.cons_append, SuiteToken.stringLength?, if_neg hline, ih]
      rfl

/-- What follows a backslash and a letter in an escape are digits and braces. -/
theorem Escape.cases_eq {written : List Char} {c : Char} (h : Escape written c) :
    ∃ letter more, written = '\\' :: letter :: more ∧ letter ≠ '\n' ∧
      ∀ d ∈ more, Text.isHexDigit d = true ∨ d = '{' ∨ d = '}' := by
  cases h with
  | byte hcode =>
    exact ⟨'x', _, rfl, by decide, fun d hd => .inl (Text.isHexDigit_of_isHexNumber hcode d hd)⟩
  | codePoint _ _ hcode =>
    refine ⟨'u', _, rfl, by decide, fun d hd => ?_⟩
    rw [List.mem_cons, List.mem_append, List.mem_singleton] at hd
    rcases hd with rfl | hd | rfl
    · exact .inr (.inl rfl)
    · exact .inl (Text.isHexDigit_of_isHexNumber hcode d hd)
    · exact .inr (.inr rfl)
  | _ => exact ⟨_, [], rfl, by decide, List.forall_mem_nil _⟩

theorem enclosed_plain_iff {quote c : Char} (h : c ≠ '\\') {content : List Char} :
    Enclosed quote (c :: content) ↔ c ≠ quote ∧ c ≠ '\n' ∧ Enclosed quote content := by
  constructor
  · intro henclosed
    cases henclosed with
    | plain hends _ hline henclosed => exact ⟨hends, hline, henclosed⟩
    | pair => exact absurd rfl h
  · exact fun ⟨hends, hline, henclosed⟩ => .plain hends h hline henclosed

theorem enclosed_pair_iff {quote c : Char} {content : List Char} :
    Enclosed quote ('\\' :: c :: content) ↔ c ≠ '\n' ∧ Enclosed quote content := by
  constructor
  · intro henclosed
    cases henclosed with
    | plain _ h => exact absurd rfl h
    | pair hline henclosed => exact ⟨hline, henclosed⟩
  · exact fun ⟨hline, henclosed⟩ => .pair hline henclosed

theorem enclosed_plain_append {quote : Char} {plain : List Char}
    (h : ∀ c ∈ plain, c ≠ quote ∧ c ≠ '\\' ∧ c ≠ '\n') (content : List Char) :
    Enclosed quote (plain ++ content) ↔ Enclosed quote content := by
  induction plain with
  | nil => rfl
  | cons c plain ih =>
    obtain ⟨⟨hends, hescape, hline⟩, hplain⟩ := List.forall_mem_cons.mp h
    rw [List.cons_append, enclosed_plain_iff hescape, ih hplain]
    exact ⟨fun henclosed => henclosed.2.2, fun henclosed => ⟨hends, hline, henclosed⟩⟩

/-- An escape may stand anywhere between quotes. -/
theorem Escape.enclosed_append {quote c : Char} {written : List Char} (h : Escape written c)
    (hquote : isQuote quote = true) (content : List Char) :
    Enclosed quote (written ++ content) ↔ Enclosed quote content := by
  obtain ⟨letter, more, rfl, hletter, hmore⟩ := h.cases_eq
  have hplain : ∀ d ∈ more, d ≠ quote ∧ d ≠ '\\' ∧ d ≠ '\n' := by
    intro d hd
    have hdigit := hmore d hd
    refine ⟨?_, ?_, ?_⟩
    · rintro rfl
      rcases isQuote_cases hquote with rfl | rfl <;> exact absurd hdigit (by decide)
    · rintro rfl
      exact absurd hdigit (by decide)
    · rintro rfl
      exact absurd hdigit (by decide)
  rw [List.cons_append, List.cons_append, enclosed_pair_iff, enclosed_plain_append hplain]
  exact and_iff_right hletter

/-- However a text is written, the content stands between its quotes as one string. -/
theorem Writes.enclosed {quote : Char} {content text : List Char} (h : Writes quote content text)
    (hquote : isQuote quote = true) : Enclosed quote content := by
  induction h with
  | nil => exact .nil
  | plain hends hescape hline _ ih => exact .plain hends hescape hline ih
  | escape hescape _ ih => exact (hescape.enclosed_append hquote _).mpr ih

/-- A content is written for some text, or has a first escape that stands for nothing. -/
theorem Enclosed.writes_or {quote : Char} (hquote : isQuote quote = true) {content : List Char}
    (h : Enclosed quote content) :
    (∃ text, Writes quote content text) ∨
      ∃ before after, FirstOther quote content before after := by
  -- An escape may be longer than the two characters of a pair, so the induction is on the length.
  induction hlength : content.length using Nat.strongRecOn generalizing content with
  | ind length ih =>
    subst hlength
    have hextend (written rest : List Char) (d : Char) (hescape : Escape written d)
        (hcontent : content = written ++ rest) : (∃ text, Writes quote content text) ∨
          ∃ before after, FirstOther quote content before after := by
      subst hcontent
      have hshorter : rest.length < (written ++ rest).length := by
        have hpos := hescape.length_pos
        rw [List.length_append]
        omega
      rcases ih _ hshorter ((hescape.enclosed_append hquote rest).mp h) rfl with
        ⟨text, hwrites⟩ | ⟨before, after, rfl, ⟨text, hwrites⟩, hother⟩
      · exact .inl ⟨_, .escape hescape hwrites⟩
      · exact .inr ⟨written ++ before, after, (List.append_assoc ..).symm,
          ⟨_, .escape hescape hwrites⟩, hother⟩
    cases h with
    | nil => exact .inl ⟨[], .nil⟩
    | @plain c rest hends hescape hline h =>
      rcases ih _ (Nat.lt_succ_self _) h rfl with
        ⟨text, hwrites⟩ | ⟨before, after, rfl, ⟨text, hwrites⟩, hother⟩
      · exact .inl ⟨_, .plain hends hescape hline hwrites⟩
      · exact .inr ⟨c :: before, after, rfl, ⟨_, .plain hends hescape hline hwrites⟩, hother⟩
    | @pair c rest hline h =>
      by_cases hescape : ∃ written d after, Escape written d ∧ '\\' :: c :: rest = written ++ after
      · obtain ⟨written, d, after, hescape, hcontent⟩ := hescape
        exact hextend written after d hescape hcontent
      · refine .inr ⟨[], c :: rest, rfl, ⟨[], .nil⟩, fun written d after hwritten heq => ?_⟩
        exact hescape ⟨written, d, after, hwritten, heq⟩

theorem punctuation?_ne_text (c : Char) : SuiteToken.punctuation? c ≠ some .text := by
  unfold SuiteToken.punctuation?
  split <;> decide

theorem wordKind_ne_text (word : List Char) : SuiteToken.wordKind word ≠ .text := by
  unfold SuiteToken.wordKind
  split_ifs <;> decide

theorem directiveKind_ne_text (name : List Char) : SuiteToken.directiveKind name ≠ .text := by
  unfold SuiteToken.directiveKind
  split_ifs <;> decide

theorem kind_first_ne_text {c : Char} (h : isQuote c = false) (rest : List Char) :
    (SuiteToken.first c rest).1 ≠ .text := by
  unfold SuiteToken.first
  dsimp only
  split
  · rename_i kind hkind
    rintro rfl
    exact punctuation?_ne_text c hkind
  · simp only [h, Bool.false_eq_true, if_false]
    split_ifs
    · exact nofun
    · exact nofun
    · exact wordKind_ne_text _
    · exact directiveKind_ne_text _
    · exact nofun
    · exact nofun

theorem first_of_isQuote {c : Char} (h : isQuote c = true) (rest : List Char) :
    SuiteToken.first c rest = match SuiteToken.stringLength? c rest with
      | some length => (.text, 1 + length)
      | none => (.unknown, SuiteToken.unknownLength c rest) := by
  rcases isQuote_cases h with rfl | rfl <;> rfl

/-- Strings are what begins with a quote and has an end. -/
theorem first_eq_text_iff {c : Char} {rest : List Char} {n : Nat} :
    SuiteToken.first c rest = (.text, n) ↔ isQuote c = true ∧ ∃ content after,
      rest = content ++ c :: after ∧ Enclosed c content ∧ n = content.length + 2 := by
  cases hquote : isQuote c with
  | false =>
    refine iff_of_false (fun h => kind_first_ne_text hquote rest ?_) fun h => absurd h.1 (by decide)
    rw [h]
  | true =>
    rw [first_of_isQuote hquote]
    constructor
    · intro h
      split at h
      · rename_i length hlength
        cases h
        obtain ⟨content, after, rfl, henclosed, rfl⟩ :=
          (stringLength?_eq_some_iff hquote).mp hlength
        exact ⟨rfl, content, after, rfl, henclosed, by omega⟩
      · cases h
    · rintro ⟨-, content, after, rfl, henclosed, rfl⟩
      rw [(stringLength?_eq_some_iff hquote).mpr ⟨content, after, rfl, henclosed, rfl⟩]
      simp [Nat.add_comm 1]

theorem scan_cons (fuel start : Nat) (c : Char) (rest : List Char) :
    SuiteToken.scan (fuel + 1) start (c :: rest) =
      ⟨(SuiteToken.first c rest).1, (c :: rest).take (SuiteToken.first c rest).2, start⟩ ::
        SuiteToken.scan fuel
          (start + byteLength ((c :: rest).take (SuiteToken.first c rest).2))
          ((c :: rest).drop (SuiteToken.first c rest).2) := rfl

/-- Where a token of a text stands, and what it is. -/
theorem of_mem_scan {t : SuiteToken} :
    ∀ {fuel start : Nat} {text : List Char}, t ∈ SuiteToken.scan fuel start text →
      ∃ front c rest, text = front ++ c :: rest ∧ t = ⟨(SuiteToken.first c rest).1,
        (c :: rest).take (SuiteToken.first c rest).2, start + byteLength front⟩ := by
  intro fuel
  induction fuel with
  | zero =>
    intro start text h
    cases h
  | succ fuel ih =>
    intro start text h
    cases text with
    | nil => cases h
    | cons c rest =>
      rw [scan_cons] at h
      rcases List.mem_cons.mp h with rfl | h
      · exact ⟨[], c, rest, rfl, rfl⟩
      · obtain ⟨front, d, after, hdrop, rfl⟩ := ih h
        refine ⟨(c :: rest).take (SuiteToken.first c rest).2 ++ front, d, after, ?_, ?_⟩
        · rw [List.append_assoc, ← hdrop, List.take_append_drop]
        · rw [Text.byteLength_append, Nat.add_assoc]

theorem take_literal (quote : Char) (content back : List Char) :
    (quote :: (content ++ quote :: back)).take (content.length + 2) =
      quote :: (content ++ [quote]) := by
  rw [List.take_succ_cons, List.take_length_add_append, List.take_succ_cons, List.take_zero]

/-- A string of a suite is a content between two quotes, at the offset where it stands. -/
theorem exists_of_mem_tokenize {source : List Char} {t : SuiteToken}
    (h : t ∈ SuiteToken.tokenize source) (hkind : t.kind = .text) :
    ∃ front quote content back, source = front ++ quote :: (content ++ quote :: back) ∧
      isQuote quote = true ∧ Enclosed quote content ∧
        t = ⟨.text, quote :: (content ++ [quote]), byteLength front⟩ := by
  obtain ⟨front, quote, rest, rfl, rfl⟩ := of_mem_scan h
  have hfirst : SuiteToken.first quote rest = (.text, (SuiteToken.first quote rest).2) :=
    Prod.ext hkind rfl
  obtain ⟨hquote, content, back, rfl, henclosed, hlength⟩ := first_eq_text_iff.mp hfirst
  refine ⟨front, quote, content, back, rfl, hquote, henclosed, ?_⟩
  rw [hlength] at hfirst
  rw [hfirst, take_literal, Nat.zero_add]

/-- What stands between two quotes is read as one string, whatever follows it. -/
theorem exists_tokenize_eq {quote : Char} (hquote : isQuote quote = true) {content : List Char}
    (h : Enclosed quote content) (back : List Char) :
    ∃ tokens, SuiteToken.tokenize (quote :: (content ++ quote :: back)) =
      ⟨.text, quote :: (content ++ [quote]), 0⟩ :: tokens := by
  have hfirst := first_eq_text_iff.mpr ⟨hquote, content, back, rfl, h, rfl⟩
  rw [SuiteToken.tokenize, List.length_cons, scan_cons, hfirst, take_literal]
  exact ⟨_, rfl⟩

/-! Escaped quotes. -/

/-- Number of backslashes at the end of a text. -/
def closingBackslashes (text : List Char) : Nat := (text.reverse.takeWhile (· == '\\')).length

/-- At a place of a content stands a backslash that escapes the quote after it: it is not itself
escaped, so the backslashes right before it are even in number. -/
structure EscapesQuote (quote : Char) (content : List Char) (place : Nat) : Prop where
  backslash : content[place]? = some '\\'
  before_quote : content[place + 1]? = some quote
  unescaped : closingBackslashes (content.take place) % 2 = 0

instance (quote : Char) (content : List Char) (place : Nat) :
    Decidable (EscapesQuote quote content place) :=
  decidable_of_iff (content[place]? = some '\\' ∧ content[place + 1]? = some quote ∧
    closingBackslashes (content.take place) % 2 = 0)
    ⟨fun ⟨h, h', h''⟩ => ⟨h, h', h''⟩, fun ⟨h, h', h''⟩ => ⟨h, h', h''⟩⟩

theorem closingBackslashes_append_singleton (text : List Char) (c : Char) :
    closingBackslashes (text ++ [c]) = if c = '\\' then closingBackslashes text + 1 else 0 := by
  unfold closingBackslashes
  rw [List.reverse_append, List.reverse_singleton, List.singleton_append, List.takeWhile_cons]
  split_ifs <;> simp_all

/-- The characters of a content but for the backslashes that escape a quote. -/
def withoutEscapes (quote : Char) (content : List Char) : List Char :=
  (List.range content.length).filterMap fun place =>
    if EscapesQuote quote content place then none else content[place]?

/-- Between a text and what follows it, a backslash escapes a quote if it comes right before it. -/
theorem escapesQuote_append_iff {quote c : Char} {before after : List Char} :
    EscapesQuote quote (before ++ c :: after) before.length ↔
      c = '\\' ∧ after.head? = some quote ∧ closingBackslashes before % 2 = 0 := by
  have hplace : (before ++ c :: after)[before.length]? = some c := by simp
  have hnext : (before ++ c :: after)[before.length + 1]? = after.head? := by
    rw [List.getElem?_append_right (Nat.le_add_right ..), Nat.add_sub_cancel_left,
      List.getElem?_cons_succ, List.head?_eq_getElem?]
  have htake : (before ++ c :: after).take before.length = before := List.take_left
  constructor
  · rintro ⟨hbackslash, hquote, heven⟩
    rw [hplace, Option.some_inj] at hbackslash
    rw [hnext] at hquote
    rw [htake] at heven
    exact ⟨hbackslash, hquote, heven⟩
  · rintro ⟨rfl, hquote, heven⟩
    exact ⟨hplace, hnext.trans hquote, htake.symm ▸ heven⟩

/-- What is left of the rest of a content, after its beginning. -/
def leftAfter (quote : Char) (before rest : List Char) : List Char :=
  (List.range rest.length).filterMap fun place =>
    if EscapesQuote quote (before ++ rest) (before.length + place) then none else rest[place]?

theorem leftAfter_cons (quote : Char) (before : List Char) (c : Char) (rest : List Char) :
    leftAfter quote before (c :: rest) =
      (if c = '\\' ∧ rest.head? = some quote ∧ closingBackslashes before % 2 = 0 then []
        else [c]) ++ leftAfter quote (before ++ [c]) rest := by
  have hrest : ((List.range rest.length).map Nat.succ).filterMap (fun place =>
      if EscapesQuote quote (before ++ c :: rest) (before.length + place) then none
      else (c :: rest)[place]?) = leftAfter quote (before ++ [c]) rest := by
    rw [leftAfter, List.filterMap_map, List.append_assoc]
    refine List.filterMap_congr fun place _ => ?_
    rw [List.length_append, List.length_singleton, Nat.add_assoc, Nat.add_comm 1]
    rfl
  rw [← hrest, leftAfter, List.length_cons, List.range_succ_eq_map, List.filterMap_cons]
  simp only [Nat.add_zero, escapesQuote_append_iff]
  split_ifs <;> rfl

/-- What is removed is told by the pairs of a backslash and the character behind it. -/
theorem keepEscapes_eq_leftAfter {quote : Char} (hquote : quote ≠ '\\') (content : List Char) :
    ∀ before, closingBackslashes before % 2 = 0 →
      keepEscapes quote content = leftAfter quote before content := by
  -- Pairs are passed as a whole, so at each step an even number of backslashes stands before.
  fun_induction keepEscapes quote content with
  | case1 => exact fun _ _ => rfl
  | case2 rest ih =>
    intro before heven
    have hnext : closingBackslashes (before ++ ['\\'] ++ [quote]) % 2 = 0 := by
      rw [closingBackslashes_append_singleton, if_neg hquote]
    rw [leftAfter_cons, if_pos ⟨rfl, rfl, heven⟩, leftAfter_cons, if_neg (fun h => hquote h.1),
      ih _ hnext]
    rfl
  | case3 c rest hc ih =>
    intro before heven
    have hodd : closingBackslashes (before ++ ['\\']) % 2 = 1 := by
      rw [closingBackslashes_append_singleton, if_pos rfl]
      omega
    have hnext : closingBackslashes (before ++ ['\\'] ++ [c]) % 2 = 0 := by
      rw [closingBackslashes_append_singleton]
      split
      · omega
      · rfl
    rw [leftAfter_cons, if_neg (fun h => hc (Option.some.inj h.2.1)), leftAfter_cons,
      if_neg (fun h => absurd h.2.2 (by omega)), ih _ hnext]
    rfl
  | case4 c rest hpair ih =>
    intro before heven
    cases rest with
    | nil => rw [leftAfter_cons, if_neg (fun h => nomatch h.2.1)]; rfl
    | cons d rest =>
      have hc : c ≠ '\\' := fun h => hpair d rest h rfl
      have hnext : closingBackslashes (before ++ [c]) % 2 = 0 := by
        rw [closingBackslashes_append_singleton, if_neg hc]
      rw [leftAfter_cons, if_neg (fun h => hc h.1), ih _ hnext]
      rfl

/-- In the text of a pattern, the backslashes are missing that escape its quote, and nothing
else. -/
theorem patternText_eq {quote : Char} (hquote : isQuote quote = true) (content : List Char) :
    patternText (quote :: (content ++ [quote])) = withoutEscapes quote content := by
  have hbackslash : quote ≠ '\\' := by
    rcases isQuote_cases hquote with rfl | rfl <;> decide
  rw [patternText, List.dropLast_concat, keepEscapes_eq_leftAfter hbackslash content [] rfl]
  simp only [leftAfter, withoutEscapes, List.nil_append, List.length_nil, Nat.zero_add]

/-- What the strings of suites stand for. However a text is written between two quotes, that is one
string, and decoding it answers with the text. Each string of a source is a content between two
quotes, and the content is written for a text, or it has a first escape that stands for nothing;
then decoding fails at the backslash of that escape. The text of a pattern is the content without
the backslashes that escape the quote. -/
theorem strings_decoded :
    (∀ quote content text, isQuote quote = true → Writes quote content text →
      (∀ back, ∃ tokens, SuiteToken.tokenize (quote :: (content ++ quote :: back)) =
          ⟨.text, quote :: (content ++ [quote]), 0⟩ :: tokens) ∧
        ∀ start, decode start (quote :: (content ++ [quote])) = .ok text) ∧
    ∀ source, ∀ t ∈ SuiteToken.tokenize source, t.kind = .text → ∃ front quote content back,
      source = front ++ quote :: (content ++ quote :: back) ∧ isQuote quote = true ∧
        t = ⟨.text, quote :: (content ++ [quote]), byteLength front⟩ ∧
        ((∃ text, Writes quote content text) ∨
          ∃ before after, FirstOther quote content before after) ∧
        (∀ before after, FirstOther quote content before after →
          let escape := '\\' :: after.take 1
          let place := byteLength (front ++ quote :: before)
          decode t.start t.chars = .error
            ⟨.invalidEscape (String.ofList escape), ⟨place, place + byteLength escape⟩⟩) ∧
        patternText t.chars = withoutEscapes quote content := by
  refine ⟨fun quote content text hquote hwrites => ⟨?_, decode_of_writes hwrites⟩,
    fun source t ht hkind => ?_⟩
  · exact exists_tokenize_eq hquote (hwrites.enclosed hquote)
  · obtain ⟨front, quote, content, back, hsource, hquote, henclosed, rfl⟩ :=
      exists_of_mem_tokenize ht hkind
    refine ⟨front, quote, content, back, hsource, hquote, rfl, henclosed.writes_or hquote,
      fun before after hfirst => ?_, patternText_eq hquote content⟩
    have hsize : quote.utf8Size = 1 := by
      rcases isQuote_cases hquote with rfl | rfl <;> decide
    have hplace : byteLength front + 1 + byteLength before =
        byteLength (front ++ quote :: before) := by
      rw [Text.byteLength_append, byteLength, hsize, Nat.add_assoc]
    rw [decode_of_firstOther hfirst, hplace]
    rfl

/-- A character as itself, two code points and an escaped quote. -/
private def mixedContent : List Char := "a\\x4a\\u\x7b01F600\x7d'\\\"".toList

private def mixedText : List Char := "aJ😀'\"".toList

/-- A surrogate is asked for, behind an escaped backslash. -/
private def surrogateSource : List Char := "a = '\\\\\\u\x7bD800\x7d\\'\\q'".toList

private def surrogateString : SuiteToken :=
  ⟨.text, "'\\\\\\u\x7bD800\x7d\\'\\q'".toList, 4⟩

theorem strings_decoded_mixed :
    (isQuote '"' = true ∧ Writes '"' mixedContent mixedText ∧
      (∃ tokens, SuiteToken.tokenize ('"' :: (mixedContent ++ '"' :: surrogateSource)) =
        ⟨.text, '"' :: (mixedContent ++ ['"']), 0⟩ :: tokens) ∧
      decode 7 ('"' :: (mixedContent ++ ['"'])) = .ok mixedText) ∧
    surrogateString ∈ SuiteToken.tokenize surrogateSource ∧ surrogateString.kind = .text ∧
      FirstOther '\'' (inside surrogateString.chars) ['\\', '\\']
        "u\x7bD800\x7d\\'\\q".toList ∧
      decode surrogateString.start surrogateString.chars =
        .error ⟨.invalidEscape "\\u", ⟨7, 9⟩⟩ ∧
      patternText surrogateString.chars = "\\\\\\u\x7bD800\x7d'\\q".toList := by
  constructor
  · have hwrites : Writes '"' mixedContent mixedText := by
      refine .plain (by decide) (by decide) (by decide) ?_
      refine .escape (@Escape.byte '4' 'a' 'J' (Text.digitsValue?_eq_some_iff.mp (by decide))) ?_
      refine .escape (@Escape.codePoint "01F600".toList '😀' (by decide) (by decide)
        (Text.digitsValue?_eq_some_iff.mp (by decide))) ?_
      refine .plain (by decide) (by decide) (by decide) ?_
      exact .escape .doubleQuote .nil
    obtain ⟨htokens, hdecodes⟩ := strings_decoded.1 '"' mixedContent mixedText rfl hwrites
    exact ⟨rfl, hwrites, htokens _, hdecodes 7⟩
  · have hmem : surrogateString ∈ SuiteToken.tokenize surrogateSource := by decide +kernel
    obtain ⟨front, quote, content, back, hsource, -, heq, -, hfails, hkept⟩ :=
      strings_decoded.2 surrogateSource surrogateString hmem rfl
    obtain rfl : quote = '\'' := (List.cons.inj (congrArg SuiteToken.chars heq)).1.symm
    obtain rfl : content = inside surrogateString.chars := by
      rw [heq, inside_eq]
    have hfirst : FirstOther '\'' (inside surrogateString.chars) ['\\', '\\']
        "u\x7bD800\x7d\\'\\q".toList :=
      ⟨by decide, ⟨['\\'], .escape .backslash .nil⟩, readEscape?_eq_none_iff.mp (by decide)⟩
    have hplace : byteLength (front ++ '\'' :: ['\\', '\\']) = 7 := by
      have hfront : byteLength front = 4 := (congrArg SuiteToken.start heq).symm
      rw [Text.byteLength_append, hfront]
      decide
    refine ⟨hmem, rfl, hfirst, ?_, hkept.trans (by decide +kernel)⟩
    have hfailed := hfails _ _ hfirst
    rw [hplace] at hfailed
    exact hfailed

end RegexEngine.Suite
