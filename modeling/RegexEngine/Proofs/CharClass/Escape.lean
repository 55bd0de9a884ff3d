import RegexEngine.CharClass.Parser
import RegexEngine.Proofs.Text

/-!
Characters that were written for a pattern are read back as themselves. A character is written in
one of two ways: as itself, if it means nothing of its own anywhere, or as an escape sequence that
begins with a backslash. An escape sequence is read in full, whatever follows it.
-/

namespace RegexEngine

open Text (Cursor)

theorem isMeta_cases {c : Char} (h : isMeta c = true) :
    c ∈ "\\.+*?()|[]\x7b\x7d^$#&-~/'\" :<>=!,".toList := by
  simpa [isMeta] using h

/-- Every character has its own code point. -/
theorem charOfCode?_toNat (c : Char) : charOfCode? c.toNat = some c := by
  have hvalid := c.valid
  simp only [UInt32.isValidChar, Nat.isValidChar] at hvalid
  unfold charOfCode? maxCodePoint
  have hcode : c.toNat = c.val.toNat := rfl
  rw [if_pos (by omega), Char.ofNat_toNat]

theorem isValidChar_of_charOfCode? {n : Nat} {c : Char} (h : charOfCode? n = some c) :
    n.isValidChar := by
  unfold charOfCode? maxCodePoint at h
  split at h
  · rename_i hcode
    show n < 0xD800 ∨ (0xDFFF < n ∧ n < 0x110000)
    omega
  · cases h

theorem toNat_of_charOfCode? {n : Nat} {c : Char} (h : charOfCode? n = some c) : c.toNat = n := by
  have hvalid := isValidChar_of_charOfCode? h
  unfold charOfCode? at h
  split at h
  · obtain rfl := Option.some.inj h
    have hof : Char.ofNat n = Char.ofNatAux n hvalid := dif_pos hvalid
    rw [hof]
    rfl
  · cases h

theorem toNat_le_maxWord32 (c : Char) : c.toNat ≤ Text.maxWord32 := by
  have hlt : c.val.toNat < 2 ^ 32 := c.val.toNat_lt
  show c.val.toNat ≤ 0xFFFFFFFF
  omega

theorem drop_append (taken rest : List Char) (offset : Nat) :
    Cursor.drop taken.length ⟨offset, taken ++ rest⟩ =
      ⟨offset + Text.byteLength taken, rest⟩ := by
  induction taken generalizing offset with
  | nil => rfl
  | cons c taken ih =>
    rw [List.length_cons, List.cons_append, Cursor.drop, ih, Text.byteLength, Nat.add_assoc]

theorem codePointEscape_toDigits (c : Char) :
    codePointEscape (Nat.toDigits 16 c.toNat) = .ok (.char c) := by
  unfold codePointEscape
  rw [Text.readNat?_toDigits (toNat_le_maxWord32 c), Option.bind_some, charOfCode?_toNat]

/-- A code point in braces is read as its character. -/
theorem readCodePoint_toDigits (c : Char) (offset : Nat) (rest : List Char) :
    ∃ next, readCodePoint ⟨offset, '{' :: (Nat.toDigits 16 c.toNat ++ '}' :: rest)⟩ =
      .ok (.char c, ⟨next, rest⟩) := by
  have hclose : '}' ∉ Nat.toDigits 16 c.toNat := by
    intro hmem
    exact absurd (Text.isHexDigit_of_mem_toDigits hmem) (by decide)
  have hdrop := drop_append ('{' :: (Nat.toDigits 16 c.toNat ++ ['}'])) rest offset
  simp only [List.cons_append, List.append_assoc, List.nil_append, List.length_cons,
    List.length_append, List.length_nil] at hdrop
  unfold readCodePoint
  simp only [Text.splitAtChar?_append hclose, codePointEscape_toDigits]
  rw [hdrop]
  exact ⟨_, rfl⟩

/-- A character that means something of its own is read as itself after a backslash. -/
theorem readEscape_isMeta {c : Char} (h : isMeta c = true) (strict : Bool) (offset : Nat)
    (rest : List Char) :
    readEscape strict ⟨offset, c :: rest⟩ = .ok (.char c, ⟨offset + c.utf8Size, rest⟩) := by
  have hall : ("\\.+*?()|[]\x7b\x7d^$#&-~/'\" :<>=!,".toList.all fun c =>
      (PerlClass.ofLetter? c).isNone && (controlLetter? c).isNone && !(c == 'p' || c == 'P') &&
        !(c == 'x') && !Text.isAsciiAlphanumeric c) = true := by
    decide
  have hplain := List.all_eq_true.mp hall c (isMeta_cases h)
  simp only [Bool.and_eq_true, Bool.not_eq_true', Option.isNone_iff_eq_none] at hplain
  obtain ⟨⟨⟨⟨hclass, hletter⟩, hproperty⟩, hcode⟩, halphanumeric⟩ := hplain
  unfold readEscape
  simp only [hclass, hletter, hproperty, hcode, halphanumeric, h]
  simp [Cursor.drop]

/-- A character is written as itself, or with a backslash in front. What follows the backslash is
read as the character again, also by the strict reading: no escape is a needless one. -/
theorem escapeChar_cases (c : Char) :
    (escapeChar c = [c] ∧ isMeta c = false) ∨
      ∃ more, escapeChar c = '\\' :: more ∧ ∀ (strict : Bool) (offset : Nat) (rest : List Char),
        ∃ next, readEscape strict ⟨offset, more ++ rest⟩ = .ok (.char c, ⟨next, rest⟩) := by
  unfold escapeChar
  split
  · exact .inr ⟨['n'], rfl, fun strict offset rest => ⟨_, rfl⟩⟩
  · exact .inr ⟨['t'], rfl, fun strict offset rest => ⟨_, rfl⟩⟩
  · exact .inr ⟨['r'], rfl, fun strict offset rest => ⟨_, rfl⟩⟩
  · split
    · refine .inr ⟨'x' :: '{' :: (Nat.toDigits 16 c.toNat ++ ['}']), rfl, ?_⟩
      intro strict offset rest
      obtain ⟨next, hread⟩ := readCodePoint_toDigits c (offset + 'x'.utf8Size) rest
      refine ⟨next, ?_⟩
      rw [← hread]
      simp only [List.cons_append, List.append_assoc, List.nil_append]
      rfl
    · split
      · rename_i hmeta
        exact .inr ⟨[c], rfl,
          fun strict offset rest => ⟨_, readEscape_isMeta hmeta strict offset rest⟩⟩
      · rename_i hmeta
        exact .inl ⟨rfl, by simpa using hmeta⟩

end RegexEngine
