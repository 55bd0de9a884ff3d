import Mathlib.Data.List.Infix
import RegexEngine.Text.Basic

/-!
Texts as bytes and as digits.

The offset of a character in bytes is the length of what stands before it, so offsets grow with the
index, and each of them is on a boundary between characters.
-/

namespace RegexEngine.Text

/-- A byte offset at which a character starts or the text ends. -/
def IsBoundary (text : Array Char) (offset : Nat) : Prop :=
  (indexOfByte? text.toList offset).isSome

instance (text : Array Char) (offset : Nat) : Decidable (IsBoundary text offset) :=
  inferInstanceAs (Decidable (_ = true))

theorem byteLength_append (text more : List Char) :
    byteLength (text ++ more) = byteLength text + byteLength more := by
  induction text with
  | nil => simp [byteLength]
  | cons c rest ih => simp [byteLength, ih, Nat.add_assoc]

theorem foldl_utf8Size (text : List Char) (n : Nat) :
    text.foldl (fun n c => n + c.utf8Size) n = n + byteLength text := by
  induction text generalizing n with
  | nil => rfl
  | cons c rest ih => simp [byteLength, ih, Nat.add_assoc]

/-- The offset of a character is the length of the text before it. -/
theorem byteOffset_eq (text : Array Char) (index : Nat) :
    byteOffset text index = byteLength (text.toList.take index) := by
  rw [byteOffset, Array.foldl_eq_foldl_extract, ← Array.foldl_toList, foldl_utf8Size, Nat.zero_add,
    Array.toList_extract, List.extract_eq_take_drop, List.drop_zero, Nat.sub_zero]

theorem byteLength_take_le (text : List Char) (index : Nat) :
    byteLength (text.take index) ≤ byteLength text := by
  have hlength := byteLength_append (text.take index) (text.drop index)
  rw [List.take_append_drop] at hlength
  omega

theorem byteOffset_mono (text : Array Char) {i j : Nat} (h : i ≤ j) :
    byteOffset text i ≤ byteOffset text j := by
  have hle := byteLength_take_le (text.toList.take j) i
  rwa [List.take_take, Nat.min_eq_left h, ← byteOffset_eq, ← byteOffset_eq] at hle

/-- Each character takes a byte at least. -/
theorem byteOffset_lt (text : Array Char) {i j : Nat} (hij : i < j) (hj : j ≤ text.size) :
    byteOffset text i < byteOffset text j := by
  have hi : i < text.toList.length := by
    rw [Array.length_toList]
    omega
  have hnext : byteOffset text (i + 1) = byteOffset text i + text.toList[i].utf8Size := by
    rw [byteOffset_eq, byteOffset_eq, List.take_succ_eq_append_getElem hi, byteLength_append]
    rfl
  have hsize := Char.utf8Size_pos text.toList[i]
  have hmono := byteOffset_mono text (show i + 1 ≤ j from hij)
  omega

theorem byteOffset_le (text : Array Char) (index : Nat) :
    byteOffset text index ≤ byteLength text.toList := by
  rw [byteOffset_eq]
  exact byteLength_take_le text.toList index

/-- What follows does not count. -/
theorem byteOffset_extract (text : Array Char) {index stop : Nat} (h : index ≤ stop) :
    byteOffset (text.extract 0 stop) index = byteOffset text index := by
  rw [byteOffset_eq, byteOffset_eq, Array.toList_extract, List.extract_eq_take_drop,
    List.drop_zero, List.take_take, Nat.min_eq_left (by omega)]

theorem indexOfByte?_take {text : List Char} {index : Nat} (h : index ≤ text.length) :
    indexOfByte? text (byteLength (text.take index)) = some index := by
  induction text generalizing index with
  | nil =>
    obtain rfl : index = 0 := Nat.le_zero.mp h
    rfl
  | cons c rest ih =>
    cases index with
    | zero => rfl
    | succ index =>
      have hrest := ih (Nat.le_of_succ_le_succ h)
      obtain ⟨n, hn⟩ := Nat.exists_eq_succ_of_ne_zero (Nat.ne_of_gt c.utf8Size_pos)
      rw [List.take_succ_cons, byteLength, hn, Nat.succ_add, indexOfByte?, if_pos (by omega), hn,
        Nat.add_right_comm, Nat.add_sub_cancel_left, hrest]
      rfl

/-- A greater offset does not lead to a character before. -/
theorem indexOfByte?_mono {text : List Char} {m n i j : Nat} (hmn : m ≤ n)
    (hi : indexOfByte? text m = some i) (hj : indexOfByte? text n = some j) : i ≤ j := by
  induction text generalizing m n i j with
  | nil =>
    cases m with
    | zero => cases hi; exact Nat.zero_le j
    | succ m => cases hi
  | cons c rest ih =>
    cases m with
    | zero => cases hi; exact Nat.zero_le j
    | succ m =>
      obtain ⟨n, rfl⟩ := Nat.exists_eq_succ_of_ne_zero (show n ≠ 0 by omega)
      rw [indexOfByte?] at hi hj
      split at hi
      · split at hj
        · obtain ⟨before, hbefore, rfl⟩ := Option.map_eq_some_iff.mp hi
          obtain ⟨after, hafter, rfl⟩ := Option.map_eq_some_iff.mp hj
          exact Nat.succ_le_succ (ih (by omega) hbefore hafter)
        · cases hj
      · cases hi

/-- The offset of a character is on a boundary. -/
theorem isBoundary_byteOffset {text : Array Char} {index : Nat} (h : index ≤ text.size) :
    IsBoundary text (byteOffset text index) := by
  rw [IsBoundary, byteOffset_eq, indexOfByte?_take (by simpa using h)]
  rfl

/-!
The bytes of a text in UTF-8 spell that text and no other, and a text is spelled by its own bytes
only.
-/

theorem hexDigit?_digitChar {d : Nat} (h : d < 16) : hexDigit? d.digitChar = some d := by
  have hall : ∀ d : Fin 16, hexDigit? (d : Nat).digitChar = some (d : Nat) := by decide
  exact hall ⟨d, h⟩

theorem digitsValue?_append_singleton {base : Nat} {digits : List Char} {value d : Nat} {c : Char}
    (hvalue : digitsValue? base digits = some value) (hc : hexDigit? c = some d) (hd : d < base) :
    digitsValue? base (digits ++ [c]) = some (value * base + d) := by
  unfold digitsValue? at hvalue ⊢
  rw [List.foldlM_append, hvalue]
  simp [hc, hd]

/-- The digits of a number have its value. -/
theorem digitsValue?_toDigits (n : Nat) : digitsValue? 16 (Nat.toDigits 16 n) = some n := by
  induction n using Nat.strongRecOn with
  | ind n ih =>
    rw [Nat.toDigits_eq_if (by decide)]
    split
    · rename_i hlt
      have hdigit := hexDigit?_digitChar hlt
      simp [digitsValue?, hdigit, hlt]
    · rename_i hge
      have hmod : n % 16 < 16 := Nat.mod_lt _ (by decide)
      have hless : n / 16 < n := by omega
      rw [digitsValue?_append_singleton (ih (n / 16) hless) (hexDigit?_digitChar hmod) hmod]
      congr 1
      omega

theorem isHexDigit_of_mem_toDigits {n : Nat} {c : Char} (h : c ∈ Nat.toDigits 16 n) :
    isHexDigit c = true := by
  induction n using Nat.strongRecOn with
  | ind n ih =>
    rw [Nat.toDigits_eq_if (by decide)] at h
    split at h
    · rename_i hlt
      obtain rfl := List.mem_singleton.mp h
      simp [isHexDigit, hexDigit?_digitChar hlt]
    · rename_i hge
      rcases List.mem_append.mp h with h | h
      · exact ih (n / 16) (by omega) h
      · obtain rfl := List.mem_singleton.mp h
        simp [isHexDigit, hexDigit?_digitChar (Nat.mod_lt n (by decide : 0 < 16))]

/-- Reading a number that was written in base sixteen answers with it, if it is small enough. -/
theorem readNat?_toDigits {n largest : Nat} (h : n ≤ largest) :
    readNat? 16 largest (Nat.toDigits 16 n) = some n := by
  have hplus : ∀ rest : List Char, Nat.toDigits 16 n ≠ '+' :: rest := by
    intro rest heq
    have hmem : '+' ∈ Nat.toDigits 16 n := heq ▸ List.mem_cons_self
    exact absurd (isHexDigit_of_mem_toDigits hmem) (by decide)
  have hdigits : (Nat.toDigits 16 n).isEmpty = false := by
    simp [Nat.toDigits_ne_nil]
  unfold readNat?
  split
  · rename_i rest heq
    exact absurd heq (hplus rest)
  · simp [hdigits, digitsValue?_toDigits, h]

/-- What stands before a mark is found, if the mark is not in it. -/
theorem splitAtChar?_append {mark : Char} {before : List Char} (h : mark ∉ before)
    (after : List Char) : splitAtChar? mark (before ++ mark :: after) = some (before, after) := by
  induction before with
  | nil => simp [splitAtChar?]
  | cons c before ih =>
    rw [List.mem_cons, not_or] at h
    have hne : (c == mark) = false := by simpa using Ne.symm h.1
    simp [splitAtChar?, hne, ih h.2]

/-- A text is split at the first mark that it has. -/
theorem splitAtChar?_eq_some_iff {mark : Char} {text before after : List Char} :
    splitAtChar? mark text = some (before, after) ↔
      text = before ++ mark :: after ∧ mark ∉ before := by
  constructor
  · intro h
    induction text generalizing before with
    | nil => cases h
    | cons c rest ih =>
      rw [splitAtChar?] at h
      split at h
      · rename_i hmark
        cases h
        exact ⟨by rw [eq_of_beq hmark, List.nil_append], List.not_mem_nil⟩
      · rename_i hmark
        obtain ⟨⟨inner, _⟩, hsplit, hparts⟩ := Option.map_eq_some_iff.mp h
        cases hparts
        obtain ⟨rfl, hfresh⟩ := ih hsplit
        refine ⟨rfl, ?_⟩
        rw [List.mem_cons, not_or]
        exact ⟨fun heq => hmark (beq_iff_eq.mpr heq.symm), hfresh⟩
  · rintro ⟨rfl, h⟩
    exact splitAtChar?_append h after

/-- A text is stripped of what it begins with. -/
theorem strip?_eq_some_iff {lead text rest : List Char} :
    strip? lead text = some rest ↔ text = lead ++ rest := by
  induction lead generalizing text with
  | nil =>
    rw [strip?, Option.some_inj]
    rfl
  | cons l lead ih =>
    cases text with
    | nil => simp [strip?]
    | cons c text =>
      rw [strip?]
      split
      · rename_i hsame
        rw [ih, eq_of_beq hsame, List.cons_append, List.cons_inj_right]
      · rename_i hother
        simp only [reduceCtorEq, List.cons_append, List.cons.injEq, false_iff, not_and]
        exact fun heq => absurd (beq_iff_eq.mpr heq.symm) hother

theorem strip?_eq_none_iff {lead text : List Char} : strip? lead text = none ↔ ¬lead <+: text := by
  rw [Option.eq_none_iff_forall_not_mem]
  constructor
  · rintro h ⟨rest, rfl⟩
    exact h rest (strip?_eq_some_iff.mpr rfl)
  · exact fun h rest hrest => h ⟨rest, (strip?_eq_some_iff.mp hrest).symm⟩

/-- The first mark of a text is found whatever comes after it. -/
theorem splitAtText?_eq_some {mark text before after : List Char} (hmark : mark ≠ [])
    (h : splitAtText? mark text = some (before, after)) :
    text = before ++ (mark ++ after) ∧
      ∀ rest, splitAtText? mark (before ++ (mark ++ rest)) = some (before, rest) := by
  have hfirst (rest : List Char) : splitAtText? mark (mark ++ rest) = some ([], rest) := by
    obtain ⟨m, more, rfl⟩ := List.exists_cons_of_ne_nil hmark
    have hstrip : strip? (m :: more) (m :: (more ++ rest)) = some rest :=
      strip?_eq_some_iff.mpr rfl
    rw [List.cons_append, splitAtText?, hstrip]
  induction text generalizing before with
  | nil =>
    rw [splitAtText?, if_neg (by simpa using hmark)] at h
    cases h
  | cons c text ih =>
    rw [splitAtText?] at h
    split at h
    · rename_i found hstrip
      cases h
      exact ⟨(strip?_eq_some_iff.mp hstrip : c :: text = mark ++ after), hfirst⟩
    · rename_i hnone
      obtain ⟨⟨inner, _⟩, hsplit, hparts⟩ := Option.map_eq_some_iff.mp h
      cases hparts
      obtain ⟨rfl, hrest⟩ := ih hsplit
      refine ⟨rfl, fun rest => ?_⟩
      -- The mark is no longer than what stands up to its end, so it does not begin here either.
      have hlength : mark.length ≤ (c :: inner ++ mark).length := by
        rw [List.length_append]
        omega
      have hbegins (rest : List Char) :
          mark <+: c :: inner ++ mark ++ rest ↔ mark <+: c :: inner ++ mark :=
        List.isPrefix_append_of_length hlength
      rw [strip?_eq_none_iff, ← List.cons_append, ← List.append_assoc, hbegins, ← hbegins rest,
        ← strip?_eq_none_iff] at hnone
      rw [List.cons_append, splitAtText?, ← List.cons_append, ← List.append_assoc, hnone]
      dsimp only
      rw [hrest]
      rfl

end RegexEngine.Text
