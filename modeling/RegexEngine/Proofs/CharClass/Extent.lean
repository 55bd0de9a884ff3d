import RegexEngine.Proofs.CharClass.Escape
import RegexEngine.Proofs.Steps
import RegexEngine.Proofs.Token.Reading

/-!
How far classes extend. A bracket expression is read from its first character to its last one, and
nothing after it has a say in that. Some of its readers look ahead for the first closing of what
they opened, but that they take. The others look at one or two characters more, and between the
brackets these are part of the expression, or the bracket that closes it comes before them.
-/

namespace RegexEngine

open Text (Cursor byteLength)

/-- A reading covers some characters: they come first in the text, what is left comes after them,
and wherever they stand, they are taken for the value, as long as what follows them fits. -/
structure Extent {ε α : Type} (reader : Cursor → Except ε (α × Cursor)) (fits : List Char → Prop)
    (text : List Char) (value : α) (left taken : List Char) : Prop where
  text_eq : text = taken ++ left
  takes : ∀ offset rest, fits rest →
    reader ⟨offset, taken ++ rest⟩ = .ok (value, ⟨offset + byteLength taken, rest⟩)

/-- Whatever follows. -/
def Anything (_ : List Char) : Prop := True

section

variable {ε α : Type} {reader : Cursor → Except ε (α × Cursor)} {fits : List Char → Prop}
  {text left taken : List Char} {value : α} {c : Char}

/-- A reader that takes the next character. -/
theorem extent_char (h : ∀ offset rest, fits rest →
      reader ⟨offset, c :: rest⟩ = .ok (value, ⟨offset + c.utf8Size, rest⟩)) :
    Extent reader fits (c :: left) value left [c] :=
  ⟨rfl, h⟩

/-- A reader that leaves it to another one to read on after the next character. -/
theorem Extent.cons {ε' : Type} {inner : Cursor → Except ε' (α × Cursor)}
    (h : Extent inner fits text value left taken)
    (hinner : ∀ offset rest found, inner ⟨offset + c.utf8Size, rest⟩ = .ok found →
      reader ⟨offset, c :: rest⟩ = .ok found) :
    Extent reader fits (c :: text) value left (c :: taken) where
  text_eq := by rw [h.text_eq, List.cons_append]
  takes offset rest hrest := by
    rw [byteLength, ← Nat.add_assoc]
    exact hinner offset _ _ (h.takes (offset + c.utf8Size) rest hrest)

end

/-! Escapes. -/

section Escapes

variable {offset : Nat} {text : List Char} {after : Cursor} {value : Escaped}

/-- A reader that takes some characters and makes what it can of them. -/
theorem extent_of_map {reader : Cursor → Except PatternFault (Escaped × Cursor)}
    (x : Except PatternFault Escaped) (taken : List Char) {rest : List Char}
    (hreader : ∀ offset rest, reader ⟨offset, taken ++ rest⟩ =
      x.map fun v => (v, ⟨offset + byteLength taken, rest⟩))
    (h : reader ⟨offset, taken ++ rest⟩ = .ok (value, after)) :
    Extent reader Anything (taken ++ rest) value after.rest taken := by
  rw [hreader offset rest] at h
  cases x with
  | error e => cases h
  | ok v =>
    cases h
    exact ⟨rfl, fun offset rest _ => hreader offset rest⟩

/-- A reader that takes what stands in braces. -/
theorem exists_extent_braces {reader : Cursor → Except PatternFault (Escaped × Cursor)}
    (x : Except PatternFault Escaped) {name rest : List Char} (hbrace : '}' ∉ name)
    (hreader : ∀ offset rest, Text.splitAtChar? '}' (name ++ '}' :: rest) = some (name, rest) →
      reader ⟨offset, '{' :: (name ++ '}' :: rest)⟩ = x.map fun v =>
        (v, Cursor.drop (name.length + 2) ⟨offset, '{' :: (name ++ '}' :: rest)⟩))
    (h : reader ⟨offset, '{' :: (name ++ '}' :: rest)⟩ = .ok (value, after)) :
    ∃ taken, Extent reader Anything ('{' :: (name ++ '}' :: rest)) value after.rest taken := by
  have hlength : ('{' :: (name ++ ['}'])).length = name.length + 2 := by simp
  have htext (rest : List Char) :
      '{' :: (name ++ '}' :: rest) = '{' :: (name ++ ['}']) ++ rest := by simp
  rw [htext] at h ⊢
  refine ⟨_, extent_of_map x _ (fun offset rest => ?_) h⟩
  rw [← drop_append, hlength, ← htext]
  exact hreader offset rest (Text.splitAtChar?_append hbrace rest)

theorem exists_extent_readProperty {negated : Bool}
    (h : readProperty negated ⟨offset, text⟩ = .ok (value, after)) :
    ∃ taken, Extent (readProperty negated) Anything text value after.rest taken := by
  have hread := h
  unfold readProperty at hread
  dsimp only at hread
  split at hread
  · split at hread
    · rename_i name rest hsplit
      obtain ⟨rfl, hbrace⟩ := Text.splitAtChar?_eq_some_iff.mp hsplit
      refine exists_extent_braces (namedProperty name negated) hbrace ?_ h
      intro offset rest hsplit
      simp only [readProperty, hsplit]
      cases namedProperty name negated <;> rfl
    · cases hread
  · rename_i n rest hbrace
    split at hread
    · rename_i hletter
      refine ⟨_, extent_of_map (namedProperty [n] negated) [n] (fun offset rest => ?_) h⟩
      simp only [readProperty, List.cons_append, List.nil_append, hletter]
      cases namedProperty [n] negated <;> rfl
    · cases hread
  · cases hread

theorem exists_extent_readCodePoint
    (h : readCodePoint ⟨offset, text⟩ = .ok (value, after)) :
    ∃ taken, Extent readCodePoint Anything text value after.rest taken := by
  have hread := h
  unfold readCodePoint at hread
  dsimp only at hread
  split at hread
  · split at hread
    · rename_i digits rest hsplit
      obtain ⟨rfl, hbrace⟩ := Text.splitAtChar?_eq_some_iff.mp hsplit
      refine exists_extent_braces (codePointEscape digits) hbrace ?_ h
      intro offset rest hsplit
      simp only [readCodePoint, hsplit]
      cases codePointEscape digits <;> rfl
    · cases hread
  · rename_i a b rest hbrace
    split at hread
    · rename_i hdigits
      refine ⟨_, extent_of_map (codePointEscape [a, b]) [a, b] (fun offset rest => ?_) h⟩
      rw [← drop_append]
      simp only [readCodePoint, List.cons_append, List.nil_append, hdigits, if_true]
      cases codePointEscape [a, b] <;> rfl
    · cases hread
  · cases hread

/-- After a backslash, the next character alone decides what is read. -/
theorem readEscape_cases (strict : Bool) (c : Char) :
    (∃ v, ∀ offset rest,
        readEscape strict ⟨offset, c :: rest⟩ = .ok (v, ⟨offset + c.utf8Size, rest⟩)) ∨
      (∃ negated, ∀ offset rest, readEscape strict ⟨offset, c :: rest⟩ =
        readProperty negated ⟨offset + c.utf8Size, rest⟩) ∨
      (∀ offset rest, readEscape strict ⟨offset, c :: rest⟩ =
        readCodePoint ⟨offset + c.utf8Size, rest⟩) ∨
      ∃ fault, ∀ offset rest, readEscape strict ⟨offset, c :: rest⟩ = .error fault := by
  unfold readEscape
  dsimp only [Cursor.drop]
  split
  · exact .inl ⟨_, fun offset rest => rfl⟩
  · exact .inl ⟨_, fun offset rest => rfl⟩
  · split
    · exact .inr (.inl ⟨_, fun offset rest => rfl⟩)
    · split
      · exact .inr (.inr (.inl fun offset rest => rfl))
      · split
        · exact .inr (.inr (.inr ⟨_, fun offset rest => rfl⟩))
        · split
          · exact .inr (.inr (.inr ⟨_, fun offset rest => rfl⟩))
          · exact .inl ⟨_, fun offset rest => rfl⟩

theorem exists_extent_readEscape {strict : Bool}
    (h : readEscape strict ⟨offset, text⟩ = .ok (value, after)) :
    ∃ taken, Extent (readEscape strict) Anything text value after.rest taken := by
  cases text with
  | nil => cases h
  | cons c text =>
    rcases readEscape_cases strict c with ⟨v, hchar⟩ | ⟨negated, hname⟩ | hcode | ⟨fault, herror⟩
    · rw [hchar] at h
      cases h
      exact ⟨[c], extent_char fun offset rest _ => hchar offset rest⟩
    · rw [hname] at h
      obtain ⟨taken, hextent⟩ := exists_extent_readProperty h
      exact ⟨c :: taken, hextent.cons fun offset rest _ hread => (hname offset rest).trans hread⟩
    · rw [hcode] at h
      obtain ⟨taken, hextent⟩ := exists_extent_readCodePoint h
      exact ⟨c :: taken, hextent.cons fun offset rest _ hread => (hcode offset rest).trans hread⟩
    · rw [herror] at h
      cases h

end Escapes

namespace CharClass

variable {strict : Bool} {offset : Nat} {text : List Char} {after : Cursor}

theorem exists_extent_readBackslash {value : Escaped}
    (h : readBackslash strict ⟨offset, '\\' :: text⟩ = .ok (value, after)) :
    ∃ taken, Extent (readBackslash strict) Anything ('\\' :: text) value after.rest
      ('\\' :: taken) := by
  unfold readBackslash at h
  split at h
  · rename_i hescape
    cases h
    obtain ⟨taken, hextent⟩ := exists_extent_readEscape hescape
    refine ⟨taken, hextent.cons fun offset rest found hread => ?_⟩
    unfold readBackslash
    rw [Cursor.drop, Cursor.drop, hread]
  · cases h

/-! Named classes. -/

/-- An opening may have a caret after it. -/
def CaretBefore (caret named : List Char) : Prop :=
  caret = ['^'] ∨ caret = [] ∧ named.head? ≠ some '^'

theorem exists_caretBefore (text : List Char) :
    ∃ caret named, text = caret ++ named ∧ CaretBefore caret named := by
  by_cases hhead : text.head? = some '^'
  · obtain ⟨named, rfl⟩ := List.head?_eq_some_iff.mp hhead
    exact ⟨['^'], named, rfl, .inl rfl⟩
  · exact ⟨[], text, rfl, .inr ⟨rfl, hhead⟩⟩

/-- A caret is told by the characters right after the opening. -/
theorem CaretBefore.of_append {caret named left : List Char} (hne : named ≠ [])
    (h : CaretBefore caret (named ++ left)) (rest : List Char) :
    CaretBefore caret (named ++ rest) := by
  unfold CaretBefore at h ⊢
  rwa [List.head?_append_of_ne_nil _ hne] at h ⊢

theorem CaretBefore.peek?_eq {caret named : List Char} (h : CaretBefore caret named)
    (offset : Nat) :
    (Cursor.peek? ⟨offset, caret ++ named⟩ == some '^') = (caret == ['^']) := by
  rcases h with rfl | ⟨rfl, hhead⟩
  · rfl
  · exact beq_eq_false_iff_ne.mpr hhead

theorem CaretBefore.after_eq {caret named : List Char} (h : CaretBefore caret named)
    (offset : Nat) :
    (if (caret == ['^']) = true then Cursor.drop 1 ⟨offset, caret ++ named⟩
      else ⟨offset, caret ++ named⟩) = ⟨offset + byteLength caret, named⟩ := by
  rcases h with rfl | ⟨rfl, _⟩
  · rfl
  · rfl

/-- A named class extends to the first closing after its opening. -/
theorem readPosix_eq {caret named : List Char} (h : CaretBefore caret named) (offset : Nat) :
    readPosix ⟨offset, '[' :: ':' :: (caret ++ named)⟩ =
      match Text.splitAtText? [':', ']'] named with
      | none => .error (PatternFault.unclosedPosix.errorAt offset)
      | some (name, _) =>
        match PosixClass.ofName? (String.ofList name) with
        | some known => .ok (.item (.posix known (caret == ['^'])), Cursor.drop (name.length + 2)
            ⟨offset + '['.utf8Size + ':'.utf8Size + byteLength caret, named⟩)
        | none => .error ((PatternFault.unknownPosix (String.ofList name)).errorAt offset) := by
  unfold readPosix
  dsimp only [Cursor.drop]
  rewrite [h.peek?_eq, h.after_eq]
  rfl

theorem exists_extent_readPosix {value : Escaped}
    (h : readPosix ⟨offset, '[' :: ':' :: text⟩ = .ok (value, after)) :
    ∃ taken, Extent readPosix Anything ('[' :: ':' :: text) value after.rest
      ('[' :: ':' :: taken) := by
  obtain ⟨caret, named, rfl, hcaret⟩ := exists_caretBefore text
  rw [readPosix_eq hcaret] at h
  split at h
  · cases h
  · rename_i name left hsplit
    split at h
    · rename_i known hname
      obtain ⟨rfl, hfirst⟩ := Text.splitAtText?_eq_some (List.cons_ne_nil _ _) hsplit
      have hlength : (name ++ [':', ']']).length = name.length + 2 := by simp
      rw [← List.append_assoc] at hcaret h ⊢
      rw [← hlength, drop_append] at h
      cases h
      refine ⟨caret ++ (name ++ [':', ']']), by simp, ?_⟩
      intro offset rest _
      have htext : '[' :: ':' :: (caret ++ (name ++ [':', ']'])) ++ rest =
          '[' :: ':' :: (caret ++ (name ++ [':', ']'] ++ rest)) := by simp
      rw [htext, readPosix_eq (hcaret.of_append (by simp) rest), List.append_assoc name, hfirst]
      dsimp only
      rw [hname, ← List.append_assoc, ← hlength, drop_append]
      simp only [Text.byteLength_append, byteLength, Nat.add_assoc]
    · cases h

/-! Parts of bracket expressions. -/

/-- The texts go on with the same character. -/
def SameHead (left rest : List Char) : Prop := rest.head? = left.head?

theorem SameHead.append {left rest : List Char} (h : SameHead left rest) (taken : List Char) :
    SameHead (taken ++ left) (taken ++ rest) := by
  unfold SameHead at h ⊢
  rw [List.head?_append, List.head?_append, h]

/-- The texts go on with the same character, and after a dash with the same two. -/
structure SameAhead (left rest : List Char) : Prop where
  head_eq : SameHead left rest
  tail_eq : left.head? = some '-' → SameHead left.tail rest.tail

theorem opensPosix_eq (offset : Nat) (c : Char) (rest : List Char) :
    (c == '[' && (Cursor.mk offset (c :: rest)).looksAt "[:") =
      decide (c = '[' ∧ rest.head? = some ':') := by
  have hlooks : (Cursor.mk offset (c :: rest)).looksAt "[:" = true ↔ ['[', ':'] <+: c :: rest := by
    rw [Cursor.looksAt, Text.beginsWith, Option.isSome_iff_ne_none, ne_eq, Text.strip?_eq_none_iff,
      not_not]
    rfl
  have hcolon : [':'] <+: rest ↔ rest.head? = some ':' := by
    cases rest with
    | nil => simp
    | cons d rest => simp [eq_comm]
  rw [Bool.eq_iff_iff, Bool.and_eq_true, beq_iff_eq, hlooks, List.cons_prefix_cons, hcolon,
    decide_eq_true_eq]
  exact ⟨fun h => ⟨h.1, h.2.2⟩, fun h => ⟨h.1, h.1.symm, h.2⟩⟩

theorem readAtom_eq (strict : Bool) (offset : Nat) (c : Char) (rest : List Char) :
    readAtom strict ⟨offset, c :: rest⟩ c =
      if c = '[' ∧ rest.head? = some ':' then readPosix ⟨offset, c :: rest⟩
      else if c = '\\' then readBackslash strict ⟨offset, c :: rest⟩
      else .ok (.char c, ⟨offset + c.utf8Size, rest⟩) := by
  unfold readAtom
  rw [opensPosix_eq]
  simp only [decide_eq_true_eq, beq_iff_eq]
  rfl

theorem exists_extent_readAtom {c : Char} {value : Escaped}
    (h : readAtom strict ⟨offset, c :: text⟩ c = .ok (value, after)) :
    ∃ taken, Extent (readAtom strict · c) (SameHead after.rest) (c :: text) value after.rest
      (c :: taken) := by
  rw [readAtom_eq] at h
  split at h
  · rename_i hposix
    obtain ⟨rfl, hcolon⟩ := hposix
    obtain ⟨text, rfl⟩ := List.head?_eq_some_iff.mp hcolon
    obtain ⟨taken, hextent⟩ := exists_extent_readPosix h
    refine ⟨_, hextent.text_eq, fun offset rest _ => ?_⟩
    rw [List.cons_append, readAtom_eq, if_pos ⟨rfl, rfl⟩]
    exact hextent.takes offset rest trivial
  · rename_i hposix
    split at h
    · rename_i hbackslash
      subst hbackslash
      obtain ⟨taken, hextent⟩ := exists_extent_readBackslash h
      refine ⟨taken, hextent.text_eq, fun offset rest _ => ?_⟩
      rw [List.cons_append, readAtom_eq, if_neg (by simp), if_pos rfl]
      exact hextent.takes offset rest trivial
    · rename_i hbackslash
      cases h
      refine ⟨[], extent_char fun offset rest hrest => ?_⟩
      rw [readAtom_eq, hrest, if_neg hposix, if_neg hbackslash]

theorem readRangeEnd_eq (strict : Bool) (offset : Nat) (c : Char) (rest : List Char) :
    readRangeEnd strict ⟨offset, '-' :: c :: rest⟩ c =
      if c = '[' ∧ rest.head? = some ':' then
        .error (PatternFault.unmatchedDash.errorAt offset)
      else readAtom strict ⟨offset + '-'.utf8Size, c :: rest⟩ c >>= fun
        | (.char last, after) => pure (last, after)
        | (.item _, _) => .error (PatternFault.unmatchedDash.errorAt offset) := by
  unfold readRangeEnd
  dsimp only [Cursor.drop]
  rewrite [opensPosix_eq]
  exact if_congr decide_eq_true_iff rfl rfl

theorem exists_extent_readRangeEnd {c last : Char}
    (h : readRangeEnd strict ⟨offset, '-' :: c :: text⟩ c = .ok (last, after)) :
    ∃ taken, Extent (readRangeEnd strict · c) (SameHead after.rest) ('-' :: c :: text) last
      after.rest ('-' :: c :: taken) := by
  rw [readRangeEnd_eq] at h
  split at h
  · cases h
  · rename_i hposix
    obtain ⟨⟨atom, next⟩, hatom, h⟩ := bind_eq_ok.mp h
    cases atom with
    | item part => cases h
    | char last =>
      cases h
      obtain ⟨taken, hextent⟩ := exists_extent_readAtom hatom
      refine ⟨taken, by rw [hextent.text_eq]; rfl, fun offset rest hrest => ?_⟩
      obtain rfl : text = taken ++ after.rest := (List.cons.inj hextent.text_eq).2
      rw [← hrest.append taken] at hposix
      have htakes := hextent.takes (offset + '-'.utf8Size) rest hrest
      have hlength : offset + byteLength ('-' :: c :: taken) =
          offset + '-'.utf8Size + byteLength (c :: taken) := (Nat.add_assoc ..).symm
      rw [List.cons_append, List.cons_append, readRangeEnd_eq, if_neg hposix, ← List.cons_append,
        htakes, hlength]
      rfl

/-- The part that stands between brackets for itself. -/
def partOf : Escaped → ClassItem
  | .char c => .range c c
  | .item part => part

theorem startsRange_eq_heads (offset : Nat) (rest : List Char) :
    startsRange ⟨offset, rest⟩ =
      (rest.head? == some '-' && rest.tail.head?.any (· != ']')) := by
  unfold startsRange
  match rest with
  | [] => rfl
  | [c] => simp
  | c :: d :: more =>
    by_cases hdash : c = '-'
    · subst hdash
      rfl
    · simp [hdash]

theorem startsRange_cases (rest : List Char) :
    (∀ offset, startsRange ⟨offset, rest⟩ = false) ∨
      ∃ c more, rest = '-' :: c :: more ∧ ∀ offset, startsRange ⟨offset, rest⟩ = true := by
  unfold startsRange
  dsimp only
  split
  · rename_i c more
    cases c != ']' with
    | false => exact .inl fun _ => rfl
    | true => exact .inr ⟨c, more, rfl, fun _ => rfl⟩
  · exact .inl fun _ => rfl

/-- Whether a range starts is told by two characters. -/
theorem SameAhead.startsRange_eq {left rest : List Char} (h : SameAhead left rest)
    (offset offset' : Nat) : startsRange ⟨offset, rest⟩ = startsRange ⟨offset', left⟩ := by
  rw [startsRange_eq_heads offset, startsRange_eq_heads offset', h.head_eq]
  by_cases hdash : left.head? = some '-'
  · rw [h.tail_eq hdash]
  · rw [beq_eq_false_iff_ne.mpr hdash, Bool.false_and, Bool.false_and]

/-- What no range starts after stands for itself. -/
theorem readItem_of_atom {cur : Cursor} {c : Char} {atom : Escaped}
    (hatom : readAtom strict cur c = .ok (atom, after)) (hstarts : startsRange after = false) :
    readItem strict cur c = .ok (partOf atom, after) := by
  unfold readItem
  rw [hatom]
  cases atom <;> simp only [bind, Except.bind, hstarts] <;> rfl

/-- Before a dash that starts a range stands its first character, and after it the last one. -/
theorem readItem_of_dash {cur : Cursor} {c d first : Char} {rest : List Char}
    (hatom : readAtom strict cur c = .ok (.char first, ⟨offset, '-' :: d :: rest⟩))
    (hstarts : startsRange ⟨offset, '-' :: d :: rest⟩ = true) :
    readItem strict cur c =
      readRangeEnd strict ⟨offset, '-' :: d :: rest⟩ d >>= fun (last, rest) =>
        if last < first then .error (PatternFault.reversedClassRange.errorAt cur.offset)
        else .ok (.range first last, rest) := by
  unfold readItem
  rw [hatom]
  simp only [bind, Except.bind, hstarts, Cursor.drop]
  rfl

theorem readItem_of_item_dash {cur : Cursor} {c d : Char} {part : ClassItem} {rest : List Char}
    (hatom : readAtom strict cur c = .ok (.item part, ⟨offset, '-' :: d :: rest⟩))
    (hstarts : startsRange ⟨offset, '-' :: d :: rest⟩ = true) :
    readItem strict cur c = .error (PatternFault.unmatchedDash.errorAt offset) := by
  unfold readItem
  rw [hatom]
  simp only [bind, Except.bind, hstarts, Cursor.drop]

theorem extent_of_atom {c : Char} {atom : Escaped} {left taken : List Char}
    (hextent : Extent (readAtom strict · c) (SameHead left) (c :: text) atom left (c :: taken))
    (hsingle : ∀ offset, startsRange ⟨offset, left⟩ = false) :
    Extent (readItem strict · c) (SameAhead left) (c :: text) (partOf atom) left (c :: taken) where
  text_eq := hextent.text_eq
  takes offset rest hrest := by
    refine readItem_of_atom (hextent.takes offset rest hrest.head_eq) ?_
    rw [hrest.startsRange_eq _ offset, hsingle]

/-- A range covers its first character, the dash and its last character. -/
theorem extent_of_dash {c d first last : Char} {more left taken takenLast : List Char}
    (hfirst : Extent (readAtom strict · c) (SameHead ('-' :: d :: more)) (c :: text) (.char first)
      ('-' :: d :: more) (c :: taken))
    (hlast : Extent (readRangeEnd strict · d) (SameHead left) ('-' :: d :: more) last left
      ('-' :: d :: takenLast))
    (hdash : ∀ offset, startsRange ⟨offset, '-' :: d :: more⟩ = true) (horder : ¬last < first) :
    Extent (readItem strict · c) (SameAhead left) (c :: text) (.range first last) left
      (c :: (taken ++ '-' :: d :: takenLast)) where
  text_eq := by
    rw [hfirst.text_eq, hlast.text_eq]
    simp
  takes offset rest hrest := by
    have hrange := hlast.takes (offset + byteLength (c :: taken)) rest hrest.head_eq
    have hahead : SameAhead ('-' :: d :: more) ('-' :: d :: (takenLast ++ rest)) :=
      ⟨rfl, fun _ => rfl⟩
    have hstarts : startsRange ⟨offset + byteLength (c :: taken), '-' :: d :: (takenLast ++ rest)⟩ =
        true := (hahead.startsRange_eq _ offset).trans (hdash offset)
    have hsplit : c :: (taken ++ '-' :: d :: takenLast) ++ rest =
        c :: taken ++ '-' :: d :: (takenLast ++ rest) := by simp
    have hlength : offset + byteLength (c :: (taken ++ '-' :: d :: takenLast)) =
        offset + byteLength (c :: taken) + byteLength ('-' :: d :: takenLast) := by
      rw [← List.cons_append, Text.byteLength_append, Nat.add_assoc]
    dsimp only [List.cons_append] at hrange
    rw [hsplit, hlength, readItem_of_dash (hfirst.takes offset _ hahead.head_eq) hstarts, hrange]
    exact if_neg horder

theorem exists_extent_readItem {c : Char} {item : ClassItem}
    (h : readItem strict ⟨offset, c :: text⟩ c = .ok (item, after)) :
    ∃ taken, Extent (readItem strict · c) (SameAhead after.rest) (c :: text) item after.rest
      (c :: taken) := by
  obtain ⟨⟨atom, ⟨next, left⟩⟩, hatom, -⟩ := bind_eq_ok.mp h
  obtain ⟨taken, hextent⟩ := exists_extent_readAtom hatom
  rcases startsRange_cases left with hsingle | ⟨d, more, rfl, hdash⟩
  · rw [readItem_of_atom hatom (hsingle next)] at h
    cases h
    exact ⟨taken, extent_of_atom hextent hsingle⟩
  · cases atom with
    | item part =>
      rw [readItem_of_item_dash hatom (hdash next)] at h
      cases h
    | char first =>
      rw [readItem_of_dash hatom (hdash next)] at h
      obtain ⟨⟨last, final⟩, hlast, h⟩ := bind_eq_ok.mp h
      dsimp only at h
      split at h
      · cases h
      · rename_i horder
        cases h
        obtain ⟨takenLast, hextentLast⟩ := exists_extent_readRangeEnd hlast
        exact ⟨_, extent_of_dash hextent hextentLast hdash horder⟩

/-- Inside the brackets a closing bracket is to come, so what stands after it is out of sight. -/
theorem sameAhead_of_close (taken left rest : List Char) :
    SameAhead (taken ++ ']' :: left) (taken ++ ']' :: rest) := by
  cases taken with
  | nil => exact ⟨rfl, by simp⟩
  | cons c taken => 
    cases taken with
    | nil => exact ⟨rfl, fun _ => rfl⟩
    | cons d taken => exact ⟨rfl, fun _ => rfl⟩

theorem readItems_cons {c : Char} (hclose : c ≠ ']') (opened fuel offset : Nat) (rest : List Char) :
    readItems strict opened (fuel + 1) ⟨offset, c :: rest⟩ =
      readItem strict ⟨offset, c :: rest⟩ c >>= fun (item, after) =>
        readItems strict opened fuel after >>= fun (items, rest) =>
          .ok (item :: items, rest) := by
  rw [readItems]
  split
  · rename_i heq
    cases heq
  · rename_i heq
    exact absurd (List.cons.inj heq).1 hclose
  · rename_i heq
    obtain ⟨rfl, rfl⟩ := List.cons.inj heq
    rfl

theorem exists_taken_readItems {opened fuel : Nat} {items : List ClassItem}
    (h : readItems strict opened fuel ⟨offset, text⟩ = .ok (items, after)) :
    ∃ taken, text = taken ++ ']' :: after.rest ∧ ∀ opened fuel offset rest, taken.length < fuel →
      readItems strict opened fuel ⟨offset, taken ++ ']' :: rest⟩ =
        .ok (items, ⟨offset + byteLength (taken ++ [']']), rest⟩) := by
  -- The fuel of the reading at hand is not the one of the reading elsewhere.
  induction fuel generalizing offset text items with
  | zero => cases h
  | succ fuel ih =>
    rw [readItems] at h
    split at h
    · cases h
    · rename_i rest htext
      cases h
      obtain rfl : text = ']' :: rest := htext
      refine ⟨[], rfl, fun opened fuel offset rest hfuel => ?_⟩
      obtain ⟨fuel, rfl⟩ := Nat.exists_eq_succ_of_ne_zero (Nat.ne_of_gt hfuel)
      rfl
    · rename_i c rest hclose htext
      obtain rfl : text = c :: rest := htext
      obtain ⟨⟨item, ⟨next, left⟩⟩, hitem, h⟩ := bind_eq_ok.mp h
      obtain ⟨⟨others, final⟩, hothers, h⟩ := bind_eq_ok.mp h
      cases h
      obtain ⟨taken, hextent⟩ := exists_extent_readItem hitem
      obtain ⟨more, rfl, hmore⟩ := ih hothers
      refine ⟨c :: (taken ++ more), ?_, fun opened fuel offset rest hfuel => ?_⟩
      · rw [hextent.text_eq]
        simp
      · have hsplit : c :: (taken ++ more) ++ ']' :: rest =
            c :: taken ++ (more ++ ']' :: rest) := by simp
        have hlength : offset + byteLength (c :: (taken ++ more) ++ [']']) =
            offset + byteLength (c :: taken) + byteLength (more ++ [']']) := by
          rw [← List.cons_append, List.append_assoc, Text.byteLength_append, Nat.add_assoc]
        obtain ⟨fuel, rfl⟩ := Nat.exists_eq_succ_of_ne_zero (Nat.ne_of_gt (Nat.zero_lt_of_lt hfuel))
        have hfuel' : more.length < fuel := by
          rw [List.length_cons, List.length_append] at hfuel
          omega
        rw [hsplit, hlength, List.cons_append, readItems_cons hclose]
        have hahead := sameAhead_of_close more after.rest rest
        refine bind_eq_ok.mpr ⟨_, hextent.takes offset _ hahead, ?_⟩
        exact bind_eq_ok.mpr ⟨_, hmore opened fuel _ rest hfuel', rfl⟩

/-! Bracket expressions. -/

theorem readBracket_eq {caret body : List Char} (h : CaretBefore caret body) (offset : Nat) :
    readBracket strict ⟨offset, '[' :: (caret ++ body)⟩ =
      readItems strict offset (body.length + 1)
          ⟨offset + '['.utf8Size + byteLength caret, body⟩ >>= fun (items, after) =>
        if items.isEmpty then .error (PatternFault.emptyClass.errorAt offset)
        else .ok (⟨caret == ['^'], items⟩, after) := by
  unfold readBracket
  dsimp only [Cursor.drop]
  rewrite [h.peek?_eq, h.after_eq]
  rfl

/-- A bracket expression is taken wherever it stands, whatever follows it. -/
theorem exists_extent_readBracket {cls : CharClass}
    (h : readBracket strict ⟨offset, text⟩ = .ok (cls, after)) :
    ∃ taken, Extent (readBracket strict) Anything text cls after.rest ('[' :: taken) := by
  obtain ⟨text, rfl⟩ : ∃ more, text = '[' :: more := by
    unfold readBracket at h
    split at h
    · exact ⟨_, ‹_›⟩
    · cases h
  obtain ⟨caret, body, rfl, hcaret⟩ := exists_caretBefore text
  rw [readBracket_eq hcaret] at h
  obtain ⟨⟨items, final⟩, hitems, h⟩ := bind_eq_ok.mp h
  dsimp only at h
  split at h
  · cases h
  · rename_i hitem
    cases h
    obtain ⟨taken, rfl, htaken⟩ := exists_taken_readItems hitems
    have hsplit (rest : List Char) : '[' :: (caret ++ (taken ++ [']'])) ++ rest =
        '[' :: (caret ++ (taken ++ ']' :: rest)) := by simp
    refine ⟨caret ++ (taken ++ [']']), (hsplit _).symm, fun offset rest _ => ?_⟩
    have hcaret' : CaretBefore caret (taken ++ ']' :: rest) := by
      have hne : taken ++ [']'] ≠ [] := by simp
      have hfollowed := (by simpa using hcaret : CaretBefore caret (taken ++ [']'] ++ after.rest))
      simpa using hfollowed.of_append hne rest
    have hfuel : taken.length < (taken ++ ']' :: rest).length + 1 := by
      rw [List.length_append]
      omega
    have hlength : offset + byteLength ('[' :: (caret ++ (taken ++ [']']))) =
        offset + '['.utf8Size + byteLength caret + byteLength (taken ++ [']']) := by
      simp only [byteLength, Text.byteLength_append, Nat.add_assoc]
    rw [hsplit, readBracket_eq hcaret', hlength]
    exact bind_eq_ok.mpr ⟨_, htaken _ _ _ rest hfuel, if_neg hitem⟩

/-- A text that begins with a bracket spells a class if it is a bracket expression as a whole. -/
theorem parseWith_bracket_iff {spec : List Char} {cls : CharClass} (h : spec.head? = some '[') :
    parseWith strict spec = .ok cls ↔
      ∃ offset, readBracket strict (.start spec) = .ok (cls, ⟨offset, []⟩) := by
  obtain ⟨spec, rfl⟩ := List.head?_eq_some_iff.mp h
  unfold parseWith
  rw [bind_eq_ok]
  constructor
  · rintro ⟨⟨found, ⟨offset, left⟩⟩, hread, hend⟩
    dsimp only at hend
    split at hend
    · rename_i hleft
      obtain rfl := List.isEmpty_iff.mp hleft
      cases hend
      exact ⟨offset, hread⟩
    · cases hend
  · rintro ⟨offset, hread⟩
    exact ⟨(cls, ⟨offset, []⟩), hread, rfl⟩

theorem exists_spec_of_scanBracket {text : List Char} {n : Nat} (h : scanBracket text = .ok n) :
    ∃ spec left, text = spec ++ left ∧ byteLength spec = n ∧
      (∃ cls, parseWith false spec = .ok cls) ∧ ∀ more, scanBracket (spec ++ more) = .ok n := by
  obtain ⟨⟨cls, ⟨offset, left⟩⟩, hread, hn⟩ := bind_eq_ok.mp h
  obtain ⟨taken, hextent⟩ := exists_extent_readBracket hread
  have hagain (more : List Char) : readBracket false (.start ('[' :: taken ++ more)) =
      .ok (cls, ⟨byteLength ('[' :: taken), more⟩) := by
    rw [← Nat.zero_add (byteLength _)]
    exact hextent.takes 0 more trivial
  obtain rfl : byteLength ('[' :: taken) = n := by
    rw [hextent.text_eq, hagain] at hread
    cases hread
    cases hn
    rfl
  refine ⟨'[' :: taken, left, hextent.text_eq, rfl, ⟨cls, ?_⟩, fun more => ?_⟩
  · have hwhole := hagain []
    rw [List.append_nil] at hwhole
    exact (parseWith_bracket_iff rfl).mpr ⟨_, hwhole⟩
  · exact bind_eq_ok.mpr ⟨_, hagain more, rfl⟩

theorem scanBracket_append_of_parseWith {spec : List Char} {cls : CharClass}
    (hhead : spec.head? = some '[') (h : parseWith false spec = .ok cls) (more : List Char) :
    scanBracket (spec ++ more) = .ok (byteLength spec) := by
  obtain ⟨offset, hread⟩ := (parseWith_bracket_iff hhead).mp h
  obtain ⟨taken, hextent⟩ := exists_extent_readBracket hread
  obtain rfl : spec = '[' :: taken := by
    rw [hextent.text_eq]
    exact List.append_nil _
  refine bind_eq_ok.mpr ⟨_, hextent.takes 0 more trivial, ?_⟩
  rw [Nat.zero_add]
  rfl

/-- The scanner and the parser of bracket expressions agree on where a class ends. What is scanned
is a class as a whole, and a class that begins with a bracket is scanned up to its end, in both
cases whatever follows. -/
theorem scanBracket_exact (s : String) :
    (∀ n, scanBracket s.toList = .ok n → ∃ spec rest : String, s = spec ++ rest ∧
      byteLength spec.toList = n ∧ (∃ cls, parse spec = .ok cls) ∧
      ∀ t : String, scanBracket (spec ++ t).toList = .ok n) ∧
    (∀ cls, s.toList.head? = some '[' → parse s = .ok cls →
      ∀ t : String, scanBracket (s ++ t).toList = .ok (byteLength s.toList)) := by
  constructor
  · intro n hscan
    obtain ⟨spec, left, htext, hlength, ⟨cls, hparse⟩, hmore⟩ := exists_spec_of_scanBracket hscan
    refine ⟨String.ofList spec, String.ofList left, ?_, ?_, ⟨cls, ?_⟩, fun t => ?_⟩
    · rw [← String.ofList_append, ← htext, String.ofList_toList]
    · rw [String.toList_ofList, hlength]
    · rw [parse, String.toList_ofList, hparse]
    · rw [String.toList_append, String.toList_ofList, hmore]
  · intro cls hhead hparse t
    rw [String.toList_append]
    exact scanBracket_append_of_parseWith hhead hparse t.toList

/-- A class with every kind of part that looks ahead, and after it what each of them looks for. -/
theorem scanBracket_exact_lookahead :
    (scanBracket "[^A-\\]x[:^alpha:]\\x\x7b41\x7d[-]-z:]\x7d".toList = .ok 26 ∧
      ∃ spec rest : String, "[^A-\\]x[:^alpha:]\\x\x7b41\x7d[-]-z:]\x7d" = spec ++ rest ∧
        byteLength spec.toList = 26 ∧ (∃ cls, parse spec = .ok cls) ∧
        ∀ t : String, scanBracket (spec ++ t).toList = .ok 26) ∧
    (parse "[^A-\\]x[:^alpha:]\\x\x7b41\x7d[-]" =
        .ok ⟨true, [.range 'A' ']', .range 'x' 'x', .posix .alpha true, .range 'A' 'A',
          .range '[' '[', .range '-' '-']⟩ ∧
      ∀ t : String, scanBracket ("[^A-\\]x[:^alpha:]\\x\x7b41\x7d[-]" ++ t).toList = .ok 26) := by
  have hscan : scanBracket "[^A-\\]x[:^alpha:]\\x\x7b41\x7d[-]-z:]\x7d".toList = .ok 26 := by
    rfl
  have hparse : parse "[^A-\\]x[:^alpha:]\\x\x7b41\x7d[-]" =
      .ok ⟨true, [.range 'A' ']', .range 'x' 'x', .posix .alpha true, .range 'A' 'A',
        .range '[' '[', .range '-' '-']⟩ := by
    rfl
  exact ⟨⟨hscan, (scanBracket_exact _).1 26 hscan⟩, hparse,
    (scanBracket_exact _).2 _ rfl hparse⟩

end CharClass

end RegexEngine
