import RegexEngine.Token.Lexer

/-!
Where a text is read makes no difference to what is read. The offsets that cursors count are only
handed on to errors and tokens: the readers of classes and of tokens take the same at two places
with the same rest in front of them, or fail in both for the same cause, and what they say of
offsets differs by as much as the places do. Every reader leaves off at a later place of the text
that it was given, and a token of the body takes a character at least.
-/

namespace RegexEngine

namespace Text.Cursor

/-- The same place of a text that stands `n` bytes further on. -/
def moved (n : Nat) (cur : Cursor) : Cursor := ⟨cur.offset + n, cur.rest⟩

variable (n : Nat) (cur : Cursor)

@[simp] theorem rest_moved : (cur.moved n).rest = cur.rest := rfl

@[simp] theorem peek?_moved : (cur.moved n).peek? = cur.peek? := rfl

@[simp] theorem looksAt_moved (lead : String) : (cur.moved n).looksAt lead = cur.looksAt lead := rfl

@[simp] theorem offset_moved : (cur.moved n).offset = cur.offset + n := rfl

@[simp] theorem drop_moved (k : Nat) : (cur.moved n).drop k = (cur.drop k).moved n := by
  induction k generalizing cur with
  | zero => rfl
  | succ k ih =>
    obtain ⟨offset, rest⟩ := cur
    cases rest with
    | nil => rfl
    | cons c rest =>
      simp only [moved, drop, Nat.add_right_comm offset n]
      exact ih ⟨offset + c.utf8Size, rest⟩

theorem drop_drop (j k : Nat) : (cur.drop j).drop k = cur.drop (j + k) := by
  induction j generalizing cur with
  | zero => rw [drop, Nat.zero_add]
  | succ j ih =>
    obtain ⟨offset, rest⟩ := cur
    rw [Nat.succ_add]
    cases rest with
    | nil => cases k <;> rfl
    | cons c rest => exact ih _

end Text.Cursor

open Text (Cursor)

/-- The first error is the second one, noticed `n` bytes further on. -/
structure Error.Beyond (n : Nat) (e e' : Error) : Prop where
  cause : e.cause = e'.cause
  position : ∃ place, e'.position = some place ∧ e.position = some (place + n)

theorem PatternFault.errorAt_beyond (fault : PatternFault) (n place : Nat) :
    (fault.errorAt (place + n)).Beyond n (fault.errorAt place) := ⟨rfl, place, rfl, rfl⟩

theorem Error.shift_beyond (e : Error) (n place : Nat) :
    (e.shift (place + n)).Beyond n (e.shift place) :=
  ⟨rfl, _, rfl, congrArg some (Nat.add_assoc ..).symm⟩

/-- Two readings, the first one `n` bytes further on than the second one, come to the same: both
fail alike, or both take the same and leave off after as many characters. -/
inductive SameReading {ε α : Type} (alike : ε → ε → Prop) (n : Nat) (cur : Cursor) :
    Except ε (α × Cursor) → Except ε (α × Cursor) → Prop
  | failed {e e' : ε} : alike e e' → SameReading alike n cur (.error e) (.error e')
  | read (value : α) (k : Nat) :
      SameReading alike n cur (.ok (value, (cur.drop k).moved n)) (.ok (value, cur.drop k))

section

variable {ε α β : Type} {alike : ε → ε → Prop} {n : Nat} {cur : Cursor}
  {x y : Except ε (α × Cursor)}

theorem SameReading.of_drop {k : Nat} (h : SameReading alike n (cur.drop k) x y) :
    SameReading alike n cur x y := by
  cases h with
  | failed he => exact .failed he
  | read value j =>
    rw [Cursor.drop_drop]
    exact .read value (k + j)

theorem SameReading.bind (h : SameReading alike n cur x y) {f g : α × Cursor → Except ε (β × Cursor)}
    (hf : ∀ (value : α) (k : Nat), SameReading alike n (cur.drop k)
      (f (value, (cur.drop k).moved n)) (g (value, cur.drop k))) :
    SameReading alike n cur (x >>= f) (y >>= g) := by
  cases h with
  | failed he => exact .failed he
  | read value k => exact (hf value k).of_drop

theorem sameReading_ite (p : Prop) [Decidable p] {x' y' : Except ε (α × Cursor)}
    (h : SameReading alike n cur x y) (h' : SameReading alike n cur x' y') :
    SameReading alike n cur (if p then x else x') (if p then y else y') := by
  split
  · exact h
  · exact h'

theorem sameReading_here (value : α) :
    SameReading alike n cur (.ok (value, cur.moved n)) (.ok (value, cur)) := .read value 0

theorem sameReading_drop (value : α) (k : Nat) :
    SameReading alike n cur (.ok (value, (cur.moved n).drop k)) (.ok (value, cur.drop k)) := by
  rw [Cursor.drop_moved]
  exact .read value k

/-- What does not depend on the place is only paired with the place after it. -/
theorem sameReading_pair (x : Except ε α) (k : Nat) :
    SameReading Eq n cur (x >>= fun value => pure (value, (cur.moved n).drop k))
      (x >>= fun value => pure (value, cur.drop k)) := by
  cases x with
  | error e => exact .failed rfl
  | ok value => exact sameReading_drop value k

end

/-- A caret after an opening is passed, wherever it is. -/
theorem exists_after_caret (n : Nat) (cur : Cursor) :
    ∃ k, (if cur.peek? == some '^' then (cur.moved n).drop 1 else cur.moved n) =
        (cur.drop k).moved n ∧
      (if cur.peek? == some '^' then cur.drop 1 else cur) = cur.drop k := by
  split
  · exact ⟨1, Cursor.drop_moved .., rfl⟩
  · exact ⟨0, rfl, rfl⟩

/-! Classes. -/

section Classes

variable (n : Nat) (cur : Cursor)

theorem sameReading_readProperty (negated : Bool) :
    SameReading Eq n cur (readProperty negated (cur.moved n)) (readProperty negated cur) := by
  unfold readProperty
  rw [Cursor.rest_moved]
  split
  · split
    · exact sameReading_pair _ _
    · exact .failed rfl
  · split
    · exact sameReading_pair _ _
    · exact .failed rfl
  · exact .failed rfl

theorem sameReading_readCodePoint :
    SameReading Eq n cur (readCodePoint (cur.moved n)) (readCodePoint cur) := by
  unfold readCodePoint
  rw [Cursor.rest_moved]
  split
  · split
    · exact sameReading_pair _ _
    · exact .failed rfl
  · split
    · exact sameReading_pair _ _
    · exact .failed rfl
  · exact .failed rfl

theorem sameReading_readEscape (strict : Bool) :
    SameReading Eq n cur (readEscape strict (cur.moved n)) (readEscape strict cur) := by
  unfold readEscape
  rw [Cursor.rest_moved, Cursor.drop_moved]
  split
  · exact .failed rfl
  · split
    · exact .read _ 1
    · exact .read _ 1
    · refine sameReading_ite _ (sameReading_readProperty n _ _).of_drop ?_
      refine sameReading_ite _ (sameReading_readCodePoint n _).of_drop ?_
      refine sameReading_ite _ (.failed rfl) ?_
      exact sameReading_ite _ (.failed rfl) (.read _ 1)

namespace CharClass

theorem sameReading_readBackslash (strict : Bool) :
    SameReading (Error.Beyond n) n cur (readBackslash strict (cur.moved n))
      (readBackslash strict cur) := by
  have hread := sameReading_readEscape n (cur.drop 1) strict
  unfold readBackslash
  rw [Cursor.drop_moved]
  generalize readEscape strict ((cur.drop 1).moved n) = x at hread ⊢
  generalize readEscape strict (cur.drop 1) = y at hread ⊢
  cases hread with
  | failed he => exact .failed (he ▸ PatternFault.errorAt_beyond ..)
  | read value k => exact (SameReading.read value k).of_drop

theorem sameReading_readPosix :
    SameReading (Error.Beyond n) n cur (readPosix (cur.moved n)) (readPosix cur) := by
  obtain ⟨k, hmoved, hnamed⟩ := exists_after_caret n (cur.drop 2)
  unfold readPosix
  simp only [Cursor.drop_moved, Cursor.peek?_moved] at hmoved ⊢
  rw [hmoved, hnamed, Cursor.rest_moved]
  split
  · exact .failed (PatternFault.errorAt_beyond ..)
  · split
    · rw [Cursor.drop_moved]
      exact ((SameReading.read _ _).of_drop).of_drop
    · exact .failed (PatternFault.errorAt_beyond ..)

theorem sameReading_readAtom (strict : Bool) (c : Char) :
    SameReading (Error.Beyond n) n cur (readAtom strict (cur.moved n) c)
      (readAtom strict cur c) := by
  unfold readAtom
  rw [Cursor.looksAt_moved]
  refine sameReading_ite _ (sameReading_readPosix n cur) ?_
  exact sameReading_ite _ (sameReading_readBackslash n cur strict) (sameReading_drop _ 1)

theorem sameReading_readRangeEnd (strict : Bool) (c : Char) :
    SameReading (Error.Beyond n) n cur (readRangeEnd strict (cur.moved n) c)
      (readRangeEnd strict cur c) := by
  unfold readRangeEnd
  dsimp only
  rw [Cursor.drop_moved, Cursor.looksAt_moved]
  refine sameReading_ite _ (.failed (PatternFault.errorAt_beyond ..)) ?_
  refine ((sameReading_readAtom n (cur.drop 1) strict c).bind fun value k => ?_).of_drop
  cases value with
  | char last => exact sameReading_here last
  | item part => exact .failed (PatternFault.errorAt_beyond ..)

theorem sameReading_readItem (strict : Bool) (c : Char) :
    SameReading (Error.Beyond n) n cur (readItem strict (cur.moved n) c)
      (readItem strict cur c) := by
  unfold readItem
  refine (sameReading_readAtom n cur strict c).bind fun atom k => ?_
  generalize cur.drop k = after
  have hstarts : startsRange (after.moved n) = startsRange after := rfl
  dsimp only
  rw [hstarts, Cursor.drop_moved]
  generalize after.drop 1 = last
  obtain ⟨offset, rest⟩ := last
  cases startsRange after with
  | false =>
    cases atom with
    | item part => exact sameReading_here part
    | char c => exact sameReading_here _
  | true =>
    cases rest with
    | nil =>
      cases atom with
      | item part => exact sameReading_here part
      | char c => exact sameReading_here _
    | cons lastStart rest =>
      cases atom with
      | item part => exact .failed (PatternFault.errorAt_beyond ..)
      | char first =>
        refine (sameReading_readRangeEnd n after strict lastStart).bind fun last j => ?_
        exact sameReading_ite _ (.failed (PatternFault.errorAt_beyond ..)) (sameReading_here _)

theorem sameReading_readItems (strict : Bool) (opened fuel : Nat) :
    SameReading (Error.Beyond n) n cur (readItems strict (opened + n) fuel (cur.moved n))
      (readItems strict opened fuel cur) := by
  induction fuel generalizing cur with
  | zero => exact .failed (PatternFault.errorAt_beyond ..)
  | succ fuel ih =>
    unfold readItems
    rw [Cursor.rest_moved]
    split
    · exact .failed (PatternFault.errorAt_beyond ..)
    · exact sameReading_drop [] 1
    · refine (sameReading_readItem n cur strict _).bind fun item k => ?_
      exact (ih (cur.drop k)).bind fun items j => sameReading_here _

/-- A bracket expression takes its opening bracket at least. -/
theorem sameReading_readBracket (strict : Bool) :
    SameReading (Error.Beyond n) n (cur.drop 1) (readBracket strict (cur.moved n))
      (readBracket strict cur) := by
  obtain ⟨k, hmoved, hbody⟩ := exists_after_caret n (cur.drop 1)
  unfold readBracket
  simp only [Cursor.rest_moved, Cursor.drop_moved, Cursor.peek?_moved] at hmoved ⊢
  rw [hmoved, hbody]
  split
  · refine ((sameReading_readItems n _ strict cur.offset _).bind fun items j => ?_).of_drop
    exact sameReading_ite _ (.failed (PatternFault.errorAt_beyond ..)) (sameReading_here _)
  · exact .failed (PatternFault.errorAt_beyond ..)

end CharClass

end Classes

/-! Tokens. -/

/-- True of the tokens that only the body of a pattern has, but for errors. -/
def TokenKind.InBody : TokenKind → Prop
  | .rawMark | .rawOpen _ | .rawClose _ | .rawModifiers _ | .eof | .error _ => False
  | _ => True

/-- Two kinds of tokens of the body of a pattern: the same one, or the same error, noticed `n` bytes
further on. -/
inductive TokenKind.Alike (n : Nat) : TokenKind → TokenKind → Prop
  | same {kind : TokenKind} (h : kind.InBody) : Alike n kind kind
  | errors {e e' : Error} (h : e.Beyond n e') : Alike n (.error e) (.error e')

theorem TokenKind.Alike.ne_rawMark {n : Nat} {kind kind' : TokenKind} (h : kind.Alike n kind') :
    kind' ≠ .rawMark := by
  rintro rfl
  cases h with
  | same h => exact h

/-- Tokens of like kinds, read from the same text, that leave off after as many characters. -/
structure SameToken (n : Nat) (cur : Cursor) (r r' : TokenKind × Cursor) : Prop where
  kind : r.1.Alike n r'.1
  after : ∃ k, r.2 = (cur.drop k).moved n ∧ r'.2 = cur.drop k

namespace TokenKind

variable {n : Nat} {cur : Cursor} {r r' : TokenKind × Cursor}

theorem sameToken_of_drop {k : Nat} (h : SameToken n (cur.drop k) r r') : SameToken n cur r r' := by
  obtain ⟨hkind, j, hafter⟩ := h
  rw [Cursor.drop_drop] at hafter
  exact ⟨hkind, k + j, hafter⟩

theorem sameToken_drop {kind : TokenKind} (hkind : kind.InBody) (k : Nat) :
    SameToken n cur (kind, (cur.moved n).drop k) (kind, cur.drop k) :=
  ⟨.same hkind, k, Cursor.drop_moved .., rfl⟩

theorem sameToken_here {kind : TokenKind} (hkind : kind.InBody) :
    SameToken n cur (kind, cur.moved n) (kind, cur) := ⟨.same hkind, 0, rfl, rfl⟩

theorem sameToken_error {e e' : Error} (h : e.Beyond n e') (k : Nat) :
    SameToken n cur (.error e, (cur.moved n).drop k) (.error e', cur.drop k) :=
  ⟨.errors h, k, Cursor.drop_moved .., rfl⟩

theorem sameToken_fault (fault : PatternFault) (start k : Nat) :
    SameToken n cur (.error (fault.errorAt (start + n)), (cur.moved n).drop k)
      (.error (fault.errorAt start), cur.drop k) :=
  sameToken_error (fault.errorAt_beyond n start) k

variable (n : Nat) (cur : Cursor) (start : Nat)

theorem sameToken_bail (fault : PatternFault) :
    SameToken n cur (bail fault (start + n) (cur.moved n)) (bail fault start cur) :=
  sameToken_fault fault start _

theorem sameToken_readName (fault : PatternFault) (mark : Char) {make : String → TokenKind}
    (hmake : ∀ name, (make name).InBody) :
    SameToken n cur (readName fault (start + n) mark make (cur.moved n))
      (readName fault start mark make cur) := by
  unfold readName readUntil?
  rw [Cursor.rest_moved]
  cases Text.splitAtChar? mark cur.rest with
  | none => exact sameToken_bail n cur start fault
  | some found => exact sameToken_drop (hmake _) _

theorem sameToken_readCondition :
    SameToken n cur (readCondition (start + n) (cur.moved n)) (readCondition start cur) := by
  unfold readCondition
  simp only [Cursor.looksAt_moved, Cursor.rest_moved]
  split
  · exact sameToken_drop (by trivial) _
  · split
    · exact sameToken_bail n cur start _
    · split
      · exact sameToken_drop (by trivial) _
      · exact sameToken_fault _ start _

theorem sameToken_readOptions (text : List Char) :
    ∀ (on off : List Char) (negating : Bool) (offset : Nat), SameToken n ⟨offset, text⟩
      (readOptions (start + n) on off negating (offset + n) text)
      (readOptions start on off negating offset text) := by
  induction text with
  | nil => exact fun _ _ _ _ => sameToken_fault _ start 0
  | cons c rest ih =>
    intro on off negating offset
    have hrest (on off : List Char) (negating : Bool) : SameToken n ⟨offset, c :: rest⟩
        (readOptions (start + n) on off negating (offset + c.utf8Size + n) rest)
        (readOptions start on off negating (offset + c.utf8Size) rest) :=
      sameToken_of_drop (k := 1) (ih on off negating (offset + c.utf8Size))
    unfold readOptions
    simp only [Nat.add_right_comm offset n]
    split
    · exact ⟨.same trivial, 1, rfl, rfl⟩
    · split
      · exact hrest ..
      · split
        · split
          · exact hrest ..
          · exact hrest ..
        · exact ⟨.errors (PatternFault.errorAt_beyond ..), 1, rfl, rfl⟩

theorem sameToken_readQuestion :
    SameToken n cur (readQuestion (start + n) (cur.moved n)) (readQuestion start cur) := by
  have hname (k : Nat) (fault : PatternFault) (mark : Char) {make : String → TokenKind}
      (hmake : ∀ name, (make name).InBody) := sameToken_of_drop
    (sameToken_readName n (cur.drop k) start fault mark hmake)
  unfold readQuestion
  simp only [Cursor.rest_moved, Cursor.drop_moved] at hname ⊢
  split
  · exact ⟨.same trivial, 1, rfl, rfl⟩
  · exact ⟨.same trivial, 1, rfl, rfl⟩
  · exact ⟨.same trivial, 1, rfl, rfl⟩
  · exact ⟨.same trivial, 1, rfl, rfl⟩
  · exact hname 1 _ _ fun _ => trivial
  · exact ⟨.same trivial, 2, rfl, rfl⟩
  · exact ⟨.same trivial, 2, rfl, rfl⟩
  · exact hname 1 _ _ fun _ => trivial
  · exact hname 1 _ _ fun _ => trivial
  · exact hname 2 _ _ fun _ => trivial
  · exact hname 2 _ _ fun _ => trivial
  · exact sameToken_of_drop (sameToken_readCondition n (cur.drop 1) start)
  · exact sameToken_bail n cur start _
  · exact sameToken_readOptions n start cur.rest [] [] false cur.offset

theorem sameToken_readGroup :
    SameToken n cur (readGroup (start + n) (cur.moved n)) (readGroup start cur) := by
  unfold readGroup
  rw [Cursor.rest_moved]
  split
  · dsimp only
    split
    · split
      · exact sameToken_drop (by trivial) _
      · exact sameToken_fault _ start _
    · exact sameToken_here trivial
  · rw [Cursor.drop_moved]
    exact sameToken_of_drop (sameToken_readQuestion n (cur.drop 1) start)
  · exact sameToken_here trivial

/-- Like the bracket expression in it, such a token takes its opening bracket at least. -/
theorem sameToken_readBracket (strict : Bool) (hcur : cur.rest ≠ []) :
    SameToken n (cur.drop 1) (readBracket strict (cur.moved n)) (readBracket strict cur) := by
  have hfaulty {e e' : Error} (h : e.Beyond n e') (k : Nat) : SameToken n (cur.drop 1)
      (.error e, (cur.moved n).drop (k + 1)) (.error e', cur.drop (k + 1)) := by
    rw [Nat.add_comm k, ← Cursor.drop_drop, ← Cursor.drop_drop, Cursor.drop_moved]
    exact sameToken_error h k
  obtain ⟨k, hk⟩ := Nat.exists_eq_succ_of_ne_zero (mt List.length_eq_zero_iff.mp hcur)
  have hscanned := CharClass.sameReading_readBracket n cur false
  unfold readBracket
  generalize CharClass.readBracket false (cur.moved n) = x at hscanned ⊢
  generalize CharClass.readBracket false cur = y at hscanned ⊢
  cases hscanned with
  | failed he =>
    simp only [bind, Except.bind, Cursor.rest_moved, hk]
    split
    · exact hfaulty he _
    · exact hfaulty he k
  | read cls k' =>
    simp only [bind, Except.bind, Cursor.rest_moved, Cursor.offset_moved]
    generalize cur.rest.take (cur.rest.length - ((cur.drop 1).drop k').rest.length) = spec
    cases strict with
    | false => exact ⟨.same trivial, k', rfl, rfl⟩
    | true =>
      have hmap (e : Error) (shift : Error → Error) :
          (Except.error e : Except Error CharClass).mapError shift = .error (shift e) := rfl
      cases CharClass.parseWith true spec with
      | error e =>
        have he := e.shift_beyond n cur.offset
        simp only [hmap, if_true, hk]
        split
        · exact hfaulty he _
        · exact hfaulty he k
      | ok _ => exact ⟨.same trivial, k', rfl, rfl⟩

theorem sameToken_readCount :
    SameToken n cur (readCount (start + n) (cur.moved n)) (readCount start cur) := by
  unfold readCount
  rw [Cursor.rest_moved]
  extract_lets low after high last after' high' last'
  split
  · exact sameToken_here trivial
  · have hafter : after = after'.moved n := Cursor.drop_moved ..
    have hhigh : high = high' := by simp only [high, high', hafter, Cursor.rest_moved]
    clear_value high high'
    subst hhigh
    have hlast : ∃ k, last = (cur.drop k).moved n ∧ last' = cur.drop k := by
      cases high with
      | none => exact ⟨_, hafter, rfl⟩
      | some digits =>
        refine ⟨low.length + (digits.length + 1), ?_, Cursor.drop_drop ..⟩
        rw [← Cursor.drop_drop, ← Cursor.drop_moved, ← Cursor.drop_moved]
    obtain ⟨k, hmoved, hnamed⟩ := hlast
    rw [hmoved, hnamed, Cursor.rest_moved]
    split
    · split
      · exact sameToken_of_drop (sameToken_drop (by trivial) 1)
      · exact sameToken_of_drop (sameToken_fault _ start 1)
    · exact sameToken_of_drop (sameToken_bail n (cur.drop k) start _)

theorem sameToken_readNamedBackref :
    SameToken n cur (readNamedBackref (start + n) (cur.moved n)) (readNamedBackref start cur) := by
  have hname (mark : Char) : SameToken n cur
      (readName .unclosedGroupName (start + n) mark .namedBackref ((cur.drop 1).moved n))
      (readName .unclosedGroupName start mark .namedBackref (cur.drop 1)) :=
    sameToken_of_drop (sameToken_readName n (cur.drop 1) start _ mark fun _ => trivial)
  unfold readNamedBackref
  rw [Cursor.rest_moved, Cursor.drop_moved]
  split
  · exact hname _
  · exact hname _
  · exact hname _
  · exact sameToken_fault _ start 0

theorem sameToken_readEscaped (strict : Bool) :
    SameToken n cur (readEscaped strict (start + n) (cur.moved n))
      (readEscaped strict start cur) := by
  have hescape := sameReading_readEscape n cur strict
  unfold readEscaped
  rw [Cursor.rest_moved]
  split
  · exact sameToken_fault _ start 0
  · split
    · exact sameToken_drop (by trivial) 1
    · exact sameToken_drop (by trivial) 1
    · split
      · exact sameToken_drop (by trivial) _
      · split
        · rw [Cursor.drop_moved]
          exact sameToken_of_drop (sameToken_readNamedBackref n (cur.drop 1) start)
        · generalize readEscape strict (cur.moved n) = x at hescape ⊢
          generalize readEscape strict cur = y at hescape ⊢
          cases hescape with
          | failed he =>
            subst he
            exact sameToken_fault _ start 1
          | read value k =>
            cases value with
            | char d => exact ⟨.same trivial, k, rfl, rfl⟩
            | item part => exact ⟨.same trivial, k, rfl, rfl⟩

/-- A token of the body is read in the same way wherever it stands, and takes a character at
least. -/
theorem sameToken_read (strict : Bool) {c : Char} {rest : List Char} (hcur : cur.rest = c :: rest) :
    SameToken n (cur.drop 1) (read strict (cur.moved n) c) (read strict cur c) := by
  unfold read
  simp only [Cursor.drop_moved, Cursor.offset_moved]
  split
  case h_9 => exact sameToken_readGroup n (cur.drop 1) cur.offset
  case h_10 => exact sameToken_readBracket n cur strict (by rw [hcur]; simp)
  case h_11 => exact sameToken_readCount n (cur.drop 1) cur.offset
  case h_12 => exact sameToken_readEscaped n (cur.drop 1) cur.offset strict
  all_goals exact sameToken_here trivial

end TokenKind

/-- White space and comments are skipped alike. -/
theorem skipBlanks_moved (n : Nat) (text : List Char) : ∀ (inComment : Bool) (offset : Nat),
    skipBlanks inComment (offset + n) text = (skipBlanks inComment offset text).moved n := by
  induction text with
  | nil => exact fun _ _ => rfl
  | cons c rest ih =>
    intro inComment offset
    unfold skipBlanks
    simp only [Nat.add_right_comm offset n, ih]
    split
    · rfl
    · split
      · rfl
      · split
        · rfl
        · rfl

end RegexEngine
