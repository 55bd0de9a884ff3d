import RegexEngine.Proofs.Text
import RegexEngine.Proofs.Token.Reading
import RegexEngine.RawLiteral

/-!
Tokens lie side by side. Each of them covers some characters, the end of the pattern comes last and
covers none, and between two of them nothing stands but what the extended form skips: white space
and comments.

What a text is taken apart into as a raw literal spells the text, so the parts of a raw literal
stand where their lengths say.
-/

namespace RegexEngine.RawLiteral

/-- A text that is divided at a quote has the quote between the parts. -/
theorem eq_of_splitAtQuote? (quote : Char) (depth : Int) (inClass : Bool) (text : List Char) :
    ∀ body tail, splitAtQuote? quote depth inClass text = some (body, tail) →
      text = body ++ quote :: tail ∧ tail.all isModifier = true := by
  induction depth, inClass, text using splitAtQuote?.induct quote with
  | case1 =>
    intro body tail h
    cases h
  | case2 depth inClass c rest ih =>
    intro body tail h
    rw [splitAtQuote?, Option.map_eq_some_iff] at h
    obtain ⟨⟨inner, _⟩, hsplit, hparts⟩ := h
    cases hparts
    obtain ⟨hrest, htail⟩ := ih _ _ hsplit
    exact ⟨congrArg (fun rest => '\\' :: c :: rest) hrest, htail⟩
  | case3 depth inClass c rest hplain hends =>
    intro body tail h
    rw [splitAtQuote?.eq_3 _ _ _ _ _ hplain, if_pos hends] at h
    cases h
    simp only [Bool.and_eq_true, beq_iff_eq] at hends
    exact ⟨congrArg (· :: rest) hends.1.1.1, hends.2⟩
  | case4 depth inClass c rest hplain hends _ _ ih =>
    intro body tail h
    rw [splitAtQuote?.eq_3 _ _ _ _ _ hplain, if_neg hends, Option.map_eq_some_iff] at h
    obtain ⟨⟨inner, _⟩, hsplit, hparts⟩ := h
    cases hparts
    obtain ⟨hrest, htail⟩ := ih _ _ hsplit
    exact ⟨congrArg (c :: ·) hrest, htail⟩

/-- A text that opens as a raw literal begins with its mark and a quote. -/
theorem eq_of_opening? {source rest : List Char} {quote : Char}
    (h : opening? source = some (quote, rest)) :
    source = 'R' :: quote :: rest ∧ quote.utf8Size = 1 := by
  unfold opening? at h
  split at h <;> cases h
  · exact ⟨rfl, by decide⟩
  · exact ⟨rfl, by decide⟩

/-- A raw literal spells the text that it was found in. -/
theorem spells_of_find {source : List Char} {raw : RawLiteral} (h : find source = .ok (some raw)) :
    source = 'R' :: raw.quote :: (raw.body ++ raw.quote :: raw.modifiers) ∧
      raw.quote.utf8Size = 1 ∧ raw.modifiers.all isModifier = true := by
  unfold find at h
  cases hopening : opening? source with
  | none =>
    rw [hopening] at h
    cases h
  | some opening =>
    obtain ⟨quote, rest⟩ := opening
    obtain ⟨hsource, hquote⟩ := eq_of_opening? hopening
    rw [hopening] at h
    dsimp only at h
    split at h
    · rename_i body modifiers hsplit
      obtain ⟨hrest, hmodifiers⟩ := eq_of_splitAtQuote? _ _ _ _ _ _ hsplit
      cases h
      exact ⟨by rw [hsource, hrest], hquote, hmodifiers⟩
    · cases h

theorem find_of_isRaw_false {source : List Char} (h : isRaw source = false) :
    find source = .ok none := by
  unfold isRaw at h
  cases hopening : opening? source with
  | none => rw [find, hopening]
  | some _ =>
    rw [hopening] at h
    cases h

theorem isRaw_of_find_ne {source : List Char} (h : find source ≠ .ok none) :
    isRaw source = true := by
  cases hraw : isRaw source with
  | false => exact absurd (find_of_isRaw_false hraw) h
  | true => rfl

/-- A text in which no raw literal is found does not open as one. -/
theorem isRaw_of_find_none {source : List Char} (h : find source = .ok none) :
    isRaw source = false := by
  unfold find at h
  unfold isRaw
  cases hopening : opening? source with
  | none => rfl
  | some opening =>
    rw [hopening] at h
    dsimp only at h
    split at h <;> cases h

/-- The body of a raw literal is followed by the closing quote and the modifier letters. -/
theorem byteLength_source {source : List Char} {raw : RawLiteral}
    (h : find source = .ok (some raw)) :
    Text.byteLength source = raw.bodyStop + 1 + Text.byteLength raw.modifiers := by
  obtain ⟨hsource, hquote, _⟩ := spells_of_find h
  have hmark : 'R'.utf8Size = 1 := by decide
  have hlength := congrArg Text.byteLength hsource
  simp only [Text.byteLength, Text.byteLength_append, hquote, hmark] at hlength
  rw [hlength, bodyStop, bodyStart]
  omega

end RegexEngine.RawLiteral

namespace RegexEngine

open Text (Cursor)

/-! What may stand between tokens. -/

/-- White space and comments. A comment runs to the end of its line. One that has no such end is
allowed only as the last one, if `last` holds. -/
inductive Blanks (last : Prop) : List Char → Prop
  | nil : Blanks last []
  | blank {c : Char} {rest : List Char} (hc : Text.isBlank c = true) (h : Blanks last rest) :
      Blanks last (c :: rest)
  | comment {line rest : List Char} (hline : '\n' ∉ line) (h : Blanks last rest) :
      Blanks last ('#' :: (line ++ '\n' :: rest))
  | lastComment {line : List Char} (hlast : last) (hline : '\n' ∉ line) : Blanks last ('#' :: line)

theorem Blanks.mono {last last' : Prop} {gap : List Char} (h : Blanks last gap)
    (hlast : last → last') : Blanks last' gap := by
  induction h with
  | nil => exact .nil
  | blank hc _ ih => exact .blank hc ih
  | comment hline _ ih => exact .comment hline ih
  | lastComment h hline => exact .lastComment (hlast h) hline

/-- What may stand before a token, from an offset on: nothing, or in the extended form white space
and comments, the last of which may run to the end of the body. -/
def MayGap (extended : Bool) (bodyStop start : Nat) (gap : List Char) : Prop :=
  gap = [] ∨ extended = true ∧ Blanks (start + Text.byteLength gap = bodyStop) gap

/-- Tokens that lie side by side over a text which begins at an offset: each one but the last covers
some characters of it, and the last one is the end of the text. What is between them may be a
gap. -/
inductive Tiles (extended : Bool) (bodyStop : Nat) : Nat → List Char → List Token → Prop
  | eof {start : Nat} {gap : List Char} (hgap : MayGap extended bodyStop start gap) :
      Tiles extended bodyStop start gap
        [⟨.eof, start + Text.byteLength gap, start + Text.byteLength gap⟩]
  | token {start : Nat} {gap text rest : List Char} {kind : TokenKind} {tokens : List Token}
      (hgap : MayGap extended bodyStop start gap) (htext : text ≠ []) (hkind : kind ≠ .eof)
      (h : Tiles extended bodyStop (start + Text.byteLength gap + Text.byteLength text) rest
        tokens) :
      Tiles extended bodyStop start (gap ++ (text ++ rest))
        (⟨kind, start + Text.byteLength gap,
          start + Text.byteLength gap + Text.byteLength text⟩ :: tokens)

namespace Tiles

variable {extended : Bool} {bodyStop start : Nat} {text : List Char} {tokens : List Token}

theorem eof_here : Tiles extended bodyStop start [] [⟨.eof, start, start⟩] :=
  @eof extended bodyStop start [] (.inl rfl)

theorem token_here {kind : TokenKind} {rest : List Char} {stop : Nat} (htext : text ≠ [])
    (hkind : kind ≠ .eof) (hstop : start + Text.byteLength text = stop)
    (h : Tiles extended bodyStop stop rest tokens) :
    Tiles extended bodyStop start (text ++ rest) (⟨kind, start, stop⟩ :: tokens) := by
  subst hstop
  exact @token extended bodyStop start [] text rest kind tokens (.inl rfl) htext hkind h

/-- Only the last token is the end of the text, and it stands there. -/
theorem exists_eof (h : Tiles extended bodyStop start text tokens) :
    ∃ others : List Token,
      tokens = others ++ [⟨.eof, start + Text.byteLength text, start + Text.byteLength text⟩] ∧
        ∀ token ∈ others, token.kind ≠ .eof := by
  induction h with
  | eof _ => exact ⟨[], rfl, List.forall_mem_nil _⟩
  | @token start gap text rest kind _ _ _ hkind _ ih =>
    obtain ⟨others, rfl, hothers⟩ := ih
    refine ⟨⟨kind, start + Text.byteLength gap,
      start + Text.byteLength gap + Text.byteLength text⟩ :: others, ?_,
      List.forall_mem_cons.mpr ⟨hkind, hothers⟩⟩
    rw [Text.byteLength_append, Text.byteLength_append, ← Nat.add_assoc, ← Nat.add_assoc]
    rfl

/-- Tokens are in order and do not overlap. -/
theorem pairwise (h : Tiles extended bodyStop start text tokens) :
    (∀ token ∈ tokens, start ≤ token.start ∧ token.start ≤ token.stop) ∧
      tokens.Pairwise fun token later => token.stop ≤ later.start := by
  induction h with
  | eof _ => exact ⟨by simp, List.pairwise_singleton ..⟩
  | token _ _ _ _ ih =>
    obtain ⟨hstarts, hpairwise⟩ := ih
    refine ⟨List.forall_mem_cons.mpr ⟨by simp, fun token htoken => ?_⟩,
      List.pairwise_cons.mpr ⟨fun token htoken => (hstarts token htoken).1, hpairwise⟩⟩
    obtain ⟨hstart, hstop⟩ := hstarts token htoken
    exact ⟨by omega, hstop⟩

end Tiles

/-! What is skipped. -/

theorem Text.Cursor.offset_drop (cur : Cursor) (k : Nat) :
    (cur.drop k).offset = cur.offset + Text.byteLength (cur.rest.take k) := by
  induction k generalizing cur with
  | zero => rfl
  | succ k ih =>
    obtain ⟨offset, rest⟩ := cur
    cases rest with
    | nil => rfl
    | cons c rest =>
      rw [Cursor.drop, ih, List.take_succ_cons, Text.byteLength, Nat.add_assoc]

theorem Text.Cursor.endOffset_drop (cur : Cursor) (k : Nat) :
    (cur.drop k).endOffset = cur.endOffset := by
  have hlength := byteLength_append (cur.rest.take k) (cur.rest.drop k)
  rw [List.take_append_drop] at hlength
  rw [endOffset, endOffset, offset_drop, rest_drop, hlength, Nat.add_assoc]

theorem not_isBlank_sharp : Text.isBlank '#' = false := by decide +kernel

/-- A comment that is longer by a character is still one. -/
theorem Blanks.comment_cons {last : Prop} {c : Char} {gap : List Char} (hc : c ≠ '\n')
    (h : Blanks last ('#' :: gap)) : Blanks last ('#' :: c :: gap) := by
  have hne : '\n' ≠ c := hc.symm
  cases h with
  | blank hblank _ => exact absurd (not_isBlank_sharp.symm.trans hblank) Bool.false_ne_true
  | @comment line rest hline h =>
    change Blanks last ('#' :: ((c :: line) ++ '\n' :: rest))
    exact .comment (by simp [hne, hline]) h
  | lastComment hlast hline => exact .lastComment hlast (by simp [hne, hline])

/-- What is skipped before a place is white space and comments. Within a comment, what is skipped
completes it. -/
theorem exists_skipBlanks (text : List Char) : ∀ (inComment : Bool) (offset : Nat),
    ∃ gap, text = gap ++ (skipBlanks inComment offset text).rest ∧
      (skipBlanks inComment offset text).offset = offset + Text.byteLength gap ∧
        Blanks ((skipBlanks inComment offset text).rest = [])
          (if inComment then '#' :: gap else gap) := by
  induction text with
  | nil =>
    intro inComment offset
    refine ⟨[], rfl, rfl, ?_⟩
    cases inComment with
    | false => exact .nil
    | true => exact .lastComment rfl List.not_mem_nil
  | cons c rest ih =>
    intro inComment offset
    have hfound (inComment' : Bool) (hskip : skipBlanks inComment offset (c :: rest) =
        skipBlanks inComment' (offset + c.utf8Size) rest)
        (hblanks : ∀ (last : Prop) gap, Blanks last (if inComment' then '#' :: gap else gap) →
          Blanks last (if inComment then '#' :: c :: gap else c :: gap)) :
        ∃ gap, c :: rest = gap ++ (skipBlanks inComment offset (c :: rest)).rest ∧
          (skipBlanks inComment offset (c :: rest)).offset = offset + Text.byteLength gap ∧
            Blanks ((skipBlanks inComment offset (c :: rest)).rest = [])
              (if inComment then '#' :: gap else gap) := by
      obtain ⟨gap, hrest, hoffset, hgap⟩ := ih inComment' (offset + c.utf8Size)
      rw [hskip]
      refine ⟨c :: gap, congrArg (c :: ·) hrest, ?_, hblanks _ _ hgap⟩
      rw [hoffset, Text.byteLength, Nat.add_assoc]
    cases inComment with
    | true =>
      refine hfound (c != '\n') rfl fun last gap hgap => ?_
      by_cases hc : c = '\n'
      · subst hc
        change Blanks last ('#' :: ([] ++ '\n' :: gap))
        exact .comment List.not_mem_nil hgap
      · have hmore : (c != '\n') = true := bne_iff_ne.mpr hc
        rw [hmore] at hgap
        exact .comment_cons hc hgap
    | false =>
      by_cases hblank : Text.isBlank c = true
      · refine hfound false ?_ fun last gap hgap => .blank hblank hgap
        simp [skipBlanks, hblank]
      · by_cases hc : c = '#'
        · subst hc
          refine hfound true ?_ fun last gap hgap => hgap
          simp [skipBlanks, hblank]
        · refine ⟨[], ?_, ?_, .nil⟩ <;> simp [skipBlanks, hblank, hc, Text.byteLength]

/-! Tokens of the body. -/

/-- True of the tokens that stand for characters of the body. Errors say where they were noticed. -/
def TokenKind.OfBody (kind : TokenKind) : Prop :=
  kind.InBody ∨ ∃ e : Error, kind = .error e ∧ e.position.isSome

theorem TokenKind.OfBody.ne_of_not {kind other : TokenKind} (h : kind.OfBody)
    (hother : ¬other.OfBody) : kind ≠ other := fun heq => hother (heq ▸ h)

theorem TokenKind.not_ofBody_eof : ¬TokenKind.eof.OfBody := by
  rintro (h | ⟨_, h, _⟩)
  · exact h
  · cases h

theorem TokenKind.not_ofBody_rawMark : ¬TokenKind.rawMark.OfBody := by
  rintro (h | ⟨_, h, _⟩)
  · exact h
  · cases h

namespace Lexer

/-- The place after what is skipped before the next token of the body. -/
def skipped (lexer : Lexer) : Cursor :=
  if lexer.extended then skipBlanks false lexer.cur.offset lexer.cur.rest else lexer.cur

variable {l : Lexer}

theorem bodyToken_eq (l : Lexer) :
    l.bodyToken = match l.skipped.rest with
      | [] => closeToken { l with cur := l.skipped }
      | c :: _ =>
        (⟨(TokenKind.read l.strict l.skipped c).1, l.skipped.offset,
          (TokenKind.read l.strict l.skipped c).2.offset⟩,
          { l with cur := (TokenKind.read l.strict l.skipped c).2 }) := rfl

/-- What is skipped before a token of the body is a gap. -/
theorem exists_skipped (l : Lexer) : ∃ gap, l.cur.rest = gap ++ l.skipped.rest ∧
    l.skipped.offset = l.cur.offset + Text.byteLength gap ∧
      (gap = [] ∨ l.extended = true ∧ Blanks (l.skipped.rest = []) gap) := by
  unfold skipped
  split
  · rename_i hextended
    obtain ⟨gap, hrest, hoffset, hgap⟩ := exists_skipBlanks l.cur.rest false l.cur.offset
    exact ⟨gap, hrest, hoffset, .inr ⟨hextended, hgap⟩⟩
  · exact ⟨[], rfl, rfl, .inl rfl⟩

/-- Before the end of the body, a token takes at least the next character that is not skipped. -/
theorem exists_bodyToken {c : Char} {rest : List Char} (hrest : l.skipped.rest = c :: rest) :
    ∃ kind k, kind.OfBody ∧ l.bodyToken =
      (⟨kind, l.skipped.offset, (l.skipped.drop (k + 1)).offset⟩,
        { l with cur := l.skipped.drop (k + 1) }) := by
  have htoken := TokenKind.sameToken_read 0 l.skipped l.strict hrest
  generalize TokenKind.read l.strict (l.skipped.moved 0) c = r at htoken
  generalize hread : TokenKind.read l.strict l.skipped c = r' at htoken
  obtain ⟨kind, after⟩ := r
  obtain ⟨kind', after'⟩ := r'
  obtain ⟨hkind, k, _, hafter⟩ := htoken
  dsimp only at hkind hafter
  rw [Cursor.drop_drop, Nat.add_comm] at hafter
  refine ⟨kind', k, ?_, by rw [bodyToken_eq, hrest]; simp only [hread, hafter]⟩
  cases hkind with
  | same h => exact .inl h
  | errors he =>
    obtain ⟨place, hplace, _⟩ := he.position
    exact .inr ⟨_, rfl, by rw [hplace]; rfl⟩

/-- The offset at which the body of a pattern stops: that of the closing quote, or the end. -/
def bodyStop (lexer : Lexer) : Nat :=
  match lexer.raw with
  | some raw => raw.bodyStop
  | none => lexer.length

/-- What follows the body in the text of a pattern. -/
def afterBody (lexer : Lexer) : List Char :=
  match lexer.raw with
  | some raw => raw.quote :: raw.modifiers
  | none => []

/-- A lexer whose body stands in the text of the pattern as the offsets say. -/
structure WellPlaced (lexer : Lexer) : Prop where
  quote : ∀ raw ∈ lexer.raw, raw.quote.utf8Size = 1
  length : lexer.length = lexer.bodyStop + Text.byteLength lexer.afterBody

theorem run_of_eof (fuel : Nat) (h : l.next.1.kind = .eof) : run (fuel + 1) l = [l.next.1] := by
  rw [run]
  exact if_pos h

theorem run_of_ne_eof (fuel : Nat) (h : l.next.1.kind ≠ .eof) :
    run (fuel + 1) l = l.next.1 :: run fuel l.next.2 := by
  rw [run]
  exact if_neg h

theorem tiles_run_done (fuel : Nat) {extended : Bool} {stop : Nat}
    (hphase : l.phase = .rawModifiers ∨ l.phase = .done) :
    Tiles extended stop l.length [] (run (fuel + 1) l) := by
  have hnext : l.next = (l.eof, { l with phase := .done }) := by
    rcases hphase with hphase | hphase <;> rw [next, hphase]
  rw [run_of_eof fuel (by rw [hnext]; rfl), hnext]
  exact .eof_here

/-- After the closing quote come letters, or nothing. -/
theorem tiles_run_rawClose (fuel : Nat) {extended : Bool} {stop : Nat} (h : l.WellPlaced)
    {raw : RawLiteral} (hraw : l.raw = some raw) (hphase : l.phase = .rawClose) :
    Tiles extended stop (raw.bodyStop + 1) raw.modifiers (run (fuel + 2) l) := by
  have hlength : l.length = raw.bodyStop + 1 + Text.byteLength raw.modifiers := by
    rw [h.length, bodyStop, afterBody, hraw, ← h.quote raw hraw, Nat.add_assoc]
    rfl
  by_cases hnone : raw.modifiers = []
  · have hnext : l.next = (l.eof, { l with phase := .done }) := by
      simp only [next, hphase, modifiersToken, hraw, hnone, List.isEmpty_nil, if_true]
    rw [hnone, Text.byteLength, Nat.add_zero] at hlength
    rw [run_of_eof _ (by rw [hnext]; rfl), hnext, eof, hlength, hnone]
    exact .eof_here
  · have hnext : l.next = (⟨.rawModifiers (String.ofList raw.modifiers), raw.bodyStop + 1, l.length⟩,
        { l with phase := .rawModifiers }) := by
      simp only [next, hphase, modifiersToken, hraw, List.isEmpty_iff, hnone, if_false]
    have hrest : Tiles extended stop l.length [] (run (fuel + 1) { l with phase := .rawModifiers }) :=
      tiles_run_done (l := { l with phase := .rawModifiers }) fuel (.inl rfl)
    have hkind : TokenKind.rawModifiers (String.ofList raw.modifiers) ≠ .eof := by simp
    rw [run_of_ne_eof _ (by rw [hnext]; exact hkind), hnext]
    have htoken := Tiles.token_here hnone hkind hlength.symm hrest
    rwa [List.append_nil] at htoken

/-- The end of the body, with what is skipped before it, and what follows. -/
theorem tiles_run_close (fuel : Nat) (h : l.WellPlaced) {cur : Cursor} {start : Nat}
    {gap : List Char} (hnext : l.next = closeToken { l with cur := cur })
    (hstop : start + Text.byteLength gap = l.bodyStop)
    (hgap : MayGap l.extended l.bodyStop start gap) :
    Tiles l.extended l.bodyStop start (gap ++ l.afterBody) (run (fuel + 3) l) := by
  cases hraw : l.raw with
  | none =>
    have heof : l.next = (l.eof, { l with cur := cur, phase := .done }) := by
      simp only [hnext, closeToken, hraw]
      rfl
    have hlength : l.length = start + Text.byteLength gap := by rw [hstop, bodyStop, hraw]
    rw [run_of_eof _ (by rw [heof]; rfl), heof, eof, hlength, afterBody, hraw, List.append_nil]
    exact .eof hgap
  | some raw =>
    have hclose : l.next = (⟨.rawClose raw.quote, raw.bodyStop, raw.bodyStop + 1⟩,
        { l with cur := cur, phase := .rawClose }) := by
      simp only [hnext, closeToken, hraw]
    have hbody : start + Text.byteLength gap = raw.bodyStop := by rw [hstop, bodyStop, hraw]
    have hquote : Text.byteLength [raw.quote] = 1 := h.quote raw hraw
    have hrest : Tiles l.extended l.bodyStop (raw.bodyStop + 1) raw.modifiers
        (run (fuel + 2) { l with cur := cur, phase := .rawClose }) :=
      tiles_run_rawClose (l := { l with cur := cur, phase := .rawClose }) fuel ⟨h.quote, h.length⟩
        hraw rfl
    have hkind : TokenKind.rawClose raw.quote ≠ .eof := by simp
    have hafter : l.afterBody = [raw.quote] ++ raw.modifiers := by
      rw [afterBody, hraw]
      rfl
    rw [run_of_ne_eof _ (by rw [hclose]; exact hkind), hclose, hafter]
    rw [← hbody, ← hquote] at hrest ⊢
    exact .token hgap (List.cons_ne_nil _ _) hkind hrest

/-- The tokens of the rest of a body, and those that follow it. -/
theorem tiles_run_body (fuel : Nat) : ∀ {l : Lexer}, l.WellPlaced → l.phase = .body →
    l.cur.endOffset = l.bodyStop → l.cur.rest.length + 3 ≤ fuel →
      Tiles l.extended l.bodyStop l.cur.offset (l.cur.rest ++ l.afterBody) (run fuel l) := by
  induction fuel with
  | zero => exact fun _ _ _ hfuel => absurd hfuel (by omega)
  | succ fuel ih =>
    intro l h hphase hend hfuel
    obtain ⟨gap, hrest, hoffset, hgap⟩ := l.exists_skipped
    have hnext : l.next = l.bodyToken := by rw [next, hphase]
    have hskipped : l.skipped.endOffset = l.bodyStop := by
      rw [← hend, Cursor.endOffset, Cursor.endOffset, hrest, hoffset, Text.byteLength_append,
        Nat.add_assoc]
    have hmay (hlast : l.skipped.rest = [] → l.cur.offset + Text.byteLength gap = l.bodyStop) :
        MayGap l.extended l.bodyStop l.cur.offset gap :=
      hgap.imp_right fun h => ⟨h.1, h.2.mono hlast⟩
    cases hcur : l.skipped.rest with
    | nil =>
      have hstop : l.cur.offset + Text.byteLength gap = l.bodyStop := by
        rw [← hoffset, ← hskipped, Cursor.endOffset, hcur]
        rfl
      rw [hcur, List.append_nil] at hrest
      rw [bodyToken_eq, hcur] at hnext
      rw [hrest]
      obtain ⟨fuel, rfl⟩ : ∃ few, fuel = few + 2 := ⟨fuel - 2, by omega⟩
      exact tiles_run_close fuel h hnext hstop (hmay fun _ => hstop)
    | cons c rest =>
      obtain ⟨kind, k, hkind, htoken⟩ := exists_bodyToken hcur
      have hne : kind ≠ .eof := hkind.ne_of_not TokenKind.not_ofBody_eof
      have hlast (hnil : l.skipped.rest = []) :
          l.cur.offset + Text.byteLength gap = l.bodyStop :=
        absurd (hcur.symm.trans hnil) (List.cons_ne_nil _ _)
      have hfew : (l.skipped.drop (k + 1)).rest.length + 3 ≤ fuel := by
        have hlength := congrArg List.length hrest
        rw [List.length_append, hcur, List.length_cons] at hlength
        rw [Cursor.length_rest_drop, hcur, List.length_cons]
        omega
      have hafter := ih (l := { l with cur := l.skipped.drop (k + 1) }) ⟨h.quote, h.length⟩ hphase
        ((Cursor.endOffset_drop _ _).trans hskipped) hfew
      have hsplit : l.cur.rest ++ l.afterBody = gap ++ (l.skipped.rest.take (k + 1) ++
          ((l.skipped.drop (k + 1)).rest ++ l.afterBody)) := by
        rw [Cursor.rest_drop, ← List.append_assoc (List.take _ _), List.take_append_drop, hrest,
          List.append_assoc]
      have hstop : (l.skipped.drop (k + 1)).offset =
          l.cur.offset + Text.byteLength gap + Text.byteLength (l.skipped.rest.take (k + 1)) := by
        rw [Cursor.offset_drop, hoffset]
      rw [run_of_ne_eof _ (by rw [hnext, htoken]; exact hne), hnext, htoken, hsplit]
      dsimp only at hafter ⊢
      rw [hstop] at hafter ⊢
      rw [hoffset]
      exact .token (hmay hlast) (by rw [hcur]; simp) hne hafter

/-- True when the extended form is on where the body of a pattern starts: a flag asks for it, or a
modifier of a raw literal. -/
def startsExtended (source : List Char) (flags : Flags) : Bool :=
  flags.contains .extended || match RawLiteral.find source with
    | .ok (some raw) => raw.modifiers.contains 'x'
    | _ => false

/-- The offset at which the body of a pattern stops, by its text. -/
def bodyStopOf (source : List Char) : Nat :=
  match RawLiteral.find source with
  | .ok (some raw) => raw.bodyStop
  | _ => Text.byteLength source

/-- A text that is no raw literal is all body. -/
theorem tiles_of_find_none {source : List Char} (hfind : RawLiteral.find source = .ok none)
    (flags : Flags) :
    Tiles (flags.contains .extended) (Text.byteLength source) 0 source
      (Lexer.new source flags).tokenize := by
  have hphase : (Lexer.new source flags).phase = .body := by
    rw [Lexer.new, RawLiteral.isRaw_of_find_none hfind]
    rfl
  have hraw : ∀ raw ∈ (Lexer.new source flags).raw, raw.quote.utf8Size = 1 :=
    fun raw h => absurd h (Option.not_mem_none raw)
  have hend : (Lexer.new source flags).cur.endOffset = (Lexer.new source flags).bodyStop :=
    Nat.zero_add _
  have hbody := tiles_run_body (source.length + 6) ⟨hraw, rfl⟩ hphase hend
    (Nat.add_le_add_left (by decide) _)
  rwa [afterBody, Lexer.new, List.append_nil] at hbody

theorem next_new (source : List Char) (flags : Flags) (h : RawLiteral.find source ≠ .ok none) :
    (Lexer.new source flags).next = (Lexer.new source flags).markToken := by
  rw [next, Lexer.new, RawLiteral.isRaw_of_find_ne h]
  rfl

/-- A lexer at the start of the body of a raw literal. -/
def inside (source : List Char) (flags : Flags) (raw : RawLiteral) : Lexer :=
  { Lexer.new source flags with
    cur := ⟨RawLiteral.bodyStart, raw.body⟩
    phase := .body
    raw := some raw
    extended := flags.contains .extended || raw.modifiers.contains 'x' }

/-- Before the body of a raw literal, there are its mark and an opening quote. -/
theorem exists_opened {source : List Char} {raw : RawLiteral}
    (hfind : RawLiteral.find source = .ok (some raw)) (flags : Flags) :
    ∃ opened, (Lexer.new source flags).next = (⟨.rawMark, 0, 1⟩, opened) ∧
      opened.next = (⟨.rawOpen raw.quote, 1, 2⟩, inside source flags raw) := by
  refine ⟨{ Lexer.new source flags with
    phase := .rawOpen
    raw := some raw
    extended := flags.contains .extended || raw.modifiers.contains 'x' }, ?_, rfl⟩
  rw [next_new source flags (by rw [hfind]; simp)]
  simp only [markToken, Lexer.new, hfind]
  rfl

/-- A raw literal without an end is one error. -/
theorem tiles_of_find_error {source : List Char} {e : Error}
    (hfind : RawLiteral.find source = .error e) (flags : Flags) {extended : Bool} {stop : Nat} :
    Tiles extended stop 0 source (Lexer.new source flags).tokenize := by
  have hnext := next_new source flags (by rw [hfind]; simp)
  have hmark : (Lexer.new source flags).markToken =
      (⟨.error e, 0, Text.byteLength source⟩, { Lexer.new source flags with phase := .done }) := by
    simp only [markToken, Lexer.new, hfind]
    rfl
  have hkind : TokenKind.error e ≠ .eof := by simp
  have hrest : Tiles extended stop (Text.byteLength source) []
      (run (source.length + 5) { Lexer.new source flags with phase := .done }) :=
    tiles_run_done (l := { Lexer.new source flags with phase := .done }) _ (.inr rfl)
  have hne : source ≠ [] := by
    rintro rfl
    cases hfind
  have htokenize : (Lexer.new source flags).tokenize =
      run (source.length + 6) (Lexer.new source flags) := rfl
  have htoken := Tiles.token_here hne hkind (Nat.zero_add _) hrest
  rw [htokenize, run_of_ne_eof _ (by rw [hnext, hmark]; exact hkind), hnext, hmark]
  rwa [List.append_nil] at htoken

/-- A raw literal is its mark, an opening quote, its body, and what follows the body. -/
theorem tiles_of_find {source : List Char} {raw : RawLiteral}
    (hfind : RawLiteral.find source = .ok (some raw)) (flags : Flags) :
    Tiles (flags.contains .extended || raw.modifiers.contains 'x') raw.bodyStop 0 source
      (Lexer.new source flags).tokenize := by
  obtain ⟨hsource, hquote, _⟩ := RawLiteral.spells_of_find hfind
  obtain ⟨opened, hmark, hopen⟩ := exists_opened hfind flags
  have hplaced : (inside source flags raw).WellPlaced := by
    refine ⟨fun other hother => ?_, ?_⟩
    · cases hother
      exact hquote
    · have hlength := RawLiteral.byteLength_source hfind
      rw [← hquote, Nat.add_assoc] at hlength
      exact hlength
  have hshort : raw.body.length + 3 ≤ source.length + 4 := by
    have hlength := congrArg List.length hsource
    simp only [List.length_cons, List.length_append] at hlength
    omega
  have hbody : Tiles (flags.contains .extended || raw.modifiers.contains 'x') raw.bodyStop 2
      (raw.body ++ raw.quote :: raw.modifiers)
      (run (source.length + 4) (inside source flags raw)) :=
    tiles_run_body _ hplaced rfl rfl hshort
  have hopenKind : TokenKind.rawOpen raw.quote ≠ .eof := by simp
  have hquoted := Tiles.token_here (List.cons_ne_nil raw.quote []) hopenKind
    (congrArg (1 + ·) hquote : 1 + Text.byteLength [raw.quote] = 2) hbody
  have hmarked := Tiles.token_here (List.cons_ne_nil 'R' []) (by simp : TokenKind.rawMark ≠ .eof)
    (by decide : 0 + Text.byteLength ['R'] = 1) hquoted
  have htext : ['R'] ++ ([raw.quote] ++ (raw.body ++ raw.quote :: raw.modifiers)) = source :=
    hsource.symm
  have htokenize : (Lexer.new source flags).tokenize =
      run (source.length + 6) (Lexer.new source flags) := rfl
  rw [htokenize, run_of_ne_eof _ (by rw [hmark]; simp), hmark,
    run_of_ne_eof _ (by rw [hopen]; exact hopenKind), hopen]
  rwa [htext] at hmarked

/-- Whatever a text consists of, it is split into tokens, and nothing of it is lost: the tokens lie
side by side over all of it, with no gaps but those that the extended form allows. -/
theorem tokenize_tiles (source : List Char) (flags : Flags) :
    Tiles (startsExtended source flags) (bodyStopOf source) 0 source
      (Lexer.new source flags).tokenize := by
  unfold startsExtended bodyStopOf
  cases hfind : RawLiteral.find source with
  | error e => exact tiles_of_find_error hfind flags
  | ok found =>
    cases found with
    | none =>
      rw [Bool.or_false]
      exact tiles_of_find_none hfind flags
    | some raw => exact tiles_of_find hfind flags

end Lexer

end RegexEngine
