import RegexEngine.Proofs.Tree.Displaced

/-!
The fuel of the parser lasts. Each expression takes a character of the body at least, and makes no
more than six calls that spend fuel before it does. So what a function needs is bounded by what is
left of the body, and a parser that is given more fails only for causes that have a place in the
pattern.
-/

namespace RegexEngine

/-- True of the tokens that no character of a body stands for: what follows a body, and the end. -/
def TokenKind.endsBody : TokenKind → Bool
  | .eof | .rawClose _ | .rawModifiers _ => true
  | _ => false

theorem TokenKind.OfBody.endsBody {kind : TokenKind} (h : kind.OfBody) : kind.endsBody = false := by
  rcases h with h | ⟨e, rfl, _⟩
  · cases kind <;> first | rfl | exact h.elim
  · rfl

theorem TokenKind.OfBody.position {kind : TokenKind} (h : kind.OfBody) {e : Error}
    (he : kind = .error e) : e.position.isSome := by
  subst he
  rcases h with h | ⟨_, he, hposition⟩
  · exact h.elim
  · cases he
    exact hposition

namespace Lexer

/-- Characters of the body that are still to be split into tokens. -/
def left (l : Lexer) : Nat := if l.phase = .body then l.cur.rest.length else 0

theorem left_of_afterBody {l : Lexer} (h : l.AfterBody) : l.left = 0 := by
  rcases h with h | h | h <;> rw [left, h] <;> rfl

/-- A token takes a character of the body at least, or is what follows the body. -/
theorem next_cases {l : Lexer} (h : l.phase = .body ∨ l.AfterBody) :
    l.next.1.kind.OfBody ∧ l.next.2.phase = .body ∧ l.next.2.left + 1 ≤ l.left ∨
      l.next.1.kind.endsBody = true ∧ l.next.2.AfterBody := by
  rcases h with hphase | hafter
  · have hnext : l.next = l.bodyToken := by rw [next, hphase]
    rw [hnext]
    cases hcur : l.skipped.rest with
    | nil =>
      refine .inr ?_
      rw [bodyToken_eq, hcur]
      unfold closeToken
      dsimp only
      split
      · exact ⟨rfl, .inl rfl⟩
      · exact ⟨rfl, .inr (.inr rfl)⟩
    | cons c rest =>
      obtain ⟨kind, k, hkind, htoken⟩ := exists_bodyToken hcur
      obtain ⟨gap, hgap, _⟩ := l.exists_skipped
      refine .inl ?_
      rw [htoken]
      refine ⟨hkind, hphase, ?_⟩
      have hlength := congrArg List.length hgap
      rw [List.length_append, hcur, List.length_cons] at hlength
      rw [left, left, if_pos hphase, if_pos hphase, Text.Cursor.length_rest_drop, hcur,
        List.length_cons]
      omega
  · refine .inr ?_
    rcases hafter.next with hnext | ⟨_, _, _, hnext⟩ <;> rw [hnext]
    · exact ⟨rfl, .inr (.inr rfl)⟩
    · exact ⟨rfl, .inr (.inl rfl)⟩

end Lexer

namespace Parser

/-- What is left of the body, with the token that was looked at. -/
def left (p : Parser) : Nat :=
  p.lexer.left + match p.ahead with
    | some token => if token.kind.endsBody then 0 else 1
    | none => 0

/-- A parser in the body of a pattern or behind it, with no more than `l` characters left. -/
structure Within (l : Nat) (p : Parser) : Prop where
  lexer : p.lexer.phase = .body ∨ p.lexer.AfterBody
  ahead : ∀ token ∈ p.ahead, token.kind.OfBody ∨ token.kind.endsBody = true ∧ p.lexer.AfterBody
  bound : p.left ≤ l

/-- A result that leaves no more than `m` characters, or fails for a cause that has a place. -/
def Leaves {α : Type} (m : Nat) : Except Error (α × Parser) → Prop
  | .ok (_, q) => q.Within m
  | .error e => e.position.isSome

/-- Of `l` characters, the step leaves no more than `m`, unless it fails for a cause that has a
place. -/
def Spends {α : Type} (l m : Nat) (x : Step α) : Prop :=
  ∀ p : Parser, p.Within l → Leaves m (x.run p)

/-- The step does so where the parser looks at a token. -/
def SpendsAt {α : Type} (token : Token) (l m : Nat) (x : Step α) : Prop :=
  ∀ p : Parser, p.Within l → p.ahead = some token → Leaves m (x.run p)

section

variable {α β : Type} {l m k : Nat} {x : Step α} {token : Token}

theorem Within.mono {p : Parser} (h : p.Within l) (hle : l ≤ m) : p.Within m :=
  ⟨h.lexer, h.ahead, Nat.le_trans h.bound hle⟩

theorem Within.afterBody {p : Parser} (h : p.Within l) (hahead : p.ahead = some token)
    (hends : token.kind.endsBody = true) : p.lexer.AfterBody := by
  rcases h.ahead token hahead with hbody | ⟨_, hafter⟩
  · exact absurd (hbody.endsBody.symm.trans hends) Bool.false_ne_true
  · exact hafter

theorem Within.ofBody {p : Parser} (h : p.Within l) (hahead : p.ahead = some token)
    (hends : token.kind.endsBody = false) : token.kind.OfBody := by
  rcases h.ahead token hahead with hbody | ⟨htrue, _⟩
  · exact hbody
  · exact absurd (hends.symm.trans htrue) Bool.false_ne_true

theorem Spends.at_ (h : Spends l m x) (token : Token) : SpendsAt token l m x :=
  fun p hp _ => h p hp

theorem Leaves.mono {r : Except Error (α × Parser)} (h : Leaves l r) (hle : l ≤ m) :
    Leaves m r := by
  cases r with
  | error _ => exact h
  | ok _ => exact Within.mono h hle

theorem Leaves.bind {r : Except Error (α × Parser)} (h : Leaves m r) {f : α → Step β}
    (hf : ∀ v, Spends m k (f v)) : Leaves k (r >>= fun r => (f r.1).run r.2) := by
  cases r with
  | error _ => exact h
  | ok answer => exact hf answer.1 answer.2 h

theorem Spends.mono (h : Spends l m x) (hle : m ≤ k) : Spends l k x :=
  fun p hp => (h p hp).mono hle

theorem spends_pure (v : α) : Spends l l (pure v) := fun _ hp => hp

theorem spends_bind (h : Spends l m x) {f : α → Step β} (hf : ∀ v, Spends m k (f v)) :
    Spends l k (x >>= f) := by
  intro p hp
  rw [StateT.run_bind]
  exact (h p hp).bind hf

theorem spendsAt_bind (h : SpendsAt token l m x) {f : α → Step β} (hf : ∀ v, Spends m k (f v)) :
    SpendsAt token l k (x >>= f) := by
  intro p hp hahead
  rw [StateT.run_bind]
  exact (h p hp hahead).bind hf

theorem spends_get_bind {f : Parser → Step β} (hf : ∀ p, Spends l m (f p)) :
    Spends l m (get >>= f) := fun p hp => hf p p hp

/-- What a step changes apart from the text makes no difference. -/
theorem spends_modify {f : Parser → Parser} (hahead : ∀ p, (f p).ahead = p.ahead)
    (hlexer : ∀ p, ∃ extended, (f p).lexer = { p.lexer with extended := extended }) :
    Spends l l (modify f : Step PUnit) := by
  intro p hp
  obtain ⟨extended, heq⟩ := hlexer p
  have hlexed : (f p).lexer.phase = p.lexer.phase ∧ (f p).lexer.left = p.lexer.left := by
    rw [heq]
    exact ⟨rfl, rfl⟩
  obtain ⟨hphase, hleft⟩ := hlexed
  have hafter : p.lexer.AfterBody → (f p).lexer.AfterBody := by
    rw [Lexer.AfterBody, Lexer.AfterBody, hphase]
    exact id
  refine ⟨?_, ?_, ?_⟩
  · rw [hphase]
    exact hp.lexer.imp_right hafter
  · rw [hahead]
    exact fun t ht => (hp.ahead t ht).imp_right fun h => ⟨h.1, hafter h.2⟩
  · rw [left, hahead, hleft]
    exact hp.bound

/-! Tokens. -/

theorem Within.exists_peek {p : Parser} (h : p.Within l) :
    ∃ token p', peek.run p = .ok (token, p') ∧ p'.Within l ∧ p'.ahead = some token := by
  rw [run_peek]
  cases hahead : p.ahead with
  | some token => exact ⟨token, p, rfl, h, hahead⟩
  | none =>
    have hleft := h.bound
    rw [left, hahead, Nat.add_zero] at hleft
    refine ⟨_, _, rfl, ?_, rfl⟩
    rcases Lexer.next_cases h.lexer with ⟨hkind, hphase, hnext⟩ | ⟨hkind, hafter⟩
    · refine ⟨.inl hphase, ?_, ?_⟩
      · rintro t ⟨⟩
        exact .inl hkind
      · simp only [left, hkind.endsBody]
        exact Nat.le_trans hnext hleft
    · refine ⟨.inr hafter, ?_, ?_⟩
      · rintro t ⟨⟩
        exact .inr ⟨hkind, hafter⟩
      · simp only [left, hkind, Lexer.left_of_afterBody hafter]
        exact Nat.zero_le l

theorem spends_peek_bind {f : Token → Step β} (hf : ∀ token, SpendsAt token l m (f token)) :
    Spends l m (peek >>= f) := by
  intro p hp
  obtain ⟨token, p', hpeek, hp', hahead⟩ := hp.exists_peek
  rw [run_bind_of_ok hpeek]
  exact hf token p' hp' hahead

theorem Within.taken {p : Parser} (h : p.Within l) (hahead : p.ahead = some token) :
    Within (l - if token.kind.endsBody then 0 else 1) { p with ahead := none } := by
  have hleft := h.bound
  rw [left, hahead] at hleft
  refine ⟨h.lexer, fun t ht => absurd ht (Option.not_mem_none t), ?_⟩
  rw [left, Nat.add_zero]
  dsimp only at hleft ⊢
  omega

theorem spendsAt_take_bind {f : Token → Step β} (hf : Spends l m (f token)) :
    SpendsAt token l m (take >>= f) := by
  intro p hp hahead
  rw [run_bind_of_ok (run_take_of_ahead hahead)]
  exact hf _ ((hp.taken hahead).mono (Nat.sub_le ..))

/-- A token of the body takes a character. -/
theorem spendsAt_take_bind_body {f : Token → Step β} (hkind : token.kind.endsBody = false)
    (hf : (∀ e, token.kind = .error e → e.position.isSome) → Spends l m (f token)) :
    SpendsAt token (l + 1) m (take >>= f) := by
  intro p hp hahead
  have htaken := hp.taken hahead
  rw [hkind] at htaken
  rw [run_bind_of_ok (run_take_of_ahead hahead)]
  exact hf (fun e he => (hp.ofBody hahead hkind).position he) _ htaken

theorem Within.ne_zero {p : Parser} (h : p.Within l) (hahead : p.ahead = some token)
    (hkind : token.kind.endsBody = false) : l ≠ 0 := by
  have hleft := h.bound
  rw [left, hahead] at hleft
  simp only [hkind] at hleft
  rintro rfl
  exact absurd hleft (Nat.not_succ_le_zero _)

/-- At a token of the body, there is a character left. -/
theorem spendsAt_of_body (hkind : token.kind.endsBody = false)
    (hf : ∀ k, l = k + 1 → SpendsAt token l m x) : SpendsAt token l m x := by
  intro p hp hahead
  obtain ⟨k, hk⟩ := Nat.exists_eq_succ_of_ne_zero (hp.ne_zero hahead hkind)
  exact hf k hk p hp hahead

/-! Parts of expressions. -/

theorem spends_refuse {e : Error} (he : e.position.isSome) : Spends l l (refuse e) := by
  intro p hp
  change Leaves l ((if p.recovering then _ else _ : Step Tree).run p)
  split
  · exact ⟨hp.lexer, hp.ahead, hp.bound⟩
  · exact he

theorem spends_refuse_fault (fault : PatternFault) (start : Nat) :
    Spends l l (refuse (fault.errorAt start)) := spends_refuse rfl

theorem spends_applyToLexer (opts : OptionSet) : Spends l l (applyToLexer opts) :=
  spends_modify (fun _ => rfl) fun _ => ⟨_, rfl⟩

theorem spends_suffix (min : Nat) (max : Option Nat) : Spends l l (suffix min max) := by
  refine spends_peek_bind fun token => ?_
  split
  · exact spendsAt_take_bind (spends_pure _)
  · exact spendsAt_take_bind (spends_pure _)
  · exact (spends_pure _).at_ token

theorem spends_quantified (atom : Tree) : Spends l l (quantified atom) := by
  refine spends_peek_bind fun token => ?_
  split
  · exact (spends_pure _).at_ token
  · refine spendsAt_take_bind ?_
    split
    · exact spends_refuse_fault _ _
    · refine spends_bind (spends_suffix _ _) fun q => spends_peek_bind fun next => ?_
      dsimp only
      split
      · exact spendsAt_take_bind (spends_bind (spends_refuse_fault _ _) fun _ => spends_pure _)
      · exact (spends_pure _).at_ next

theorem spends_branches (start : Nat) (t : Tree) : Spends l l (branches start t) := by
  unfold branches
  split
  · exact spends_pure _
  · exact spends_bind (spends_refuse_fault _ _) fun _ => spends_pure _
  · exact spends_pure _

theorem spends_enter (start : Nat) : Spends l l (enter start) := by
  intro p hp
  change Leaves l ((if p.maxDepth ≤ p.depth then _ else _ : Step Unit).run p)
  split
  · exact rfl
  · exact ⟨hp.lexer, hp.ahead, hp.bound⟩

theorem spends_leave (start : Nat) (extended : Bool) : Spends l l (leave start extended) := by
  have hback : Spends l l (modify fun p => { p with
      depth := p.depth - 1, lexer := { p.lexer with extended := extended } } : Step PUnit) :=
    spends_modify (fun _ => rfl) fun _ => ⟨_, rfl⟩
  refine spends_peek_bind fun token => ?_
  dsimp only
  split
  · exact spendsAt_take_bind hback
  · exact (spends_bind (spends_refuse_fault _ _) fun _ => hback).at_ token

theorem spends_nextGroup : Spends l l nextGroup :=
  fun _ hp => ⟨hp.lexer, hp.ahead, hp.bound⟩

/-! Whole expressions. -/

/-- How much fuel each function of the parser needs. -/
structure Lasts (fuel : Nat) : Prop where
  alternation : ∀ l, 6 * l + 3 ≤ fuel → Spends l l (alternation fuel)
  moreBranches : ∀ l start, 6 * l + 1 ≤ fuel → Spends l l (moreBranches fuel start)
  concatenation : ∀ l, 6 * l + 2 ≤ fuel → Spends l l (concatenation fuel)
  items : ∀ l, 6 * l + 1 ≤ fuel → Spends l l (items fuel)
  /-- An expression takes the token that it begins with. -/
  atom : ∀ l token, 6 * l + 6 ≤ fuel → token.kind.endsBody = false →
    SpendsAt token (l + 1) l (atom fuel)
  group : ∀ l start opening, 6 * l + 5 ≤ fuel → Spends l l (group fuel start opening)
  body : ∀ l start opts, 6 * l + 4 ≤ fuel → Spends l l (body fuel start opts)

theorem lasts_succ {fuel : Nat} (h : Lasts fuel) : Lasts (fuel + 1) where
  alternation l hfuel := by
    unfold Parser.alternation
    refine spends_peek_bind fun token => Spends.at_ ?_ token
    refine spends_bind (h.concatenation l (by omega)) fun first => ?_
    refine spends_bind (h.moreBranches l _ (by omega)) fun more => ?_
    split
    · exact spends_pure _
    · exact spends_pure _
  moreBranches l start hfuel := by
    unfold Parser.moreBranches
    refine spends_peek_bind fun token => ?_
    split
    · rename_i hpipe
      have hkind : token.kind.endsBody = false := by rw [hpipe]; rfl
      refine spendsAt_of_body hkind fun k hk => ?_
      subst hk
      refine spendsAt_take_bind_body hkind fun _ => ?_
      refine spends_bind (h.concatenation k (by omega)) fun branch => ?_
      refine spends_bind (h.moreBranches k _ (by omega)) fun more => ?_
      exact (spends_pure _).mono (Nat.le_succ k)
    · exact (spends_pure _).at_ token
  concatenation l hfuel := by
    unfold Parser.concatenation
    exact spends_bind (h.items l (by omega)) fun _ => spends_pure _
  items l hfuel := by
    unfold Parser.items
    refine spends_peek_bind fun token => ?_
    split
    · exact (spends_pure _).at_ token
    · rename_i hends
      have hkind : token.kind.endsBody = false := by
        cases hkind : token.kind <;> first | rfl | (rw [hkind] at hends; exact absurd rfl hends)
      refine spendsAt_of_body hkind fun k hk => ?_
      subst hk
      refine spendsAt_bind (h.atom k token (by omega) hkind) fun item => ?_
      refine spends_bind (spends_quantified item) fun item => ?_
      refine spends_bind (h.items k (by omega)) fun rest => ?_
      exact (spends_pure _).mono (Nat.le_succ k)
  atom l token hfuel hkind := by
    unfold Parser.atom
    refine spendsAt_take_bind_body hkind fun herrors => ?_
    split
    · exact spends_pure _
    · split
      · exact spends_bind spends_nextGroup fun index =>
          spends_bind (h.body l _ _ (by omega)) fun child => spends_pure _
      · exact h.group l _ _ (by omega)
      · exact spends_refuse (herrors _ ‹_›)
      · exact spends_refuse_fault _ _
  group l start opening hfuel := by
    have hbody (opts : Option OptionSet) : Spends l l (Parser.body fuel start opts) :=
      h.body l start opts (by omega)
    unfold Parser.group
    split
    · exact spends_bind (hbody _) fun child => spends_pure _
    · exact spends_bind spends_nextGroup fun index =>
        spends_bind (hbody _) fun child => spends_pure _
    · exact spends_bind (hbody _) fun child => spends_pure _
    · exact spends_bind (hbody _) fun child => spends_pure _
    · exact spends_bind (hbody _) fun child => spends_pure _
    · exact spends_bind (spends_applyToLexer _) fun _ => spends_pure _
    · exact spends_bind (hbody _) fun inside =>
        spends_bind (spends_branches start inside) fun _ => spends_pure _
    · exact spends_bind (hbody _) fun test => spends_bind (hbody _) fun inside =>
        spends_bind (spends_branches start inside) fun _ => spends_pure _
  body l start opts hfuel := by
    have halternation := h.alternation l (by omega)
    unfold Parser.body
    refine spends_bind (spends_enter start) fun _ => spends_get_bind fun p => ?_
    cases opts with
    | none =>
      exact spends_bind halternation fun read =>
        spends_bind (spends_leave start _) fun _ => spends_pure _
    | some opts =>
      exact spends_bind (spends_applyToLexer opts) fun _ => spends_bind halternation fun read =>
        spends_bind (spends_leave start _) fun _ => spends_pure _

theorem lasts (fuel : Nat) : Lasts fuel := by
  induction fuel with
  | zero =>
    exact ⟨fun _ h => absurd h (by omega), fun _ _ h => absurd h (by omega),
      fun _ h => absurd h (by omega), fun _ h => absurd h (by omega),
      fun _ _ h _ => absurd h (by omega), fun _ _ _ h => absurd h (by omega),
      fun _ _ _ h => absurd h (by omega)⟩
  | succ fuel ih => exact lasts_succ ih

/-- The failures of a step that comes second have a place if those of the first one have. -/
theorem position_of_bind {p : Parser} {f : α → Step β} (hx : Spends l m x) (hp : p.Within l)
    (hf : ∀ v q, q.Within m → ∀ e, (f v).run q = .error e → e.position.isSome) {e : Error}
    (hrun : (x >>= f).run p = .error e) : e.position.isSome := by
  have hleaves := hx p hp
  rw [StateT.run_bind] at hrun
  cases hr : x.run p with
  | error e' =>
    rw [hr] at hleaves hrun
    cases hrun
    exact hleaves
  | ok answer =>
    rw [hr] at hleaves hrun
    exact hf answer.1 answer.2 hleaves e hrun

/-- What follows the alternatives at the top is read to the end. -/
theorem position_of_run_remainder (fuel : Nat) : ∀ (more l : Nat) (read : Tree × List (Nat × Nat)),
    6 * l + 3 ≤ fuel → l + 3 ≤ more → ∀ p : Parser, p.Within l →
      ∀ e, (remainder fuel more read).run p = .error e → e.position.isSome := by
  intro more
  induction more with
  | zero => exact fun l read _ hmore => absurd hmore (by omega)
  | succ more ih =>
    intro l read hfuel hmore p hp e hrun
    obtain ⟨⟨kind, start, stop⟩, p', hpeek, hp', hahead⟩ := hp.exists_peek
    have htaken := hp'.taken hahead
    rw [remainder, run_bind_of_ok (run_take_of_peek hpeek)] at hrun
    dsimp only at hrun htaken
    cases hends : kind.endsBody with
    | false =>
      obtain ⟨k, rfl⟩ := Nat.exists_eq_succ_of_ne_zero (hp'.ne_zero hahead hends)
      rw [hends] at htaken
      split at hrun
      · cases hrun
      · refine position_of_bind (spends_refuse_fault _ _) htaken (fun _ q hq => ?_) hrun
        refine fun e => position_of_bind ((lasts fuel).alternation k (by omega)) hq ?_
        exact fun rest q hq => ih k _ (by omega) (by omega) q hq
      · exact ih k read (by omega) (by omega) _ htaken e hrun
    | true =>
      have hafter := hp'.afterBody hahead hends
      split at hrun
      · cases hrun
      · cases hends
      · rcases run_remainder_afterBody fuel more read (p := { p' with ahead := none }) rfl hafter
          with ⟨hfew, _⟩ | ⟨_, hok, _⟩
        · omega
        · rw [hok] at hrun
          cases hrun

end

end Parser

/-!
How whole patterns begin. The body of a pattern is read after the opening of a raw literal, or from
the beginning of a text that is none. Enough fuel is there for either, so whatever is refused has a
place.
-/

namespace Parser

/-- A parser at the start of a pattern. -/
def start (source : List Char) (flags : Flags) (maxDepth : Nat) : Parser :=
  ⟨.new source flags, none, flags.contains .recovery, maxDepth, 0, 0, []⟩

/-- A parser at the start of the body of a raw literal. -/
def startInside (source : List Char) (flags : Flags) (raw : RawLiteral) (maxDepth : Nat) : Parser :=
  { start source flags maxDepth with lexer := .inside source flags raw }

/-- A pattern that does not begin as a raw literal has no opening to be taken. -/
theorem run_opening {p p' : Parser} {token : Token} (hpeek : peek.run p = .ok (token, p'))
    (hkind : token.kind ≠ .rawMark) : opening.run p = .ok ((false, .empty), p') := by
  unfold opening
  rw [run_bind_of_ok hpeek]
  split
  · exact absurd ‹_› hkind
  · rfl

/-- The opening of a raw literal is taken at once. -/
theorem run_opening_of_find {source : List Char} {raw : RawLiteral}
    (hfind : RawLiteral.find source = .ok (some raw)) (flags : Flags) (maxDepth : Nat) :
    opening.run (start source flags maxDepth) =
      .ok ((true, raw.flags), startInside source flags raw maxDepth) := by
  obtain ⟨opened, hmark, hopen⟩ := Lexer.exists_opened hfind flags
  have hpeek : peek.run (start source flags maxDepth) = .ok (⟨.rawMark, 0, 1⟩,
      { start source flags maxDepth with lexer := opened, ahead := some ⟨.rawMark, 0, 1⟩ }) := by
    rw [run_peek]
    simp only [start, hmark]
  have hquote : peek.run { start source flags maxDepth with lexer := opened, ahead := none } =
      .ok (⟨.rawOpen raw.quote, 1, 2⟩, { start source flags maxDepth with
        lexer := .inside source flags raw, ahead := some ⟨.rawOpen raw.quote, 1, 2⟩ }) := by
    rw [run_peek]
    simp only [hopen]
  unfold opening
  rw [run_bind_of_ok hpeek]
  dsimp only
  rw [run_bind_of_ok (run_take_of_ahead rfl), run_bind_of_ok (run_take_of_peek hquote)]
  rfl

/-- Alternatives are the same after a look at the first token. -/
theorem run_alternation_peeked (fuel : Nat) {q q' : Parser} {token : Token}
    (hq : peek.run q = .ok (token, q')) (hahead : q'.ahead = some token) :
    (alternation (fuel + 1)).run q' = (alternation (fuel + 1)).run q := by
  rw [alternation, run_bind_of_ok hq, run_bind_of_ok (run_peek_of_ahead hahead)]

theorem within_start {source : List Char} (hraw : RawLiteral.isRaw source = false) (flags : Flags)
    (maxDepth : Nat) : (start source flags maxDepth).Within source.length := by
  have hphase : (start source flags maxDepth).lexer.phase = .body := by
    rw [start, Lexer.new, hraw]
    rfl
  refine ⟨.inl hphase, fun t ht => absurd ht (Option.not_mem_none t), ?_⟩
  rw [left, Lexer.left, if_pos hphase]
  exact Nat.le_refl _

theorem within_startInside {source : List Char} {raw : RawLiteral}
    (hfind : RawLiteral.find source = .ok (some raw)) (flags : Flags) (maxDepth : Nat) :
    (startInside source flags raw maxDepth).Within source.length := by
  refine ⟨.inl rfl, fun t ht => absurd ht (Option.not_mem_none t), ?_⟩
  have hlength := congrArg List.length (RawLiteral.spells_of_find hfind).1
  simp only [List.length_cons, List.length_append] at hlength
  change raw.body.length + 0 ≤ source.length
  omega

/-- Where the body of a pattern starts, no more of it is left than the text is long. -/
theorem exists_run_opening {source : List Char} {found : Option RawLiteral}
    (hfind : RawLiteral.find source = .ok found) (flags : Flags) (maxDepth : Nat) :
    ∃ opened p, opening.run (start source flags maxDepth) = .ok (opened, p) ∧
      p.Within source.length := by
  cases found with
  | some raw =>
    exact ⟨_, _, run_opening_of_find hfind flags maxDepth, within_startInside hfind flags maxDepth⟩
  | none =>
    have hwithin := within_start (RawLiteral.isRaw_of_find_none hfind) flags maxDepth
    obtain ⟨token, p, hpeek, hp, hahead⟩ := hwithin.exists_peek
    refine ⟨_, p, run_opening hpeek ?_, hp⟩
    intro hkind
    rcases hp.ahead token hahead with hbody | ⟨hends, _⟩
    · exact hbody.ne_of_not TokenKind.not_ofBody_rawMark hkind
    · rw [hkind] at hends
      cases hends

/-- What is wrong with a body has a place in it. -/
theorem position_of_run_pattern {source : List Char} {found : Option RawLiteral}
    (hfind : RawLiteral.find source = .ok found) (flags : Flags) (maxDepth : Nat) {e : Error}
    (hrun : (pattern flags (8 * source.length + 16)).run (start source flags maxDepth) =
      .error e) : e.position.isSome := by
  obtain ⟨opened, p, hopening, hp⟩ := exists_run_opening hfind flags maxDepth
  rw [pattern, run_bind_of_ok hopening] at hrun
  refine position_of_bind ((lasts _).alternation source.length (by omega)) hp ?_ hrun
  intro first q hq e hrun
  rw [StateT.run_bind] at hrun
  cases hremainder : (remainder (8 * source.length + 16) (8 * source.length + 16) first).run q with
  | error e' =>
    rw [hremainder] at hrun
    cases hrun
    exact position_of_run_remainder _ _ source.length first (by omega) (by omega) q hq _ hremainder
  | ok answer =>
    rw [hremainder] at hrun
    cases hrun

end Parser

namespace SyntaxTree

/-- A pattern is read by a parser at its start, unless it is a raw literal that has no end or is not
asked for. -/
theorem parse_of_find {source : List Char} {found : Option RawLiteral}
    (hfind : RawLiteral.find source = .ok found) {flags : Flags}
    (hflag : RawLiteral.isRaw source = true → flags.contains .rawLiterals = true)
    (maxDepth : Nat) :
    parse source flags maxDepth =
      (Parser.pattern flags (8 * source.length + 16)).run' (.start source flags maxDepth) := by
  have hallowed : (RawLiteral.isRaw source && !flags.contains .rawLiterals) = false := by
    cases hraw : RawLiteral.isRaw source with
    | false => rfl
    | true => rw [hflag hraw]; rfl
  rw [parse, hallowed, hfind]
  rfl

theorem parse_of_isRaw_false {source : List Char} (hraw : RawLiteral.isRaw source = false)
    (flags : Flags) (maxDepth : Nat) :
    parse source flags maxDepth =
      (Parser.pattern flags (8 * source.length + 16)).run' (.start source flags maxDepth) :=
  parse_of_find (RawLiteral.find_of_isRaw_false hraw)
    (fun h => absurd (hraw.symm.trans h) Bool.false_ne_true) maxDepth

end SyntaxTree

end RegexEngine
