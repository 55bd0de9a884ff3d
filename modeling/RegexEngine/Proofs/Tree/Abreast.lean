import Mathlib.Data.List.Forall2
import RegexEngine.Proofs.Steps
import RegexEngine.Proofs.Token.Tiling
import RegexEngine.SyntaxTree.Parser

/-!
Parsers that stand abreast: the same text is in front of them, at different places of their
patterns, and something of its own may follow the text in each. They see the same tokens as long as
the text goes on. Steps that look at nothing else answer alike, or fail for the same cause, and
leave the parsers abreast.
-/

namespace RegexEngine

/-- What is said of a pattern that outlasts its fuel. -/
def Error.IsExhaustion (e : Error) : Prop := ∃ depth, e = (LimitFault.groupNesting depth).error

/-- The results correspond, or are the same failure, the first one noticed `n` bytes further on,
unless one of them ran out of fuel. -/
inductive Coincide {α β : Type} (n : Nat) (same : α → β → Prop) :
    Except Error α → Except Error β → Prop
  | exhausted {e : Error} (h : e.IsExhaustion) (r : Except Error β) : Coincide n same (.error e) r
  | exhausted' {e : Error} (h : e.IsExhaustion) (r : Except Error α) : Coincide n same r (.error e)
  | failed {e e' : Error} (h : e.Beyond n e') : Coincide n same (.error e) (.error e')
  | answered {a : α} {b : β} (h : same a b) : Coincide n same (.ok a) (.ok b)

namespace Coincide

variable {α β γ δ : Type} {n : Nat} {same : α → β → Prop} {r : Except Error α} {r' : Except Error β}

theorem bind {next : γ → δ → Prop} (h : Coincide n same r r') {f : α → Except Error γ}
    {g : β → Except Error δ} (hf : ∀ a b, same a b → Coincide n next (f a) (g b)) :
    Coincide n next (r >>= f) (r' >>= g) := by
  cases h with
  | exhausted h _ => exact .exhausted h _
  | exhausted' h _ => exact .exhausted' h _
  | failed h => exact .failed h
  | answered h => exact hf _ _ h

theorem mono {next : α → β → Prop} (h : Coincide n same r r') (hmono : ∀ a b, same a b → next a b) :
    Coincide n next r r' := by
  cases h with
  | exhausted h _ => exact .exhausted h _
  | exhausted' h _ => exact .exhausted' h _
  | failed h => exact .failed h
  | answered h => exact .answered (hmono _ _ h)

/-- Where the fuel lasts, results that coincide concur. -/
theorem concur (h : Coincide n same r r') : Concur same r r' := by
  cases h with
  | exhausted h r' =>
    obtain ⟨_, rfl⟩ := h
    exact .large (.inl rfl)
  | exhausted' h r =>
    obtain ⟨_, rfl⟩ := h
    exact .large' (.inl rfl)
  | failed _ => exact .failed _ _
  | answered h => exact .answered h

end Coincide

/-- Two lexers with the same rest of a body in front of them, which for the first one stands `n`
bytes further on. For the second one it is all of the pattern that is left. -/
structure Lexer.Like (n : Nat) (l l' : Lexer) : Prop where
  cur : l.cur = l'.cur.moved n
  phase : l.phase = .body
  phase' : l'.phase = .body
  raw : l'.raw = none
  stop : l.bodyStop = l'.length + n
  extended : l.extended = l'.extended
  strict : l.strict = l'.strict

/-- The same token, the first one `n` bytes further on. -/
structure Token.Like (n : Nat) (t u : Token) : Prop where
  kind : t.kind.Alike n u.kind
  start : t.start = u.start + n
  stop : t.stop = u.stop + n

/-- True of the tokens that follow a body. -/
def TokenKind.ClosesBody (kind : TokenKind) : Prop :=
  kind = .eof ∨ ∃ quote, kind = .rawClose quote

/-- The body is over: the first token closes it, and the second one is the end of the pattern. -/
structure Token.EndLike (n : Nat) (t u : Token) : Prop where
  kind : t.kind.ClosesBody
  kind' : u.kind = .eof
  start : t.start = u.start + n

namespace Lexer

variable {n : Nat} {l l' : Lexer}

/-- After a body, a lexer has only to close the pattern. -/
def AfterBody (lexer : Lexer) : Prop :=
  lexer.phase = .rawClose ∨ lexer.phase = .rawModifiers ∨ lexer.phase = .done

/-- What follows a body is letters, after which nothing follows, or nothing. -/
theorem AfterBody.next (h : l.AfterBody) :
    l.next = (l.eof, { l with phase := .done }) ∨
      ∃ letters start stop, l.next =
        (⟨.rawModifiers letters, start, stop⟩, { l with phase := .rawModifiers }) := by
  unfold Lexer.next
  rcases h with hphase | hphase | hphase <;> rw [hphase]
  · dsimp only
    unfold modifiersToken
    split
    · split
      · exact .inl rfl
      · exact .inr ⟨_, _, _, rfl⟩
    · exact .inl rfl
  · exact .inl rfl
  · exact .inl rfl

/-- The next tokens are the same, and the lexers after them are alike, or both bodies are over. -/
theorem Like.next (h : l.Like n l') :
    l.next.1.Like n l'.next.1 ∧ l.next.2.Like n l'.next.2 ∨
      l.next.1.EndLike n l'.next.1 ∧ l.next.2.AfterBody ∧
        l.next.2.extended = l'.next.2.extended := by
  have hnext : l.next = l.bodyToken := by rw [Lexer.next, h.phase]
  have hnext' : l'.next = l'.bodyToken := by rw [Lexer.next, h.phase']
  have hskipped : l.skipped = l'.skipped.moved n := by
    unfold skipped
    rw [h.extended, h.cur]
    split
    · exact skipBlanks_moved ..
    · rfl
  rw [hnext, hnext', bodyToken_eq, bodyToken_eq, hskipped, Text.Cursor.rest_moved]
  cases hcur : l'.skipped.rest with
  | nil =>
    have hstop := h.stop
    unfold Lexer.bodyStop at hstop
    refine .inr ?_
    unfold closeToken
    simp only [h.raw]
    cases hraw : l.raw with
    | none =>
      rw [hraw] at hstop
      exact ⟨⟨.inl rfl, rfl, hstop⟩, .inr (.inr rfl), h.extended⟩
    | some raw =>
      rw [hraw] at hstop
      exact ⟨⟨.inr ⟨_, rfl⟩, rfl, hstop⟩, .inl rfl, h.extended⟩
  | cons c rest =>
    obtain ⟨hkind, k, hafter, hafter'⟩ := TokenKind.sameToken_read n l'.skipped l'.strict hcur
    simp only [h.strict, hafter, hafter']
    exact .inl ⟨⟨hkind, rfl, rfl⟩, ⟨rfl, h.phase, h.phase', h.raw, h.stop, h.extended, rfl⟩⟩

end Lexer

namespace Parser

/-- Where two parsers stand in their texts, by their lexers and the tokens they look at: before the
same rest, with or without a look at its first token, or at the end of both. -/
inductive Abreast (n : Nat) : Lexer → Option Token → Lexer → Option Token → Prop
  | before {l l' : Lexer} (h : l.Like n l') : Abreast n l none l' none
  | looking {l l' : Lexer} {t u : Token} (htoken : t.Like n u) (h : l.Like n l') :
      Abreast n l (some t) l' (some u)
  | ended {l l' : Lexer} {t u : Token} (htoken : t.EndLike n u) (h : l.AfterBody) :
      Abreast n l (some t) l' (some u)

theorem Abreast.switched {n : Nat} {l l' : Lexer} {a a' : Option Token} (h : Abreast n l a l' a')
    (extended : Bool) :
    Abreast n { l with extended := extended } a { l' with extended := extended } a' := by
  have hlexers (h : l.Like n l') :
      Lexer.Like n { l with extended := extended } { l' with extended := extended } :=
    ⟨h.cur, h.phase, h.phase', h.raw, h.stop, rfl, h.strict⟩
  cases h with
  | before h => exact .before (hlexers h)
  | looking htoken h => exact .looking htoken (hlexers h)
  | ended htoken h => exact .ended htoken h

/-- Two parsers with the same text in front of them, which for the first one stands `n` bytes
further on. Both pass over errors, or neither does, and they have passed over the same errors. -/
structure Like (n : Nat) (passing : Bool) (p q : Parser) : Prop where
  abreast : Abreast n p.lexer p.ahead q.lexer q.ahead
  extended : p.lexer.extended = q.lexer.extended
  recovering : p.recovering = passing
  recovering' : q.recovering = passing
  maxDepth : p.maxDepth = q.maxDepth
  depth : p.depth = q.depth
  groupCount : p.groupCount = q.groupCount
  passed : List.Forall₂ (Error.Beyond n) p.passed q.passed

section

variable {n : Nat} {passing : Bool} {α β γ δ : Type} {same : α → β → Prop} {next : γ → δ → Prop}

/-- Answers that are the same, of like parsers. -/
def Tally (n : Nat) (passing : Bool) (same : α → β → Prop) (r : α × Parser) (r' : β × Parser) :
    Prop := same r.1 r'.1 ∧ r.2.Like n passing r'.2

variable (n passing) in
/-- From like parsers, the steps answer alike and lead to like parsers. -/
def Mimics (same : α → β → Prop) (x : Step α) (y : Step β) : Prop :=
  ∀ p q : Parser, p.Like n passing q →
    Coincide n (Tally n passing same) (x.run p) (y.run q)

variable (n passing) in
/-- The steps do so if the parsers look at these tokens. -/
def MimicsAt (t u : Token) (same : α → β → Prop) (x : Step α) (y : Step β) : Prop :=
  ∀ p q : Parser, p.Like n passing q → p.ahead = some t → q.ahead = some u →
    Coincide n (Tally n passing same) (x.run p) (y.run q)

theorem Mimics.at_ {x : Step α} {y : Step β} (h : Mimics n passing same x y) (t u : Token) :
    MimicsAt n passing t u same x y := fun p q hlike _ _ => h p q hlike

theorem mimics_pure {a : α} {b : β} (h : same a b) : Mimics n passing same (pure a) (pure b) :=
  fun _ _ hlike => .answered ⟨h, hlike⟩

theorem mimicsAt_pure {t u : Token} {a : α} {b : β} (h : same a b) :
    MimicsAt n passing t u same (pure a) (pure b) := (mimics_pure h).at_ t u

theorem mimics_bind {x : Step α} {y : Step β} (h : Mimics n passing same x y) {f : α → Step γ}
    {g : β → Step δ} (hf : ∀ a b, same a b → Mimics n passing next (f a) (g b)) :
    Mimics n passing next (x >>= f) (y >>= g) := by
  intro p q hlike
  rw [StateT.run_bind, StateT.run_bind]
  exact (h p q hlike).bind fun r r' hr => hf _ _ hr.1 _ _ hr.2

theorem mimicsAt_bind {t u : Token} {x : Step α} {y : Step β}
    (h : MimicsAt n passing t u same x y) {f : α → Step γ} {g : β → Step δ}
    (hf : ∀ a b, same a b → Mimics n passing next (f a) (g b)) :
    MimicsAt n passing t u next (x >>= f) (y >>= g) := by
  intro p q hlike hp hq
  rw [StateT.run_bind, StateT.run_bind]
  exact (h p q hlike hp hq).bind fun r r' hr => hf _ _ hr.1 _ _ hr.2

/-- Steps that answer the same are followed by the same. -/
theorem mimics_bind_eq {x y : Step α} (h : Mimics n passing Eq x y) {f : α → Step γ}
    {g : α → Step δ} (hf : ∀ a, Mimics n passing next (f a) (g a)) :
    Mimics n passing next (x >>= f) (y >>= g) :=
  mimics_bind h fun a _ hab => hab ▸ hf a

theorem mimics_get_bind {f : Parser → Step γ} {g : Parser → Step δ}
    (hf : ∀ p q : Parser, p.Like n passing q → Mimics n passing next (f p) (g q)) :
    Mimics n passing next (get >>= f) (get >>= g) :=
  fun p q hlike => hf p q hlike p q hlike

theorem mimics_modify {f g : Parser → Parser}
    (h : ∀ p q : Parser, p.Like n passing q → (f p).Like n passing (g q)) :
    Mimics n passing Eq (modify f : Step PUnit) (modify g) :=
  fun p q hlike => .answered ⟨rfl, h p q hlike⟩

/-- A parser without fuel says so. -/
theorem mimics_exhausted (y : Step β) : Mimics n passing same exhausted y :=
  fun _ _ _ => .exhausted ⟨_, rfl⟩ _

theorem mimics_exhausted' (x : Step α) : Mimics n passing same x exhausted :=
  fun _ _ _ => .exhausted' ⟨_, rfl⟩ _

/-! Tokens. -/

theorem run_peek (p : Parser) :
    peek.run p = match p.ahead with
      | some token => .ok (token, p)
      | none => .ok (p.lexer.next.1,
        { p with lexer := p.lexer.next.2, ahead := some p.lexer.next.1 }) := by
  change (match p.ahead with | some _ => _ | none => _ : Step Token).run p = _
  cases p.ahead <;> rfl

theorem run_peek_of_ahead {p : Parser} {token : Token} (h : p.ahead = some token) :
    peek.run p = .ok (token, p) := by
  rw [run_peek, h]

theorem run_take_of_ahead {p : Parser} {token : Token} (h : p.ahead = some token) :
    take.run p = .ok (token, { p with ahead := none }) := by
  unfold take
  rw [run_bind_of_ok (run_peek_of_ahead h)]
  rfl

theorem exists_peek (p : Parser) :
    ∃ token p', peek.run p = .ok (token, p') ∧ p'.ahead = some token := by
  rw [run_peek]
  cases hahead : p.ahead with
  | none => exact ⟨_, _, rfl, rfl⟩
  | some token => exact ⟨_, _, rfl, hahead⟩

/-- What is taken is what is seen. -/
theorem run_take_of_peek {p p' : Parser} {token : Token} (hpeek : peek.run p = .ok (token, p')) :
    take.run p = .ok (token, { p' with ahead := none }) := by
  unfold take
  rw [run_bind_of_ok hpeek]
  rfl

/-- Like parsers see the same token, or the ends of both texts. -/
theorem Like.peek {p q : Parser} (h : p.Like n passing q) :
    ∃ t u p' q', Parser.peek.run p = .ok (t, p') ∧ Parser.peek.run q = .ok (u, q') ∧
      p'.Like n passing q' ∧ p'.ahead = some t ∧ q'.ahead = some u ∧
        (t.Like n u ∨ t.EndLike n u ∧ p'.lexer.AfterBody) := by
  have habreast := h.abreast
  rw [run_peek, run_peek]
  generalize hp : p.ahead = a at habreast
  generalize hq : q.ahead = a' at habreast
  cases habreast with
  | looking htoken hlexer => exact ⟨_, _, p, q, rfl, rfl, h, hp, hq, .inl htoken⟩
  | ended htoken hafter => exact ⟨_, _, p, q, rfl, rfl, h, hp, hq, .inr ⟨htoken, hafter⟩⟩
  | before hlexer =>
    rcases hlexer.next with ⟨htoken, hnext⟩ | ⟨htoken, hafter, hextended⟩
    · exact ⟨_, _, _, _, rfl, rfl, ⟨.looking htoken hnext, hnext.extended, h.recovering,
        h.recovering', h.maxDepth, h.depth, h.groupCount, h.passed⟩, rfl, rfl, .inl htoken⟩
    · exact ⟨_, _, _, _, rfl, rfl, ⟨.ended htoken hafter, hextended, h.recovering, h.recovering',
        h.maxDepth, h.depth, h.groupCount, h.passed⟩, rfl, rfl, .inr ⟨htoken, hafter⟩⟩

/-- After a look at the next token, the same is done with every kind but an error, and something of
its own with errors and at the end of the text. -/
theorem mimics_peek_bind {f : Token → Step γ} {g : Token → Step δ}
    (hsame : ∀ (kind : TokenKind) (start stop : Nat), kind.InBody →
      MimicsAt n passing ⟨kind, start + n, stop + n⟩ ⟨kind, start, stop⟩ next
        (f ⟨kind, start + n, stop + n⟩) (g ⟨kind, start, stop⟩))
    (herrors : ∀ (e e' : Error) (start stop : Nat), e.Beyond n e' →
      MimicsAt n passing ⟨.error e, start + n, stop + n⟩ ⟨.error e', start, stop⟩ next
        (f ⟨.error e, start + n, stop + n⟩) (g ⟨.error e', start, stop⟩))
    (hended : ∀ (kind : TokenKind) (start stop stop' : Nat), kind.ClosesBody →
      MimicsAt n passing ⟨kind, start + n, stop⟩ ⟨.eof, start, stop'⟩ next
        (f ⟨kind, start + n, stop⟩) (g ⟨.eof, start, stop'⟩)) :
    Mimics n passing next (peek >>= f) (peek >>= g) := by
  intro p q hlike
  obtain ⟨⟨kind, start, stop⟩, ⟨kind', start', stop'⟩, p', q', hp, hq, hlike', hp', hq', hboth⟩ :=
    hlike.peek
  rw [run_bind_of_ok hp, run_bind_of_ok hq]
  rcases hboth with ⟨hkind, rfl, rfl⟩ | ⟨⟨hkind, rfl, rfl⟩, _⟩
  · dsimp only at hkind
    cases hkind with
    | same hkind => exact hsame _ _ _ hkind p' q' hlike' hp' hq'
    | errors he => exact herrors _ _ _ _ he p' q' hlike' hp' hq'
  · exact hended _ _ _ _ hkind p' q' hlike' hp' hq'

/-- Past a token that both look at, the texts go on alike. -/
theorem Like.taken {p q : Parser} {t u : Token} (h : p.Like n passing q) (hp : p.ahead = some t)
    (hq : q.ahead = some u) (htoken : t.Like n u) :
    Like n passing { p with ahead := none } { q with ahead := none } := by
  have habreast := h.abreast
  rw [hp, hq] at habreast
  have hlexer : p.lexer.Like n q.lexer := by
    cases habreast with
    | looking _ h => exact h
    | ended hend _ =>
      -- a token of the body does not close it
      have hkind := htoken.kind
      rw [hend.kind'] at hkind
      generalize t.kind = kind at hkind
      cases hkind with
      | same hbody => exact hbody.elim
  exact ⟨.before hlexer, h.extended, h.recovering, h.recovering', h.maxDepth, h.depth,
    h.groupCount, h.passed⟩

theorem mimicsAt_take_bind {t u : Token} (htoken : t.Like n u) {f : Token → Step γ}
    {g : Token → Step δ} (hf : Mimics n passing next (f t) (g u)) :
    MimicsAt n passing t u next (take >>= f) (take >>= g) := by
  intro p q hlike hp hq
  rw [run_bind_of_ok (run_take_of_ahead hp), run_bind_of_ok (run_take_of_ahead hq)]
  exact hf _ _ (hlike.taken hp hq htoken)

/-- A token of the body can be taken. -/
theorem mimicsAt_take_same {kind : TokenKind} {start stop : Nat} (hkind : kind.InBody)
    {f : Token → Step γ} {g : Token → Step δ}
    (hf : Mimics n passing next (f ⟨kind, start + n, stop + n⟩) (g ⟨kind, start, stop⟩)) :
    MimicsAt n passing ⟨kind, start + n, stop + n⟩ ⟨kind, start, stop⟩ next
      (take >>= f) (take >>= g) :=
  mimicsAt_take_bind (t := ⟨kind, start + n, stop + n⟩) (u := ⟨kind, start, stop⟩)
    ⟨.same hkind, rfl, rfl⟩ hf

/-- The same error is passed over, or is the end. -/
theorem mimics_refuse_passing {e e' : Error} (he : e.Beyond n e') :
    Mimics n passing (fun t t' => t = t' ∧ passing = true) (refuse e) (refuse e') := by
  refine mimics_get_bind fun p q hlike => ?_
  rw [hlike.recovering, hlike.recovering']
  cases passing with
  | false => exact fun _ _ _ => .failed he
  | true =>
    refine fun _ _ _ => .answered ⟨⟨rfl, rfl⟩, ?_⟩
    exact ⟨hlike.abreast, hlike.extended, rfl, rfl, hlike.maxDepth, hlike.depth, hlike.groupCount,
      .cons he hlike.passed⟩

theorem mimics_refuse {e e' : Error} (he : e.Beyond n e') :
    Mimics n passing Eq (refuse e) (refuse e') :=
  fun p q hlike => (mimics_refuse_passing he p q hlike).mono fun _ _ h => ⟨h.1.1, h.2⟩

theorem mimics_refuse_fault (fault : PatternFault) (start : Nat) :
    Mimics n passing Eq (refuse (fault.errorAt (start + n))) (refuse (fault.errorAt start)) :=
  mimics_refuse (fault.errorAt_beyond n start)

end

end Parser

end RegexEngine
