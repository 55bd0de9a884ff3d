import RegexEngine.Proofs.Tree.Abreast

/-!
Parsers with the same text in front of them, at different places of their patterns. Whatever was
read before, and whatever ends the text, they read the same tree, or refuse the text for the same
cause, unless one of them runs out of fuel. All offsets that one of them speaks of are those of the
other one, moved by as many bytes as the places are apart.
-/

namespace RegexEngine

namespace Parser

section

variable {n : Nat} {passing : Bool}

/-! Parts of expressions. -/

theorem mimics_applyToLexer (opts : OptionSet) :
    Mimics n passing Eq (applyToLexer opts) (applyToLexer opts) := by
  refine mimics_modify fun p q h => ?_
  have habreast := h.abreast.switched
    ((p.lexer.extended || opts.switchesOn 'x') && !opts.switchesOff 'x')
  refine ⟨?_, ?_, h.recovering, h.recovering', h.maxDepth, h.depth, h.groupCount, h.passed⟩
  · simpa only [h.extended] using habreast
  · simp only [h.extended]

theorem mimics_suffix (min : Nat) (max : Option Nat) :
    Mimics n passing Eq (suffix min max) (suffix min max) := by
  refine mimics_peek_bind (fun kind _ _ hkind => ?_) (fun _ _ _ _ _ => mimicsAt_pure rfl) ?_
  · dsimp only
    split
    · exact mimicsAt_take_same hkind (mimics_pure rfl)
    · exact mimicsAt_take_same hkind (mimics_pure rfl)
    · exact mimicsAt_pure rfl
  · rintro _ _ _ _ (rfl | ⟨_, rfl⟩) <;> exact mimicsAt_pure rfl

theorem mimics_quantified (atom : Tree) :
    Mimics n passing Eq (quantified atom) (quantified atom) := by
  refine mimics_peek_bind (fun kind start _ hkind => ?_) (fun _ _ _ _ _ => mimicsAt_pure rfl) ?_
  · dsimp only
    split
    · exact mimicsAt_pure rfl
    · refine mimicsAt_take_same hkind ?_
      split
      · exact mimics_refuse_fault _ start
      · refine mimics_bind_eq (mimics_suffix _ _) fun q => ?_
        -- a mark after another one is refused
        refine mimics_peek_bind (fun next start _ hnext => ?_)
          (fun _ _ _ _ _ => mimicsAt_pure rfl) ?_
        · dsimp only
          split
          · exact mimicsAt_take_same hnext
              (mimics_bind_eq (mimics_refuse_fault _ start) fun _ => mimics_pure rfl)
          · exact mimicsAt_pure rfl
        · rintro _ _ _ _ (rfl | ⟨_, rfl⟩) <;> exact mimicsAt_pure rfl
  · rintro _ _ _ _ (rfl | ⟨_, rfl⟩) <;> exact mimicsAt_pure rfl

theorem mimics_branches (start : Nat) (t : Tree) :
    Mimics n passing Eq (branches (start + n) t) (branches start t) := by
  unfold branches
  split
  · exact mimics_pure rfl
  · exact mimics_bind_eq (mimics_refuse_fault _ start) fun _ => mimics_pure rfl
  · exact mimics_pure rfl

theorem mimics_enter (start : Nat) : Mimics n passing Eq (enter (start + n)) (enter start) := by
  refine mimics_get_bind fun p q h => ?_
  rw [h.maxDepth, h.depth]
  split
  · exact fun _ _ _ => .failed ⟨rfl, start, rfl, rfl⟩
  · refine fun _ _ _ => .answered ⟨rfl, ?_⟩
    exact ⟨h.abreast, h.extended, h.recovering, h.recovering', rfl, rfl, h.groupCount, h.passed⟩

theorem mimics_leave (start : Nat) (extended : Bool) :
    Mimics n passing Eq (leave (start + n) extended) (leave start extended) := by
  have hback : Mimics n passing Eq
      (modify fun p => { p with
        depth := p.depth - 1, lexer := { p.lexer with extended := extended } } : Step PUnit)
      (modify fun p => { p with
        depth := p.depth - 1, lexer := { p.lexer with extended := extended } }) := by
    refine mimics_modify fun p q h => ?_
    exact ⟨h.abreast.switched extended, rfl, h.recovering, h.recovering', h.maxDepth,
      congrArg (· - 1) h.depth, h.groupCount, h.passed⟩
  refine mimics_peek_bind (fun kind _ _ hkind => ?_) (fun _ _ _ _ _ => ?_) fun _ _ _ _ hkind => ?_
  · dsimp only
    split
    · exact mimicsAt_take_same hkind hback
    · exact (mimics_bind_eq (mimics_refuse_fault _ start) fun _ => hback).at_ _ _
  · exact (mimics_bind_eq (mimics_refuse_fault _ start) fun _ => hback).at_ _ _
  · rcases hkind with rfl | ⟨_, rfl⟩ <;>
      exact (mimics_bind_eq (mimics_refuse_fault _ start) fun _ => hback).at_ _ _

theorem mimics_nextGroup : Mimics n passing Eq nextGroup nextGroup := by
  intro p q h
  refine .answered ⟨congrArg (· + 1) h.groupCount, ?_⟩
  exact ⟨h.abreast, h.extended, h.recovering, h.recovering', h.maxDepth, h.depth,
    congrArg (· + 1) h.groupCount, h.passed⟩

/-! Whole expressions. -/

/-- Spans that start `n` bytes further on. -/
def movedSpans (n : Nat) (spans : List (Nat × Nat)) : List (Nat × Nat) :=
  spans.map fun span => (span.1 + n, span.2 + n)

/-- The same trees, with the spans of their alternatives moved. -/
def SameAlternatives (n : Nat) (r r' : Tree × List (Nat × Nat)) : Prop :=
  r.1 = r'.1 ∧ r.2 = movedSpans n r'.2

variable (n passing) in
/-- What each function of a parser answers with is what it answers with elsewhere, with any fuel. -/
structure Displaced (fuel fuel' : Nat) : Prop where
  alternation : Mimics n passing (SameAlternatives n) (alternation fuel) (alternation fuel')
  moreBranches : ∀ start start', Mimics n passing
    (fun r r' => r.1 = r'.1 ∧ (start = start' + n → r.2 = movedSpans n r'.2))
    (moreBranches fuel start) (moreBranches fuel' start')
  concatenation : Mimics n passing Eq (concatenation fuel) (concatenation fuel')
  items : Mimics n passing Eq (items fuel) (items fuel')
  /-- An expression begins with a token of the body. -/
  atom : ∀ t u : Token, t.Like n u → MimicsAt n passing t u Eq (atom fuel) (atom fuel')
  group : ∀ start opening, Mimics n passing Eq (group fuel (start + n) opening)
    (group fuel' start opening)
  body : ∀ start opts, Mimics n passing Eq (body fuel (start + n) opts) (body fuel' start opts)

namespace Displaced

variable {fuel fuel' : Nat}

theorem alternation_succ (h : Displaced n passing fuel fuel') :
    Mimics n passing (SameAlternatives n) (Parser.alternation (fuel + 1))
      (Parser.alternation (fuel' + 1)) := by
  unfold Parser.alternation
  refine mimics_peek_bind (fun _ start _ _ => Mimics.at_ ?_ _ _)
    (fun _ _ start _ _ => Mimics.at_ ?_ _ _) fun _ start _ _ _ => Mimics.at_ ?_ _ _
  -- the same is done with whatever comes next
  all_goals
    refine mimics_bind_eq h.concatenation fun first => ?_
    refine mimics_bind (h.moreBranches _ start) fun more more' hmore => ?_
    obtain ⟨rest, spans⟩ := more
    obtain ⟨rest', spans'⟩ := more'
    obtain ⟨hrest, hspans⟩ := hmore
    obtain rfl : rest = rest' := hrest
    cases rest with
    | nil => exact mimics_pure ⟨rfl, rfl⟩
    | cons _ _ => exact mimics_pure ⟨rfl, hspans rfl⟩

theorem moreBranches_succ (h : Displaced n passing fuel fuel') (start start' : Nat) :
    Mimics n passing (fun r r' => r.1 = r'.1 ∧ (start = start' + n → r.2 = movedSpans n r'.2))
      (Parser.moreBranches (fuel + 1) start) (Parser.moreBranches (fuel' + 1) start') := by
  have hlast (stop : Nat) : ([] : List Tree) = [] ∧ (start = start' + n →
      [(start, stop + n)] = movedSpans n [(start', stop)]) :=
    ⟨rfl, fun hstart => by rw [hstart]; rfl⟩
  unfold Parser.moreBranches
  refine mimics_peek_bind (fun kind place stop hkind => ?_)
    (fun _ _ place _ _ => mimicsAt_pure (hlast place)) fun _ place _ _ hkind => ?_
  · dsimp only
    split
    · refine mimicsAt_take_same hkind (mimics_bind_eq h.concatenation fun branch => ?_)
      refine mimics_bind (h.moreBranches _ _) fun more more' hmore => mimics_pure ?_
      refine ⟨congrArg (List.cons branch) hmore.1, fun hstart => ?_⟩
      rw [hstart, hmore.2 rfl]
      rfl
    · exact mimicsAt_pure (hlast place)
  · rcases hkind with rfl | ⟨_, rfl⟩ <;> exact mimicsAt_pure (hlast place)

theorem items_succ (h : Displaced n passing fuel fuel') :
    Mimics n passing Eq (Parser.items (fuel + 1)) (Parser.items (fuel' + 1)) := by
  have hrest (t u : Token) (htoken : t.Like n u) : MimicsAt n passing t u Eq
      (do
        let item ← Parser.atom fuel
        let item ← quantified item
        let rest ← Parser.items fuel
        pure (item :: rest) : Step (List Tree))
      (do
        let item ← Parser.atom fuel'
        let item ← quantified item
        let rest ← Parser.items fuel'
        pure (item :: rest)) := by
    refine mimicsAt_bind (h.atom t u htoken) fun item _ hitem => ?_
    subst hitem
    exact mimics_bind_eq (mimics_quantified item) fun item =>
      mimics_bind_eq h.items fun rest => mimics_pure rfl
  unfold Parser.items
  refine mimics_peek_bind (fun kind _ _ hkind => ?_)
    (fun _ _ _ _ he => hrest _ _ ⟨.errors he, rfl, rfl⟩) ?_
  · dsimp only
    split
    · exact mimicsAt_pure rfl
    · exact hrest _ _ ⟨.same hkind, rfl, rfl⟩
  · rintro _ _ _ _ (rfl | ⟨_, rfl⟩) <;> exact mimicsAt_pure rfl

theorem atom_succ (h : Displaced n passing fuel fuel') (t u : Token) (htoken : t.Like n u) :
    MimicsAt n passing t u Eq (Parser.atom (fuel + 1)) (Parser.atom (fuel' + 1)) := by
  unfold Parser.atom
  refine mimicsAt_take_bind htoken ?_
  obtain ⟨kind, _, _⟩ := t
  obtain ⟨kind', start, _⟩ := u
  obtain ⟨hkind, hstart, _⟩ := htoken
  dsimp only at hkind hstart ⊢
  subst hstart
  cases hkind with
  | errors he => exact mimics_refuse he
  | same hkind =>
    split
    · exact mimics_pure rfl
    · split
      · exact mimics_bind_eq mimics_nextGroup fun index =>
          mimics_bind_eq (h.body start _) fun child => mimics_pure rfl
      · exact h.group start _
      · exact hkind.elim
      · exact mimics_refuse_fault _ start

theorem group_succ (h : Displaced n passing fuel fuel') (start : Nat) (opening : GroupOpening) :
    Mimics n passing Eq (Parser.group (fuel + 1) (start + n) opening)
      (Parser.group (fuel' + 1) start opening) := by
  unfold Parser.group
  split
  · exact mimics_bind_eq (h.body start _) fun child => mimics_pure rfl
  · exact mimics_bind_eq mimics_nextGroup fun index =>
      mimics_bind_eq (h.body start _) fun child => mimics_pure rfl
  · exact mimics_bind_eq (h.body start _) fun child => mimics_pure rfl
  · exact mimics_bind_eq (h.body start _) fun child => mimics_pure rfl
  · exact mimics_bind_eq (h.body start _) fun child => mimics_pure rfl
  · exact mimics_bind_eq (mimics_applyToLexer _) fun _ => mimics_pure rfl
  · exact mimics_bind_eq (h.body start _) fun inside =>
      mimics_bind_eq (mimics_branches start inside) fun _ => mimics_pure rfl
  · exact mimics_bind_eq (h.body start _) fun test =>
      mimics_bind_eq (h.body start _) fun inside =>
        mimics_bind_eq (mimics_branches start inside) fun _ => mimics_pure rfl

theorem body_succ (h : Displaced n passing fuel fuel') (start : Nat) (opts : Option OptionSet) :
    Mimics n passing Eq (Parser.body (fuel + 1) (start + n) opts)
      (Parser.body (fuel' + 1) start opts) := by
  unfold Parser.body
  refine mimics_bind_eq (mimics_enter start) fun _ => mimics_get_bind fun p q hlike => ?_
  have hinside (read read' : Tree × List (Nat × Nat)) (hread : SameAlternatives n read read') :
      Mimics n passing Eq
        (do
          leave (start + n) p.lexer.extended
          pure read.1 : Step Tree)
        (do
          leave start p.lexer.extended
          pure read'.1) :=
    mimics_bind_eq (mimics_leave start _) fun _ => mimics_pure hread.1
  rw [← hlike.extended]
  cases opts with
  | none => exact mimics_bind h.alternation hinside
  | some opts =>
    exact mimics_bind_eq (mimics_applyToLexer opts) fun _ => mimics_bind h.alternation hinside

/-- With more fuel, each function only calls others with the fuel of before. -/
theorem succ (h : Displaced n passing fuel fuel') : Displaced n passing (fuel + 1) (fuel' + 1) where
  alternation := h.alternation_succ
  moreBranches := h.moreBranches_succ
  concatenation := by
    unfold Parser.concatenation
    exact mimics_bind_eq h.items fun _ => mimics_pure rfl
  items := h.items_succ
  atom := h.atom_succ
  group := h.group_succ
  body := h.body_succ

end Displaced

variable (n passing) in
theorem displaced (fuel : Nat) : ∀ fuel', Displaced n passing fuel fuel' := by
  induction fuel with
  | zero =>
    exact fun _ => ⟨mimics_exhausted _, fun _ _ => mimics_exhausted _, mimics_exhausted _,
      mimics_exhausted _, fun _ _ _ => (mimics_exhausted _).at_ _ _, fun _ _ => mimics_exhausted _,
      fun _ _ => mimics_exhausted _⟩
  | succ fuel ih =>
    intro fuel'
    cases fuel' with
    | zero =>
      exact ⟨mimics_exhausted' _, fun _ _ => mimics_exhausted' _, mimics_exhausted' _,
        mimics_exhausted' _, fun _ _ _ => (mimics_exhausted' _).at_ _ _,
        fun _ _ => mimics_exhausted' _, fun _ _ => mimics_exhausted' _⟩
    | succ fuel' => exact (ih fuel').succ

/-! What follows the alternatives at the top. -/

/-- Once its body is over, a parser leaves what it has read as it is. It takes two more tokens at
most. -/
theorem run_remainder_afterBody (fuel more : Nat) (read : Tree × List (Nat × Nat)) {p : Parser}
    (hahead : p.ahead = none) (hafter : p.lexer.AfterBody) :
    (more < 2 ∧ ∃ e : Error, e.IsExhaustion ∧ (remainder fuel more read).run p = .error e) ∨
      ∃ p', (remainder fuel more read).run p = .ok (read, p') ∧ p'.passed = p.passed := by
  have htake {p : Parser} (hahead : p.ahead = none) : take.run p =
      .ok (p.lexer.next.1, { p with lexer := p.lexer.next.2, ahead := none }) := by
    have hpeek := run_peek p
    simp only [hahead] at hpeek
    rw [run_take_of_peek hpeek]
  cases more with
  | zero => exact .inl ⟨by omega, _, ⟨p.maxDepth, rfl⟩, rfl⟩
  | succ more =>
    rw [remainder, run_bind_of_ok (htake hahead)]
    rcases hafter.next with hnext | ⟨letters, start, stop, hnext⟩
    · rw [hnext]
      exact .inr ⟨_, rfl, rfl⟩
    · -- nothing follows the letters
      rw [hnext]
      dsimp only
      cases more with
      | zero => exact .inl ⟨by omega, _, ⟨p.maxDepth, rfl⟩, rfl⟩
      | succ more =>
        rw [remainder, run_bind_of_ok (htake rfl)]
        exact .inr ⟨_, rfl, rfl⟩

/-- What follows the alternatives at the top leaves them as they are, or spoils them alike where
errors are passed over. -/
theorem coincide_remainder (fuel fuel' : Nat)
    (same : Tree × List (Nat × Nat) → Tree × List (Nat × Nat) → Prop)
    (hspoilt : passing = true → ∀ read read' rest, same read read' →
      same (.concat [read.1, .invalid, rest], []) (.concat [read'.1, .invalid, rest], []))
    (more : Nat) : ∀ more' read read', same read read' → ∀ p q : Parser, p.Like n passing q →
      Coincide n (fun r r' => same r.1 r'.1 ∧ List.Forall₂ (Error.Beyond n) r.2.passed r'.2.passed)
        ((remainder fuel more read).run p) ((remainder fuel' more' read').run q) := by
  induction more with
  | zero => exact fun _ _ _ _ _ _ _ => .exhausted ⟨_, rfl⟩ _
  | succ more ih =>
    intro more' read read' hread p q hlike
    cases more' with
    | zero => exact .exhausted' ⟨_, rfl⟩ _
    | succ more' =>
      obtain ⟨⟨kind, _, _⟩, ⟨kind', start, _⟩, p', q', hp, hq, hlike', hp', hq', hboth⟩ :=
        hlike.peek
      rw [remainder, remainder, run_bind_of_ok (run_take_of_peek hp),
        run_bind_of_ok (run_take_of_peek hq)]
      rcases hboth with htoken | ⟨⟨hkind, hkind', _⟩, hafter⟩
      · have htaken := hlike'.taken hp' hq' htoken
        obtain ⟨hkind, hstart, _⟩ := htoken
        dsimp only at hkind hstart ⊢
        subst hstart
        cases hkind with
        | errors _ => exact ih more' _ _ hread _ _ htaken
        | same hkind =>
          split
          · exact hkind.elim
          · rw [StateT.run_bind, StateT.run_bind]
            refine Coincide.bind (mimics_refuse_passing
              (PatternFault.strayParenthesis.errorAt_beyond n start) _ _ htaken) ?_
            rintro ⟨_, p₁⟩ ⟨_, q₁⟩ ⟨⟨_, hpassing⟩, hlike₁⟩
            dsimp only at hlike₁ ⊢
            rw [StateT.run_bind, StateT.run_bind]
            refine ((displaced n passing fuel fuel').alternation p₁ q₁ hlike₁).bind ?_
            rintro ⟨⟨rest, _⟩, p₂⟩ ⟨⟨rest', _⟩, q₂⟩ ⟨⟨hrest, _⟩, hlike₂⟩
            dsimp only at hrest hlike₂ ⊢
            subst hrest
            exact ih more' _ _ (hspoilt hpassing _ _ rest hread) p₂ q₂ hlike₂
          · exact ih more' _ _ hread _ _ htaken
      · dsimp only at hkind hkind' ⊢
        subst hkind'
        rcases hkind with rfl | ⟨_, rfl⟩
        · exact .answered ⟨hread, hlike'.passed⟩
        · dsimp only
          rcases run_remainder_afterBody fuel more read (p := { p' with ahead := none }) rfl hafter
            with ⟨_, e, he, hrun⟩ | ⟨p'', hrun, hpassed⟩
          · rw [hrun]
            exact .exhausted he _
          · rw [hrun]
            exact .answered ⟨hread, hpassed ▸ hlike'.passed⟩

end

end Parser

end RegexEngine
