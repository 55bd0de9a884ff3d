import RegexEngine.Proofs.Flags.Apart
import RegexEngine.Proofs.Tree.Lasting

/-!
Passing over errors only adds to what is known of a pattern. A parser that does and one that stops
at the first error are in lockstep up to there. After it, the one that goes on can only be stopped
by a limit. So errors that were passed over begin with the one that the other parser stops at, and
where there are none, both have read the same.
-/

namespace RegexEngine

namespace Parser

/-- The same parser, which stops at the first error. -/
def stopping (p : Parser) : Parser := { p with recovering := false }

/-- The results of a parser that passes over errors, and of one that stops at the first: a limit
stops the first one, or it passes over no error and the results are the same, or the second one
stops at the first error that the first one adds to those `before`. -/
inductive Outlives {α : Type} (before : List Error) :
    Except Error (α × Parser) → Except Error (α × Parser) → Prop
  | limited {e : Error} (he : e.kind = .limit) (r : Except Error (α × Parser)) :
      Outlives before (.error e) r
  | clean {v : α} {p : Parser} (hrecovering : p.recovering = true) (hpassed : p.passed = before) :
      Outlives before (.ok (v, p)) (.ok (v, p.stopping))
  | spoilt {v : α} {p : Parser} {first : Error} {later : List Error}
      (hrecovering : p.recovering = true) (hpassed : p.passed = later ++ first :: before) :
      Outlives before (.ok (v, p)) (.error first)

/-- A step outlives itself where errors are passed over. -/
def Recovers {α : Type} (x : Step α) : Prop :=
  ∀ p : Parser, p.recovering = true → Outlives p.passed (x.run p) (x.run p.stopping)

section

variable {α β : Type} {x : Step α}

theorem Outlives.bind {before : List Error} {r r' : Except Error (α × Parser)}
    (h : Outlives before r r') {f : α → Step β} (hf : ∀ v, Recovers (f v)) :
    Outlives before (r >>= fun r => (f r.1).run r.2) (r' >>= fun r => (f r.1).run r.2) := by
  cases h with
  | limited he r' => exact .limited he _
  | @clean v p hrecovering hpassed =>
    rw [← hpassed]
    exact hf v p hrecovering
  | @spoilt v p first later hrecovering hpassed =>
    have hnext := hf v p hrecovering
    change Outlives before ((f v).run p) (.error first)
    generalize (f v).run p = r at hnext ⊢
    generalize (f v).run p.stopping = r' at hnext
    -- what comes after the first error only adds others
    cases hnext with
    | limited he _ => exact .limited he _
    | clean hrecovering' hpassed' =>
      exact .spoilt hrecovering' (hpassed'.trans hpassed)
    | @spoilt _ _ second others hrecovering' hpassed' =>
      rw [hpassed, ← List.cons_append, ← List.append_assoc] at hpassed'
      exact .spoilt hrecovering' hpassed'

theorem recovers_pure (v : α) : Recovers (pure v) := fun _ hp => .clean hp rfl

theorem recovers_bind (h : Recovers x) {f : α → Step β} (hf : ∀ v, Recovers (f v)) :
    Recovers (x >>= f) := by
  intro p hp
  rw [StateT.run_bind, StateT.run_bind]
  exact (h p hp).bind hf

/-- What is done may depend on the parser, but not on how it deals with errors. -/
theorem recovers_get_bind {f : Parser → Step β} (hsame : ∀ p : Parser, f p.stopping = f p)
    (hf : ∀ p, Recovers (f p)) : Recovers (get >>= f) := by
  intro p hp
  change Outlives p.passed ((f p).run p) ((f p.stopping).run p.stopping)
  rw [hsame]
  exact hf p p hp

theorem recovers_modify {f : Parser → Parser} (hrecovering : ∀ p, (f p).recovering = p.recovering)
    (hpassed : ∀ p, (f p).passed = p.passed)
    (hstopping : ∀ p : Parser, f p.stopping = (f p).stopping) :
    Recovers (modify f : Step PUnit) := by
  intro p hp
  change Outlives p.passed (.ok (PUnit.unit, f p)) (.ok (PUnit.unit, f p.stopping))
  rw [hstopping]
  exact .clean ((hrecovering p).trans hp) (hpassed p)

theorem recovers_exhausted : Recovers (exhausted : Step α) := fun _ _ => .limited rfl _

theorem recovers_peek : Recovers peek := by
  intro p hp
  have hahead : p.stopping.ahead = p.ahead := rfl
  have hlexer : p.stopping.lexer = p.lexer := rfl
  rw [run_peek, run_peek, hahead, hlexer]
  cases p.ahead with
  | none => exact .clean hp rfl
  | some token => exact .clean hp rfl

theorem recovers_take : Recovers take := by
  have htaken : Recovers (modify fun p => { p with ahead := none } : Step PUnit) :=
    recovers_modify (fun _ => rfl) (fun _ => rfl) fun _ => rfl
  exact recovers_bind recovers_peek fun token => recovers_bind htaken fun _ => recovers_pure token

/-- An error is passed over, or is the end. -/
theorem recovers_refuse (e : Error) : Recovers (refuse e) := by
  intro p hp
  have hrun : (refuse e).run p = .ok (.invalid, { p with passed := e :: p.passed }) := by
    change (if p.recovering then _ else _ : Step Tree).run p = _
    rw [hp]
    rfl
  rw [hrun]
  exact .spoilt hp (List.nil_append _).symm

/-! Parts of expressions. -/

theorem recovers_applyToLexer (opts : OptionSet) : Recovers (applyToLexer opts) :=
  recovers_modify (fun _ => rfl) (fun _ => rfl) fun _ => rfl

theorem recovers_suffix (min : Nat) (max : Option Nat) : Recovers (suffix min max) := by
  refine recovers_bind recovers_peek fun token => ?_
  split
  · exact recovers_bind recovers_take fun _ => recovers_pure _
  · exact recovers_bind recovers_take fun _ => recovers_pure _
  · exact recovers_pure _

theorem recovers_quantified (atom : Tree) : Recovers (quantified atom) := by
  refine recovers_bind recovers_peek fun token => ?_
  split
  · exact recovers_pure _
  · refine recovers_bind recovers_take fun mark => ?_
    split
    · exact recovers_refuse _
    · refine recovers_bind (recovers_suffix _ _) fun q => recovers_bind recovers_peek fun next => ?_
      dsimp only
      split
      · exact recovers_bind recovers_take fun extra =>
          recovers_bind (recovers_refuse _) fun _ => recovers_pure _
      · exact recovers_pure _

theorem recovers_branches (start : Nat) (t : Tree) : Recovers (branches start t) := by
  unfold branches
  split
  · exact recovers_pure _
  · exact recovers_bind (recovers_refuse _) fun _ => recovers_pure _
  · exact recovers_pure _

theorem recovers_enter (start : Nat) : Recovers (enter start) := by
  intro p hp
  change Outlives p.passed ((if p.maxDepth ≤ p.depth then _ else _ : Step Unit).run p)
    ((if p.maxDepth ≤ p.depth then _ else _ : Step Unit).run p.stopping)
  split
  · exact .limited rfl _
  · exact .clean hp rfl

theorem recovers_leave (start : Nat) (extended : Bool) : Recovers (leave start extended) := by
  have hback : Recovers (modify fun p => { p with
      depth := p.depth - 1, lexer := { p.lexer with extended := extended } } : Step PUnit) :=
    recovers_modify (fun _ => rfl) (fun _ => rfl) fun _ => rfl
  refine recovers_bind recovers_peek fun token => ?_
  dsimp only
  split
  · exact recovers_bind recovers_take fun _ => hback
  · exact recovers_bind (recovers_refuse _) fun _ => hback

theorem recovers_nextGroup : Recovers nextGroup := fun _ hp => .clean hp rfl

/-! Whole expressions. -/

/-- Each function of the parser recovers, with any fuel. -/
structure Recovering (fuel : Nat) : Prop where
  alternation : Recovers (alternation fuel)
  moreBranches : ∀ start, Recovers (moreBranches fuel start)
  concatenation : Recovers (concatenation fuel)
  items : Recovers (items fuel)
  atom : Recovers (atom fuel)
  group : ∀ start opening, Recovers (group fuel start opening)
  body : ∀ start opts, Recovers (body fuel start opts)

theorem recovering_succ {fuel : Nat} (h : Recovering fuel) : Recovering (fuel + 1) where
  alternation := by
    unfold Parser.alternation
    refine recovers_bind recovers_peek fun token => recovers_bind h.concatenation fun first => ?_
    refine recovers_bind (h.moreBranches _) fun more => ?_
    split
    · exact recovers_pure _
    · exact recovers_pure _
  moreBranches start := by
    unfold Parser.moreBranches
    refine recovers_bind recovers_peek fun token => ?_
    split
    · refine recovers_bind recovers_take fun _ => recovers_bind h.concatenation fun branch => ?_
      exact recovers_bind (h.moreBranches _) fun more => recovers_pure _
    · exact recovers_pure _
  concatenation := by
    unfold Parser.concatenation
    exact recovers_bind h.items fun _ => recovers_pure _
  items := by
    unfold Parser.items
    refine recovers_bind recovers_peek fun token => ?_
    split
    · exact recovers_pure _
    · refine recovers_bind h.atom fun item => recovers_bind (recovers_quantified item) fun item => ?_
      exact recovers_bind h.items fun rest => recovers_pure _
  atom := by
    unfold Parser.atom
    refine recovers_bind recovers_take fun token => ?_
    split
    · exact recovers_pure _
    · split
      · exact recovers_bind recovers_nextGroup fun index =>
          recovers_bind (h.body _ _) fun child => recovers_pure _
      · exact h.group _ _
      · exact recovers_refuse _
      · exact recovers_refuse _
  group start opening := by
    unfold Parser.group
    split
    · exact recovers_bind (h.body _ _) fun child => recovers_pure _
    · exact recovers_bind recovers_nextGroup fun index =>
        recovers_bind (h.body _ _) fun child => recovers_pure _
    · exact recovers_bind (h.body _ _) fun child => recovers_pure _
    · exact recovers_bind (h.body _ _) fun child => recovers_pure _
    · exact recovers_bind (h.body _ _) fun child => recovers_pure _
    · exact recovers_bind (recovers_applyToLexer _) fun _ => recovers_pure _
    · exact recovers_bind (h.body _ _) fun inside =>
        recovers_bind (recovers_branches start inside) fun _ => recovers_pure _
    · exact recovers_bind (h.body _ _) fun test => recovers_bind (h.body _ _) fun inside =>
        recovers_bind (recovers_branches start inside) fun _ => recovers_pure _
  body start opts := by
    unfold Parser.body
    refine recovers_bind (recovers_enter start) fun _ =>
      recovers_get_bind (fun _ => rfl) fun p => ?_
    cases opts with
    | none =>
      exact recovers_bind h.alternation fun read =>
        recovers_bind (recovers_leave start _) fun _ => recovers_pure _
    | some opts =>
      exact recovers_bind (recovers_applyToLexer opts) fun _ => recovers_bind h.alternation fun read =>
        recovers_bind (recovers_leave start _) fun _ => recovers_pure _

theorem all_recover (fuel : Nat) : Recovering fuel := by
  induction fuel with
  | zero =>
    exact ⟨recovers_exhausted, fun _ => recovers_exhausted, recovers_exhausted, recovers_exhausted,
      recovers_exhausted, fun _ _ => recovers_exhausted, fun _ _ => recovers_exhausted⟩
  | succ fuel ih => exact recovering_succ ih

theorem recovers_remainder (fuel : Nat) : ∀ (more : Nat) (read : Tree × List (Nat × Nat)),
    Recovers (remainder fuel more read) := by
  intro more
  induction more with
  | zero => exact fun _ => recovers_exhausted
  | succ more ih =>
    intro read
    unfold remainder
    refine recovers_bind recovers_take fun token => ?_
    split
    · exact recovers_pure _
    · exact recovers_bind (recovers_refuse _) fun _ =>
        recovers_bind (all_recover fuel).alternation fun rest => ih _
    · exact ih _

theorem recovers_opening : Recovers opening := by
  refine recovers_bind recovers_peek fun token => ?_
  split
  · refine recovers_bind recovers_take fun _ => recovers_bind recovers_take fun _ => ?_
    refine recovers_get_bind (fun _ => rfl) fun p => ?_
    split
    · exact recovers_pure _
    · exact recovers_pure _
  · exact recovers_pure _

end

/-! Whole patterns. -/

/-- What is read of a pattern: how it opens, the expression, and the spans of its alternatives. -/
def reading (fuel : Nat) : Step ((Bool × Flags) × Tree × List (Nat × Nat)) := do
  let opened ← opening
  let first ← alternation fuel
  let read ← remainder fuel fuel first
  pure (opened, read)

/-- The tree of what was read, with the errors that were passed over, the last one first. -/
def assemble (flags : Flags) (read : (Bool × Flags) × Tree × List (Nat × Nat))
    (passed : List Error) : SyntaxTree :=
  { SyntaxTree.ofTree read.2.1 (flags.union read.1.2) with
    raw := read.1.1, alternatives := read.2.2, recovered := passed.reverse }

theorem run_pattern (flags : Flags) (fuel : Nat) (p : Parser) :
    (pattern flags fuel).run p = ((reading fuel).run p).map fun r =>
      (assemble flags r.1 r.2.passed, r.2) := by
  have hpattern : pattern flags fuel = reading fuel >>= fun read =>
      get >>= fun p => pure (assemble flags read p.passed) := by
    unfold pattern reading
    simp only [bind_assoc, pure_bind]
    rfl
  rw [hpattern, StateT.run_bind]
  cases (reading fuel).run p with
  | error e => rfl
  | ok r => rfl

theorem recovers_reading (fuel : Nat) : Recovers (reading fuel) :=
  recovers_bind recovers_opening fun _ => recovers_bind (all_recover fuel).alternation fun first =>
    recovers_bind (recovers_remainder fuel fuel first) fun _ => recovers_pure _

theorem stopping_start {flags : Flags} (h : flags.contains .recovery = false) (source : List Char)
    (maxDepth : Nat) :
    (start source (flags.union .recovery) maxDepth).stopping = start source flags maxDepth := by
  have hextended : (flags.union .recovery).contains .extended = flags.contains .extended :=
    Flags.contains_union (by decide)
  have hstrict : (flags.union .recovery).contains .strict = flags.contains .strict :=
    Flags.contains_union (by decide)
  rw [stopping, start, start, Lexer.new, Lexer.new, hextended, hstrict, h]

end Parser

namespace SyntaxTree

/-- What is read where errors are passed over, and what is read where they are not. The first is
refused only for a limit, at a place in the pattern. If it passes over no error, both are the same.
If it does, the second is refused for the first of them. -/
inductive Outlives : Except Error SyntaxTree → Except Error SyntaxTree → Prop
  | limited {e : Error} (hkind : e.kind = .limit) (hplace : e.position.isSome)
      (r : Except Error SyntaxTree) : Outlives (.error e) r
  | clean {tree plain : SyntaxTree} (hrecovered : tree.recovered = [])
      (hroot : plain.root = tree.root) (hgroups : plain.groups = tree.groups)
      (halternatives : plain.alternatives = tree.alternatives) : Outlives (.ok tree) (.ok plain)
  | spoilt {tree : SyntaxTree} {first : Error} {later : List Error}
      (hrecovered : tree.recovered = first :: later) : Outlives (.ok tree) (.error first)

/-- To pass over errors only adds to what is known of a pattern. -/
theorem parse_recovery {source : List Char} {found : Option RawLiteral}
    (hfind : RawLiteral.find source = .ok found) {flags : Flags}
    (hflag : RawLiteral.isRaw source = true → flags.contains .rawLiterals = true)
    (hrecovery : flags.contains .recovery = false) (maxDepth : Nat) :
    Outlives (parse source (flags.union .recovery) maxDepth) (parse source flags maxDepth) := by
  have hflag' : RawLiteral.isRaw source = true →
      (flags.union .recovery).contains .rawLiterals = true :=
    fun h => Flags.contains_union_left (hflag h) _
  have hplaced (e : Error) := Parser.position_of_run_pattern (e := e) hfind
    (flags.union .recovery) maxDepth
  have hrecovers := Parser.recovers_reading (8 * source.length + 16)
    (.start source (flags.union .recovery) maxDepth) (Flags.contains_union_self ..)
  rw [Parser.stopping_start hrecovery] at hrecovers
  rw [parse_of_find hfind hflag', parse_of_find hfind hflag, StateT.run'_eq, StateT.run'_eq]
  simp only [Parser.run_pattern] at hplaced ⊢
  generalize (Parser.reading _).run (.start source (flags.union .recovery) maxDepth) = r
    at hrecovers hplaced ⊢
  generalize (Parser.reading _).run (.start source flags maxDepth) = r' at hrecovers ⊢
  cases hrecovers with
  | limited he r' => exact .limited he (hplaced _ rfl) _
  | @clean v p _ hpassed =>
    exact .clean (congrArg List.reverse hpassed) rfl rfl rfl
  | @spoilt v p first later _ hpassed =>
    have hreverse : p.passed.reverse = first :: later.reverse := by
      rw [hpassed, List.reverse_append]
      rfl
    exact .spoilt hreverse

/-- A mark with nothing to repeat, a parenthesis that closes nothing, and one that is not closed. -/
private def passesOverMixed : Except Error SyntaxTree → Bool
  | .ok tree =>
    match tree.recovered with
    | [⟨.pattern .nothingToRepeat, some 0⟩, ⟨.pattern .strayParenthesis, some 2⟩,
        ⟨.pattern .missingParenthesis, some 3⟩] => true
    | _ => false
  | .error _ => false

private theorem exists_of_passesOverMixed {r : Except Error SyntaxTree}
    (h : passesOverMixed r = true) : ∃ tree, r = .ok tree ∧
      tree.recovered = [PatternFault.nothingToRepeat.errorAt 0,
        PatternFault.strayParenthesis.errorAt 2, PatternFault.missingParenthesis.errorAt 3] := by
  cases r with
  | error e => cases h
  | ok tree =>
    refine ⟨tree, rfl, ?_⟩
    unfold passesOverMixed at h
    dsimp only at h
    split at h
    · assumption
    · cases h

/-- Three errors are passed over, and the first of them is the one that stops the other parser. -/
theorem parse_recovery_mixed :
    RawLiteral.find "*a)(".toList = .ok none ∧
      (∃ tree, parse "*a)(".toList (Flags.empty.union .recovery) 5 = .ok tree ∧
        tree.recovered = [PatternFault.nothingToRepeat.errorAt 0,
          PatternFault.strayParenthesis.errorAt 2, PatternFault.missingParenthesis.errorAt 3]) ∧
      parse "*a)(".toList .empty 5 = .error (PatternFault.nothingToRepeat.errorAt 0) := by
  have hfind : RawLiteral.find "*a)(".toList = .ok none := by decide
  have houtlives := @parse_recovery "*a)(".toList none hfind .empty (by decide) (by decide) 5
  obtain ⟨tree, htree, hrecovered⟩ := exists_of_passesOverMixed
    (r := parse "*a)(".toList (Flags.empty.union .recovery) 5) (by decide +kernel)
  refine ⟨hfind, ⟨tree, htree, hrecovered⟩, ?_⟩
  rw [htree] at houtlives
  generalize parse "*a)(".toList .empty 5 = plain at houtlives ⊢
  cases houtlives with
  | clean h => cases hrecovered.symm.trans h
  | spoilt h =>
    cases hrecovered.symm.trans h
    rfl

end SyntaxTree

end RegexEngine
