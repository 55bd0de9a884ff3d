import RegexEngine.Proofs.Flags.Apart
import RegexEngine.Proofs.Steps
import RegexEngine.Proofs.Tree.Alternatives
import RegexEngine.SyntaxTree.Parser

/-!
What the parser answers with. No tree that was read has an alternation without alternatives: the
parser makes one only after it has read a bar.
-/

namespace RegexEngine

namespace Parser

open RegexEngine.Tree

theorem returns_exhausted {α : Type} {post : α → Prop} : Returns (exhausted : Step α) post := by
  intro p v p' hrun
  cases hrun

theorem returns_refuse (e : Error) : Returns (refuse e) AlwaysOffers := by
  intro p v p' hrun
  change (if p.recovering then _ else _ : Step Tree).run p = _ at hrun
  split at hrun
  · cases hrun
    exact alwaysOffers_invalid
  · cases hrun

theorem alwaysOffers_leaf? {kind : TokenKind} {t : Tree} (h : leaf? kind = some t) :
    t.AlwaysOffers := by
  cases kind <;> cases h
  case assertion a => cases a <;> simp [ofAssertion, AlwaysOffers]
  all_goals simp [AlwaysOffers]

theorem returns_quantified {atom : Tree} (h : atom.AlwaysOffers) :
    Returns (quantified atom) AlwaysOffers := by
  refine returns_bind_any fun token => ?_
  split
  · exact returns_pure h
  · refine returns_bind_any fun mark => ?_
    split
    · exact returns_refuse _
    · refine returns_bind_any fun q => returns_bind_any fun next => ?_
      have hrepeated : (repetition q atom).AlwaysOffers := (alwaysOffers_repetition q).mpr h
      dsimp only
      split
      · exact returns_bind_any fun _ => returns_bind_any fun _ => returns_pure hrepeated
      · exact returns_pure hrepeated

theorem returns_branches (start : Nat) {t : Tree} (h : t.AlwaysOffers) :
    Returns (branches start t) fun r => r.1.AlwaysOffers ∧ ∀ no ∈ r.2, no.AlwaysOffers := by
  unfold branches
  split
  · have h := (alwaysOffers_alt.mp h).2
    exact returns_pure ⟨h _ (by simp), fun no hno => by
      cases hno
      exact h _ (by simp)⟩
  · have h := (alwaysOffers_alt.mp h).2
    refine returns_bind_any fun _ => returns_pure ⟨h _ (by simp), fun no hno => ?_⟩
    cases hno
    exact h _ (by simp)
  · exact returns_pure ⟨h, fun no hno => nomatch hno⟩

/-- What each function of the parser answers with, where the fuel is as given. -/
structure Reads (fuel : Nat) : Prop where
  alternation : Returns (alternation fuel) fun r => r.1.AlwaysOffers
  moreBranches : ∀ start, Returns (moreBranches fuel start) fun r => ∀ t ∈ r.1, t.AlwaysOffers
  concatenation : Returns (concatenation fuel) AlwaysOffers
  items : Returns (items fuel) fun ts => ∀ t ∈ ts, t.AlwaysOffers
  atom : Returns (atom fuel) AlwaysOffers
  group : ∀ start opening, Returns (group fuel start opening) AlwaysOffers
  body : ∀ start opts, Returns (body fuel start opts) AlwaysOffers

theorem reads_succ {fuel : Nat} (h : Reads fuel) : Reads (fuel + 1) where
  alternation := by
    unfold Parser.alternation
    refine returns_bind_any fun token => ?_
    refine returns_bind h.concatenation fun first hfirst => ?_
    refine returns_bind (h.moreBranches _) fun more hmore => ?_
    split
    · exact returns_pure hfirst
    · exact returns_pure (alwaysOffers_alt.mpr
        ⟨List.cons_ne_nil _ _, List.forall_mem_cons.mpr ⟨hfirst, hmore⟩⟩)
  moreBranches start := by
    unfold Parser.moreBranches
    refine returns_bind_any fun token => ?_
    split
    · refine returns_bind_any fun _ => returns_bind h.concatenation fun branch hbranch => ?_
      refine returns_bind (h.moreBranches _) fun more hmore => ?_
      exact returns_pure (List.forall_mem_cons.mpr ⟨hbranch, hmore⟩)
    · exact returns_pure fun t ht => absurd ht List.not_mem_nil
  concatenation := by
    unfold Parser.concatenation
    exact returns_bind h.items fun ts hts => returns_pure (alwaysOffers_ofList hts)
  items := by
    unfold Parser.items
    refine returns_bind_any fun token => ?_
    split
    · exact returns_pure fun t ht => absurd ht List.not_mem_nil
    · refine returns_bind h.atom fun item hitem => ?_
      refine returns_bind (returns_quantified hitem) fun item hitem => ?_
      refine returns_bind h.items fun rest hrest => ?_
      exact returns_pure (List.forall_mem_cons.mpr ⟨hitem, hrest⟩)
  atom := by
    unfold Parser.atom
    refine returns_bind_any fun token => ?_
    split
    · rename_i tree hleaf
      exact returns_pure (alwaysOffers_leaf? hleaf)
    · split
      · refine returns_bind_any fun index => ?_
        refine returns_bind (h.body _ _) fun child hchild => ?_
        exact returns_pure ((alwaysOffers_capture ..).mpr hchild)
      · exact h.group _ _
      · exact returns_refuse _
      · exact returns_refuse _
  group start opening := by
    unfold Parser.group
    split
    · exact returns_bind (h.body _ _) fun child hchild =>
        returns_pure (alwaysOffers_group.mpr hchild)
    · refine returns_bind_any fun index => ?_
      exact returns_bind (h.body _ _) fun child hchild =>
        returns_pure ((alwaysOffers_capture ..).mpr hchild)
    · exact returns_bind (h.body _ _) fun child hchild =>
        returns_pure ((alwaysOffers_look _).mpr hchild)
    · exact returns_bind (h.body _ _) fun child hchild =>
        returns_pure (alwaysOffers_atomic.mpr hchild)
    · exact returns_bind (h.body _ _) fun child hchild =>
        returns_pure ((alwaysOffers_scope _).mpr hchild)
    · exact returns_bind_any fun _ => returns_pure (alwaysOffers_options _)
    · refine returns_bind (h.body _ _) fun inside hinside => ?_
      exact returns_bind (returns_branches start hinside) fun branches hbranches =>
        returns_pure ((alwaysOffers_groupCond ..).mpr hbranches)
    · refine returns_bind (h.body _ _) fun test htest => ?_
      refine returns_bind (h.body _ _) fun inside hinside => ?_
      exact returns_bind (returns_branches start hinside) fun branches hbranches =>
        returns_pure ((alwaysOffers_lookCond ..).mpr ⟨htest, hbranches⟩)
  body start opts := by
    unfold Parser.body
    refine returns_bind_any fun _ => returns_bind_any fun p => ?_
    dsimp only
    split
    · exact returns_bind_any fun _ => returns_bind h.alternation fun read hread =>
        returns_bind_any fun _ => returns_pure hread
    · exact returns_bind h.alternation fun read hread =>
        returns_bind_any fun _ => returns_pure hread

theorem reads (fuel : Nat) : Reads fuel := by
  induction fuel with
  | zero =>
    exact ⟨returns_exhausted, fun _ => returns_exhausted, returns_exhausted, returns_exhausted,
      returns_exhausted, fun _ _ => returns_exhausted, fun _ _ => returns_exhausted⟩
  | succ fuel ih => exact reads_succ ih

theorem returns_remainder (fuel : Nat) : ∀ (more : Nat) (read : Tree × List (Nat × Nat)),
    read.1.AlwaysOffers → Returns (remainder fuel more read) fun r => r.1.AlwaysOffers := by
  intro more
  induction more with
  | zero => exact fun _ _ => returns_exhausted
  | succ more ih =>
    intro read hread
    unfold remainder
    refine returns_bind_any fun token => ?_
    split
    · exact returns_pure hread
    · refine returns_bind_any fun _ => returns_bind (reads fuel).alternation fun rest hrest => ?_
      exact ih _ (alwaysOffers_concat.mpr (by simp [hread, hrest]))
    · exact ih _ hread

theorem returns_pattern (flags : Flags) (fuel : Nat) :
    Returns (pattern flags fuel) fun tree => tree.root.AlwaysOffers := by
  refine returns_bind_any fun opening => ?_
  refine returns_bind (reads fuel).alternation fun first hfirst => ?_
  refine returns_bind (returns_remainder fuel fuel first hfirst) fun read hread => ?_
  exact returns_bind_any fun _ => returns_pure hread.renumber

/-! Flags. -/

theorem apart_rawFlags {late : Flags} (h : late.Late) (raw : RawLiteral) :
    raw.flags.Apart late := by
  unfold RawLiteral.flags
  cases hletters : Flags.ofLetters raw.modifiers with
  | error c => exact UInt32.zero_and
  | ok flags => exact h.apart_of_ofLetters hletters

theorem returns_opening {late : Flags} (h : late.Late) :
    Returns opening fun r => r.2.Apart late := by
  have hempty : Flags.empty.Apart late := UInt32.zero_and
  refine returns_bind_any fun token => ?_
  split
  · refine returns_bind_any fun _ => returns_bind_any fun _ => returns_bind_any fun p => ?_
    split
    · exact returns_pure (apart_rawFlags h _)
    · exact returns_pure hempty
  · exact returns_pure hempty

theorem returns_pattern_flags {late : Flags} (h : late.Late) (flags : Flags) (fuel : Nat) :
    Returns (pattern flags fuel) fun tree => tree.flags.contains late = flags.contains late := by
  refine returns_bind (returns_opening h) fun opened hopened => ?_
  refine returns_bind_any fun first => returns_bind_any fun read => returns_bind_any fun p => ?_
  exact returns_pure (Flags.contains_union hopened)

/-- What is done to the answers of a step that comes second is done to the answers of both. -/
theorem run_bind_map {α β : Type} {x : Step α} {f f' : α → Step β}
    {change : β × Parser → β × Parser} (h : ∀ v p, (f' v).run p = ((f v).run p).map change)
    (p : Parser) : (x >>= f').run p = ((x >>= f).run p).map change := by
  rw [StateT.run_bind, StateT.run_bind]
  cases x.run p with
  | error e => rfl
  | ok answer => exact h answer.1 answer.2

/-- The flags that a pattern is asked for with are only handed on. -/
theorem run_pattern_union (flags more : Flags) (fuel : Nat) (p : Parser) :
    (pattern (flags.union more) fuel).run p = ((pattern flags fuel).run p).map fun read =>
      ({ read.1 with flags := read.1.flags.union more }, read.2) := by
  refine run_bind_map (fun opened p => ?_) p
  refine run_bind_map (fun first p => ?_) p
  refine run_bind_map (fun read p => ?_) p
  refine run_bind_map (fun last p => ?_) p
  refine congrArg (fun all => Except.ok (SyntaxTree.mk _ all _ _ _ _, p)) ?_
  exact Flags.union_right_comm ..

end Parser

namespace SyntaxTree

variable {source : List Char} {flags : Flags} {maxDepth : Nat} {tree : SyntaxTree}

/-- What was read comes from a run of the parser. -/
theorem exists_run_of_parse (h : parse source flags maxDepth = .ok tree) :
    ∃ fuel p p', (Parser.pattern flags fuel).run p = .ok (tree, p') := by
  unfold parse at h
  split at h
  · cases h
  · split at h
    · cases h
    · dsimp only at h
      rw [StateT.run'_eq] at h
      cases hrun : (Parser.pattern flags (8 * source.length + 16)).run
          ⟨.new source flags, none, flags.contains .recovery, maxDepth, 0, 0, []⟩ with
      | error e =>
        rw [hrun] at h
        cases h
      | ok answer =>
        rw [hrun] at h
        cases h
        exact ⟨_, _, _, hrun⟩

/-- No tree that was read has an alternation without alternatives. -/
theorem alwaysOffers_parse (h : parse source flags maxDepth = .ok tree) :
    tree.root.AlwaysOffers := by
  obtain ⟨fuel, p, p', hrun⟩ := exists_run_of_parse h
  exact Parser.returns_pattern flags fuel p tree p' hrun

/-- No letter of a pattern says what becomes of the automaton. -/
theorem contains_late_parse {late : Flags} (hlate : late.Late)
    (h : parse source flags maxDepth = .ok tree) :
    tree.flags.contains late = flags.contains late := by
  obtain ⟨fuel, p, p', hrun⟩ := exists_run_of_parse h
  exact Parser.returns_pattern_flags hlate flags fuel p tree p' hrun

theorem contains_flags_parse (h : parse source flags maxDepth = .ok tree) :
    tree.flags.contains .optimized = flags.contains .optimized ∧
      tree.flags.contains .deterministic = flags.contains .deterministic :=
  ⟨contains_late_parse .optimized h, contains_late_parse .deterministic h⟩

/-- What becomes of the automaton makes no difference to how a pattern is read. -/
theorem parse_union {late : Flags} (hlate : late.Late) (source : List Char) (flags : Flags)
    (maxDepth : Nat) :
    parse source (flags.union late) maxDepth = (parse source flags maxDepth).map fun tree =>
      { tree with flags := tree.flags.union late } := by
  have hnew : Lexer.new source (flags.union late) = Lexer.new source flags := by
    unfold Lexer.new
    rw [hlate.contains_union (by decide), hlate.contains_union (by decide)]
  unfold parse
  rw [hlate.contains_union (by decide), hlate.contains_union (by decide), hnew]
  split
  · rfl
  · split
    · rfl
    · dsimp only
      rw [StateT.run'_eq, StateT.run'_eq, Parser.run_pattern_union]
      cases (Parser.pattern flags (8 * source.length + 16)).run
          ⟨.new source flags, none, flags.contains .recovery, maxDepth, 0, 0, []⟩ <;> rfl

theorem parse_union_optimized (source : List Char) (flags : Flags) (maxDepth : Nat) :
    parse source (flags.union .optimized) maxDepth = (parse source flags maxDepth).map fun tree =>
      { tree with flags := tree.flags.union .optimized } :=
  parse_union .optimized source flags maxDepth

end SyntaxTree

end RegexEngine
