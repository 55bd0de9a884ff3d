import RegexEngine.Proofs.Flags.Apart
import RegexEngine.Proofs.Tree.Lasting

/-!
A raw literal is its body. The body is read as it is where it stands alone, with the flags that the
letters behind it set: the tree is the same, and whatever is said of places is said of places two
bytes further on, for the mark and the opening quote.
-/

namespace RegexEngine

namespace RawLiteral

variable {raw : RawLiteral}

/-- The letters behind a raw literal stand for flags, none of which says how errors are dealt
with. -/
theorem exists_flag_of_isModifier {c : Char} (h : isModifier c = true) :
    ∃ flag, Flags.ofLetter? c = some flag ∧ flag.Apart .strict ∧ flag.Apart .recovery := by
  have hall : (['i', 'm', 's', 'x', 'U', 'r'].all fun c => (Flags.ofLetter? c).any fun flag =>
      decide (flag.Apart .strict ∧ flag.Apart .recovery)) = true := by decide
  have hc := List.all_eq_true.mp hall c (by simpa [isModifier] using h)
  cases hflag : Flags.ofLetter? c with
  | none =>
    rw [hflag] at hc
    cases hc
  | some flag =>
    rw [hflag] at hc
    exact ⟨flag, rfl, of_decide_eq_true hc⟩

theorem ofLetters_modifiers (h : raw.modifiers.all isModifier = true) :
    Flags.ofLetters raw.modifiers = .ok raw.flags := by
  obtain ⟨flags, hflags⟩ : ∃ flags, Flags.ofLetters raw.modifiers = .ok flags := by
    refine Flags.exists_foldlM_ok (fun c hc start => ?_) Flags.empty
    obtain ⟨flag, hflag, _⟩ := exists_flag_of_isModifier (List.all_eq_true.mp h c hc)
    rw [hflag]
    exact ⟨_, rfl⟩
  rw [RawLiteral.flags, hflags]
  rfl

theorem apart_flags (h : raw.modifiers.all isModifier = true) :
    raw.flags.Apart .strict ∧ raw.flags.Apart .recovery := by
  have hletters := ofLetters_modifiers h
  have hflag (c : Char) (hc : c ∈ raw.modifiers) (flag : Flags)
      (hflag : Flags.ofLetter? c = some flag) : flag.Apart .strict ∧ flag.Apart .recovery := by
    obtain ⟨flag', hflag', hapart⟩ := exists_flag_of_isModifier (List.all_eq_true.mp h c hc)
    cases hflag.symm.trans hflag'
    exact hapart
  exact ⟨Flags.apart_of_letters (fun c hc flag h => (hflag c hc flag h).1) hletters,
    Flags.apart_of_letters (fun c hc flag h => (hflag c hc flag h).2) hletters⟩

end RawLiteral

namespace SyntaxTree

/-- The first tree was read from the same text as the second one, `n` bytes further on. -/
structure Beyond (n : Nat) (tree tree' : SyntaxTree) : Prop where
  root : tree.root = tree'.root
  flags : tree.flags = tree'.flags
  groups : tree.groups = tree'.groups
  alternatives : tree.alternatives = tree'.alternatives.map fun span => (span.1 + n, span.2 + n)
  recovered : List.Forall₂ (Error.Beyond n) tree.recovered tree'.recovered

/-- Both texts are read, as the same tree, or both are refused, for the same cause. Places in the
first one are `n` bytes further on. -/
inductive ReadBeyond (n : Nat) : Except Error SyntaxTree → Except Error SyntaxTree → Prop
  | read {tree tree' : SyntaxTree} (h : tree.Beyond n tree') : ReadBeyond n (.ok tree) (.ok tree')
  | refused {e e' : Error} (h : e.Beyond n e') : ReadBeyond n (.error e) (.error e')

end SyntaxTree

namespace Parser

variable {source : List Char} {raw : RawLiteral}

/-- The body of a raw literal stands behind two bytes. -/
theorem like_startInside (hfind : RawLiteral.find source = .ok (some raw))
    (hbody : RawLiteral.isRaw raw.body = false) (flags : Flags) (maxDepth : Nat) :
    (startInside source flags raw maxDepth).Like RawLiteral.bodyStart (flags.contains .recovery)
      (start raw.body (flags.union raw.flags) maxDepth) := by
  obtain ⟨_, _, hmodifiers⟩ := RawLiteral.spells_of_find hfind
  obtain ⟨hstrict, hrecovery⟩ := RawLiteral.apart_flags hmodifiers
  have hextended := Flags.contains_extended_union (RawLiteral.ofLetters_modifiers hmodifiers) flags
  have hphase : (start raw.body (flags.union raw.flags) maxDepth).lexer.phase = .body := by
    rw [start, Lexer.new, hbody]
    rfl
  refine ⟨.before ⟨?_, rfl, hphase, rfl, Nat.add_comm .., hextended.symm, ?_⟩, hextended.symm, rfl,
    Flags.contains_union hrecovery, rfl, rfl, rfl, .nil⟩
  · rfl
  · exact (Flags.contains_union hstrict).symm

theorem coincide_pattern (hfind : RawLiteral.find source = .ok (some raw))
    (hbody : RawLiteral.isRaw raw.body = false) (flags : Flags) (maxDepth fuel fuel' : Nat) :
    Coincide RawLiteral.bodyStart (fun r r' => SyntaxTree.Beyond RawLiteral.bodyStart r.1 r'.1)
      ((pattern flags fuel).run (start source flags maxDepth))
      ((pattern (flags.union raw.flags) (fuel' + 1)).run
        (start raw.body (flags.union raw.flags) maxDepth)) := by
  have hlike := like_startInside hfind hbody flags maxDepth
  obtain ⟨_, first, _, q, _, hpeek, _, _, hahead, hboth⟩ := hlike.peek
  have hkind : first.kind ≠ .rawMark := by
    rcases hboth with htoken | ⟨hend, _⟩
    · exact htoken.kind.ne_rawMark
    · rw [hend.kind']
      simp
  rw [pattern, pattern, run_bind_of_ok (run_opening_of_find hfind flags maxDepth),
    run_bind_of_ok (run_opening hpeek hkind), StateT.run_bind, StateT.run_bind,
    run_alternation_peeked fuel' hpeek hahead]
  refine ((displaced _ _ fuel (fuel' + 1)).alternation _ _ hlike).bind ?_
  rintro ⟨read, p₁⟩ ⟨read', q₁⟩ ⟨hread, hlike₁⟩
  dsimp only at hread hlike₁
  rw [StateT.run_bind, StateT.run_bind]
  have hspoilt (read read' : Tree × List (Nat × Nat)) (rest : Tree)
      (hread : SameAlternatives RawLiteral.bodyStart read read') :
      SameAlternatives RawLiteral.bodyStart (.concat [read.1, .invalid, rest], [])
        (.concat [read'.1, .invalid, rest], []) := ⟨by rw [hread.1], rfl⟩
  refine (coincide_remainder fuel (fuel' + 1) _ (fun _ => hspoilt) fuel (fuel' + 1) read read' hread
    p₁ q₁ hlike₁).bind ?_
  rintro ⟨⟨root, spans⟩, p₂⟩ ⟨⟨root', spans'⟩, q₂⟩ ⟨⟨hroot, hspans⟩, hpassed⟩
  dsimp only at hroot hspans hpassed
  subst hroot
  exact .answered ⟨rfl, (Flags.union_empty _).symm, rfl, hspans,
    List.forall₂_reverse_iff.mpr hpassed⟩

end Parser

namespace SyntaxTree

/-- A raw literal is read as its body is with the flags that its letters stand for. Places in the raw
literal are two bytes further on, for the mark and the opening quote. -/
theorem parse_rawLiteral {source : List Char} {raw : RawLiteral}
    (hfind : RawLiteral.find source = .ok (some raw)) (hbody : RawLiteral.isRaw raw.body = false)
    {flags : Flags} (hflag : flags.contains .rawLiterals = true) (maxDepth : Nat) :
    ReadBeyond 2 (parse source flags maxDepth)
      (parse raw.body (flags.union raw.flags) maxDepth) := by
  have hcoincide := Parser.coincide_pattern hfind hbody flags maxDepth (8 * source.length + 16)
    (8 * raw.body.length + 15)
  have hplaced (e : Error) := Parser.position_of_run_pattern (e := e) hfind flags maxDepth
  have hplaced' (e : Error) := Parser.position_of_run_pattern (e := e)
    (RawLiteral.find_of_isRaw_false hbody) (flags.union raw.flags) maxDepth
  have hexhaustion {e : Error} (h : e.IsExhaustion) : ¬e.position.isSome := by
    obtain ⟨_, rfl⟩ := h
    exact Bool.false_ne_true
  rw [parse_of_find hfind fun _ => hflag, parse_of_isRaw_false hbody, StateT.run'_eq,
    StateT.run'_eq]
  generalize (Parser.pattern flags _).run _ = r at hcoincide hplaced ⊢
  generalize (Parser.pattern (flags.union raw.flags) _).run _ = r' at hcoincide hplaced' ⊢
  cases hcoincide with
  | exhausted h _ => exact absurd (hplaced _ rfl) (hexhaustion h)
  | exhausted' h _ => exact absurd (hplaced' _ rfl) (hexhaustion h)
  | failed h => exact .refused h
  | answered h => exact .read h

private def isStrayAtThree : Except Error SyntaxTree → Bool
  | .error ⟨.pattern .strayParenthesis, some 3⟩ => true
  | _ => false

private theorem eq_of_isStrayAtThree {r : Except Error SyntaxTree} (h : isStrayAtThree r = true) :
    r = .error (PatternFault.strayParenthesis.errorAt 3) := by
  unfold isStrayAtThree at h
  split at h
  · rfl
  · cases h

/-- The body closes a group that is not open. Both are refused for that, two bytes apart. -/
theorem parse_rawLiteral_stray :
    RawLiteral.find "R'a|b)'x".toList = .ok (some ⟨'\'', "a|b)".toList, ['x']⟩) ∧
      parse "R'a|b)'x".toList .rawLiterals 10 =
        .error (PatternFault.strayParenthesis.errorAt 5) ∧
      parse "a|b)".toList (Flags.rawLiterals.union
        (RawLiteral.mk '\'' "a|b)".toList ['x']).flags) 10 =
        .error (PatternFault.strayParenthesis.errorAt 3) := by
  have hfind : RawLiteral.find "R'a|b)'x".toList =
      .ok (some ⟨'\'', "a|b)".toList, ['x']⟩) := by decide
  have halike := @parse_rawLiteral "R'a|b)'x".toList ⟨'\'', "a|b)".toList, ['x']⟩ hfind
    (by decide) .rawLiterals (by decide) 10
  have hbody := eq_of_isStrayAtThree (r := parse "a|b)".toList (Flags.rawLiterals.union
    (RawLiteral.mk '\'' "a|b)".toList ['x']).flags) 10) (by decide +kernel)
  refine ⟨hfind, ?_, hbody⟩
  rw [hbody] at halike
  generalize parse "R'a|b)'x".toList .rawLiterals 10 = whole at halike ⊢
  cases halike with
  | @refused e _ h =>
    obtain ⟨hcause, place, hplace, hposition⟩ := h
    cases hplace
    cases e
    cases hcause
    cases hposition
    rfl

end SyntaxTree

end RegexEngine
