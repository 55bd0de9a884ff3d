import RegexEngine.Proofs.Automaton.Determines
import RegexEngine.Proofs.Pattern.Optimized
import RegexEngine.Proofs.Search.Starts

/-!
The flag that asks for a deterministic automaton changes which match is found at a place, but not
where matches are. A pattern is read in the same way with and without it, and the automaton that is
made deterministic is the one that is searched otherwise, but for the numbers of its states. So both
patterns find something at the same places; what the deterministic one finds ends as late as the
other automaton accepts what stands up to there.
-/

namespace RegexEngine

namespace Automaton

variable {a : Automaton} {ctx ctx' : Context}

/-- Where a match may end anywhere, what is accepted up to the end of the region is one. -/
theorem ends_search_eq_of_inside (hregion : ctx.RegionInside) (x : Searcher)
    (start : Nat) : a.Ends (ctx.search x false) start = {stop | start ≤ stop ∧ stop ≤ ctx.bounds.2 ∧
      a.accepts (ctx.input.extract start stop) = true} := by
  ext stop
  have hsize : (ctx.search x false).input.size = ctx.bounds.2 := by
    rw [Context.search, Array.size_extract, Nat.min_eq_left hregion, Nat.sub_zero]
  have hends : (ctx.search x false).endsAt stop = true := rfl
  rw [Ends, Set.mem_ofPred_eq, Set.mem_ofPred_eq, hsize, hends]
  refine and_congr_right fun hstart => and_congr_right fun hstop => ?_
  have hextract : (ctx.search x false).input.extract start stop = ctx.input.extract start stop := by
    simp [Context.search, Array.extract_extract, Nat.min_eq_left hstop]
  rw [hextract, and_iff_right rfl]

/-- Contexts that match have the same ends of matches. -/
theorem ends_search_eq (hctx : ctx.Matches ctx') (x y : Searcher) (full : Bool) :
    a.Ends (ctx'.search y full) = a.Ends (ctx.search x full) := by
  have hsearch : (ctx.search x full).Matches (ctx'.search y full) := hctx.search full
  unfold Ends Search.endsAt
  rw [hsearch.input_eq, hsearch.full_eq]

end Automaton

namespace Pattern

open Automaton

variable {tree : SyntaxTree} {base nextId : UInt32} {c : Automaton}

/-- What is compiled into a nondeterministic automaton accepts what it was compiled from. -/
theorem Compiles.restates (h : Compiles tree .default base nextId c)
    (hdeterministic : tree.flags.contains .deterministic = false)
    (hoffers : tree.root.AlwaysOffers) :
    ∃ a nextId' i, (Automaton.ofTree tree defaultMaxStates).run base = (.ok a, nextId') ∧
      a.Trim i ∧ Restates a c := by
  obtain ⟨_, a, b, nextId₁, nextId₂, ha, hb, hc⟩ := h
  rw [run_makeDeterministic hdeterministic] at hb
  cases hb
  obtain ⟨i, htrim⟩ := ofTree_trim hoffers (by decide) ha
  refine ⟨a, nextId₁, i, ha, htrim, ?_⟩
  rcases simplify_ok hc with rfl | hrun
  · exact .refl htrim.wellFormed htrim.initial_eq
  · obtain ⟨b, hrun', hrestates⟩ :=
      exists_optimize htrim.wellFormed htrim.initial_eq htrim.kind_eq nextId₁
    cases hrun.symm.trans hrun'
    exact hrestates

/-- What is compiled into a deterministic automaton is made deterministic before, and asks for
nothing but characters. -/
theorem Compiles.determines (h : Compiles tree .default base nextId c)
    (hdeterministic : tree.flags.contains .deterministic = true) :
    ∃ a nextId', (Automaton.ofTree tree defaultMaxStates).run base = (.ok a, nextId') ∧
      a.AllOpen ∧ a.supportsLockstep = true ∧ Determines a c := by
  obtain ⟨_, a, b, nextId₁, nextId₂, ha, hb, hc⟩ := h
  unfold makeDeterministic at hb
  rw [if_pos hdeterministic] at hb
  split at hb
  · cases hb
  · obtain ⟨dfa, nextId₃, hdfa, hb⟩ := bindFresh_ok hb
    obtain ⟨hopen, hsupported⟩ := convertible_of_toDfa hdfa
    refine ⟨a, nextId₁, ha, hopen, hsupported, ?_⟩
    obtain ⟨least, nextId₄, hleast, hdetermines⟩ :=
      (Determines.of_toDfa (by decide) hdfa).exists_minimize nextId₃
    cases hb.symm.trans hleast
    rcases simplify_ok hc with rfl | hrun
    · exact hdetermines
    · obtain ⟨b', nextId₅, hrun', hdetermines'⟩ := hdetermines.exists_optimize nextId₂
      cases hrun.symm.trans hrun'
      exact hdetermines'

/-- The second pattern is searched with a deterministic automaton for the first one, which takes one
character after the other. -/
structure MadeDeterministic (p q : Pattern) : Prop where
  allOpen : p.automaton.AllOpen
  supportsLockstep : p.automaton.supportsLockstep = true
  wellFormed : p.automaton.WellFormed
  kind_eq : p.automaton.kind = .nfa
  exists_initial : ∃ i, p.automaton.initial = some i
  determines : Determines p.automaton q.automaton
  anchored_eq : q.automaton.flags.contains .anchored = p.automaton.flags.contains .anchored

/-- Two patterns of one text, the second of which was asked to be deterministic. -/
theorem madeDeterministic_of_ofText {source : String} {flags : Flags} {p q : Pattern}
    {base' nextId' : UInt32} (hflag : flags.contains .deterministic = false)
    (hp : (ofText source flags .default).run base = (.ok p, nextId))
    (hq : (ofText source (flags.union .deterministic) .default).run base' = (.ok q, nextId')) :
    MadeDeterministic p q := by
  obtain ⟨-, tree, c, hparse, hcompiles, rfl⟩ := ofText_ok hp
  obtain ⟨-, tree', d, hparse', hcompiles', rfl⟩ := ofText_ok hq
  have hoffers := SyntaxTree.alwaysOffers_parse hparse
  have hparsed :=
    SyntaxTree.parse_union .deterministic source.toList flags Config.default.maxNesting
  rw [hparse, hparse'] at hparsed
  obtain rfl : tree' = { tree with flags := tree.flags.union .deterministic } :=
    Except.ok.inj hparsed
  have hflag' := SyntaxTree.contains_late_parse .deterministic hparse
  obtain ⟨a, nextId₁, i, ha, htrim, hrestates⟩ := hcompiles.restates (hflag'.trans hflag) hoffers
  obtain ⟨b, nextId₂, hb, hopen, hsupported, hdetermines⟩ :=
    hcompiles'.determines (Flags.contains_union_self ..)
  -- What is made deterministic is what the first pattern was compiled into, with other numbers.
  have hshifted := run_ofTree_union .deterministic tree defaultMaxStates base (base' - base)
  rw [ha, UInt32.add_comm, UInt32.sub_add_cancel, hb] at hshifted
  obtain rfl := Except.ok.inj (congrArg Prod.fst hshifted)
  have hoffers' : { tree with flags := tree.flags.union .deterministic }.root.AlwaysOffers :=
    hoffers
  obtain ⟨j, htrim'⟩ := ofTree_trim hoffers' (by decide) hb
  have hback : Restates _ a := restates_of_unnumbered htrim'.wellFormed htrim.wellFormed
    htrim'.initial_eq (htrim.initial_eq.trans (htrim.initial_eq.symm.trans htrim'.initial_eq)) rfl
    (by simp [shifted, Function.comp_def, State.unnumbered, State.shifted])
  have hall := hback.trans hrestates
  obtain ⟨k, hk⟩ := hall.exists_initial
  have hflags := hall.trans (restates_withFlags hall.wellFormed hk tree.flags)
  exact ⟨hflags.allOpen hopen, hflags.supportsLockstep hsupported, hflags.wellFormed,
    hflags.kind_eq.trans htrim'.kind_eq, hflags.exists_initial,
    (hdetermines.withFlags _).congr fun input => (hflags.accepts_eq input).symm,
    Flags.contains_union (by decide)⟩

namespace MadeDeterministic

variable {p q : Pattern}

/-- The first pattern finds some end of a match. -/
theorem finds (h : MadeDeterministic p q) :
    p.searcher.Finds fun search start stop => stop ∈ p.automaton.Ends search start where
  attempts _ hbailout _ hstart :=
    h.allOpen.attempt_meets h.supportsLockstep h.wellFormed h.kind_eq hbailout h.exists_initial
      hstart
  scope _ := scope_of_scaledLimits

/-- The second pattern finds the last end of a match. -/
theorem finds_greatest (h : MadeDeterministic p q) :
    q.searcher.Finds fun search start => IsGreatest (p.automaton.Ends search start) where
  attempts search hbailout start hstart := by
    rw [← ends_congr h.determines.accepts_eq]
    exact h.determines.deterministic.attempt_meets h.determines.kind_eq hbailout
      h.determines.exists_initial hstart
  scope _ := scope_of_scaledLimits

/-- Attempts at the same places find something at the same one. -/
theorem start_eq (h : MadeDeterministic p q) {ctx ctx' : Context} (hctx : ctx.Matches ctx') {start : Nat}
    {full anchored : Bool} {r r' : Option (Nat × Found)}
    (hr : Decides (ctx.tried p.searcher start anchored)
      (fun start stop => stop ∈ p.automaton.Ends (ctx.search p.searcher full) start) r)
    (hr' : Decides (ctx'.tried q.searcher start anchored)
      (fun start => IsGreatest (p.automaton.Ends (ctx'.search q.searcher full) start)) r') :
    r.map Prod.fst = r'.map Prod.fst := by
  have htried : ctx'.tried q.searcher start anchored = ctx.tried p.searcher start anchored := by
    have hanchored : q.searcher.flags.contains .anchored = p.searcher.flags.contains .anchored :=
      h.anchored_eq
    rw [Context.tried, hanchored, hctx.bounds_eq, Context.tried]
  rw [ends_search_eq hctx p.searcher, htried] at hr'
  exact hr.start_eq hr' fun _ => exists_isGreatest_ends.symm

end MadeDeterministic

/-- Asking for a deterministic automaton turns the first of the matches at a place into the longest
one. Where a text can be compiled with and without that flag, both patterns match or do not match the
whole region, and both find their next match at the same place or none; the deterministic one finds
the longest that the automaton of the other accepts, up to the end of the region. This holds in every
input, from every cursor and in every region, with any other flags, whatever the modes, the bounds
and the clocks are, and from whatever numbers the states were counted. Only where a bound stops one
of the searches nothing is said. -/
theorem deterministic_finds_longest {source : String} {flags : Flags} {p q : Pattern}
    {base' nextId' : UInt32} (hflag : flags.contains .deterministic = false)
    (hp : (ofText source flags .default).run base = (.ok p, nextId))
    (hq : (ofText source (flags.union .deterministic) .default).run base' = (.ok q, nextId'))
    {ctx ctx' : Context} (hctx : ctx.Matches ctx') (hregion : ctx.RegionInside) :
    (¬StoppedAtLimit (ctx.matchWhole p.searcher).1 →
      ¬StoppedAtLimit (ctx'.matchWhole q.searcher).1 →
        ∃ m m', (ctx.matchWhole p.searcher).1 = .ok m ∧ (ctx'.matchWhole q.searcher).1 = .ok m' ∧
          m'.isSome = m.isSome) ∧
    (ctx.exhausted = false → ctx'.exhausted = false →
      ¬StoppedAtLimit (ctx.findNext p.searcher).1 →
        ¬StoppedAtLimit (ctx'.findNext q.searcher).1 →
          ∃ m m', (ctx.findNext p.searcher).1 = .ok m ∧ (ctx'.findNext q.searcher).1 = .ok m' ∧
            m'.map Match.start = m.map Match.start ∧
              ∀ found, m' = some found → IsGreatest {stop | found.start ≤ stop ∧
                stop ≤ ctx.bounds.2 ∧
                  p.automaton.accepts (ctx.input.extract found.start stop) = true} found.stop) := by
  have h := madeDeterministic_of_ofText hflag hp hq
  have hregion' : ctx'.RegionInside := by
    rw [Context.RegionInside, hctx.bounds_eq, hctx.input_eq]
    exact hregion
  constructor
  · intro hlimit hlimit'
    obtain ⟨r, hr, hdecides⟩ :=
      Context.matchWhole_decides h.finds hctx.bailout_eq hregion hlimit
    obtain ⟨r', hr', hdecides'⟩ :=
      Context.matchWhole_decides h.finds_greatest hctx.bailout_eq' hregion' hlimit'
    rw [hctx.bounds_eq] at hdecides'
    have hstart := congrArg Option.isSome (h.start_eq hctx hdecides hdecides')
    refine ⟨_, _, hr, hr', ?_⟩
    simpa using hstart.symm
  · intro hexhausted hexhausted' hlimit hlimit'
    obtain ⟨r, hr, hdecides⟩ :=
      Context.findNext_decides h.finds hctx.bailout_eq hregion hexhausted hlimit
    obtain ⟨r', hr', hdecides'⟩ :=
      Context.findNext_decides h.finds_greatest hctx.bailout_eq' hregion' hexhausted' hlimit'
    have hnext : ctx'.nextStart = ctx.nextStart := by
      rw [Context.nextStart, hctx.cursor_eq, hctx.bounds_eq, Context.nextStart]
    rw [hnext] at hdecides'
    have hstart := h.start_eq hctx hdecides hdecides'
    refine ⟨_, _, hr, hr', ?_, ?_⟩
    · simpa [Function.comp_def, Searcher.toMatch] using hstart.symm
    · rintro _ hfound
      obtain ⟨⟨start, found⟩, rfl, rfl⟩ := Option.map_eq_some_iff.mp hfound
      rw [← ends_search_eq_of_inside hregion p.searcher, ← ends_search_eq hctx p.searcher q.searcher]
      exact hdecides'.1

/-! A letter that is tried after nothing. -/

private theorem parse_singleA : Matcher.parse ['a'] = .ok (.literal ['a'] false) := rfl

private def takingA (source target : Nat) : Transition :=
  ⟨source, target, some ⟨['a'], .literal ['a'] false, parse_singleA⟩, 0⟩

private def stateOf (id : UInt32) (accepting : Bool) (transitions : List Transition) : State :=
  { State.new id accepting with transitions := transitions }

/-- The tree of a letter that may be there, but is not tried first. -/
private def lazyA : SyntaxTree :=
  ⟨.repetition ⟨0, some 1, false, false⟩ (.literal 'a'), .deterministic, false, [], [], []⟩

/-- Trees cannot be compared, so this says whether a text was read as that tree. -/
private def isLazyA : Except Error SyntaxTree → Bool
  | .ok ⟨.repetition q (.literal c), flags, raw, groups, spans, recovered⟩ =>
    (q, c, flags, raw, groups, spans, recovered) ==
      (⟨0, some 1, false, false⟩, 'a', .deterministic, false, [], [], [])
  | _ => false

private theorem eq_of_isLazyA {x : Except Error SyntaxTree} (h : isLazyA x = true) :
    x = .ok lazyA := by
  unfold isLazyA at h
  split at h
  · cases eq_of_beq h
    rfl
  · cases h

/-- An automaton that starts at its first state. -/
private def startingAtFirst (kind : AutomatonKind) (states : Array State) : Automaton :=
  ⟨kind, states, some 0, some 0, .deterministic, none⟩

/-- Its automaton, as it is compiled. -/
private def compiledA : Automaton := startingAtFirst .nfa
  #[stateOf 9 false [⟨0, 1, none, 0⟩, ⟨0, 2, none, 0⟩], stateOf 10 false [⟨1, 4, none, 0⟩],
    stateOf 11 false [takingA 2 3], stateOf 12 false [⟨3, 1, none, 0⟩], stateOf 13 true []]

/-- The automaton of its subsets. -/
private def subsetsA : Automaton := startingAtFirst .dfa
  #[{ stateOf 14 true [takingA 0 1] with note := some "\x7b0,1,2,4\x7d" },
    { stateOf 15 true [] with note := some "\x7b1,3,4\x7d" }]

private theorem run_toDfaWithLimit_compiledA :
    (compiledA.toDfaWithLimit defaultMaxStates).run 14 = (.ok subsetsA, 16) := by
  have hinitial : compiledA.initial = some 0 := rfl
  have hedges : compiledA.states.mapM stateEdges =
      .ok #[[], [], [⟨⟨[(97, 97)]⟩, 3⟩], [], []] := by
    rw [Array.mapM_eq_mapM_toList]
    rfl
  have hfirst : compiledA.closure [0] = [0, 1, 2, 4] := by cbv
  have hsecond : compiledA.closure [3] = [1, 3, 4] := by cbv
  have hmoves : Subsets.moves [⟨⟨[(97, 97)]⟩, 3⟩] = [([3], [(97, 97)])] := by cbv
  have hnone : Subsets.moves [] = [] := by cbv
  have hranges : CharRanges.ofPairs [(97, 97)] = ⟨[(97, 97)]⟩ := by cbv
  have hlabel : Label.ofText (CharRanges.mk [(97, 97)]).spec =
      .ok ⟨['a'], .literal ['a'] false, parse_singleA⟩ := rfl
  have hfuel : defaultMaxStates + 2 = (defaultMaxStates - 1) + 3 := rfl
  have hroom : ∀ n < 5, ¬defaultMaxStates ≤ n := by decide
  unfold toDfaWithLimit
  rw [hfuel]
  -- two sets are met, so what is left of the fuel does not matter
  generalize defaultMaxStates - 1 = fuel
  simp [Subsets.run, Subsets.connectAll, Subsets.placeOf, Subsets.add, hinitial, hedges, hmoves,
    hnone, hranges, hlabel, hfirst, hsecond, freshId, addState, stateCount, connect, modifyState,
    Automaton.empty, hroom]
  rfl

private def tableA : MoveTable := ⟨[true, true], [(97, 97)], [[some 1], [none]]⟩

private def quotientA : Quotient := ⟨#[true, true], #[[(1, ⟨[(97, 97)]⟩)], []], 0⟩

private theorem quotient_tableA : tableA.quotient = quotientA := by
  have hmarks : ascending [1, 1] = [1] := by cbv
  have hblocks : tableA.blocks = ([0, 1], 2) := by
    simp [MoveTable.blocks, tableA, hmarks, Automaton.refine, splitBlocks, numberKeys,
      Std.HashMap.size_insert]
  unfold MoveTable.quotient
  rw [hblocks]
  cbv

private def leastA : Automaton := startingAtFirst .dfa
  #[stateOf 16 true [takingA 0 1], stateOf 17 true []]

private theorem run_minimize_subsetsA : subsetsA.minimize.run 16 = (.ok leastA, 18) := by
  have hdeterministic : subsetsA.isDeterministic = true := by decide +kernel
  have hinitial : subsetsA.initial = some 0 := rfl
  have htable : subsetsA.moveTable = .ok tableA := by cbv
  have horder : Graph.breadthFirst (fun b => (quotientA.edges[b]?.getD []).map (·.1))
      (Graph.unseen quotientA.edges.size) [quotientA.initial] = [0, 1] := by cbv
  have hleast : (ofQuotient quotientA subsetsA.flags).run 16 = (.ok leastA, 18) := by
    unfold ofQuotient
    simp only [horder]
    rfl
  rw [minimize, hdeterministic, hinitial, htable]
  dsimp only
  rw [quotient_tableA]
  exact hleast

private theorem run_ofText_lazyA : (ofText "a??" .deterministic .default).run 9 =
    (.ok (ofParts "a??" .deterministic lazyA leastA), 18) := by
  have hparse : SyntaxTree.parse "a??".toList .deterministic Config.default.maxNesting =
      .ok lazyA :=
    eq_of_isLazyA (by decide +kernel)
  have hbuilt : (Automaton.ofTree lazyA defaultMaxStates).run 9 = (.ok compiledA, 14) := rfl
  have hleast : (makeDeterministic lazyA .default compiledA).run 14 = (.ok leastA, 18) := by
    unfold makeDeterministic minimalDfa
    rw [if_pos (by decide), if_neg (by decide)]
    exact (run_bindFresh_of_ok run_toDfaWithLimit_compiledA).trans run_minimize_subsetsA
  exact Compiles.run_ofText ⟨rfl, compiledA, leastA, 14, 18, hbuilt, hleast, rfl⟩ rfl hparse

/-- A context for one letter. -/
private def oneLetter (depth transitions : Nat) : Context :=
  (Context.new ⟨depth, 0, transitions⟩ 0).setInput #['a']

theorem deterministic_finds_longest_lazyA :
    ∃ p q nextId, (ofText "a??" .empty .default).run 0 = (.ok p, nextId) ∧
      (ofText "a??" .deterministic .default).run 9 = (.ok q, 18) ∧
        (∃ m m', ((oneLetter 100 1000).matchWhole p.searcher).1 = .ok (some m) ∧
          ((oneLetter 50 0).matchWhole q.searcher).1 = .ok (some m')) ∧
        ∃ m m', ((oneLetter 100 1000).findNext p.searcher).1 = .ok (some m) ∧
          ((oneLetter 50 0).findNext q.searcher).1 = .ok (some m') ∧ m.stop = 0 ∧
            m'.start = m.start ∧ IsGreatest {stop | m'.start ≤ stop ∧ stop ≤ 1 ∧
              p.automaton.accepts (#['a'].extract m'.start stop) = true} m'.stop := by
  have hfirst : (((ofText "a??" .empty .default).run 0).1.toOption.map fun p =>
      (((oneLetter 100 1000).matchWhole p.searcher).1,
        ((oneLetter 100 1000).findNext p.searcher).1)) =
      some (.ok (some ⟨0, 1, []⟩), .ok (some ⟨0, 0, []⟩)) := by
    decide +kernel
  rcases hp : (ofText "a??" .empty .default).run 0 with ⟨e | p, nextId⟩
  · rw [hp] at hfirst
    cases hfirst
  rw [hp] at hfirst
  obtain ⟨hwhole, hnext⟩ := Prod.ext_iff.mp (Option.some.inj hfirst)
  dsimp only at hwhole hnext
  have hq := run_ofText_lazyA
  have hctx : (oneLetter 100 1000).Matches (oneLetter 50 0) := ⟨rfl, rfl, rfl, rfl, rfl⟩
  obtain ⟨hsame, hlongest⟩ :=
    deterministic_finds_longest (by decide) hp hq hctx (Context.regionInside_setInput ..)
  rw [hwhole] at hsame
  rw [hnext] at hlongest
  obtain ⟨_, whole, hsome, hwhole', hisSome⟩ :=
    hsame not_false (StoppedAtLimit.of_isOk (by decide +kernel))
  obtain ⟨_, next, hm, hnext', hstart, hgreatest⟩ :=
    hlongest rfl rfl not_false (StoppedAtLimit.of_isOk (by decide +kernel))
  cases hsome
  cases hm
  obtain ⟨m, rfl⟩ := Option.isSome_iff_exists.mp hisSome
  obtain ⟨m', rfl, hstarts⟩ := Option.map_eq_some_iff.mp hstart
  exact ⟨p, _, nextId, rfl, hq, ⟨_, m, hwhole, hwhole'⟩, _, m', hnext, hnext', rfl, hstarts,
    hgreatest m' rfl⟩

end Pattern

end RegexEngine
