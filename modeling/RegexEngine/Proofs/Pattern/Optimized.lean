import Mathlib
import RegexEngine.Proofs.Automaton.Compiled
import RegexEngine.Proofs.Automaton.Independence
import RegexEngine.Proofs.Automaton.Shortcuts
import RegexEngine.Proofs.Search.Agreement
import RegexEngine.Proofs.Tree.Checked
import RegexEngine.Proofs.Tree.Parsed

/-!
The flag that asks for a simple automaton changes no match. A pattern is read and checked in the
same way with and without it, and what is compiled differs in the numbers of states only; all passes
of the simplification find nothing but what the automaton finds that they are given. So attempts on
the two automata agree at every place, and searches with them do.
-/

namespace RegexEngine

open Tracked

namespace Pattern

/-- Whether the automaton is to be simplified makes no difference to the check of a tree. -/
theorem check_withFlags (tree : SyntaxTree) {flags : Flags}
    (hstrict : flags.contains .strict = tree.flags.contains .strict) (config : Config) :
    check { tree with flags := flags } config = check tree config := by
  have hnodes (nodes : List Tree) (seen : List String) :
      SyntaxTree.checkNodes { tree with flags := flags } seen nodes = tree.checkNodes seen nodes := by
    refine SyntaxTree.checkNodes_congr ?_ hstrict nodes seen
    rfl
  simp only [check, SyntaxTree.validate, hnodes]
  rfl

theorem run_bindFresh {α β : Type} (first : Fresh (Except Error α))
    (next : α → Fresh (Except Error β)) (base : UInt32) :
    (bindFresh first next).run base =
      match first.run base with
      | (.ok x, nextId) => (next x).run nextId
      | (.error e, nextId) => (.error e, nextId) := by
  unfold bindFresh
  rw [StateT.run_bind]
  rcases first.run base with ⟨e | x, nextId⟩ <;> rfl

theorem bindFresh_ok {α β : Type} {first : Fresh (Except Error α)}
    {next : α → Fresh (Except Error β)} {base nextId : UInt32} {y : β}
    (h : (bindFresh first next).run base = (.ok y, nextId)) :
    ∃ x nextId', first.run base = (.ok x, nextId') ∧ (next x).run nextId' = (.ok y, nextId) := by
  rw [run_bindFresh] at h
  rcases hfirst : first.run base with ⟨e | x, nextId'⟩
  · rw [hfirst] at h
    cases h
  · rw [hfirst] at h
    exact ⟨x, nextId', rfl, h⟩

theorem run_bindFresh_of_ok {α β : Type} {first : Fresh (Except Error α)}
    {next : α → Fresh (Except Error β)} {base nextId : UInt32} {x : α}
    (h : first.run base = (.ok x, nextId)) :
    (bindFresh first next).run base = (next x).run nextId := by
  rw [run_bindFresh, h]

/-- The pattern of a text that was read as a tree, with the automaton that came of it. -/
def ofParts (source : String) (flags : Flags) (tree : SyntaxTree) (c : Automaton) : Pattern where
  source := some source
  flags := flags
  tree := some tree
  automaton := { c with flags := tree.flags }
  groupNames := tree.groups
  raw := tree.raw
  id := .ofText source flags
  lastError := tree.recovered.head?

/-- What happens to a tree that is compiled, one step after the other. -/
structure Compiles (tree : SyntaxTree) (config : Config) (base nextId : UInt32) (c : Automaton) :
    Prop where
  checked : check tree config = .ok ()
  built : ∃ a b nextId₁ nextId₂,
    (Automaton.ofTree tree config.maxStates).run base = (.ok a, nextId₁) ∧
    (makeDeterministic tree config a).run nextId₁ = (.ok b, nextId₂) ∧
    (simplify tree config b).run nextId₂ = (.ok c, nextId)

section Text

variable {source : String} {flags : Flags} {config : Config} {tree : SyntaxTree}
  {base nextId : UInt32}

/-- A text that can be compiled is within its bounds, can be read, and has an automaton. -/
theorem ofText_ok {p : Pattern} (h : (ofText source flags config).run base = (.ok p, nextId)) :
    checkText source config = .ok () ∧ ∃ tree c,
      SyntaxTree.parse source.toList flags config.maxNesting = .ok tree ∧
        Compiles tree config base nextId c ∧ p = ofParts source flags tree c := by
  unfold ofText at h
  cases htext : checkText source config with
  | error e =>
    rw [htext] at h
    cases h
  | ok _ =>
    cases hparse : SyntaxTree.parse source.toList flags config.maxNesting with
    | error e =>
      rw [htext, hparse] at h
      cases h
    | ok tree =>
      rw [htext, hparse] at h
      obtain ⟨q, nextId₁, hq, h⟩ := bindFresh_ok h
      cases h
      unfold ofTree at hq
      cases hcheck : check tree config with
      | error e =>
        rw [hcheck] at hq
        cases hq
      | ok _ =>
        rw [hcheck] at hq
        obtain ⟨a, nextId₁, ha, hq⟩ := bindFresh_ok hq
        obtain ⟨b, nextId₂, hb, hq⟩ := bindFresh_ok hq
        obtain ⟨c, nextId₃, hc, hq⟩ := bindFresh_ok hq
        cases hq
        exact ⟨rfl, tree, c, rfl, ⟨hcheck, a, b, nextId₁, nextId₂, ha, hb, hc⟩, rfl⟩

theorem Compiles.run_ofText {c : Automaton} (h : Compiles tree config base nextId c)
    (htext : checkText source config = .ok ())
    (hparse : SyntaxTree.parse source.toList flags config.maxNesting = .ok tree) :
    (ofText source flags config).run base = (.ok (ofParts source flags tree c), nextId) := by
  obtain ⟨hcheck, a, b, nextId₁, nextId₂, ha, hb, hc⟩ := h
  have htree : ∃ q : Pattern, (ofTree tree config).run base = (.ok q, nextId) ∧
      { q with source := some source, flags := flags, id := .ofText source flags } =
        ofParts source flags tree c := by
    unfold ofTree
    rw [hcheck]
    dsimp only
    rw [run_bindFresh_of_ok ha, run_bindFresh_of_ok hb, run_bindFresh_of_ok hc]
    exact ⟨_, rfl, rfl⟩
  obtain ⟨q, hq, hparts⟩ := htree
  unfold ofText
  rw [htext, hparse]
  dsimp only
  rw [run_bindFresh_of_ok hq, hparts]
  rfl

end Text

end Pattern

namespace Automaton

variable {a b : Automaton} {i j : Nat}

/-- The flags of an automaton count neither for its states nor for what they find. -/
theorem Trim.withFlags (h : a.Trim i) (flags : Flags) : Trim { a with flags := flags } i :=
  ⟨⟨h.wellFormed.initial_lt, h.wellFormed.current_lt, h.wellFormed.fits, h.wellFormed.distinct,
    h.wellFormed.takes_input⟩, h.kind_eq, h.initial_eq, h.live, h.grouped⟩

/-- What an automaton finds is found with other numbers too. -/
theorem findsAlike_shifted (a : Automaton) (shift : UInt32) (i : Nat) :
    a.FindsAlike i (a.shifted shift) i := by
  have hgroups : (a.shifted shift).groupCount = a.groupCount := by
    simp only [groupCount, shifted, Array.foldl_map]
    rfl
  have hcode : (a.shifted shift).code = a.code := by
    have hstate (place : Nat) :
        (a.shifted shift).state place = (a.state place).map (State.shifted shift) := by
      simp only [state, shifted, Array.getElem?_map]
      cases a.states[place]? <;> rfl
    unfold code
    rw [hgroups]
    congr 1
    · funext input inBody path
      rw [hstate]
      cases a.state path.place <;> rfl
    · funext input inBody path found
      rw [hstate]
      cases a.state path.place <;> rfl
  intro search start A hgives
  rw [hcode]
  simpa only [firstWay, hgroups] using hgives

/-- Attempts on trim automata that find alike agree. -/
theorem Trim.attempts_agree (ha : a.Trim i) (hb : b.Trim j) (hfinds : a.FindsAlike i b j)
    {s s' : Search} (hs : s.Matches s') {start : Nat} (hstart : start ≤ s.input.size) :
    Agrees (a.attempt s start) (b.attempt s' start) := by
  have hfirst := attempt_ensures ha.wellFormed.inside ha.kind_eq hs.bailout_eq ha.initial_eq hstart
  have hsecond := attempt_ensures hb.wellFormed.inside hb.kind_eq hs.bailout_eq' hb.initial_eq
    (hs.input_eq ▸ hstart)
  have hfirst' : Ensures (a.attempt s start) (b.code.Gives s' (b.firstWay j start)) :=
    ensures_mono hfirst fun A hA => hfinds s' start A (hA.congr_search hs.input_eq hs.full_eq)
  exact agrees_of_ensures hfirst' hsecond fun hA hB => hA.unique hB

end Automaton

namespace Pattern

variable {tree : SyntaxTree} {base nextId : UInt32} {c : Automaton}

theorem run_makeDeterministic (hdeterministic : tree.flags.contains .deterministic = false)
    (a : Automaton) (base : UInt32) :
    (makeDeterministic tree .default a).run base = (.ok a, base) := by
  unfold makeDeterministic
  rw [if_neg (hdeterministic ▸ Bool.false_ne_true)]
  rfl

/-- Where nothing else is asked for, the automaton of a pattern is the one that was compiled. -/
theorem Compiles.of_plain (h : Compiles tree .default base nextId c)
    (hoptimized : tree.flags.contains .optimized = false)
    (hdeterministic : tree.flags.contains .deterministic = false) :
    (Automaton.ofTree tree defaultMaxStates).run base = (.ok c, nextId) := by
  obtain ⟨_, a, b, nextId₁, nextId₂, ha, hb, hc⟩ := h
  rw [run_makeDeterministic hdeterministic] at hb
  cases hb
  unfold simplify at hc
  rw [hoptimized] at hc
  cases hc
  exact ha

/-- Where it is asked for, the automaton that was compiled is simplified. -/
theorem compiles_optimized {a : Automaton} {nextId₁ : UInt32}
    (hcheck : check tree .default = .ok ())
    (hoptimized : tree.flags.contains .optimized = true)
    (hdeterministic : tree.flags.contains .deterministic = false)
    (ha : (Automaton.ofTree tree defaultMaxStates).run base = (.ok a, nextId₁))
    (hc : a.optimize.run nextId₁ = ((.ok (), c), nextId)) :
    Compiles tree .default base nextId c := by
  refine ⟨hcheck, a, a, nextId₁, nextId₁, ha, run_makeDeterministic hdeterministic a nextId₁, ?_⟩
  unfold simplify
  rw [hoptimized, Bool.true_or, if_pos rfl, StateT.run_bind, hc]
  rfl

/-- An automaton is left as it is, or simplified. -/
theorem simplify_ok {config : Config} {b : Automaton}
    (h : (simplify tree config b).run base = (.ok c, nextId)) :
    b = c ∨ b.optimize.run base = ((.ok (), c), nextId) := by
  unfold simplify at h
  split at h
  · rw [StateT.run_bind] at h
    rcases hrun : b.optimize.run base with ⟨⟨e | ⟨⟩, b'⟩, nextId'⟩
    · rw [hrun] at h
      cases h
    · rw [hrun] at h
      cases h
      exact .inr rfl
  · cases h
    exact .inl rfl

/-- Patterns of one tree agree, if their automata are trim and find alike. -/
theorem searcher_agrees {source : String} {asked asked' flags : Flags} {a b : Automaton} {i j : Nat}
    (hanchored : tree.flags.contains .anchored = flags.contains .anchored)
    (ha : a.Trim i) (hb : b.Trim j) (hfinds : a.FindsAlike i b j) :
    (ofParts source asked tree a).searcher.Agrees
      (ofParts source asked' { tree with flags := flags } b).searcher where
  toMatch_eq := rfl
  anchored_eq := hanchored
  attempts _ _ hs _ hstart :=
    (ha.withFlags tree.flags).attempts_agree (hb.withFlags flags) hfinds hs hstart
  scope _ := scope_of_scaledLimits
  scope' _ := scope_of_scaledLimits

/-- Asking for a simple automaton changes no match. If a text can be compiled, then also with that
flag, and the two patterns find the same matches with the same groups: in every input, from every
cursor, in every region, by either way of searching, however many matches are asked for, whatever the
bounds and the clocks are, and from whatever numbers their states were counted. Only where a bound
stops one of the searches nothing is said. -/
theorem optimized_finds_same_matches {source : String} {flags : Flags} {p : Pattern}
    (hoptimized : flags.contains .optimized = false)
    (hdeterministic : flags.contains .deterministic = false)
    (hrun : (ofText source flags .default).run base = (.ok p, nextId)) (base' : UInt32) :
    ∃ p' nextId', (ofText source (flags.union .optimized) .default).run base' = (.ok p', nextId') ∧
      ∀ (ctx ctx' : Context) (most : Nat), ctx.Matches ctx' → ctx.RegionInside →
        ¬StoppedAtLimit (ctx.findAll p.searcher most).1 →
          ¬StoppedAtLimit (ctx'.findAll p'.searcher most).1 →
            ∃ found, (ctx.findAll p.searcher most).1 = .ok found ∧
              (ctx'.findAll p'.searcher most).1 = .ok found := by
  obtain ⟨htext, tree, a, hparse, hcompiles, rfl⟩ := ofText_ok hrun
  obtain ⟨hflag, hflag'⟩ := SyntaxTree.contains_flags_parse hparse
  rw [hoptimized] at hflag
  rw [hdeterministic] at hflag'
  have hoffers := SyntaxTree.alwaysOffers_parse hparse
  have hmax : defaultMaxStates ≤ UInt32.size := by decide
  have hbuilt := hcompiles.of_plain hflag hflag'
  obtain ⟨i, htrim⟩ := Automaton.ofTree_trim hoffers hmax hbuilt
  -- The second automaton, before it is simplified: the first one with other numbers.
  have hbuilt' := Automaton.run_ofTree_shifted tree defaultMaxStates base (base' - base)
  rw [hbuilt, UInt32.add_comm, UInt32.sub_add_cancel] at hbuilt'
  have hoffers' : { tree with flags := tree.flags.union .optimized }.root.AlwaysOffers := hoffers
  obtain ⟨i', htrim'⟩ := Automaton.ofTree_trim hoffers' hmax hbuilt'
  obtain rfl : i = i' := Option.some.inj (htrim.initial_eq.symm.trans htrim'.initial_eq)
  obtain ⟨b, j, hresult, htrim'', hfinds⟩ := htrim'.optimize (nextId + (base' - base))
  have hcheck : check { tree with flags := tree.flags.union .optimized } .default = .ok () :=
    (check_withFlags tree (Flags.contains_union (by decide)) .default).trans hcompiles.checked
  have hcompiles' := compiles_optimized hcheck (Flags.contains_union_self ..)
    ((Flags.contains_union (by decide)).trans hflag') hbuilt' (Prod.ext hresult rfl)
  have hparse' := SyntaxTree.parse_union_optimized source.toList flags Config.default.maxNesting
  rw [hparse] at hparse'
  refine ⟨_, _, hcompiles'.run_ofText htext hparse', fun ctx ctx' most hctx hregion hx hy => ?_⟩
  refine ctx.findAll_eq_of_agrees (searcher_agrees ?_ htrim htrim'' ?_) hctx hregion most hx hy
  · exact (Flags.contains_union (by decide)).symm
  · exact fun search start A hA =>
      hfinds search start A (a.findsAlike_shifted _ i search start A hA)

/-- The tree of an empty group and an empty alternative. -/
private def groupOrNothing : SyntaxTree :=
  ⟨.alt [.capture 1 none .empty, .empty], .optimized, false, [none], [(0, 2), (3, 3)], []⟩

/-- Trees cannot be compared, so this says whether a text was read as that tree. -/
private def isGroupOrNothing : Except Error SyntaxTree → Bool
  | .ok ⟨.alt [.capture index name .empty, .empty], flags, raw, groups, spans, recovered⟩ =>
    (index, name, flags, raw, groups, spans, recovered) ==
      (1, none, .optimized, false, [none], [(0, 2), (3, 3)], [])
  | _ => false

private theorem eq_of_isGroupOrNothing {x : Except Error SyntaxTree}
    (h : isGroupOrNothing x = true) : x = .ok groupOrNothing := by
  unfold isGroupOrNothing at h
  split at h
  · cases eq_of_beq h
    rfl
  · cases h

private def leading (id : UInt32) (transitions : List Transition) : State :=
  { State.new id false with transitions := transitions }

/-- Its automaton, as it is compiled. -/
private def builtAutomaton : Automaton where
  kind := .nfa
  states := #[leading 9 [⟨0, 2, none, 0⟩, ⟨0, 5, none, 0⟩], leading 10 [⟨1, 6, none, 0⟩],
    (leading 11 [⟨2, 3, none, 0⟩]).openGroup 1, leading 12 [⟨3, 4, none, 0⟩],
    (leading 13 [⟨4, 1, none, 0⟩]).closeGroup 1, leading 14 [⟨5, 1, none, 0⟩], .new 15 true]
  initial := some 0
  current := some 0
  flags := .optimized
  lastError := none

/-- The same automaton without the states that only lead on. -/
private def simpleAutomaton : Automaton where
  kind := .nfa
  states := #[leading 9 [⟨0, 1, none, 0⟩, ⟨0, 3, none, 0⟩],
    (leading 11 [⟨1, 2, none, 0⟩]).openGroup 1, (leading 13 [⟨2, 3, none, 0⟩]).closeGroup 1,
    .new 15 true]
  initial := some 0
  current := some 0
  flags := .optimized
  lastError := none

private theorem run_ofText_groupOrNothing :
    (ofText "()|" .optimized .default).run 9 =
      (.ok (ofParts "()|" .optimized groupOrNothing simpleAutomaton), 16) := by
  have hparse : SyntaxTree.parse "()|".toList .optimized Config.default.maxNesting =
      .ok groupOrNothing :=
    eq_of_isGroupOrNothing (by decide +kernel)
  have hbuilt : (Automaton.ofTree groupOrNothing defaultMaxStates).run 9 =
      (.ok builtAutomaton, 16) := rfl
  have hsimple : builtAutomaton.optimize.run 16 = ((.ok (), simpleAutomaton), 16) := by cbv
  exact (compiles_optimized rfl rfl rfl hbuilt hsimple).run_ofText rfl hparse

/-- A context for two letters. -/
private def twoLetters (depth transitions : Nat) : Context :=
  (Context.new ⟨depth, 0, transitions⟩ 0).setInput #['a', 'b']

theorem optimized_finds_same_matches_groupOrNothing :
    ∃ p p' nextId nextId', (ofText "()|" .empty .default).run 0 = (.ok p, nextId) ∧
      (ofText "()|" .optimized .default).run 9 = (.ok p', nextId') ∧
        ∃ found, ((twoLetters 100 1000).findAll p.searcher 0).1 = .ok found ∧
          ((twoLetters 50 0).findAll p'.searcher 0).1 = .ok found := by
  have hfirst : (((ofText "()|" .empty .default).run 0).1.toOption.map fun p =>
      ((twoLetters 100 1000).findAll p.searcher 0).1.isOk) = some true := by
    decide +kernel
  have hsecond : ((twoLetters 50 0).findAll
      (ofParts "()|" .optimized groupOrNothing simpleAutomaton).searcher 0).1.isOk = true := by
    decide +kernel
  rcases hrun : (ofText "()|" .empty .default).run 0 with ⟨e | p, nextId⟩
  · rw [hrun] at hfirst
    cases hfirst
  rw [hrun] at hfirst
  obtain ⟨p', nextId', hrun', hsame⟩ :=
    optimized_finds_same_matches (by decide) (by decide) hrun 9
  obtain ⟨rfl, -⟩ :
      ofParts "()|" .optimized groupOrNothing simpleAutomaton = p' ∧ 16 = nextId' := by
    have hequal := run_ofText_groupOrNothing.symm.trans hrun'
    exact ⟨Except.ok.inj (congrArg Prod.fst hequal), congrArg Prod.snd hequal⟩
  refine ⟨p, _, nextId, nextId', rfl, hrun', hsame _ _ 0 ⟨rfl, rfl, rfl, rfl, rfl⟩
    (Context.regionInside_setInput ..) ?_ ?_⟩
  · exact StoppedAtLimit.of_isOk (Option.some.inj hfirst)
  · exact StoppedAtLimit.of_isOk hsecond

end Pattern

end RegexEngine
