import RegexEngine.Proofs.Automaton.Bare
import RegexEngine.Proofs.Automaton.Plans
import RegexEngine.Proofs.CharClass.Strict
import RegexEngine.Proofs.Pattern.Optimized
import RegexEngine.Proofs.Program.Blocks
import RegexEngine.Proofs.Search.Captures
import RegexEngine.Proofs.Search.Fronts

/-!
The captures of a pattern. Whichever way a pattern that was compiled from a text is searched for, by
its automaton or by a program, its matches lie in the text that is searched, and so do their groups.
A group that has both opened and closed did not close before it opened, unless it stands in a
lookaround that is repeated: what such a lookaround captures first and what it captures last may come
of different rounds.
-/

namespace RegexEngine

open Tracked

/-! What is searched. -/

/-- An attempt whose ways respect whatever its code does finds what is well formed, as long as charts
fit the code. -/
theorem liesIn_of_respects {code : Code} {input : Array Char} {initial start groups : Nat}
    {exempt : List Nat} {x : Tracked Attempt} (hstart : start ≤ input.size)
    (hfollows : ∀ {R : Path → Path → Prop}, code.Respects input R → Grants x fun attempt =>
      Found.Follows R (.start initial start (.unset groups)) attempt.found)
    (hgoes : code.Respects input (Path.GoesOn input))
    (hcharts : ∀ group, 0 < group → group ∉ exempt → ∃ chart z, z ≠ Stage.within ∧
      z.Next (chart initial) ∧ code.Respects input (Path.Progresses group chart)) :
    Grants x fun attempt => ∀ f, attempt.found = some f → f.LiesIn input.size start exempt := by
  intro t t' attempt hrun
  apply Found.liesIn_of_follows hstart (hfollows hgoes t t' attempt hrun)
  intro group hgroup hexempt
  obtain ⟨chart, z, hz, hnext, hrespects⟩ := hcharts group hgroup hexempt
  exact ⟨chart, z, hz, hnext, hfollows hrespects t t' attempt hrun⟩

namespace Automaton

variable {a : Automaton} {exempt : List Nat}

/-- A search of an automaton may start at a stage of a group that is not inside of it. -/
def Settles (a : Automaton) (group : Nat) : Prop :=
  ∀ i, a.initial = some i → ∃ z, z ≠ .within ∧ a.StartsAt group z

/-- An automaton finds what is well formed, as long as charts fit it. -/
theorem findsInside (h : ∀ group, 0 < group → group ∉ exempt → a.Settles group) :
    a.searcher.FindsInside exempt := by
  intro search start hstart
  change Grants (a.attempt search start) _
  unfold attempt
  split
  · exact grants_throw _
  · rename_i initial hinitial
    have hcharts (group : Nat) (hgroup : 0 < group) (hexempt : group ∉ exempt) :
        ∃ chart z, z ≠ Stage.within ∧ z.Next (chart initial) ∧
          a.code.Respects search.input (Path.Progresses group chart) := by
      obtain ⟨z, hz, chart, i, hcharted, hi, hnext⟩ := h group hgroup hexempt initial hinitial
      cases hinitial.symm.trans hi
      exact ⟨chart, z, hz, hnext, hcharted.respects hgroup search.input⟩
    split
    · refine grants_mono (longest_grants hstart) fun attempt hattempt f hf => ?_
      obtain ⟨hle, hstop, hslots⟩ := hattempt f hf
      refine ⟨hle, hstop, fun place hplace => ?_, fun group _ _ => ?_⟩
      · rw [hslots] at hplace
        cases List.eq_of_mem_replicate hplace
      · rw [hslots]
        exact Slots.ordered_unset _ _
    · split
      · rename_i hlockstep
        rw [Bool.and_eq_true] at hlockstep
        have hfollows {R : Path → Path → Prop} (hR : a.code.Respects search.input R) :=
          lockstep_follows hR hlockstep.2 initial start
        exact liesIn_of_respects hstart hfollows (a.respects_goesOn search.input) hcharts
      · have hfollows {R : Path → Path → Prop} (hR : a.code.Respects search.input R) :=
          Code.search_grants hR initial start
        exact liesIn_of_respects hstart hfollows (a.respects_goesOn search.input) hcharts

end Automaton

namespace Program

variable {p : Program} {exempt : List Nat}

/-- A search with a program may start at a stage of a group that is not inside of it. -/
def Settles (p : Program) (group : Nat) : Prop := ∃ z, z ≠ .within ∧ p.StartsAt group z

/-- A program finds what is well formed, as long as charts fit it. -/
theorem findsInside (h : ∀ group, 0 < group → group ∉ exempt → p.Settles group) :
    p.searcher.FindsInside exempt := by
  intro search start hstart
  change Grants (p.attempt search start) _
  unfold attempt
  split
  · exact grants_throw _
  · have hfollows {R : Path → Path → Prop} (hR : p.code.Respects search.input R) :=
      Code.search_grants hR 0 start
    apply liesIn_of_respects hstart hfollows (p.respects_goesOn search.input)
    intro group hgroup hexempt
    obtain ⟨z, hz, chart, hcharted, hnext⟩ := h group hgroup hexempt
    exact ⟨chart, z, hz, hnext, hcharted.respects hgroup search.input⟩

theorem Settles.of_instrs {q : Program} {group : Nat} (h : p.Settles group)
    (heq : q.instrs = p.instrs) : q.Settles group := by
  obtain ⟨z, hz, chart, hcharted, hnext⟩ := h
  refine ⟨z, hz, chart, fun at_ i hi => ?_, hnext⟩
  rw [heq] at hi
  exact hcharted at_ i hi

theorem settles_ofAutomaton {a : Automaton} {group : Nat} (hgroup : 0 < group)
    (h : a.Settles group) (hp : ofAutomaton a = .ok p) : p.Settles group := by
  cases hinitial : a.initial with
  | none =>
    unfold ofAutomaton at hp
    rw [hinitial] at hp
    cases hp
  | some i =>
    obtain ⟨z, hz, hstarts⟩ := h i hinitial
    exact ⟨z, hz, ofAutomaton_startsAt hgroup hstarts hp⟩

/-- The program of a pattern has the instructions of its automaton or of its tree. -/
theorem ofPattern_ok {pattern : Pattern} (h : ofPattern pattern = .ok p) :
    ∃ made : Program, p.instrs = made.instrs ∧ p.classes = made.classes ∧
      (ofAutomaton pattern.automaton = .ok made ∨
        ∃ tree, pattern.tree = some tree ∧ ofTree tree = .ok made) := by
  unfold ofPattern at h
  dsimp only at h
  split at h
  · rename_i tree htree
    split at h
    · obtain ⟨made, hmade, h⟩ := bind_eq_ok.mp h
      cases h
      exact ⟨made, rfl, rfl, .inl hmade⟩
    · obtain ⟨made, hmade, h⟩ := bind_eq_ok.mp h
      cases h
      exact ⟨made, rfl, rfl, .inr ⟨tree, htree, hmade⟩⟩
  · obtain ⟨made, hmade, h⟩ := bind_eq_ok.mp h
    cases h
    exact ⟨made, rfl, rfl, .inl hmade⟩

end Program

/-! What is compiled. -/

namespace Pattern

open Automaton

variable {tree : SyntaxTree} {config : Config} {base nextId : UInt32} {a b c : Automaton}
  {group : Nat}

/-- An automaton is left as it is, or made anew. -/
theorem makeDeterministic_ok (h : (makeDeterministic tree config a).run base = (.ok b, nextId)) :
    b = a ∨ b.IsBare ∧ b.kind = .dfa := by
  unfold makeDeterministic at h
  split at h
  · split at h
    · cases h
    · obtain ⟨dfa, _, _, hleast⟩ := bindFresh_ok h
      exact .inr (minimize_ok hleast)
  · split at h
    · rw [StateT.run_bind] at h
      rcases hdfa : (a.toDfaWithLimit config.maxStates).run base with ⟨e | dfa, nextId'⟩
      · rw [hdfa] at h
        cases h
        exact .inl rfl
      · rw [hdfa] at h
        exact .inr (minimize_ok h)
    · cases h
      exact .inl rfl

/-- The automaton that a tree is compiled to is left as it is, or simplified, or made anew. -/
theorem Compiles.cases (h : Compiles tree config base nextId c) :
    ∃ a nextId', (Automaton.ofTree tree config.maxStates).run base = (.ok a, nextId') ∧
      (c = a ∨ (a.WellFormed ∧ ∃ fuel, c = simplifyFully fuel a) ∨ c.IsBare ∧ c.kind = .dfa) := by
  obtain ⟨_, a, b, nextId₁, nextId₂, ha, hb, hc⟩ := h
  refine ⟨a, nextId₁, ha, ?_⟩
  rcases makeDeterministic_ok hb with rfl | ⟨hbare, hkind⟩
  · rcases simplify_ok hc with rfl | hrun
    · exact .inl rfl
    · rcases optimize_ok hrun with ⟨_, rfl⟩ | ⟨hwell, fuel, hc | hc⟩
      · exact .inl rfl
      · exact .inr (.inl ⟨hwell, fuel, hc⟩)
      · exact .inr (.inr hc)
  · rcases simplify_ok hc with rfl | hrun
    · exact .inr (.inr ⟨hbare, hkind⟩)
    · exact .inr (.inr ⟨hbare.optimize hrun, kind_optimize hkind hrun⟩)

/-- However a tree is compiled, its automaton starts where the tree may be entered, unless it has no
groups. -/
theorem Compiles.startsAt (h : Compiles tree config base nextId c)
    (hoffers : tree.root.AlwaysOffers) {y z : Stage} (hfits : tree.root.Fits group y z) :
    c.StartsAt group y ∨ c.IsBare := by
  obtain ⟨a, nextId', ha, rfl | ⟨hwell, fuel, rfl⟩ | ⟨hbare, _⟩⟩ := h.cases
  · exact .inl (ofTree_startsAt hfits ha)
  · obtain ⟨_, _, _, htrim⟩ := ofTree_built hoffers ha
    obtain ⟨i, htrim⟩ := htrim hwell.distinct
    exact .inl (htrim.simplifyFully_startsAt fuel (ofTree_startsAt hfits ha))
  · exact .inr hbare

theorem Compiles.settles (h : Compiles tree config base nextId c) (hoffers : tree.root.AlwaysOffers)
    (hfits : ∃ y z, y ≠ .within ∧ tree.root.Fits group y z) : c.Settles group := by
  obtain ⟨y, z, hy, hfits⟩ := hfits
  intro i hi
  rcases h.startsAt hoffers hfits with hstarts | hbare
  · exact ⟨y, hy, hstarts⟩
  · exact ⟨.behind, Stage.noConfusion, hbare.startsAt group .behind hi⟩

/-- The groups of a pattern that stand in a lookaround that is repeated. -/
def revisitedGroups (p : Pattern) : List Nat :=
  (p.tree.map (·.root.revisitedGroups)).getD []

/-- What a pattern is searched for with: its automaton, or a program of it or of its tree. -/
inductive SearchedBy (p : Pattern) : Searcher → Prop
  | itself : SearchedBy p p.searcher
  | program {q : Program} : Program.ofPattern p = .ok q → SearchedBy p q.searcher
  | treeProgram {tree : SyntaxTree} {q : Program} : p.tree = some tree →
      Program.ofTree tree = .ok q → SearchedBy p q.searcher
  | automatonProgram {q : Program} : Program.ofAutomaton p.automaton = .ok q →
      SearchedBy p q.searcher

section Text

variable {source : String} {flags : Flags} {p : Pattern} {x : Searcher}

/-- Whatever a pattern is searched for with finds what is well formed. -/
theorem SearchedBy.findsInside (hrun : (ofText source flags config).run base = (.ok p, nextId))
    (hx : p.SearchedBy x) : x.FindsInside p.revisitedGroups := by
  obtain ⟨_, tree, c, hparse, hcompiles, rfl⟩ := ofText_ok hrun
  have hoffers := SyntaxTree.alwaysOffers_parse hparse
  have hautomaton (group : Nat) (hgroup : group ∉ tree.root.revisitedGroups) :
      Automaton.Settles { c with flags := tree.flags } group :=
    hcompiles.settles hoffers (SyntaxTree.exists_fits_parse hparse hgroup)
  have htree {q : Program} (hq : Program.ofTree tree = .ok q) (group : Nat)
      (hgroup : group ∉ tree.root.revisitedGroups) : q.Settles group := by
    obtain ⟨y, z, hy, hfits⟩ := SyntaxTree.exists_fits_parse hparse hgroup
    exact ⟨y, hy, Program.ofTree_startsAt hfits hq⟩
  cases hx with
  | itself => exact Automaton.findsInside fun group _ hgroup => hautomaton group hgroup
  | program hq =>
    obtain ⟨made, hinstrs, _, hmade⟩ := Program.ofPattern_ok hq
    apply Program.findsInside
    intro group hpos hgroup
    apply Program.Settles.of_instrs _ hinstrs
    rcases hmade with hmade | ⟨_, hsame, hmade⟩
    · exact Program.settles_ofAutomaton hpos (hautomaton group hgroup) hmade
    · cases hsame
      exact htree hmade group hgroup
  | treeProgram hsame hq =>
    cases hsame
    exact Program.findsInside fun group _ hgroup => htree hq group hgroup
  | automatonProgram hq =>
    apply Program.findsInside
    intro group hpos hgroup
    exact Program.settles_ofAutomaton hpos (hautomaton group hgroup) hq

/-- Captures are well formed. Whatever text a pattern is compiled from, with whatever flags and
settings, and whatever it is searched for with, the matches that a context answers with lie in its
region, and their groups in the text up to the end of the region, all of them on boundaries between
characters. A group that has both opened and closed did not close before it opened, unless it stands
in a lookaround that is repeated. -/
theorem captures_wellFormed (hrun : (ofText source flags config).run base = (.ok p, nextId))
    (hx : p.SearchedBy x) {ctx : Context} (hregion : ctx.HasRegion) {m : Match}
    (hm : ctx.Finds x m) : (m.inBytes ctx.input).WellFormed ctx p.revisitedGroups :=
  hm.wellFormed (hx.findsInside hrun) hregion

end Text

/-- The second of two letters. -/
private def secondLetter : Context :=
  (((Context.new ⟨100, 0, 1000⟩ 0).setInput #['a', 'b']).setRegion 1 2).2

theorem captures_wellFormed_lookbehind :
    ∃ p nextId q m, (ofText "(?<=(a))b" .empty .default).run 0 = (.ok p, nextId) ∧
      Program.ofPattern p = .ok q ∧ (secondLetter.findNext q.searcher).1 = .ok (some m) ∧
        secondLetter.HasRegion ∧
          (m.inBytes secondLetter.input).WellFormed secondLetter p.revisitedGroups := by
  have hfinds : ((ofText "(?<=(a))b" .empty .default).run 0).1.toOption.bind (fun p =>
      (Program.ofPattern p).toOption.bind fun q =>
        (secondLetter.findNext q.searcher).1.toOption) =
      some (some ⟨1, 2, [⟨1, none, some 0, some 1⟩]⟩) := by
    decide +kernel
  have hregion : secondLetter.HasRegion := (Context.hasRegion_setInput _ _).setRegion 1 2
  rcases hp : (ofText "(?<=(a))b" .empty .default).run 0 with ⟨e | p, nextId⟩
  · rw [hp] at hfinds
    cases hfinds
  rw [hp] at hfinds
  cases hq : Program.ofPattern p with
  | error e =>
    simp [hq, Except.toOption] at hfinds
  | ok q =>
    cases hm : (secondLetter.findNext q.searcher).1 with
    | error e => simp [hq, hm, Except.toOption] at hfinds
    | ok m =>
      simp only [hq, hm, Except.toOption, Option.bind_some, Option.some.injEq] at hfinds
      subst hfinds
      exact ⟨p, nextId, q, _, rfl, hq, hm, hregion,
        captures_wellFormed hp (.program hq) hregion (.next hm)⟩

/-- The first five letters. -/
private def fiveLetters : Context :=
  (Context.new ⟨100, 0, 1000⟩ 0).setInput #['a', 'b', 'c', 'd', 'e']

/-- In a repeated lookaround, what a group captured first may stand after what it captured last. -/
theorem captures_unordered_of_repeated_lookahead :
    ∃ p nextId m, (ofText "(?:(?=(?:a...|b)(.))[ab])*" .empty .default).run 0 = (.ok p, nextId) ∧
      (fiveLetters.findNext p.searcher).1 = .ok (some m) ∧
        (m.inBytes fiveLetters.input).groups = [⟨1, none, some 4, some 3⟩] ∧
          ¬(m.inBytes fiveLetters.input).WellFormed fiveLetters [] := by
  have hfinds : ((ofText "(?:(?=(?:a...|b)(.))[ab])*" .empty .default).run 0).1.toOption.bind
      (fun p => (fiveLetters.findNext p.searcher).1.toOption) =
      some (some ⟨0, 2, [⟨1, none, some 4, some 3⟩]⟩) := by
    decide +kernel
  rcases hp : (ofText "(?:(?=(?:a...|b)(.))[ab])*" .empty .default).run 0 with ⟨e | p, nextId⟩
  · rw [hp] at hfinds
    cases hfinds
  rw [hp] at hfinds
  cases hm : (fiveLetters.findNext p.searcher).1 with
  | error e => simp [hm, Except.toOption] at hfinds
  | ok m =>
    simp only [hm, Except.toOption, Option.bind_some, Option.some.injEq] at hfinds
    subst hfinds
    have hgroups : (Match.inBytes ⟨0, 2, [⟨1, none, some 4, some 3⟩]⟩ fiveLetters.input).groups =
        [⟨1, none, some 4, some 3⟩] := by
      decide +kernel
    refine ⟨p, nextId, _, rfl, hm, hgroups, fun h => ?_⟩
    have hordered := h.groups_ordered ⟨1, none, some 4, some 3⟩
    rw [hgroups] at hordered
    have hle := hordered (by simp) (by simp) 4 3 rfl rfl
    omega

end Pattern

end RegexEngine
