import RegexEngine.Proofs.Search.Longest
import RegexEngine.Proofs.Search.Starts

/-!
Whatever follows an automaton through an input recognizes the same language: the sets of states that
decide acceptance, matching with one way after the other or with all of them at once, moving the
current state by single characters, and the walk to the longest match.
-/

namespace RegexEngine.Automaton

open Tracked

variable {a : Automaton} {search : Search}

/-! Matching the whole input. -/

/-- Attempts find the runs from the initial state on, in every mode. -/
theorem searcher_finds (hsupported : a.supportsLockstep = true) (hwf : a.WellFormed)
    (hkind : a.kind = .nfa) {initial : Nat} (hinitial : a.initial = some initial) :
    a.searcher.Finds fun search start stop =>
      search.endsAt stop = true ∧ ∃ n, a.LeadsUpTo search.input stop n initial start where
  attempts _ hbailout _ hstart :=
    attempt_meets_leadsUpTo hsupported hwf.inside hkind hbailout hinitial hstart
  scope _ hlimits := nomatch hlimits

theorem endsAt_eq_of_full (hfull : search.full = true) (position : Nat) :
    search.endsAt position = true ↔ position = search.input.size := by
  simp [Search.endsAt, hfull]

/-- Without a region the whole input is matched, from its first place on. -/
theorem tried_whole {ctx : Context} (hregion : ctx.region = none) (x : Searcher) :
    ctx.tried x ctx.bounds.1 true = [0] := by
  have hbounds : ctx.bounds = (0, ctx.input.size) := by rw [Context.bounds, hregion]; rfl
  rw [Context.tried, Bool.true_or, if_pos rfl, hbounds, Context.starts, if_pos (Nat.zero_le _)]
  rfl

theorem search_input_whole {ctx : Context} (hregion : ctx.region = none) (x : Searcher)
    (full : Bool) : (ctx.search x full).input = ctx.input := by
  have hbounds : ctx.bounds = (0, ctx.input.size) := by rw [Context.bounds, hregion]; rfl
  rw [Context.search, hbounds]
  simp

theorem matchWhole_iff_accepts (hsupported : a.supportsLockstep = true) (hwf : a.WellFormed)
    (hkind : a.kind = .nfa) {initial : Nat} (hinitial : a.initial = some initial) {ctx : Context}
    (hbailout : ctx.bailout = none) (hregion : ctx.region = none)
    (hlimit : ¬StoppedAtLimit (ctx.matchWhole a.searcher).1) :
    ∃ m : Option Match, (ctx.matchWhole a.searcher).1 = .ok m ∧
      (m.isSome = true ↔ a.accepts ctx.input = true) := by
  have hinside : ctx.RegionInside := by
    rw [Context.RegionInside, Context.bounds, hregion]
    exact Nat.le_refl _
  obtain ⟨r, hr, hdecides⟩ :=
    Context.matchWhole_decides (searcher_finds hsupported hwf hkind hinitial) hbailout hinside hlimit
  have haccepts : a.accepts ctx.input = true ↔
      ∃ n, a.LeadsUpTo ctx.input ctx.input.size n initial 0 := by
    simp only [accepts_iff, hinitial, Option.some.injEq, exists_eq_left', Wins,
      leads_iff_leadsUpTo]
  rw [tried_whole hregion] at hdecides
  refine ⟨_, hr, ?_⟩
  rw [Option.isSome_map, haccepts]
  have hends (stop : Nat) : (ctx.search a.searcher true).endsAt stop = true ↔
      stop = ctx.input.size := by
    rw [endsAt_eq_of_full rfl, search_input_whole hregion]
  cases r with
  | none =>
    have hnone := hdecides 0 (List.mem_singleton_self 0) ctx.input.size
    simp only [hends, search_input_whole hregion, true_and] at hnone
    exact iff_of_false Bool.false_ne_true hnone
  | some answer =>
    obtain ⟨start, found⟩ := answer
    obtain ⟨⟨hstop, hruns⟩, before, after, hplaces, _⟩ := hdecides
    have hstart : start ∈ [0] := by
      rw [hplaces]
      exact List.mem_append_right before List.mem_cons_self
    rw [List.mem_singleton.mp hstart, (hends _).mp hstop, search_input_whole hregion] at hruns
    exact ⟨fun _ => hruns, fun _ => rfl⟩

/-! Moving the current state. -/

/-- Moves the current state over some characters, and says whether it was never stuck. -/
def stepAll (a : Automaton) : List Char → Bool × Automaton
  | [] => (true, a)
  | c :: rest =>
    match a.step c with
    | (true, moved) => moved.stepAll rest
    | (false, stuck) => (false, stuck)

/-- True when the current state accepts. -/
def acceptsHere (a : Automaton) : Bool := a.current.any a.acceptsAt

theorem step_eq {s : Nat} (hcurrent : a.current = some s) (c : Char) :
    a.step c = match a.next? s c with
      | some t => (true, { a with current := some t })
      | none => (false, a) := by
  unfold step next?
  rw [hcurrent, Option.bind_some]
  cases a.states[s]? with
  | none => rfl
  | some state =>
    rw [Option.bind_some, Option.bind_some]
    cases state.transitions.find? (·.matchesChar c) <;> rfl

/-- Only the states of an automaton count for where a word leads. -/
theorem acceptsWord_congr {b : Automaton} (hstates : b.states = a.states) (s : Nat)
    (word : List Char) : b.acceptsWord s word = a.acceptsWord s word := by
  induction word generalizing s with
  | nil => rw [acceptsWord, acceptsWord, acceptsAt, acceptsAt, hstates]
  | cons c rest ih =>
    have hnext : b.next? s c = a.next? s c := by rw [next?, next?, hstates]
    rw [acceptsWord, acceptsWord, hnext]
    cases a.next? s c with
    | none => rfl
    | some t => exact ih t

/-- Steps lead where the word leads. -/
theorem stepAll_iff_acceptsWord (word : List Char) :
    ∀ (a : Automaton) (s : Nat), a.current = some s →
      ((a.stepAll word).1 = true ∧ (a.stepAll word).2.acceptsHere = true ↔
        a.acceptsWord s word = true) := by
  induction word with
  | nil =>
    intro a s hcurrent
    rw [stepAll, acceptsHere, hcurrent, acceptsWord, Option.any_some]
    exact and_iff_right rfl
  | cons c rest ih =>
    intro a s hcurrent
    rw [stepAll, step_eq hcurrent, acceptsWord]
    cases a.next? s c with
    | none => simp
    | some t =>
      dsimp only
      rw [ih { a with current := some t } t rfl,
        acceptsWord_congr (a := a) (b := { a with current := some t }) rfl]

theorem stepAll_iff_accepts (hdeterministic : a.Deterministic) {initial : Nat}
    (hinitial : a.initial = some initial) (input : Array Char) :
    (a.reset.stepAll input.toList).1 = true ∧
        (a.reset.stepAll input.toList).2.acceptsHere = true ↔ a.accepts input = true := by
  rw [stepAll_iff_acceptsWord _ a.reset initial hinitial, hdeterministic.accepts_eq, hinitial,
    Option.any_some, acceptsWord_congr (a := a) (b := a.reset) rfl]

/-! The longest match. -/

theorem longest_finds_greatest (hdeterministic : a.Deterministic) {initial start : Nat}
    (hinitial : a.initial = some initial) (hbailout : search.bailout = none)
    (hstart : start ≤ search.input.size) {t : Tracker}
    (hlimit : ¬StoppedAtLimit ((a.longest search initial start).run t).1) :
    ∃ attempt : Attempt, ((a.longest search initial start).run t).1 = .ok attempt ∧
      (∀ found, attempt.found = some found → IsGreatest (a.Ends search start) found.stop) ∧
      (attempt.found = none ↔ a.Ends search start = ∅) := by
  have hends : a.Ends search start = a.EndsFrom search initial start := by
    unfold Ends EndsFrom
    simp only [hdeterministic.accepts_eq, hinitial, Option.any_some]
  obtain ⟨attempt, hok, hmeets⟩ :=
    (longest_meets hdeterministic hbailout hstart t).resolve_left hlimit
  rw [← hends] at hmeets
  refine ⟨attempt, hok, hmeets.sound, fun hnone => ?_, fun hempty => ?_⟩
  · have hno := mt exists_isGreatest_ends.mpr fun ⟨stop, hstop⟩ => hmeets.complete hnone stop hstop
    exact Set.eq_empty_iff_forall_notMem.mpr fun stop hstop => hno ⟨stop, hstop⟩
  · cases hfound : attempt.found with
    | none => rfl
    | some found =>
      have hmem := (hmeets.sound found hfound).1
      rw [hempty] at hmem
      exact absurd hmem (Set.notMem_empty _)

/-- All that follow an automaton whose labels take one character each, and that has no actions,
recognize the same: matching the whole input, whether the ways are followed one after the other or at
the same time; moving the current state, where no character leaves a state in two ways; and then, in
automata of the deterministic kind, the longest match from each place. -/
theorem recognizers_agree (a : Automaton) (initial : Nat) (hintegrity : a.checkIntegrity = .ok ())
    (hinitial : a.initial = some initial) (hactions : a.hasActions = false)
    (hsingle : ∀ t ∈ a.transitions, ∀ label, t.label = some label → label.matcher.isSingle = true) :
    (a.kind = .nfa → ∀ ctx : Context, ctx.bailout = none → ctx.region = none →
      ¬StoppedAtLimit (ctx.matchWhole a.searcher).1 →
        ∃ m : Option Match, (ctx.matchWhole a.searcher).1 = .ok m ∧
          (m.isSome = true ↔ a.accepts ctx.input = true)) ∧
    (a.isDeterministic = true → ∀ input : Array Char,
      (a.reset.stepAll input.toList).1 = true ∧
          (a.reset.stepAll input.toList).2.acceptsHere = true ↔ a.accepts input = true) ∧
    (a.isDeterministic = true → a.kind = .dfa → ∀ (search : Search) (start : Nat) (t : Tracker),
      search.bailout = none → start ≤ search.input.size →
        ¬StoppedAtLimit ((a.longest search initial start).run t).1 →
          ∃ attempt : Attempt, ((a.longest search initial start).run t).1 = .ok attempt ∧
            (∀ found, attempt.found = some found → IsGreatest (a.Ends search start) found.stop) ∧
            (attempt.found = none ↔ a.Ends search start = ∅)) := by
  have hwf := (checkIntegrity_iff a).mp hintegrity
  have hsupported : a.supportsLockstep = true := by
    rw [supportsLockstep, hactions, Bool.not_false, Bool.true_and, List.all_eq_true]
    intro t ht
    cases hlabel : t.label with
    | none => rfl
    | some label => exact hsingle t ht label hlabel
  refine ⟨fun hkind ctx hbailout hregion hlimit => ?_, fun hdeterministic input => ?_,
    fun hdeterministic _ search start t hbailout hstart hlimit => ?_⟩
  · exact matchWhole_iff_accepts hsupported hwf hkind hinitial hbailout hregion hlimit
  · exact stepAll_iff_accepts ((isDeterministic_iff a).mp hdeterministic) hinitial input
  · exact longest_finds_greatest ((isDeterministic_iff a).mp hdeterministic) hinitial hbailout
      hstart hlimit

private theorem parse_onlyB : Matcher.parse ['b'] = .ok (.literal ['b'] false) := rfl

private def takingB : Transition :=
  ⟨0, 0, some ⟨['b'], .literal ['b'] false, parse_onlyB⟩, 0⟩

/-- An automaton of either kind, whose only state comes back to itself with the letter `b`. -/
private def manyB (kind : AutomatonKind) : Automaton :=
  ⟨kind, #[{ State.new 0 true with transitions := [takingB] }], some 0, none, .empty, none⟩

private def afterA : Array Char := #['a', 'b', 'b']

theorem recognizers_agree_on_manyB :
    ((((Context.new ⟨100, 0, 1000⟩ 0).setInput afterA).matchWhole (manyB .nfa).searcher).1 =
        .ok none ∧
      (manyB .nfa).accepts afterA = false) ∧
    (((manyB .dfa).reset.stepAll ['b', 'b']).1 = true ∧
      ((manyB .dfa).reset.stepAll ['b', 'b']).2.acceptsHere = true ∧
        (manyB .dfa).accepts #['b', 'b'] = true) ∧
    ∃ attempt found,
      (((manyB .dfa).longest ⟨afterA, false, .backtracking, none, false, .still⟩ 0 1).run
        (.new ⟨100, 0, 1000⟩)).1 = .ok attempt ∧
      attempt.found = some found ∧ found.stop = 3 ∧ IsGreatest ((manyB .dfa).Ends
        ⟨afterA, false, .backtracking, none, false, .still⟩ 1) 3 := by
  have hsingle (kind : AutomatonKind) : ∀ t ∈ (manyB kind).transitions, ∀ label,
      t.label = some label → label.matcher.isSingle = true := by
    intro t ht label hlabel
    obtain rfl := List.mem_singleton.mp ht
    cases hlabel
    rfl
  have hactions (kind : AutomatonKind) : (manyB kind).hasActions = false := by
    simp [hasActions, manyB, State.new]
  have hdeterministic : (manyB .dfa).isDeterministic = true := by decide +kernel
  have hwhole : (((Context.new ⟨100, 0, 1000⟩ 0).setInput afterA).matchWhole
      (manyB .nfa).searcher).1 = .ok none := by
    decide +kernel
  have hlongest : (((manyB .dfa).longest ⟨afterA, false, .backtracking, none, false, .still⟩ 0
      1).run (.new ⟨100, 0, 1000⟩)).1 = .ok ⟨some ⟨3, []⟩, false⟩ := by
    decide +kernel
  obtain ⟨hmatches, -, -⟩ := recognizers_agree (manyB .nfa) 0 rfl rfl (hactions .nfa) (hsingle .nfa)
  obtain ⟨-, hsteps, hends⟩ :=
    recognizers_agree (manyB .dfa) 0 rfl rfl (hactions .dfa) (hsingle .dfa)
  obtain ⟨m, hm, hiff⟩ := hmatches rfl ((Context.new ⟨100, 0, 1000⟩ 0).setInput afterA) rfl rfl
    (StoppedAtLimit.of_isOk (by rw [hwhole]; rfl))
  obtain rfl : none = m := Except.ok.inj (hwhole.symm.trans hm)
  have hstepped : ((manyB .dfa).reset.stepAll ['b', 'b']).1 = true ∧
      ((manyB .dfa).reset.stepAll ['b', 'b']).2.acceptsHere = true := by
    decide +kernel
  obtain ⟨attempt, hattempt, hgreatest, -⟩ := hends hdeterministic rfl
    ⟨afterA, false, .backtracking, none, false, .still⟩ 1 (.new ⟨100, 0, 1000⟩) rfl (by decide)
    (StoppedAtLimit.of_isOk (by rw [hlongest]; rfl))
  obtain rfl : ⟨some ⟨3, []⟩, false⟩ = attempt := Except.ok.inj (hlongest.symm.trans hattempt)
  have hrefused : (manyB .nfa).accepts afterA = false :=
    Bool.eq_false_iff.mpr fun haccepts => Bool.false_ne_true (hiff.mpr haccepts)
  exact ⟨⟨hwhole, hrefused⟩,
    ⟨hstepped.1, hstepped.2, (hsteps hdeterministic #['b', 'b']).mp hstepped⟩,
    _, _, hlongest, rfl, rfl, hgreatest _ rfl⟩

end RegexEngine.Automaton
