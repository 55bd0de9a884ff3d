import RegexEngine.Proofs.Automaton.Levels
import RegexEngine.Proofs.Search.Bodies
import RegexEngine.Proofs.Search.Halting

/-!
Searches through compiled automata come to an end by themselves, whether or not anything bounds
them. A way takes input, or enters states that it has not entered since it last did, or asks for a
body on a lower level; a lookbehind tries its body from finitely many places. What is known to be
entered is forgotten only where input is taken, also where a group is repeated or a body is passed.
-/

namespace RegexEngine

/-- A path goes on to another one: to no higher level, and further on in the input, or with all that
it knows to be entered. -/
structure Path.Ahead (level : Nat → Nat) (input : Array Char) (path next : Path) : Prop where
  level_le : level next.place ≤ level path.place
  inside : path.position ≤ input.size → next.position ≤ input.size
  moves : path.position < next.position ∨
    next.position = path.position ∧ path.trail ⊆ next.trail

namespace Path

variable {level : Nat → Nat} {input : Array Char} {path next last : Path}

theorem Ahead.position_le (h : path.Ahead level input next) : path.position ≤ next.position := by
  rcases h.moves with hfurther | ⟨hsame, _⟩
  · exact Nat.le_of_lt hfurther
  · exact Nat.le_of_eq hsame.symm

theorem Ahead.of_eq (hplace : next.place = path.place) (hposition : next.position = path.position)
    (htrail : path.trail ⊆ next.trail) : path.Ahead level input next :=
  ⟨by rw [hplace], by rw [hposition]; exact id, .inr ⟨hposition, htrail⟩⟩

theorem Ahead.trans (h : path.Ahead level input next) (h' : next.Ahead level input last) :
    path.Ahead level input last := by
  refine ⟨h'.level_le.trans h.level_le, fun hinside => h'.inside (h.inside hinside), ?_⟩
  rcases h'.moves with hfurther | ⟨hsame, htrail⟩
  · exact .inl (Nat.lt_of_le_of_lt h.position_le hfurther)
  · rcases h.moves with hfurther | ⟨hsame', htrail'⟩
    · exact .inl (hsame ▸ hfurther)
    · exact .inr ⟨hsame.trans hsame', fun _ hplace => htrail (htrail' hplace)⟩

theorem chains_ahead (level : Nat → Nat) (input : Array Char) : Chains (Ahead level input) where
  refl _ := .of_eq rfl rfl fun _ hplace => hplace
  trans := .trans
  entered path := .of_eq rfl rfl fun _ hplace => List.mem_cons_of_mem path.place hplace

end Path

namespace State

variable {level : Nat → Nat} {input : Array Char} {s : State} {path here next : Path}

/-- The ways over the transitions of a state are ahead of where it is entered. -/
theorem Nests.onward (h : s.Nests level path.place) (hhere : path.Ahead level input here)
    (hplace : here.place = path.place) : s.Onward input (Path.Ahead level input) path here := by
  constructor
  · intro t ht position trail hle hinside htrail
    refine hhere.trans ⟨?_, hinside, ?_⟩
    · rw [hplace]
      exact h.target_le t ht
    · rcases Nat.lt_or_eq_of_le hle with hfurther | hsame
      · exact .inl hfurther
      · refine .inr ⟨hsame.symm, ?_⟩
        dsimp only
        rw [htrail hsame.symm]
        exact fun _ hplace => hplace
  · intro _ position hle hinside
    refine ⟨{ here with position := position }, hhere.trans ⟨Nat.le_refl _, hinside, ?_⟩, rfl, rfl⟩
    rcases Nat.lt_or_eq_of_le hle with hfurther | hsame
    · exact .inl hfurther
    · exact .inr ⟨hsame.symm, fun _ hplace => hplace⟩

/-- A lookaround changes the slots only. -/
theorem of_looked? {kind : LookKind} {found : Option Found} (h : looked? kind path found = some next) :
    next.place = path.place ∧ next.position = path.position ∧ next.trail = path.trail := by
  cases found with
  | none =>
    simp only [looked?] at h
    split at h
    · cases h
      exact ⟨rfl, rfl, rfl⟩
    · cases h
  | some f =>
    simp only [looked?] at h
    split at h
    · cases h
    · cases h
      exact ⟨rfl, rfl, rfl⟩

/-- After its body, a way is ahead of where it has asked for it. -/
theorem After.ahead {body : Body} (hbody : s.asks? = some body) {tried : Nat} {found : Option Found}
    (htried : body.TriedFrom path tried)
    (hfound : Found.Follows (Path.Ahead level input) (body.origin path tried) found)
    (h : s.After path found next) : path.Ahead level input next ∧ next.place = path.place := by
  cases h with
  | looked _ hlooked =>
    obtain ⟨hplace, hposition, htrail⟩ := of_looked? hlooked
    exact ⟨.of_eq hplace hposition (htrail ▸ fun _ hplace => hplace), hplace⟩
  | refused _ _ => exact ⟨.of_eq rfl rfl fun _ hplace => hplace, rfl⟩
  | @atomic _ f haction hf =>
    have hahead : body.behind = false := by
      simp only [asks?, haction, Option.some.injEq] at hbody
      rw [← hbody]
    obtain ⟨last, hlast, hstop, _⟩ := hfound f hf
    have hle : path.position ≤ f.stop := by
      rw [← htried.eq hahead, ← hstop]
      exact hlast.position_le
    refine ⟨⟨Nat.le_refl _, fun hinside => ?_, ?_⟩, rfl⟩
    · rw [← hstop]
      exact hlast.inside (Nat.le_trans htried.le hinside)
    · rcases Nat.lt_or_eq_of_le hle with hfurther | hsame
      · exact .inl hfurther
      · refine .inr ⟨hsame.symm, fun _ hplace => ?_⟩
        simpa [advance, hsame.symm] using hplace

/-- The body that a way asks for where it enters a state is that of the state. -/
theorem asks?_of_enter {inBody : Bool} {body : Body} (h : s.enter input inBody path = .ask body next) :
    s.asks? = some body ∧ next.position = path.position := by
  unfold enter at h
  split at h
  · dsimp only at h
    split at h
    · cases h
    · unfold act at h
      cases haction : s.action with
      | none =>
        rw [haction] at h
        cases h
      | some action =>
        rw [haction] at h
        cases action with
        | fail => cases h
        | accept => cases h
        | commit => cases h
        | backref group nocase =>
          dsimp only at h
          split at h
          · cases h
          · cases h
        | look kind start =>
          cases h
          exact ⟨by simp only [asks?, haction], rfl⟩
        | atomic start =>
          cases h
          exact ⟨by simp only [asks?, haction], rfl⟩
        | branch condition =>
          cases condition with
          | group index =>
            simp only [choose] at h
            split at h
            · cases h
            · cases h
          | look kind start =>
            cases h
            exact ⟨by simp only [asks?, haction], rfl⟩
  · cases h

end State

/-- What is left of a way: its level, the input after it, and the states that it does not know to be
entered. -/
def Path.left (level : Nat → Nat) (input : Array Char) (count : Nat) (path : Path) :
    Nat × Nat × Nat :=
  (level path.place, input.size - path.position, (Finset.range count \ path.trail.toFinset).card)

/-- From a state that is new, what is ahead has less left. -/
theorem Path.Ahead.left_lt {level : Nat → Nat} {input : Array Char} {count : Nat} {path next : Path}
    (h : path.entered.Ahead level input next) (hnew : path.place ∉ path.trail)
    (hplace : path.place < count) (hposition : path.position ≤ input.size) :
    Prod.Lex (· < ·) (Prod.Lex (· < ·) (· < ·)) (next.left level input count)
      (path.left level input count) := by
  have hinside : next.position ≤ input.size := h.inside hposition
  have hlevel : level next.place ≤ level path.place := h.level_le
  unfold left
  rcases Nat.lt_or_eq_of_le hlevel with hbelow | hsame
  · exact .left _ _ hbelow
  · rw [hsame]
    apply Prod.Lex.right
    rcases h.moves with hfurther | ⟨hstays, htrail⟩
    · have hfurther : path.position < next.position := hfurther
      exact .left _ _ (by omega)
    · have hstays : next.position = path.position := hstays
      rw [hstays]
      apply Prod.Lex.right
      refine Nat.lt_of_le_of_lt (Finset.card_le_card ?_)
        (Automaton.card_sdiff_trail_lt (Finset.mem_range.mpr hplace) hnew)
      apply Finset.sdiff_subset_sdiff (Finset.Subset.refl _)
      exact fun place hmem => List.mem_toFinset.mpr (htrail (List.mem_toFinset.mp hmem))

namespace Automaton

variable {a : Automaton} {level : Nat → Nat} {most : Nat}

theorem Nests.respects (h : a.Nests level) (input : Array Char) :
    a.code.Respects input (Path.Ahead level input) := by
  have hcaptured (path : Path) (s : State) : path.Ahead level input (s.captured path) :=
    .of_eq rfl rfl fun _ hplace => hplace
  apply respects_of_states a (Path.chains_ahead level input)
  · exact fun path s _ => hcaptured path s
  · exact fun path s hstate _ => (h path.place s hstate).onward (hcaptured path s) rfl
  · intro path s hstate body hbody tried found htried hfound next hafter
    obtain ⟨hahead, hplace⟩ := hafter.ahead hbody htried hfound
    have hnests : s.Nests level (s.captured path).place := h path.place s hstate
    exact hnests.onward hahead hplace

/-- Every way through an automaton halts, as long as it stands inside the input. -/
theorem Nests.way_halts (h : a.Nests level) (search : Search) (path : Path)
    (hposition : path.position ≤ search.input.size) :
    (Frame.follow path).Halts a.code search most (Path.Ahead level search.input)
      (level path.place) := by
  apply Frame.follow_halts (h.respects search.input)
  intro hnew inBody move hmove
  obtain ⟨s, hstate, rfl⟩ := enter_ok hmove
  have hplace : path.place < a.stateCount := (Array.getElem?_eq_some_iff.mp hstate).1
  constructor
  · intro next hnext
    have hless := hnext.left_lt hnew hplace hposition
    exact (way_halts h search next (hnext.inside hposition)).mono hnext.level_le
  · intro body next hasks
    obtain ⟨hbody, hstays⟩ := State.asks?_of_enter hasks
    have hbelow := (h path.place s hstate).body_lt body hbody
    refine ⟨level body.start, hbelow, fun tried htried => ?_⟩
    have htried : tried ≤ path.position := hstays ▸ htried.le
    exact way_halts h search (body.origin next tried) (htried.trans hposition)
termination_by path.left level search.input a.stateCount
decreasing_by
  · exact hless
  · exact Prod.Lex.left _ _ hbelow

/-- The backtracking search always stops. Whatever expression an automaton is compiled from, and
also if it is simplified then, every search through it from a place inside the input comes to an end
after finitely many steps, with any bounds or none; and no more searches wait for bodies at a time
than bodies are nested in the expression. -/
theorem backtracking_always_stops {tree : SyntaxTree} {maxStates : Nat} {base nextId : UInt32}
    {a b : Automaton} (hrun : (ofTree tree maxStates).run base = (.ok a, nextId))
    (hsame : b = a ∨ ∃ base' nextId', a.optimize.run base' = ((.ok (), b), nextId')) {i : Nat}
    (hi : b.initial = some i) (search : Search) {start : Nat} (hstart : start ≤ search.input.size) :
    b.code.Stops search i start tree.root.bodyDepth := by
  have hnests : b.NestsWithin tree.root.bodyDepth := by
    rcases hsame with rfl | ⟨_, _, hoptimize⟩
    · exact ofTree_nestsWithin hrun
    · exact (ofTree_nestsWithin hrun).optimize hoptimize
  obtain ⟨level, hlevel, hinitial⟩ := hnests
  have hway : (Frame.follow (.start i start (.unset b.code.groups))).Halts b.code search
      tree.root.bodyDepth (Path.Ahead level search.input) (level i) :=
    hlevel.way_halts search (.start i start (.unset b.code.groups)) hstart
  exact Code.stops_of_halts (hlevel.respects search.input) (hway.mono (hinitial i hi))

/-- An `a` that is not given back, ahead of what follows, any number of times. -/
private def repeatedlyAhead : SyntaxTree :=
  ⟨.repetition ⟨0, none, true, false⟩ (.look .ahead (.atomic (.literal 'a'))), .empty, false, [], [],
    []⟩

private def onAA : Search := ⟨#['a', 'a'], true, .backtracking, none, false, .still⟩

theorem backtracking_always_stops_repeatedlyAhead :
    ∃ a b nextId last i, (ofTree repeatedlyAhead 100).run 0 = (.ok a, nextId) ∧
      a.optimize.run 0 = ((.ok (), b), last) ∧ b.initial = some i ∧ b.code.Stops onAA i 1 2 := by
  have hok : ((ofTree repeatedlyAhead 100).run 0).1.toOption.any (fun a =>
      a.kind == .nfa && a.initial.isSome && a.checkIntegrity.isOk) = true := by
    decide +kernel
  rcases hrun : (ofTree repeatedlyAhead 100).run 0 with ⟨e | a, nextId⟩
  · rw [hrun] at hok
    cases hok
  · rw [hrun] at hok
    simp only [Except.toOption, Option.any_some, Bool.and_eq_true, beq_iff_eq] at hok
    obtain ⟨⟨hkind, hsome⟩, hintegrity⟩ := hok
    obtain ⟨i, hi⟩ := Option.isSome_iff_exists.mp hsome
    cases hcheck : a.checkIntegrity with
    | error e =>
      rw [hcheck] at hintegrity
      cases hintegrity
    | ok _ =>
      obtain ⟨b, hoptimize, hrestates⟩ :=
        exists_optimize ((checkIntegrity_iff a).mp hcheck) hi hkind 0
      obtain ⟨j, hj⟩ := hrestates.exists_initial
      exact ⟨a, b, nextId, 0, j, rfl, hoptimize, hj,
        backtracking_always_stops hrun (.inr ⟨0, 0, hoptimize⟩) hj onAA (by decide)⟩

end Automaton

end RegexEngine
