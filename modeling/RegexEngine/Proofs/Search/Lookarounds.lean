import RegexEngine.Proofs.Automaton.Crossings
import RegexEngine.Proofs.Automaton.Looks
import RegexEngine.Proofs.Search.Reaching

/-!
Lookarounds mean what they say. A way that enters the state of a lookaround waits until a search of
its own has tried the body, and goes on at the same place if the lookaround holds there. A search
for a regular body always ends, and the automaton has the body as it was built, so what is found is
what the expression of the body matches: ahead from the place on, behind from the nearest place
that leads up to it. Only a positive lookaround keeps what groups have taken in the body.

Nothing is said about the search around the lookaround, which may itself be for a body.
-/

namespace RegexEngine

namespace State

variable {s : State} {kind : LookKind} {b : Nat}

/-- How a way goes on from a state once it is known whether the lookaround holds. A condition chooses
between two ways; otherwise a way goes on only if the lookaround holds. -/
def goOn (s : State) (input : Array Char) (inBody : Bool) (path : Path) (holds : Bool) : Move :=
  match s.action with
  | some (.branch _) => s.choose path holds
  | _ => if holds then s.proceed input inBody path else .dead

theorem action_of_look? (h : s.look? = some (kind, b)) :
    s.action = some (.look kind b) ∨ s.action = some (.branch (.look kind b)) := by
  obtain ⟨action, haction, hlook⟩ := Option.bind_eq_some_iff.mp h
  rw [haction]
  cases action with
  | look => exact .inl (by cases hlook; rfl)
  | branch condition =>
    cases condition with
    | look => exact .inr (by cases hlook; rfl)
    | group => cases hlook
  | _ => cases hlook

/-- A state with a lookaround asks for its body at once. -/
theorem enter_eq_ask (hneat : s.IsNeat) (h : s.look? = some (kind, b)) (input : Array Char)
    (inBody : Bool) (path : Path) :
    s.enter input inBody path = .ask ⟨b, kind.isBehind⟩ path := by
  have haction := action_of_look? h
  obtain ⟨hgroup, hmarks⟩ := hneat.resolve_left fun hnone => by
    rw [hnone] at haction
    exact haction.elim nofun nofun
  have hholds : Marks.empty.holdAt input path.position = true := by
    rw [Marks.holdAt, show Marks.empty.hasAssertion = false by decide]
    rfl
  have hends : Marks.empty.contains .bodyEnd = false := by decide
  have hcapture : s.capture path.position path.slots = path.slots := by rw [capture, hgroup]
  rw [enter, hmarks, if_pos hholds, hcapture, hends]
  rcases haction with haction | haction
  · simp [act, haction]
  · simp [act, haction]

/-- The slots that a way goes on with. A negative lookaround leaves them as they were. -/
def slotsAfter (kind : LookKind) (slots : Slots) : Option Found → Slots
  | some found => if kind.isNegative then slots else found.slots
  | none => slots

/-- What the answer of the body makes of the way that has asked for it. -/
theorem resume_eq_goOn (h : s.look? = some (kind, b)) (input : Array Char) (inBody : Bool)
    (path : Path) (found : Option Found) :
    s.resume input inBody path found =
      s.goOn input inBody { path with slots := slotsAfter kind path.slots found }
        (if found.isSome then !kind.isNegative else kind.isNegative) := by
  rcases action_of_look? h with haction | haction
  · simp only [resume, goOn, haction, looked?, slotsAfter]
    cases found <;> cases kind.isNegative <;> rfl
  · simp only [resume, goOn, haction, looked?, slotsAfter]
    cases found <;> cases kind.isNegative <;> rfl

end State

namespace Automaton

open State

variable {a : Automaton} {search : Search} {look : Lookaround} {b : Nat} {path : Path}

/-- The body of a lookaround is found from a place on, by a search that starts with what groups have
taken so far and ends where the lookaround says. -/
structure Finds (a : Automaton) (search : Search) (look : Lookaround) (b : Nat) (path : Path)
    (i : Nat) (m : Found) : Prop where
  startsAt : look.StartsAt search.input path.position i
  spans : look.Spans search.input i m.stop
  gives : a.code.Gives search (.way (Body.goal ⟨b, look.kind.isBehind⟩ path)
    (Body.way ⟨b, look.kind.isBehind⟩ path i)) ⟨some m, false⟩

/-- What a lookaround comes to at a place: whether it holds there, and the slots that the way goes on
with. -/
structure Outcome (a : Automaton) (search : Search) (look : Lookaround) (b : Nat) (path : Path)
    (holds : Bool) (slots : Slots) : Prop where
  holds_iff : holds = true ↔ look.Holds search.input path.position
  slots_eq : look.kind.isNegative = true ∨ holds = false → slots = path.slots
  found : look.kind.isNegative = false → holds = true →
    ∃ i m, a.Finds search look b path i m ∧ slots = m.slots

/-- A state decides a lookaround. Whatever run enters it, unless it is stopped at a bound, comes to
where it goes on with the way as it was before, up to the slots. -/
def Decides (a : Automaton) (k : Nat) (look : Lookaround) : Prop :=
  ∀ (search : Search) (r : Run) (path : Path), search.bailout = none → r.phase = .enter path →
    path.place = k → k ∉ path.trail → path.position ≤ search.input.size →
      ∃ s b holds slots, a.states[k]? = some s ∧ s.look? = some (look.kind, b) ∧
        a.Outcome search look b path holds slots ∧
          r.Reaches a.code search fun next =>
            next.step a.code search = .running <$> r.pick.move search a.groupCount
              (s.goOn search.input r.goal.isBody { path.entered with slots := slots } holds)

/-- The body of a lookaround is found exactly if it matches there. -/
theorem gives_look (hbody : a.HasBody look b) (hregular : look.body.isRegular = true)
    (hmeaning : ∀ node ∈ look.body.preorder, node.HasMeaning)
    (hposition : path.position ≤ search.input.size) :
    (∃ m i, a.code.Gives search (.body ⟨b, look.kind.isBehind⟩ path path.position) ⟨some m, false⟩ ∧
      a.Finds search look b path i m ∧ look.Matches search.input path.position) ∨
    (a.code.Gives search (.body ⟨b, look.kind.isBehind⟩ path path.position) .fruitless ∧
      ¬look.Matches search.input path.position) := by
  obtain ⟨p, p', hflags, hrun, hsame⟩ := hbody
  obtain ⟨stop, hbuilt⟩ := Blueprint.built_body hregular hmeaning p b p' hrun
  have hat := hbuilt.bodyAt.congr hsame
  have hspans {i : Nat} (hi : i ≤ path.position) (j : Nat) :
      a.Crosses search.input b stop i j ↔ look.Spans search.input i j := by
    rw [hbuilt.crosses_iff hsame (Nat.le_trans hi hposition), hflags]
    rfl
  cases hbehind : look.kind.isBehind with
  | false =>
    have hmatches : look.Matches search.input path.position ↔
        ∃ j, path.position ≤ j ∧ look.Spans search.input path.position j := by
      simp [Lookaround.Matches, hbehind]
    rw [hmatches]
    rcases gives_ahead hat hbuilt.start_ge hbuilt.start_lt hposition with
      ⟨m, hgives, hway, hcrosses⟩ | ⟨hgives, hnone⟩
    · have hstart : look.StartsAt search.input path.position path.position := by
        simp [Lookaround.StartsAt, hbehind]
      have hends := (hspans (Nat.le_refl _) m.stop).mp hcrosses
      obtain ⟨n, hn⟩ := hcrosses
      refine .inl ⟨m, path.position, hgives, ⟨hstart, hends, ?_⟩, m.stop, hn.le, hends⟩
      rw [hbehind]
      exact hway
    · refine .inr ⟨hgives, ?_⟩
      rintro ⟨j, _, hj⟩
      exact hnone j ((hspans (Nat.le_refl _) j).mpr hj)
  | true =>
    have hmatches : look.Matches search.input path.position ↔
        ∃ i, i ≤ path.position ∧ look.Spans search.input i path.position := by
      simp [Lookaround.Matches, hbehind]
    rw [hmatches]
    rcases gives_behind hat hbuilt.start_ge hbuilt.start_lt path hposition with
      ⟨m, i, hgives, hway, hstop, hgreatest⟩ | ⟨hgives, hnone⟩
    · have hends := (hspans hgreatest.1.1 _).mp hgreatest.1.2
      have hstart : look.StartsAt search.input path.position i := by
        rw [Lookaround.StartsAt, if_pos hbehind]
        refine ⟨⟨hgreatest.1.1, hends⟩, fun other hother => hgreatest.2 ⟨hother.1, ?_⟩⟩
        exact (hspans hother.1 _).mpr hother.2
      refine .inl ⟨m, i, hgives, ⟨hstart, hstop ▸ hends, ?_⟩, i, hgreatest.1.1, hends⟩
      rw [hbehind]
      exact hway
    · refine .inr ⟨hgives, ?_⟩
      rintro ⟨i, hi, hends⟩
      exact hnone i hi ((hspans hi _).mpr hends)

/-- What a lookaround comes to once its body was found. -/
theorem Finds.outcome {i : Nat} {m : Found} (h : a.Finds search look b path i m)
    (hmatches : look.Matches search.input path.position) :
    a.Outcome search look b path (!look.kind.isNegative)
      (slotsAfter look.kind path.slots (some m)) := by
  cases hnegative : look.kind.isNegative with
  | false =>
    have hslots : slotsAfter look.kind path.slots (some m) = m.slots := by
      simp [slotsAfter, hnegative]
    refine ⟨?_, by simp [hnegative], fun _ _ => ⟨i, m, h, hslots⟩⟩
    simp [Lookaround.Holds, hnegative, hmatches]
  | true =>
    have hslots : slotsAfter look.kind path.slots (some m) = path.slots := by
      simp [slotsAfter, hnegative]
    refine ⟨?_, fun _ => hslots, nofun⟩
    simp [Lookaround.Holds, hnegative, hmatches]

/-- What a lookaround comes to if its body was not found. -/
theorem outcome_of_not_matches (h : ¬look.Matches search.input path.position) :
    a.Outcome search look b path look.kind.isNegative path.slots where
  holds_iff := by
    cases hnegative : look.kind.isNegative <;> simp [Lookaround.Holds, hnegative, h]
  slots_eq _ := rfl
  found hpositive hholds := absurd (hpositive.symm.trans hholds) Bool.false_ne_true

/-- A lookaround comes to something, and the way goes on as it says. -/
theorem exists_outcome (hbody : a.HasBody look b) (hregular : look.body.isRegular = true)
    (hmeaning : ∀ node ∈ look.body.preorder, node.HasMeaning)
    (hposition : path.position ≤ search.input.size) :
    ∃ B holds slots, a.code.Gives search (.body ⟨b, look.kind.isBehind⟩ path path.position) B ∧
      a.Outcome search look b path holds slots ∧
        ∀ (s : State) (inBody : Bool), s.look? = some (look.kind, b) →
          s.resume search.input inBody path B.found =
            s.goOn search.input inBody { path with slots := slots } holds := by
  rcases gives_look hbody hregular hmeaning hposition with
    ⟨m, i, hgives, hfinds, hmatches⟩ | ⟨hgives, hmatches⟩
  · exact ⟨_, _, _, hgives, hfinds.outcome hmatches, fun s inBody h => resume_eq_goOn h _ _ _ _⟩
  · refine ⟨_, _, _, hgives, outcome_of_not_matches hmatches, fun s inBody h => ?_⟩
    exact resume_eq_goOn h _ _ _ none

/-- That its place was entered does not count for what a lookaround comes to. -/
theorem Outcome.of_entered {holds : Bool} {slots : Slots}
    (h : a.Outcome search look b path.entered holds slots) :
    a.Outcome search look b path holds slots := by
  refine ⟨h.holds_iff, h.slots_eq, fun hpositive hholds => ?_⟩
  obtain ⟨i, m, hfinds, hslots⟩ := h.found hpositive hholds
  exact ⟨i, m, ⟨hfinds.startsAt, hfinds.spans, hfinds.gives⟩, hslots⟩

/-- A state that looks for a regular body, and does nothing else, decides the lookaround. -/
theorem LooksFor.decides {k : Nat} (h : a.LooksFor k look)
    (hneat : ∀ s, a.states[k]? = some s → s.IsNeat) (hregular : look.body.isRegular = true)
    (hmeaning : ∀ node ∈ look.body.preorder, node.HasMeaning) : a.Decides k look := by
  rintro search r path hbailout hphase rfl hnew hposition
  obtain ⟨s, b, hstate, hlook, hbody⟩ := h
  have hposition' : path.entered.position ≤ search.input.size := hposition
  obtain ⟨B, holds, slots, hgives, houtcome, hresume⟩ :=
    exists_outcome hbody hregular hmeaning hposition'
  have hentered : a.states[path.entered.place]? = some s := hstate
  refine ⟨s, b, holds, slots, hstate, hlook, houtcome.of_entered, ?_⟩
  apply Run.reaches_asked hbailout hphase hnew ?_ hgives ?_
  · rw [code_enter_eq hentered, enter_eq_ask (hneat s hstate) hlook]
  · rw [code_resume_eq hentered, hresume s _ hlook]

/-- The states with lookarounds decide them, one after the other: ahead of a place a lookaround holds
exactly if its body matches from there on, behind it exactly if the body matches from some place up to
there, and the nearest is the one that is found; negative ones hold exactly if the positive ones do
not. -/
theorem lookarounds_decide {tree : SyntaxTree} {maxStates : Nat} {base nextId : UInt32}
    {a : Automaton} (hrun : (ofTree tree maxStates).run base = (.ok a, nextId)) :
    List.Forall₂ (fun k look => look.body.isRegular = true →
        (∀ node ∈ look.body.preorder, node.HasMeaning) → a.Decides k look)
      a.lookStates (tree.root.lookarounds tree.flags) := by
  obtain ⟨hneat, hlooks⟩ := ofTree_looksFor hrun
  exact hlooks.imp fun k look h hregular hmeaning => h.decides (hneat k) hregular hmeaning

private def afterAOrAB : Lookaround :=
  ⟨.behind, .alt [.literal 'a', .concat [.literal 'a', .literal 'b']], .empty⟩

private def notBeforeC : Lookaround := ⟨.notAhead, .literal 'c', .empty⟩

/-- An `a` that follows `a` or `ab`, with no `c` after it. -/
private def guardedA : SyntaxTree :=
  ⟨.concat [.look .behind afterAOrAB.body, .literal 'a', .look .notAhead notBeforeC.body], .empty,
    false, [], [], []⟩

private def onABA : Search := ⟨#['a', 'b', 'a'], false, .backtracking, none, false, .still⟩

/-- A run that comes to a place after two characters. -/
private def comingTo (k : Nat) : Run :=
  ⟨.enter (.start k 2 (.unset 0)), .whole, .new 100 0, [], false⟩

theorem lookarounds_decide_guardedA :
    ∃ a nextId, (ofTree guardedA 100).run 0 = (.ok a, nextId) ∧ ∃ k k', a.lookStates = [k, k'] ∧
      a.Decides k' notBeforeC ∧ ∃ s b slots, a.states[k]? = some s ∧
        a.Outcome onABA afterAOrAB b (.start k 2 (.unset 0)) true slots ∧
          (comingTo k).Reaches a.code onABA fun next =>
            next.step a.code onABA = .running <$> (comingTo k).pick.move onABA a.groupCount
              (s.goOn onABA.input false { Path.entered (.start k 2 (.unset 0)) with slots := slots }
                true) := by
  have hok : ((ofTree guardedA 100).run 0).1.isOk = true := by decide +kernel
  rcases hrun : (ofTree guardedA 100).run 0 with ⟨e | a, nextId⟩
  · rw [hrun] at hok
    cases hok
  have hmeaning {root : Tree}
      (hvalid : (⟨root, .empty, false, [], [], []⟩ : SyntaxTree).validate 10 = .ok ()) :=
    SyntaxTree.hasMeaning_of_validate hvalid
  have hdecide := lookarounds_decide hrun
  have hlooks : guardedA.root.lookarounds guardedA.flags = [afterAOrAB, notBeforeC] := rfl
  rw [hlooks] at hdecide
  generalize hstates : a.lookStates = states at hdecide
  obtain _ | ⟨hbehind, _ | ⟨hahead, _ | _⟩⟩ := hdecide
  have hposition : 2 ≤ onABA.input.size := by decide
  obtain ⟨s, b, holds, slots, hstate, _, houtcome, hreaches⟩ := hbehind rfl (hmeaning rfl) onABA
    (comingTo _) _ rfl rfl rfl List.not_mem_nil hposition
  have hspans : afterAOrAB.Spans onABA.input 0 2 :=
    .inr (.inl ⟨1, ⟨'a', rfl, by decide, rfl⟩, 2, ⟨'b', rfl, by decide, rfl⟩, rfl⟩)
  obtain rfl : holds = true := houtcome.holds_iff.mpr ⟨0, Nat.zero_le 2, hspans⟩
  exact ⟨a, nextId, rfl, _, _, hstates, hahead rfl (hmeaning rfl), s, b, slots, hstate, houtcome,
    hreaches⟩

/-! Two things are needed for this: options reach only as far as `Reach.innermost` says, and what the
check of an expression asks for. -/

/-- What an attempt finds that starts with a lookahead at the start of an input. -/
private def attemptAhead (body : Tree) (input : Array Char) : Except Error Attempt := do
  let a ← ((ofTree ⟨.look .ahead body, .empty, false, [], [], []⟩ 100).run 0).1
  let search := ⟨input, false, .backtracking, none, false, .still⟩
  ((a.code.search search (a.initial.getD 0) 0).run (.new ⟨100, 0, 1000⟩)).1

/-- Options in an alternation that is not all of its group, and a letter after it. -/
private def strayBody : Tree := .concat [.alt [.options ⟨"i", ""⟩, .literal 'b'], .literal 'a']

/-- A repetition that is never possible. -/
private def reversedBody : Tree := .repetition ⟨3, some 2, true, false⟩ (.literal 'a')

/-- A class that cannot be read. -/
private def unreadableBody : Tree := .cls .bracket "ab"

/-- Options do not reach beyond the alternation that they stand in, though the group goes on after it.
In expressions that were not checked, a repetition whose bounds are out of order is made as often as
the lower one says, and a class that cannot be read is a text. -/
theorem lookaheads_keep_to_what_was_built :
    (strayBody.isRegular = true ∧ strayBody.Spans .group #['A'] .empty 0 1 ∧
      attemptAhead strayBody #['A'] = .ok ⟨none, false⟩) ∧
    (reversedBody.isRegular = true ∧
      (∀ j, ¬reversedBody.Spans .group #['a', 'a', 'a'] .empty 0 j) ∧
        attemptAhead reversedBody #['a', 'a', 'a'] = .ok ⟨some ⟨0, []⟩, false⟩) ∧
    unreadableBody.isRegular = true ∧
      (∀ j, ¬unreadableBody.Spans .group #['a', 'b'] .empty 0 j) ∧
        attemptAhead unreadableBody #['a', 'b'] = .ok ⟨some ⟨0, []⟩, false⟩ := by
  refine ⟨⟨rfl, ?_, by decide +kernel⟩, ⟨rfl, ?_, by decide +kernel⟩, rfl, ?_, by decide +kernel⟩
  · exact ⟨0, .inl rfl, 1, ⟨'A', rfl, by decide, rfl⟩, rfl⟩
  · rintro j ⟨n, hmin, hmax, _⟩
    have hle : n ≤ 2 := hmax 2 rfl
    exact absurd (Nat.le_trans hmin hle) (by decide)
  · rintro j ⟨set, hparse, _⟩
    have herror : (CharClass.parse "ab").isOk = false := by decide +kernel
    rw [hparse] at herror
    cases herror

end Automaton

end RegexEngine
