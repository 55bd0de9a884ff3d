import Mathlib.Data.List.Forall2
import RegexEngine.Automaton.Simplify
import RegexEngine.Proofs.Search.Attempts

/-!
Contractions of automata. One automaton is a contraction of another if some of its states that only
lead on are skipped, the others have a place of their own, and transitions are dropped only where an
earlier one goes to the same place with the same label. Searches on both find the same.

The search on the contraction follows that on the automaton way by way, and stands still while a
state is skipped. What was entered since input was last taken corresponds as well: where a skipped
state was entered, so was the state that it leads to, unless the way is just about to enter that. A
dropped transition leads where a way was tried in vain already, and an earlier way that had ruled
out others would have ruled out this one.
-/

namespace RegexEngine

namespace Transition

/-- A transition goes where another one goes, with places renamed, and takes the same input. -/
structure Imitates (place : Nat → Nat) (t' t : Transition) : Prop where
  label_eq : t'.label = t.label
  target_eq : t'.target = place t.target

end Transition

/-- The second list has the transitions of the first in order, except some that one before them
imitates too. -/
inductive Thinned (place : Nat → Nat) :
    List Transition → List Transition → List Transition → Prop
  | nil {before : List Transition} : Thinned place before [] []
  | keep {before ts ts' : List Transition} {t t' : Transition} : t'.Imitates place t →
      Thinned place (t' :: before) ts ts' → Thinned place before (t :: ts) (t' :: ts')
  | drop {before ts ts' : List Transition} {t t' : Transition} : t' ∈ before →
      t'.Imitates place t → Thinned place before ts ts' → Thinned place before (t :: ts) ts'

namespace State

/-- A state does what another one does, with places renamed. Its transitions may be thinned, unless
their places tell them apart. -/
structure Imitates (place : Nat → Nat) (s' s : State) : Prop where
  accepting_eq : s'.accepting = s.accepting
  marks_eq : s'.marks = s.marks
  groupIndex_eq : s'.groupIndex = s.groupIndex
  action_eq : s'.action = s.action.map (·.mapBody place)
  thinned : Thinned place [] s.transitions s'.transitions
  branches : Automaton.isBranch s = true →
    List.Forall₂ (fun t t' => t'.Imitates place t) s.transitions s'.transitions

/-- A state leads on to one other state and does nothing else. -/
structure OnlyLeadsTo (s : State) (next : Nat) : Prop where
  plain : s.isPlain = true
  transitions_eq : ∃ t, s.transitions = [t] ∧ t.isEpsilon = true ∧ t.target = next

end State

/-- The second automaton is a contraction of the first. -/
structure Contraction (a b : Automaton) where
  /-- The states that are met. -/
  Met : Nat → Prop
  /-- Where a state is in the contraction, or where the state is that it leads on to. -/
  place : Nat → Nat
  /-- The state that a skipped state leads on to. -/
  forward : Nat → Option Nat
  /-- The number of states that are skipped one after the other. -/
  rank : Nat → Nat
  groupCount_eq : b.groupCount = a.groupCount
  met : ∀ s, Met s → ∃ state, a.states[s]? = some state ∧ ∀ t ∈ state.successors, Met t
  kept : ∀ s state, Met s → forward s = none → a.states[s]? = some state →
    ∃ state', b.states[place s]? = some state' ∧ state'.Imitates place state
  skipped : ∀ s next state, Met s → forward s = some next → a.states[s]? = some state →
    state.OnlyLeadsTo next
  place_forward : ∀ s next, Met s → forward s = some next → place next = place s
  rank_forward : ∀ s next, Met s → forward s = some next → rank next < rank s
  injective : ∀ s t, Met s → Met t → forward s = none → forward t = none → place s = place t → s = t

namespace Contraction

open Automaton

variable {a b : Automaton} (c : Contraction a b) {search : Search}

/-! What was entered since input was last taken. -/

/-- What was entered in both automata, if nothing is being skipped. -/
structure Settled (trail trail' : List Nat) : Prop where
  met : ∀ s ∈ trail, c.Met s
  mem_iff : ∀ s, c.Met s → c.forward s = none → (s ∈ trail ↔ c.place s ∈ trail')
  forwarded : ∀ s ∈ trail, ∀ next, c.forward s = some next → next ∈ trail

/-- What was entered in both automata, where the way is about to enter a place. -/
structure Approached (place : Nat) (trail trail' : List Nat) : Prop where
  met : ∀ s ∈ trail, c.Met s
  mem_iff : ∀ s, c.Met s → c.forward s = none → (s ∈ trail ↔ c.place s ∈ trail')
  forwarded : ∀ s ∈ trail, ∀ next, c.forward s = some next → next ∈ trail ∨ next = place

variable {c}

theorem Settled.nil : c.Settled [] [] :=
  ⟨fun _ h => (nomatch h), fun _ _ _ => by simp, fun _ h => (nomatch h)⟩

theorem Settled.approached {trail trail' : List Nat} (h : c.Settled trail trail') (place : Nat) :
    c.Approached place trail trail' :=
  ⟨h.met, h.mem_iff, fun s hs next hnext => .inl (h.forwarded s hs next hnext)⟩

/-- A kept state is entered in both automata. -/
theorem Approached.enter {place : Nat} {trail trail' : List Nat}
    (h : c.Approached place trail trail') (hplace : c.Met place) (hkept : c.forward place = none) :
    c.Settled (place :: trail) (c.place place :: trail') := by
  refine ⟨fun s hs => ?_, fun s hs hs' => ?_, fun s hs next hnext => ?_⟩
  · rcases List.mem_cons.mp hs with rfl | hs
    · exact hplace
    · exact h.met s hs
  · rw [List.mem_cons, List.mem_cons, h.mem_iff s hs hs']
    exact or_congr_left ⟨fun heq => by rw [heq], c.injective s place hs hplace hs' hkept⟩
  · rcases List.mem_cons.mp hs with rfl | hs
    · rw [hkept] at hnext
      cases hnext
    · rcases h.forwarded s hs next hnext with hmem | rfl
      · exact List.mem_cons_of_mem _ hmem
      · exact List.mem_cons_self

/-- A skipped state is entered in the first automaton only. -/
theorem Approached.skip {place next : Nat} {trail trail' : List Nat}
    (h : c.Approached place trail trail') (hplace : c.Met place)
    (hskipped : c.forward place = some next) : c.Approached next (place :: trail) trail' := by
  refine ⟨fun s hs => ?_, fun s hs hs' => ?_, fun s hs other hother => ?_⟩
  · rcases List.mem_cons.mp hs with rfl | hs
    · exact hplace
    · exact h.met s hs
  · rw [List.mem_cons, h.mem_iff s hs hs', or_iff_right]
    rintro rfl
    rw [hskipped] at hs'
    cases hs'
  · rcases List.mem_cons.mp hs with rfl | hs
    · rw [hskipped] at hother
      exact .inr (Option.some.inj hother).symm
    · rcases h.forwarded s hs other hother with hmem | rfl
      · exact .inl (List.mem_cons_of_mem _ hmem)
      · exact .inl List.mem_cons_self

/-- Where a state was entered, the one that it leads on to was entered in the contraction. -/
theorem Approached.place_mem {place : Nat} {trail trail' : List Nat}
    (h : c.Approached place trail trail') (hmem : place ∈ trail) : c.place place ∈ trail' := by
  suffices hall : ∀ (n s : Nat), c.rank s ≤ n → n ≤ c.rank place → s ∈ trail →
      c.place s ∈ trail' from hall _ place (Nat.le_refl _) (Nat.le_refl _) hmem
  intro n
  induction n with
  | zero =>
    intro s hrank hle hs
    cases hforward : c.forward s with
    | none => exact (h.mem_iff s (h.met s hs) hforward).mp hs
    | some next => exact absurd (c.rank_forward s next (h.met s hs) hforward) (by omega)
  | succ n ih =>
    intro s hrank hle hs
    cases hforward : c.forward s with
    | none => exact (h.mem_iff s (h.met s hs) hforward).mp hs
    | some next =>
      have hlower := c.rank_forward s next (h.met s hs) hforward
      rcases h.forwarded s hs next hforward with hnext | rfl
      · have hplace := ih next (by omega) (by omega) hnext
        rwa [c.place_forward s next (h.met s hs) hforward] at hplace
      · omega

/-! Ways and moves. -/

variable (c)

/-- A way inside a state that was just entered, in both automata. -/
structure Inside (path path' : Path) : Prop where
  met : c.Met path.place
  kept : c.forward path.place = none
  place_eq : path'.place = c.place path.place
  position_eq : path'.position = path.position
  slots_eq : path'.slots = path.slots
  trail : c.Settled path.trail path'.trail

/-- A way that is about to enter a state, in both automata. -/
structure Before (path path' : Path) : Prop where
  met : c.Met path.place
  place_eq : path'.place = c.place path.place
  position_eq : path'.position = path.position
  slots_eq : path'.slots = path.slots
  trail : c.Approached path.place path.trail path'.trail

/-- A way in both automata. -/
inductive Twin : Frame → Frame → Prop
  | follow {path path' : Path} : c.Before path path' → Twin (.follow path) (.follow path')
  | accept {position : Nat} {slots : Slots} : Twin (.accept position slots) (.accept position slots)

/-- The second list has the ways of the first in order, except some that came before. -/
inductive Twins : List Frame → List Frame → List Frame → Prop
  | nil {before : List Frame} : Twins before [] []
  | keep {before frames frames' : List Frame} {frame frame' : Frame} : c.Twin frame frame' →
      Twins (frame' :: before) frames frames' →
        Twins before (frame :: frames) (frame' :: frames')
  | drop {before frames frames' : List Frame} {frame frame' : Frame} : frame' ∈ before →
      c.Twin frame frame' → Twins before frames frames' → Twins before (frame :: frames) frames'

/-- A move in both automata. -/
inductive TwinMove : Move → Move → Prop
  | finish {position : Nat} {slots : Slots} :
      TwinMove (.finish position slots) (.finish position slots)
  | go {ways ways' : List Frame} {cut : Bool} : c.Twins [] ways ways' →
      TwinMove (.go ways cut) (.go ways' cut)
  | ask (body : Body) {path path' : Path} : c.Met body.start → c.Inside path path' →
      TwinMove (.ask body path) (.ask { body with start := c.place body.start } path')

variable {c}

theorem TwinMove.dead : c.TwinMove .dead .dead := .go .nil

theorem Twins.append {before frames frames' : List Frame} (h : c.Twins before frames frames')
    {rest rest' : List Frame} (hrest : ∀ before, c.Twins before rest rest') :
    c.Twins before (frames ++ rest) (frames' ++ rest') := by
  induction h with
  | nil => exact hrest _
  | keep htwin _ ih => exact .keep htwin ih
  | drop hmem htwin _ ih => exact .drop hmem htwin ih

section Steps

variable {s s' : State} {path path' : Path} {input : Array Char} {inBody : Bool}

/-- Both ways move on over the input. -/
theorem Inside.advance (h : c.Inside path path') (position : Nat) :
    c.Inside (State.advance path position) (State.advance path' position) := by
  refine ⟨h.met, h.kept, h.place_eq, rfl, h.slots_eq, ?_⟩
  simp only [State.advance, h.position_eq]
  split
  · exact h.trail
  · exact .nil

theorem Inside.setSlots (h : c.Inside path path') (slots : Slots) :
    c.Inside { path with slots := slots } { path' with slots := slots } :=
  ⟨h.met, h.kept, h.place_eq, h.position_eq, rfl, h.trail⟩

/-- Transitions that imitate each other lead to both places. -/
theorem Inside.over (h : c.Inside path path') {t t' : Transition} (ht : t'.Imitates c.place t)
    (hmet : c.Met t.target) :
    State.over? input path t = none ∧ State.over? input path' t' = none ∨
      ∃ frame frame', State.over? input path t = some frame ∧
        State.over? input path' t' = some frame' ∧ c.Twin frame frame' := by
  have hmatch : t'.matchAt? input path'.position = t.matchAt? input path.position := by
    simp only [Transition.matchAt?, ht.label_eq, h.position_eq]
  unfold State.over?
  rw [hmatch]
  cases t.matchAt? input path.position with
  | none => exact .inl ⟨rfl, rfl⟩
  | some position =>
    refine .inr ⟨_, _, rfl, rfl, .follow ⟨hmet, ht.target_eq, rfl, h.slots_eq, ?_⟩⟩
    simp only [h.position_eq]
    split
    · exact h.trail.approached _
    · exact Settled.nil.approached _

theorem Inside.twins (h : c.Inside path path') {before ts ts' : List Transition}
    (hts : Thinned c.place before ts ts') (hmet : ∀ t ∈ ts, c.Met t.target) :
    c.Twins (before.filterMap (State.over? input path')) (ts.filterMap (State.over? input path))
      (ts'.filterMap (State.over? input path')) := by
  induction hts with
  | nil => exact .nil
  | keep ht _ ih =>
    have ih := ih fun t ht => hmet t (List.mem_cons_of_mem _ ht)
    rcases h.over ht (hmet _ List.mem_cons_self) with ⟨hnone, hnone'⟩ | ⟨f, f', hf, hf', htwin⟩
    · rw [List.filterMap_cons_none hnone'] at ih
      rw [List.filterMap_cons_none hnone, List.filterMap_cons_none hnone']
      exact ih
    · rw [List.filterMap_cons_some hf'] at ih
      rw [List.filterMap_cons_some hf, List.filterMap_cons_some hf']
      exact .keep htwin ih
  | drop hmem ht _ ih =>
    have ih := ih fun t ht => hmet t (List.mem_cons_of_mem _ ht)
    rcases h.over ht (hmet _ List.mem_cons_self) with ⟨hnone, _⟩ | ⟨f, f', hf, hf', htwin⟩
    · rw [List.filterMap_cons_none hnone]
      exact ih
    · rw [List.filterMap_cons_some hf]
      exact .drop (List.mem_filterMap.mpr ⟨_, hmem, hf'⟩) htwin ih

theorem mem_successors_target {t : Transition} (ht : t ∈ s.transitions) :
    t.target ∈ s.successors :=
  List.mem_append_left _ (List.mem_map_of_mem ht)

theorem mem_successors_body {body : Nat} (h : s.action.bind Action.body? = some body) :
    body ∈ s.successors :=
  List.mem_append_right _ (by simp [h])

variable (hs : s'.Imitates c.place s) (hmet : ∀ t ∈ s.successors, c.Met t)

include hs hmet

theorem Inside.ways (h : c.Inside path path') :
    c.Twins [] (s.ways input inBody path) (s'.ways input inBody path') := by
  refine Twins.append (h.twins hs.thinned fun t ht => hmet _ (mem_successors_target ht))
    fun before => ?_
  rw [hs.accepting_eq, h.position_eq, h.slots_eq]
  split
  · exact .keep .accept .nil
  · exact .nil

theorem Inside.proceed (h : c.Inside path path') :
    c.TwinMove (s.proceed input inBody path) (s'.proceed input inBody path') :=
  .go (h.ways hs hmet)

theorem Inside.choose (h : c.Inside path path') (hbranch : Automaton.isBranch s = true)
    (holds : Bool) : c.TwinMove (s.choose path holds) (s'.choose path' holds) := by
  have halong {t t' : Transition} (ht : t'.Imitates c.place t) (hmem : t ∈ s.transitions) :
      c.TwinMove (.along { path with place := t.target }) (.along { path' with place := t'.target }) :=
    .go (.keep (.follow ⟨hmet _ (mem_successors_target hmem), ht.target_eq, h.position_eq,
      h.slots_eq, h.trail.approached _⟩) .nil)
  have hall := hs.branches hbranch
  unfold State.choose
  generalize s.transitions = ts at hall halong
  generalize s'.transitions = ts' at hall
  cases hall with
  | nil => cases holds <;> exact .dead
  | cons ht hrest =>
    cases holds with
    | true => exact halong ht List.mem_cons_self
    | false =>
      cases hrest with
      | nil => exact halong ht List.mem_cons_self
      | cons ht hrest => exact halong ht (List.mem_cons_of_mem _ List.mem_cons_self)

theorem Inside.act (h : c.Inside path path') :
    c.TwinMove (s.act input inBody path) (s'.act input inBody path') := by
  have haction := hs.action_eq
  have hbody (body : Nat) (h : s.action.bind Action.body? = some body) : c.Met body :=
    hmet _ (mem_successors_body h)
  have hbranch := h.choose hs hmet
  unfold State.act
  cases hcase : s.action with
  | none =>
    rw [hcase] at haction
    rw [haction]
    exact h.proceed hs hmet
  | some action =>
    rw [hcase] at haction hbody
    rw [haction]
    cases action with
    | backref group nocase =>
      simp only [Option.map_some, Action.mapBody, h.slots_eq, h.position_eq]
      split
      · exact Inside.proceed hs hmet (h.advance _)
      · exact .dead
    | look kind body => exact .ask ⟨body, kind.isBehind⟩ (hbody body rfl) h
    | atomic body => exact .ask ⟨body, false⟩ (hbody body rfl) h
    | branch condition =>
      have hbranch := hbranch (by simp [Automaton.isBranch, hcase])
      cases condition with
      | group index =>
        simp only [Option.map_some, Action.mapBody, h.slots_eq]
        exact hbranch _
      | look kind body => exact .ask ⟨body, kind.isBehind⟩ (hbody body rfl) h
    | fail => exact .dead
    | accept =>
      simp only [Option.map_some, Action.mapBody, h.position_eq, h.slots_eq]
      exact .finish
    | commit => exact .go (h.ways hs hmet)

theorem Inside.enter (h : c.Inside path path') :
    c.TwinMove (s.enter input inBody path) (s'.enter input inBody path') := by
  have hcapture : s'.capture path'.position path'.slots = s.capture path.position path.slots := by
    simp only [State.capture, State.opensGroup, State.closesGroup, hs.groupIndex_eq, hs.marks_eq,
      h.position_eq, h.slots_eq]
    rfl
  unfold State.enter
  rw [hs.marks_eq, hcapture, h.position_eq]
  split
  · dsimp only
    split
    · exact .finish
    · have hset := h.setSlots (s.capture path'.position path.slots)
      rw [← h.position_eq] at hset ⊢
      exact Inside.act hs hmet hset
  · exact .dead

theorem Inside.resume (h : c.Inside path path') (found : Option Found) :
    c.TwinMove (s.resume input inBody path found) (s'.resume input inBody path' found) := by
  have haction := hs.action_eq
  have hlooked (kind : LookKind) : State.looked? kind path found = none ∧
        State.looked? kind path' found = none ∨
      ∃ slots, State.looked? kind path found = some { path with slots := slots } ∧
        State.looked? kind path' found = some { path' with slots := slots } := by
    unfold State.looked?
    cases found with
    | none =>
      cases kind.isNegative
      · exact .inl ⟨rfl, rfl⟩
      · exact .inr ⟨path.slots, rfl, by simp [← h.slots_eq]⟩
    | some found =>
      cases kind.isNegative
      · exact .inr ⟨found.slots, rfl, rfl⟩
      · exact .inl ⟨rfl, rfl⟩
  unfold State.resume
  cases hcase : s.action with
  | none =>
    rw [hcase] at haction
    rw [haction]
    exact .dead
  | some action =>
    rw [hcase] at haction
    rw [haction]
    cases action with
    | look kind body =>
      simp only [Option.map_some, Action.mapBody]
      rcases hlooked kind with ⟨hnone, hnone'⟩ | ⟨slots, hsome, hsome'⟩
      · rw [hnone, hnone']
        exact .dead
      · rw [hsome, hsome']
        exact Inside.proceed hs hmet (h.setSlots slots)
    | atomic body =>
      cases found with
      | none => exact .dead
      | some found => exact Inside.proceed hs hmet ((h.advance found.stop).setSlots found.slots)
    | branch condition =>
      cases condition with
      | group index => exact .dead
      | look kind body =>
        have hbranch : Automaton.isBranch s = true := by simp [Automaton.isBranch, hcase]
        simp only [Option.map_some, Action.mapBody]
        rcases hlooked kind with ⟨hnone, hnone'⟩ | ⟨slots, hsome, hsome'⟩
        · rw [hnone, hnone']
          exact h.choose hs hmet hbranch false
        · rw [hsome, hsome']
          exact Inside.choose hs hmet (h.setSlots slots) hbranch true
    | backref group nocase => exact .dead
    | fail => exact .dead
    | accept => exact .dead
    | commit => exact .dead

end Steps

/-! Whole searches. -/

variable (c)

/-- A part of a search on the first automaton ends as every part does that corresponds to it in the
contraction. Where a state is skipped, a move along its one transition corresponds to the way that
the contraction is on already. -/
def Carries (search : Search) : Quest → Attempt → Prop
  | .way goal frame, A =>
    ∀ frame', c.Twin frame frame' → b.code.Gives search (.way goal frame') A
  | .ways goal frames, A =>
    (∀ before frames', c.Twins before frames frames' →
      (∀ frame ∈ before, b.code.Gives search (.way goal frame) .fruitless) →
        b.code.Gives search (.ways goal frames') A) ∧
      ∀ frame frame', frames = [frame] → c.Twin frame frame' →
        b.code.Gives search (.way goal frame') A
  | .move goal move, A =>
    (∀ move', c.TwinMove move move' → b.code.Gives search (.move goal move') A) ∧
      ∀ frame frame', move = .go [frame] false → c.Twin frame frame' →
        b.code.Gives search (.way goal frame') A
  | .body body path tried, A =>
    ∀ path', c.Met body.start → path'.position = path.position → path'.slots = path.slots →
      b.code.Gives search (.body { body with start := c.place body.start } path' tried) A

variable {c}

/-- A skipped state only leads on. -/
theorem enter_skipped {s : State} {next : Nat} (h : s.OnlyLeadsTo next) (input : Array Char)
    (inBody : Bool) (path : Path) :
    s.enter input inBody path.entered = .go [.follow { path.entered with place := next }] false := by
  obtain ⟨hplain, t, htransitions, hepsilon, rfl⟩ := h
  simp only [State.isPlain, Bool.and_eq_true, Bool.not_eq_true', Option.isNone_iff_eq_none]
    at hplain
  obtain ⟨⟨⟨haccepting, hmarks⟩, haction⟩, hgroup⟩ := hplain
  have hmarks : s.marks = .empty := congrArg Marks.mk (eq_of_beq hmarks)
  have hholds : (Marks.empty).holdAt input path.entered.position = true := by
    simp [Marks.holdAt, show Marks.empty.hasAssertion = false by decide]
  have hend : Marks.empty.contains .bodyEnd = false := by decide
  have hlabel : t.label = none := Option.isNone_iff_eq_none.mp hepsilon
  have hover : State.over? input path.entered t =
      some (.follow { path.entered with place := t.target }) := by
    simp [State.over?, Transition.matchAt?, hlabel]
  simp [State.enter, hmarks, hholds, hend, State.capture, hgroup, State.act, haction,
    State.proceed, State.ways, htransitions, haccepting, hover]

theorem Before.start {s : Nat} (hs : c.Met s) (position : Nat) (slots : Slots) :
    c.Before (.start s position slots) (.start (c.place s) position slots) :=
  ⟨hs, rfl, rfl, rfl, Settled.nil.approached _⟩

/-- A way that enters a state finds in the contraction what it finds in the automaton. -/
theorem Before.gives_entered {path path' : Path} {goal : Goal} {move : Move} {A : Attempt}
    (h : c.Before path path') (hnew : path.place ∉ path.trail)
    (henter : a.code.enter search.input goal.isBody path.entered = .ok move)
    (hmove : c.Carries search (.move goal move) A) :
    b.code.Gives search (.way goal (.follow path')) A := by
  obtain ⟨s, hstate, hmet⟩ := c.met path.place h.met
  have hentered : a.states[path.entered.place]? = some s := hstate
  rw [code_enter_eq hentered] at henter
  obtain rfl : _ = move := Except.ok.inj henter
  cases hforward : c.forward path.place with
  | some next =>
    have hleads := c.skipped path.place next s h.met hforward hstate
    have hnext : c.Met next := by
      obtain ⟨_, t, htransitions, _, rfl⟩ := hleads
      exact hmet _ (mem_successors_target (htransitions ▸ List.mem_singleton.mpr rfl))
    refine hmove.2 _ _ (enter_skipped hleads _ _ path) (.follow ⟨hnext, ?_, ?_, ?_, ?_⟩)
    · exact h.place_eq.trans (c.place_forward _ _ h.met hforward).symm
    · exact h.position_eq
    · exact h.slots_eq
    · exact h.trail.skip h.met hforward
  | none =>
    obtain ⟨s', hstate', hs⟩ := c.kept path.place s h.met hforward hstate
    have hinside : c.Inside path.entered path'.entered := by
      refine ⟨h.met, hforward, h.place_eq, h.position_eq, h.slots_eq, ?_⟩
      simp only [Path.entered, h.place_eq]
      exact h.trail.enter h.met hforward
    have hnew' : path'.place ∉ path'.trail := by
      rw [h.place_eq]
      exact fun hmem => hnew ((h.trail.mem_iff _ h.met hforward).mpr hmem)
    have hentered' : b.states[path'.entered.place]? = some s' := by
      rw [← hstate', ← h.place_eq]
      rfl
    exact .entered hnew' (code_enter_eq hentered' _ _)
      (hmove.1 _ (hinside.enter hs hmet))

theorem Inside.gives_resumed {path path' : Path} {goal : Goal} {found : Option Found} {move : Move}
    {A : Attempt} (h : c.Inside path path')
    (hresume : a.code.resume search.input goal.isBody path found = .ok move)
    (hmove : c.Carries search (.move goal move) A) :
    ∃ move', b.code.resume search.input goal.isBody path' found = .ok move' ∧
      b.code.Gives search (.move goal move') A := by
  obtain ⟨s, hstate, hmet⟩ := c.met path.place h.met
  obtain ⟨s', hstate', hs⟩ := c.kept path.place s h.met h.kept hstate
  rw [code_resume_eq hstate] at hresume
  obtain rfl : _ = move := Except.ok.inj hresume
  rw [← h.place_eq] at hstate'
  exact ⟨_, code_resume_eq hstate' _ _ _, hmove.1 _ (h.resume hs hmet found)⟩

/-- A way that is tried again in vain is dropped, one that is kept is tried, and one that decides was
not tried before. -/
theorem carries_decided {goal : Goal} {frame : Frame} {rest : List Frame} {A : Attempt}
    (hdecides : A ≠ .fruitless) (h : c.Carries search (.way goal frame) A) :
    c.Carries search (.ways goal (frame :: rest)) A := by
  constructor
  · intro before frames' htwins hbefore
    cases htwins with
    | keep htwin _ => exact .decided (h _ htwin) hdecides
    | drop hmem htwin _ => exact absurd ((h _ htwin).unique (hbefore _ hmem)) hdecides
  · rintro _ frame' heq htwin
    cases heq
    exact h _ htwin

theorem carries_passed {goal : Goal} {frame : Frame} {rest : List Frame} {A : Attempt}
    (hrest : a.code.Gives search (.ways goal rest) A)
    (hway : c.Carries search (.way goal frame) .fruitless)
    (h : c.Carries search (.ways goal rest) A) :
    c.Carries search (.ways goal (frame :: rest)) A := by
  constructor
  · intro before frames' htwins hbefore
    cases htwins with
    | keep htwin htwins =>
      refine .passed (hway _ htwin) (h.1 _ _ htwins fun frame hframe => ?_)
      rcases List.mem_cons.mp hframe with rfl | hframe
      · exact hway _ htwin
      · exact hbefore frame hframe
    | drop _ _ htwins => exact h.1 _ _ htwins hbefore
  · rintro _ frame' heq htwin
    cases heq
    cases hrest
    exact hway _ htwin

theorem carries_go {goal : Goal} {ways : List Frame} {A : Attempt}
    (h : c.Carries search (.ways goal ways) A) : c.Carries search (.move goal (.go ways false)) A := by
  constructor
  · rintro move' htwin
    cases htwin with
    | go htwins => exact .go (h.1 _ _ htwins fun _ hmem => (nomatch hmem))
  · rintro frame frame' heq htwin
    cases heq
    exact h.2 _ _ rfl htwin

/-- Searches on a contraction find what searches on the automaton find. -/
theorem carries {quest : Quest} {A : Attempt} (h : a.code.Gives search quest A) :
    c.Carries search quest A := by
  induction h with
  | nothing =>
    constructor
    · intro before frames' htwins _
      cases htwins
      exact .nothing
    · intro _ _ heq
      cases heq
  | decided _ hdecides ih => exact carries_decided hdecides ih
  | passed _ hrest ihway ihrest => exact carries_passed hrest ihway ihrest
  | accept _ ih =>
    intro frame' htwin
    cases htwin
    exact .accept (ih.1 _ .finish)
  | repeated hseen =>
    intro frame' htwin
    cases htwin with
    | follow hbefore => exact .repeated (hbefore.place_eq ▸ hbefore.trail.place_mem hseen)
  | entered hnew henter _ ih =>
    intro frame' htwin
    cases htwin with
    | follow hbefore => exact hbefore.gives_entered hnew henter ih
  | admitted hadmits =>
    constructor
    · intro move' htwin
      cases htwin
      exact .admitted hadmits
    · intro _ _ heq
      cases heq
  | refused hrefuses =>
    constructor
    · intro move' htwin
      cases htwin
      exact .refused hrefuses
    · intro _ _ heq
      cases heq
  | go _ ih => exact carries_go ih
  | cut _ ih =>
    constructor
    · intro move' htwin
      cases htwin with
      | go htwins => exact .cut (ih.1 _ _ htwins fun _ hmem => (nomatch hmem))
    · intro _ _ heq
      cases heq
  | @ask goal body path B move A hbody hresume hmove ihbody ihmove =>
    constructor
    · intro move' htwin
      cases htwin with
      | ask _ hmet hinside =>
        obtain ⟨next, hnext, hgives⟩ := hinside.gives_resumed hresume ihmove
        refine .ask ?_ hnext hgives
        rw [hinside.position_eq]
        exact ihbody _ hmet hinside.position_eq hinside.slots_eq
    · intro _ _ heq
      cases heq
  | @answered body path tried A hway hstays ih =>
    intro path' hmet hposition hslots
    refine .answered ?_ hstays
    simp only [Body.goal, Body.way, hposition, hslots]
    exact ih _ (.follow (.start hmet tried path.slots))
  | @back body path tried A B hway hback _ ihway ihback =>
    intro path' hmet hposition hslots
    refine .back (A := A) ?_ hback (ihback _ hmet hposition hslots)
    simp only [Body.goal, Body.way, hposition, hslots]
    exact ihway _ (.follow (.start hmet tried path.slots))

/-- An attempt on a contraction ends as the attempt on the automaton does. -/
theorem gives_firstWay {initial start : Nat} {A : Attempt} (hinitial : c.Met initial)
    (h : a.code.Gives search (a.firstWay initial start) A) :
    b.code.Gives search (b.firstWay (c.place initial) start) A := by
  unfold firstWay
  rw [c.groupCount_eq]
  exact carries h _ (.follow (.start hinitial start _))

end Contraction

end RegexEngine
