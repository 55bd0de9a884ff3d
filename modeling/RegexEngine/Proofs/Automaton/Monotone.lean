import RegexEngine.Proofs.Automaton.Charts
import RegexEngine.Proofs.Automaton.Halting
import RegexEngine.Proofs.Search.Attempts
import RegexEngine.Proofs.Search.Twins

/-!
Automata that never profit from a failure. Their states ask for bodies only to go on where these are
found, drop no ways, and read groups that no body opens or closes. So their code is monotone: the
marks, transitions and actions do the same with ways that differ in other groups.
-/

namespace RegexEngine

/-! Slots. -/

namespace Slots

variable {group other position : Nat} {slots slots' : Slots}

theorem getElem?_eq_of_join {k : Nat} (hlength : slots'.length = slots.length)
    (h : slots'[k]?.join = slots[k]?.join) : slots'[k]? = slots[k]? := by
  by_cases hk : k < slots.length
  · have hk' : k < slots'.length := hlength ▸ hk
    rw [List.getElem?_eq_getElem hk, List.getElem?_eq_getElem hk'] at h ⊢
    exact congrArg some h
  · rw [List.getElem?_eq_none (Nat.le_of_not_lt hk),
      List.getElem?_eq_none (hlength ▸ Nat.le_of_not_lt hk)]

theorem SameAt.openAt (h : SameAt group slots slots') (other position : Nat) :
    SameAt group (slots.openAt other position) (slots'.openAt other position) := by
  obtain ⟨hstart, hstop, hlength⟩ := h
  have hstart' := getElem?_eq_of_join hlength hstart
  have hstop' := getElem?_eq_of_join hlength hstop
  refine ⟨?_, ?_, ?_⟩
  · simp only [start?, Slots.openAt, List.getElem?_modify, hstart']
  · simp only [stop?, Slots.openAt, List.getElem?_modify, hstop']
  · simp only [Slots.openAt, List.length_modify, hlength]

theorem SameAt.closeAt (h : SameAt group slots slots') (other position : Nat) :
    SameAt group (slots.closeAt other position) (slots'.closeAt other position) := by
  obtain ⟨hstart, hstop, hlength⟩ := h
  have hstart' := getElem?_eq_of_join hlength hstart
  have hstop' := getElem?_eq_of_join hlength hstop
  refine ⟨?_, ?_, ?_⟩
  · simp only [start?, Slots.closeAt, List.getElem?_set, hstart', hlength]
  · simp only [stop?, Slots.closeAt, List.getElem?_set, hstop', hlength]
  · simp only [Slots.closeAt, List.length_set, hlength]

theorem SameAt.span?_eq (h : SameAt group slots slots') :
    slots'.span? group = slots.span? group := by
  simp only [span?, h.1, h.2.1]

theorem SameAt.backref?_eq (h : SameAt group slots slots') (input : Array Char) (nocase : Bool)
    (position : Nat) :
    slots'.backref? input group nocase position = slots.backref? input group nocase position := by
  simp only [backref?, h.span?_eq]

theorem SameAt.isCaptured_eq (h : SameAt group slots slots') :
    slots'.isCaptured group = slots.isCaptured group := by
  simp only [isCaptured, h.span?_eq]

end Slots

/-- A body that is passed where its group is not ahead leaves the group behind. -/
theorem Stage.Through.eq_behind {y e z : Stage} (h : Stage.Through false y e z) (hy : y ≠ .ahead) :
    e = .behind := by
  cases h with
  | apart => rfl
  | around _ => exact absurd rfl hy
  | level hatomic => cases hatomic

/-- An action that goes on only where its body is found, drops no ways, and reads no other groups
than those. -/
def Action.IsMonotone (read : Nat → Prop) : Action → Prop
  | backref group _ | branch (.group group) => read group
  | look kind _ => kind.isNegative = false
  | atomic _ | branch (.look _ _) | commit => False
  | fail | accept => True

variable {read : Nat → Prop}

namespace State

variable {s : State} {input : Array Char} {inBody : Bool} {path path' : Path} {slots : Slots}

/-- All that a state does is monotone. -/
def IsMonotone (read : Nat → Prop) (s : State) : Prop :=
  ∀ action, s.action = some action → action.IsMonotone read

theorem agreeOn_capture (h : path.slots.AgreeOn read slots) (s : State) (position : Nat) :
    (s.capture position path.slots).AgreeOn read (s.capture position slots) := by
  intro group hgroup
  have hsame := h group hgroup
  unfold capture
  split
  · dsimp only
    split <;> split
    · exact (hsame.openAt _ _).closeAt _ _
    · exact hsame.closeAt _ _
    · exact hsame.openAt _ _
    · exact hsame
  · exact hsame

theorem haveTwins_ways (h : path.Twins read path') :
    Frame.HaveTwins read (s.ways input inBody path) (s.ways input inBody path') := by
  cases h with
  | @mk slots hslots =>
    intro frame hframe
    rcases List.mem_append.mp hframe with hframe | hframe
    · obtain ⟨t, ht, hover⟩ := List.mem_filterMap.mp hframe
      obtain ⟨position, hposition, rfl⟩ := Option.map_eq_some_iff.mp hover
      refine ⟨_, List.mem_append_left _ (List.mem_filterMap.mpr ⟨t, ht, ?_⟩),
        .follow (.mk _ hslots)⟩
      exact Option.map_eq_some_iff.mpr ⟨position, hposition, rfl⟩
    · split at hframe
      · rename_i haccepts
        obtain rfl := List.mem_singleton.mp hframe
        refine ⟨.accept path.position slots, List.mem_append_right _ ?_, .accept ..⟩
        rw [if_pos haccepts]
        exact List.mem_singleton_self _
      · cases hframe

theorem twins_proceed (h : path.Twins read path') :
    (s.proceed input inBody path).Twins read (s.proceed input inBody path') :=
  .go (haveTwins_ways h)

theorem twins_choose (h : path.Twins read path') (holds : Bool) :
    (s.choose path holds).Twins read (s.choose path' holds) := by
  unfold choose
  dsimp only
  split
  · cases h with
    | mk hslots => exact Move.twins_along (.mk _ hslots)
  · exact Move.twins_dead

theorem twins_act (hs : s.IsMonotone read) (h : path.Twins read path') :
    (s.act input inBody path).Twins read (s.act input inBody path') := by
  cases h with
  | @mk slots hslots =>
    unfold act
    cases haction : s.action with
    | none => exact twins_proceed (.mk path hslots)
    | some action =>
      have hmonotone := hs action haction
      cases action with
      | fail => exact Move.twins_dead
      | accept => exact .finish ..
      | commit => exact hmonotone.elim
      | backref group nocase =>
        have hsame : (path.withSlots slots).slots.backref? input group nocase
            (path.withSlots slots).position =
              path.slots.backref? input group nocase path.position :=
          (hslots group hmonotone).backref?_eq input nocase path.position
        dsimp only
        rw [hsame]
        cases path.slots.backref? input group nocase path.position with
        | none => exact Move.twins_dead
        | some position => exact twins_proceed (.mk (advance path position) hslots)
      | look kind body => exact .ask (.mk path hslots)
      | atomic body => exact hmonotone.elim
      | branch condition =>
        cases condition with
        | group index =>
          have hsame := (hslots index hmonotone).isCaptured_eq
          change Move.Twins read (s.choose path (path.slots.isCaptured index))
            (s.choose (path.withSlots slots) (slots.isCaptured index))
          rw [hsame]
          exact twins_choose (.mk path hslots) _
        | look kind body => exact hmonotone.elim

theorem twins_enter (hs : s.IsMonotone read) (h : path.Twins read path') :
    (s.enter input inBody path).Twins read (s.enter input inBody path') := by
  cases h with
  | @mk slots hslots =>
    have hcaptured : Path.Twins read { path with slots := s.capture path.position path.slots }
        { path with slots := s.capture path.position slots } := .mk _ (agreeOn_capture hslots s _)
    unfold enter
    change Move.Twins read (if s.marks.holdAt input path.position then _ else _)
      (if s.marks.holdAt input path.position then _ else _)
    split
    · dsimp only
      split
      · exact .finish ..
      · exact twins_act hs hcaptured
    · exact Move.twins_dead

theorem twins_resume (hs : s.IsMonotone read) (h : path.Twins read path') {f f' : Found}
    (hagree : f.slots.AgreeOn read f'.slots) :
    (s.resume input inBody path (some f)).Twins read (s.resume input inBody path' (some f')) := by
  cases h with
  | @mk slots hslots =>
    unfold resume
    cases haction : s.action with
    | none => exact Move.twins_dead
    | some action =>
      have hmonotone := hs action haction
      cases action with
      | look kind body =>
        have hkind : kind.isNegative = false := hmonotone
        simp only [looked?, hkind, Bool.false_eq_true, if_false]
        exact twins_proceed (.mk _ hagree)
      | atomic body => exact hmonotone.elim
      | branch condition =>
        cases condition with
        | group index => exact Move.twins_dead
        | look kind body => exact hmonotone.elim
      | _ => exact Move.twins_dead

theorem resume_none (hs : s.IsMonotone read) : s.resume input inBody path none = .dead := by
  unfold resume
  cases haction : s.action with
  | none => rfl
  | some action =>
    have hmonotone := hs action haction
    cases action with
    | look kind body =>
      have hkind : kind.isNegative = false := hmonotone
      simp only [looked?, hkind, Bool.false_eq_true, if_false]
    | atomic body => rfl
    | branch condition =>
      cases condition with
      | group index => rfl
      | look kind body => exact hmonotone.elim
    | _ => rfl

theorem isAtomic_eq_false (hs : s.IsMonotone read) : s.isAtomic = false := by
  unfold isAtomic
  split
  · rename_i haction
    exact (hs _ haction).elim
  · rfl

end State

namespace Automaton

variable {a : Automaton} {chart : Nat → Nat → Stage}

/-- All that the states of an automaton do is monotone. -/
def IsMonotone (read : Nat → Prop) (a : Automaton) : Prop := ∀ s ∈ a.states, s.IsMonotone read

/-- The code of an automaton that never profits from a failure is monotone, if charts fit it of all
groups that it reads. -/
theorem IsMonotone.code (h : a.IsMonotone read) (hread : ∀ group, read group → 0 < group)
    (hcharted : ∀ group, read group → a.Charted group (chart group)) (input : Array Char) :
    a.code.Monotone input read chart where
  enter inBody path path' move htwins henter := by
    obtain ⟨s, hs, rfl⟩ := enter_ok henter
    have hs' : a.states[path'.place]? = some s := by cases htwins; exact hs
    exact ⟨_, code_enter_eq hs' input inBody,
      State.twins_enter (h s (Array.mem_of_getElem? hs)) htwins⟩
  resume inBody path path' f f' move htwins hagree hresume := by
    obtain ⟨s, hs, rfl⟩ := resume_ok hresume
    have hs' : a.states[path'.place]? = some s := by cases htwins; exact hs
    exact ⟨_, code_resume_eq hs' input inBody _,
      State.twins_resume (h s (Array.mem_of_getElem? hs)) htwins hagree⟩
  refused inBody path move hresume := by
    obtain ⟨s, hs, rfl⟩ := resume_ok hresume
    exact State.resume_none (h s (Array.mem_of_getElem? hs))
  respects group hgroup := (hcharted group hgroup).respects (hread group hgroup) input
  apart group hgroup inBody path next body henter hplace := by
    obtain ⟨s, hs, hasks⟩ := enter_ok henter
    obtain ⟨z, hturns, _⟩ := hcharted group hgroup path.place s hs
    obtain ⟨_, hthrough⟩ := hturns.of_asks (State.asks?_of_enter hasks).1
    rw [State.isAtomic_eq_false (h s (Array.mem_of_getElem? hs))] at hthrough
    exact hthrough.eq_behind hplace

end Automaton

end RegexEngine
