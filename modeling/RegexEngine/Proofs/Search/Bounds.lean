import RegexEngine.Automaton.Longest
import RegexEngine.Proofs.Program.Ways

/-!
Searches stay inside their input. A way goes forward only and never beyond the end, and groups open
and close where it stands. A lookbehind tries its body from places before its own, and the way goes
on from its own place. This holds of any automaton and any program, whatever they were made of.
-/

namespace RegexEngine

/-! Slots. -/

theorem Slots.mem_openAt {slots : Slots} {group position place : Nat}
    (h : some place ∈ slots.openAt group position) : some place ∈ slots ∨ place = position := by
  obtain ⟨i, hi⟩ := List.mem_iff_getElem?.mp h
  simp only [Slots.openAt, List.getElem?_modify] at hi
  cases hslot : slots[i]? with
  | none => simp [hslot] at hi
  | some slot =>
    have hmem : slot ∈ slots := List.mem_of_getElem? hslot
    rw [hslot] at hi
    split at hi
    · cases slot with
      | none =>
        simp at hi
        exact .inr hi.symm
      | some before =>
        simp at hi
        exact .inl (hi ▸ hmem)
    · simp at hi
      exact .inl (hi ▸ hmem)

theorem Slots.mem_closeAt {slots : Slots} {group position place : Nat}
    (h : some place ∈ slots.closeAt group position) : some place ∈ slots ∨ place = position := by
  rcases List.mem_or_eq_of_mem_set h with hmem | heq
  · exact .inl hmem
  · exact .inr (Option.some.inj heq)

theorem State.mem_capture {s : State} {slots : Slots} {position place : Nat}
    (h : some place ∈ s.capture position slots) : some place ∈ slots ∨ place = position := by
  have hopened {group : Nat} (h : some place ∈
      (if s.opensGroup then slots.openAt group position else slots)) :
      some place ∈ slots ∨ place = position := by
    split at h
    · exact Slots.mem_openAt h
    · exact .inl h
  unfold State.capture at h
  split at h
  · dsimp only at h
    split at h
    · exact (Slots.mem_closeAt h).elim hopened .inr
    · exact hopened h
  · exact .inl h

theorem Instr.mem_capture {i : Instr} {slots : Slots} {position place : Nat}
    (h : some place ∈ i.capture position slots) : some place ∈ slots ∨ place = position := by
  cases i with
  | openGroup group => exact Slots.mem_openAt h
  | closeGroup group => exact Slots.mem_closeAt h
  | _ => exact .inl h

/-! Paths. -/

namespace Path

/-- Nothing of a path lies beyond the end of an input. -/
structure Inside (size : Nat) (path : Path) : Prop where
  position_le : path.position ≤ size
  slots_le : ∀ place, some place ∈ path.slots → place ≤ size

/-- A path goes on to another one: forward, and not out of the input. -/
structure GoesOn (input : Array Char) (path next : Path) : Prop where
  position_le : path.position ≤ next.position
  inside : path.Inside input.size → next.Inside input.size

variable {input : Array Char} {path next last : Path}

theorem GoesOn.trans (h : path.GoesOn input next) (h' : next.GoesOn input last) :
    path.GoesOn input last :=
  ⟨Nat.le_trans h.position_le h'.position_le, fun hinside => h'.inside (h.inside hinside)⟩

/-- What stays at its place goes on, whatever is captured there. -/
theorem GoesOn.of_capture (hposition : next.position = path.position)
    (hslots : ∀ place, some place ∈ next.slots → some place ∈ path.slots ∨ place = path.position) :
    path.GoesOn input next := by
  refine ⟨Nat.le_of_eq hposition.symm, fun hinside => ⟨?_, fun place hplace => ?_⟩⟩
  · rw [hposition]
    exact hinside.position_le
  · rcases hslots place hplace with hmem | rfl
    · exact hinside.slots_le place hmem
    · exact hinside.position_le

/-- What moves over a part of the input goes on. -/
theorem GoesOn.of_match (hslots : next.slots = path.slots)
    (hmatch : path.position ≤ next.position ∧
      (path.position ≤ input.size → next.position ≤ input.size)) : path.GoesOn input next := by
  refine ⟨hmatch.1, fun hinside => ⟨hmatch.2 hinside.position_le, ?_⟩⟩
  rw [hslots]
  exact hinside.slots_le

theorem GoesOn.stays (hposition : next.position = path.position)
    (hslots : next.slots = path.slots) : path.GoesOn input next :=
  .of_capture hposition fun _ hplace => .inl (hslots ▸ hplace)

theorem GoesOn.refl (input : Array Char) (path : Path) : path.GoesOn input path := .stays rfl rfl

theorem chains_goesOn (input : Array Char) : Chains (GoesOn input) where
  refl := .refl input
  trans := .trans
  entered _ := .stays rfl rfl

/-- What comes of a body lies inside if the way that waits for it does, and after the place where it
was tried. -/
theorem GoesOn.of_body {body : Body} {tried stop : Nat} {slots : Slots}
    (htried : body.TriedFrom path tried)
    (h : (body.origin path tried).EndsAs (GoesOn input) stop slots) :
    tried ≤ stop ∧ (path.Inside input.size →
      stop ≤ input.size ∧ ∀ place, some place ∈ slots → place ≤ input.size) := by
  obtain ⟨last, hlast, rfl, rfl⟩ := h
  refine ⟨hlast.position_le, fun hinside => ?_⟩
  have horigin : (body.origin path tried).Inside input.size :=
    ⟨Nat.le_trans htried.le hinside.position_le, hinside.slots_le⟩
  exact ⟨(hlast.inside horigin).position_le, (hlast.inside horigin).slots_le⟩

/-- A way goes on with the slots that a lookaround leaves. -/
theorem GoesOn.of_looked {kind : LookKind} {body : Body} {tried : Nat} {found : Option Found}
    (htried : body.TriedFrom path tried)
    (hfound : Found.Follows (GoesOn input) (body.origin path tried) found)
    (h : State.looked? kind path found = some next) : path.GoesOn input next := by
  cases found with
  | none =>
    simp only [State.looked?] at h
    split at h
    · cases h
      exact .refl input path
    · cases h
  | some f =>
    simp only [State.looked?] at h
    split at h
    · cases h
    · cases h
      have hbody := GoesOn.of_body htried (hfound f rfl)
      exact ⟨Nat.le_refl _, fun hinside => ⟨hinside.position_le, (hbody.2 hinside).2⟩⟩

end Path

open RegexEngine.Path Tracked

/-! What is searched. -/

namespace Automaton

/-- Ways through an automaton go forward and stay inside the input. -/
theorem respects_goesOn (a : Automaton) (input : Array Char) :
    a.code.Respects input (GoesOn input) := by
  have hcaptured (path : Path) (s : State) : path.GoesOn input (s.captured path) :=
    .of_capture rfl fun place hplace => State.mem_capture hplace
  have honward {path here next : Path} {s : State} (hhere : path.GoesOn input here)
      (hnext : here.GoesOn input next) : s.Onward input (GoesOn input) path next := by
    constructor
    · intro t _ position trail hle hinside _
      exact (hhere.trans hnext).trans (.of_match rfl ⟨hle, hinside⟩)
    · intro _ position hle hinside
      exact ⟨{ next with position := position },
        (hhere.trans hnext).trans (.of_match rfl ⟨hle, hinside⟩), rfl, rfl⟩
  apply respects_of_states a (chains_goesOn input)
  · exact fun path s _ => hcaptured path s
  · exact fun path s _ _ => honward (hcaptured path s) (.refl input _)
  · intro path s _ body hbody tried found htried hfound next hafter
    apply honward (.refl input _)
    cases hafter with
    | looked _ hlooked => exact .of_looked htried hfound hlooked
    | refused _ _ => exact .refl input _
    | @atomic _ f haction hf =>
      have hahead : body.behind = false := by
        simp only [State.asks?, haction, Option.some.injEq] at hbody
        rw [← hbody]
      have hends := GoesOn.of_body htried (hfound f hf)
      constructor
      · rw [← htried.eq hahead]
        exact hends.1
      · intro hinside
        exact ⟨(hends.2 hinside).1, (hends.2 hinside).2⟩

variable {a : Automaton} {search : Search}

theorem advance?_bounds {state position target next : Nat} {input : Array Char}
    (h : a.advance? input state position = some (target, next)) :
    position ≤ next ∧ (position ≤ input.size → next ≤ input.size) := by
  obtain ⟨transitions, _, hfirst⟩ := Option.bind_eq_some_iff.mp h
  obtain ⟨t, _, ht⟩ := List.exists_of_findSome?_eq_some hfirst
  obtain ⟨found, hfound, heq⟩ := Option.map_eq_some_iff.mp ht
  cases heq
  exact State.matchAt?_bounds (Option.filter_eq_some_iff.mp hfound).1

theorem acceptedAt_eq {state position stop : Nat}
    (h : a.acceptedAt search state position = some stop) : stop = position := by
  unfold acceptedAt at h
  split at h
  · exact (Option.some.inj h).symm
  · cases h

theorem walk_grants (start fuel : Nat) : ∀ (state position : Nat) (last : Option Nat),
    start ≤ position → position ≤ search.input.size →
      (∀ stop, last = some stop → start ≤ stop ∧ stop ≤ search.input.size) →
        Grants (a.walk search fuel state position last) fun answer =>
          ∀ stop, answer = some stop → start ≤ stop ∧ stop ≤ search.input.size := by
  induction fuel with
  | zero => exact fun _ _ _ _ _ hlast => grants_pure hlast
  | succ fuel ih =>
    intro state position last hstart hposition hlast
    unfold walk
    apply grants_bind_any
    intro admitted
    split
    · split
      · rename_i target next hadvance
        have hbounds := advance?_bounds hadvance
        apply ih target next _ (by omega) (by omega)
        intro stop hstop
        rcases Option.or_eq_some_iff.mp hstop with haccepted | ⟨_, hbefore⟩
        · rw [acceptedAt_eq haccepted]
          omega
        · exact hlast stop hbefore
      · exact grants_pure hlast
    · exact grants_pure hlast

/-- A deterministic automaton ends its match between the start and the end of the input. -/
theorem longest_grants {initial start : Nat} (hstart : start ≤ search.input.size) :
    Grants (a.longest search initial start) fun attempt => ∀ f, attempt.found = some f →
      start ≤ f.stop ∧ f.stop ≤ search.input.size ∧ f.slots = .unset a.groupCount := by
  unfold longest
  have haccepted : ∀ stop, a.acceptedAt search initial start = some stop →
      start ≤ stop ∧ stop ≤ search.input.size := by
    intro stop hstop
    rw [acceptedAt_eq hstop]
    omega
  refine grants_bind (walk_grants start _ initial start _ (Nat.le_refl _) hstart haccepted)
    fun last hlast => ?_
  apply grants_pure
  intro f hf
  obtain ⟨stop, hstop, rfl⟩ := Option.map_eq_some_iff.mp hf
  exact ⟨(hlast stop hstop).1, (hlast stop hstop).2, rfl⟩

end Automaton

/-- Ways through a program go forward and stay inside the input. -/
theorem Program.respects_goesOn (p : Program) (input : Array Char) :
    p.code.Respects input (GoesOn input) := by
  apply respects_of_instrs p (chains_goesOn input)
  · intro path i _ next hleads
    refine ⟨hleads.position_le, fun hinside => ⟨hleads.inside hinside.position_le, ?_⟩⟩
    intro place hplace
    rw [hleads.slots_eq] at hplace
    rcases Instr.mem_capture hplace with hbefore | rfl
    · exact hinside.slots_le place hbefore
    · exact hinside.position_le
  · intro path kind body after _ tried found htried hfound next hlooked
    exact (GoesOn.of_looked htried hfound hlooked).trans (.stays rfl rfl)

/-- Patterns, automata and programs, whatever they were made of. -/
inductive Searcher.Executable : Searcher → Prop
  | pattern (p : Pattern) : Executable p.searcher
  | automaton (a : Automaton) : Executable a.searcher
  | program (p : Program) : Executable p.searcher

end RegexEngine
