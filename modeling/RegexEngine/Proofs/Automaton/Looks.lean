import RegexEngine.Proofs.Automaton.Compiled
import RegexEngine.Proofs.Tree.Spans

/-!
Where the lookarounds of an expression are in its automaton. While the automaton is built, most of
its states are finished, and the others are loose: they may get more transitions. What is found out
about the finished states is said of every automaton that the construction can still come to, so the
body of a lookaround, once it is there, stays as it was built. One state is made for each lookaround,
in the order in which they are listed.
-/

namespace RegexEngine

/-- The lookaround that an action looks for. -/
def Action.look? : Action → Option (LookKind × Nat)
  | look kind body => some (kind, body)
  | branch (.look kind body) => some (kind, body)
  | _ => none

namespace State

/-- The lookaround that a state looks for. -/
def look? (s : State) : Option (LookKind × Nat) := s.action.bind Action.look?

/-- A state with an action does nothing else. -/
def IsNeat (s : State) : Prop := s.action = none ∨ s.groupIndex = none ∧ s.marks = .empty

end State

namespace Automaton

/-- The states with lookarounds among the first so many. -/
def looksBelow (a : Automaton) (count : Nat) : List Nat :=
  (List.range count).filter fun k => (a.states[k]?.bind State.look?).isSome

/-- The states with lookarounds. -/
def lookStates (a : Automaton) : List Nat := a.looksBelow a.stateCount

/-- The body that was built for a lookaround, with the flags in effect there, starts at a place and
stands in the automaton as it was built. -/
def HasBody (a : Automaton) (look : Lookaround) (b : Nat) : Prop :=
  ∃ p p' : Blueprint, p.flags = look.flags ∧
    (Blueprint.body (Blueprint.fragment look.body)).run p = (.ok b, p') ∧
      ∀ k, p.size ≤ k → k < p'.size → a.states[k]? = p'.automaton.states[k]?

/-- A state looks for the body of a lookaround. -/
def LooksFor (a : Automaton) (k : Nat) (look : Lookaround) : Prop :=
  ∃ s b, a.states[k]? = some s ∧ s.look? = some (look.kind, b) ∧ a.HasBody look b

theorem looksBelow_succ (a : Automaton) (count : Nat) :
    a.looksBelow (count + 1) = a.looksBelow count ++
      if (a.states[count]?.bind State.look?).isSome then [count] else [] := by
  rw [looksBelow, List.range_succ, List.filter_append, List.filter_cons, List.filter_nil]
  rfl

/-- Fewer states are loose. -/
theorem Completes.mono {a p : Automaton} {loose loose' : List Nat} (h : a.Completes p loose')
    (hsub : ∀ k ∈ loose', k ∈ loose) : a.Completes p loose := by
  intro k s hs
  obtain ⟨s', hs', hpasses, heq⟩ := h k s hs
  exact ⟨s', hs', hpasses, fun hk => heq fun hmem => hk (hsub k hmem)⟩

end Automaton

namespace Blueprint

open Automaton RegexEngine.Tree

/-- A construction with the states that are loose, what is known of every automaton that it can come
to, and the lookarounds that states were made for. -/
structure Traced (p : Blueprint) (loose : List Nat) (Known : Automaton → Prop)
    (looks : List Lookaround) : Prop where
  loose_lt : ∀ k ∈ loose, k < p.size
  neat : ∀ (k : Nat) (s : State), p.automaton.states[k]? = some s → s.IsNeat
  known : ∀ a : Automaton, a.Completes p.automaton loose →
    Known a ∧ List.Forall₂ a.LooksFor (a.looksBelow p.size) looks

variable {p : Blueprint} {loose loose' : List Nat} {Known Known' : Automaton → Prop}
  {looks : List Lookaround} {s : Nat}

namespace Traced

theorem mono (h : Traced p loose Known looks) (hsub : ∀ k ∈ loose', k ∈ loose)
    (hknown : ∀ a, Known a → Known' a) : Traced p loose' Known' looks := by
  refine ⟨fun k hk => h.loose_lt k (hsub k hk), h.neat, fun a ha => ?_⟩
  obtain ⟨hold, hlooks⟩ := h.known a (ha.mono hsub)
  exact ⟨hknown a hold, hlooks⟩

theorem withFlags (h : Traced p loose Known looks) (flags : Flags) :
    Traced { p with flags := flags } loose Known looks := ⟨h.loose_lt, h.neat, h.known⟩

/-- A loose state may be changed, if it still does what it did. -/
theorem changed (h : Traced p loose Known looks) (hs : s ∈ loose) {f : State → State}
    (hf : ∀ state, p.automaton.states[s]? = some state →
      (f state).PassesAs state ∧ (state.IsNeat → (f state).IsNeat)) :
    Traced (p.changed s f) loose Known looks := by
  have hlt := h.loose_lt s hs
  refine ⟨fun k hk => ?_, fun k state hstate => ?_, fun a ha => ?_⟩
  · rw [size_changed]
    exact h.loose_lt k hk
  · obtain ⟨before, hbefore, rfl | ⟨rfl, rfl⟩⟩ := getElem?_changed_cases hstate
    · exact h.neat k _ hbefore
    · exact (hf before hbefore).2 (h.neat k before hbefore)
  · rw [size_changed]
    refine h.known a fun k before hbefore => ?_
    have hget : (p.changed s f).automaton.states[k]? =
        if s = k then (p.automaton.states[k]?).map f else p.automaton.states[k]? :=
      Array.getElem?_modify
    rw [hbefore] at hget
    by_cases hk : s = k
    · subst hk
      rw [if_pos rfl] at hget
      obtain ⟨s', hs', hpasses, _⟩ := ha s (f before) hget
      have hpasses' := (hf before hbefore).1
      refine ⟨s', hs', ⟨hpasses.action_eq.trans hpasses'.action_eq, fun input i => ?_⟩, ?_⟩
      · rw [hpasses.holdAt_eq, hpasses'.holdAt_eq]
      · exact fun hmem => absurd hs hmem
    · rw [if_neg hk] at hget
      exact ha k before hget

/-- A new state is loose. -/
theorem added (h : Traced p loose Known looks) (state : State) (more : List Lookaround)
    (hneat : state.IsNeat)
    (hmore : ∀ (a : Automaton) (s : State), Known a → a.states[p.size]? = some s →
      s.PassesAs state → List.Forall₂ a.LooksFor (if s.look?.isSome then [p.size] else []) more) :
    Traced (p.added state) (p.size :: loose)
      (fun a => Known a ∧ ∃ s, a.states[p.size]? = some s ∧ s.PassesAs state) (looks ++ more) := by
  have hget := getElem?_added p state
  refine ⟨fun k hk => ?_, fun k s hs => ?_, fun a ha => ?_⟩
  · rw [size_added]
    rcases List.mem_cons.mp hk with rfl | hk
    · exact Nat.lt_succ_self _
    · exact Nat.lt_succ_of_lt (h.loose_lt k hk)
  · rcases getElem?_added_cases hs with ⟨_, hs⟩ | ⟨_, rfl⟩
    · exact h.neat k s hs
    · exact hneat
  · have hbefore : a.Completes p.automaton loose := by
      intro k s hs
      have hk : k ≠ p.size := Nat.ne_of_lt (Array.getElem?_eq_some_iff.mp hs).1
      have hs' : (p.added state).automaton.states[k]? = some s := by
        rw [hget, if_neg hk, hs]
      obtain ⟨s', hs'', hpasses, heq⟩ := ha k s hs'
      exact ⟨s', hs'', hpasses, fun hmem => heq fun hor => (List.mem_cons.mp hor).elim hk hmem⟩
    obtain ⟨hknown, hlooks⟩ := h.known a hbefore
    obtain ⟨s, hs, hpasses, _⟩ := ha p.size state (by rw [hget, if_pos rfl])
    refine ⟨⟨hknown, s, hs, hpasses⟩, ?_⟩
    rw [size_added, looksBelow_succ, hs, Option.bind_some]
    exact List.rel_append hlooks (hmore a s hknown hs hpasses)

end Traced

/-! Steps. -/

section Steps

/-- A state is added that looks for nothing, and what it does is said at once. -/
theorem traced_placed (h : Traced p loose Known looks) {f : State → State}
    (hneat : ∀ id, (f (.new id false)).IsNeat) (hlook : ∀ id, (f (.new id false)).look? = none) :
    Yields (do
      let s ← newState
      change s f
      pure s) p fun s p' => p'.flags = p.flags ∧ Traced p' (s :: loose) Known looks := by
  intro s p' hrun
  obtain ⟨rfl, rfl, _⟩ := yields_placed f p s p' hrun
  have hadded := h.added (f (.new p.nextId false)) [] (hneat _) fun a s _ _ hpasses => by
    rw [State.look?, hpasses.action_eq, ← State.look?, hlook]
    exact .nil
  rw [List.append_nil] at hadded
  exact ⟨rfl, hadded.mono (fun _ hk => hk) fun a ha => ha.1⟩

theorem traced_newState (h : Traced p loose Known looks) :
    Yields newState p fun s p' => p'.flags = p.flags ∧
      Traced p' (s :: loose) (fun a => Known a ∧ IsPlain a s) looks := by
  intro s p' hrun
  obtain ⟨rfl, rfl⟩ := yields_added p s p' hrun
  have hadded := h.added (.new p.nextId false) [] (.inl rfl) fun a s _ _ hpasses => by
    rw [State.look?, hpasses.action_eq]
    exact .nil
  rw [List.append_nil] at hadded
  exact ⟨rfl, hadded.mono (fun _ hk => hk) fun a ha => ⟨ha.1, isPlain_of_new ha.2⟩⟩

theorem traced_markedState (h : Traced p loose Known looks) (marks : Marks) :
    Yields (markedState marks) p fun s p' => p'.flags = p.flags ∧
      Traced p' (s :: loose) Known looks :=
  traced_placed h (fun _ => .inl rfl) fun _ => rfl

theorem traced_actionState (h : Traced p loose Known looks) {action : Action}
    (hlook : action.look? = none) :
    Yields (actionState action) p fun s p' => p'.flags = p.flags ∧
      Traced p' (s :: loose) Known looks :=
  traced_placed h (fun _ => .inr ⟨rfl, rfl⟩) fun _ => hlook

/-- A state that looks for something is added once it is known what it looks for. -/
theorem traced_lookState {look : Lookaround} {b : Nat}
    (h : Traced p loose (fun a => Known a ∧ a.HasBody look b) looks) {action : Action}
    (hlook : action.look? = some (look.kind, b)) :
    Yields (actionState action) p fun s p' => p'.flags = p.flags ∧
      Traced p' (s :: loose) Known (looks ++ [look]) := by
  intro s p' hrun
  obtain ⟨rfl, rfl, _⟩ :=
    yields_placed (fun state => { state with action := some action }) p s p' hrun
  have hadded := h.added { State.new p.nextId false with action := some action } [look]
    (.inr ⟨rfl, rfl⟩) fun a s hknown hs hpasses => by
      have hlook' : s.look? = some (look.kind, b) := by
        rw [State.look?, hpasses.action_eq]
        exact hlook
      rw [hlook', Option.isSome_some, if_pos rfl]
      exact .cons ⟨s, b, hs, hlook', hknown.2⟩ .nil
  exact ⟨rfl, hadded.mono (fun _ hk => hk) fun a ha => ha.1.1⟩

theorem traced_join (h : Traced p loose Known looks) (hs : s ∈ loose) (t : Nat) :
    Yields (join s t) p fun _ p' => p'.flags = p.flags ∧ Traced p' loose Known looks :=
  yields_modify ⟨rfl, h.changed hs fun _ _ => ⟨⟨rfl, fun _ _ => rfl⟩, fun hneat => hneat⟩⟩

theorem traced_choice (h : Traced p loose Known looks) (hs : s ∈ loose) (inside outside : Nat)
    (greedy : Bool) :
    Yields (choice s inside outside greedy) p fun _ p' =>
      p'.flags = p.flags ∧ Traced p' loose Known looks := by
  have htwo (t u : Nat) : Yields (do join s t; join s u) p fun _ p' =>
      p'.flags = p.flags ∧ Traced p' loose Known looks := by
    refine yields_bind (traced_join h hs t) fun _ p₁ ⟨hflags₁, h₁⟩ => ?_
    intro _ p₂ hrun
    obtain ⟨hflags₂, h₂⟩ := traced_join h₁ hs u _ p₂ hrun
    exact ⟨hflags₂.trans hflags₁, h₂⟩
  cases greedy with
  | true => exact htwo inside outside
  | false => exact htwo outside inside

/-- A state that does nothing opens or closes a group. -/
theorem traced_mark (h : Traced p loose Known looks) (hs : s ∈ loose)
    (hplain : ∀ a, Known a → IsPlain a s) {f : State → State}
    (hf : ∀ state, (f state).PassesAs state) :
    Yields (change s f) p fun _ p' => p'.flags = p.flags ∧ Traced p' loose Known looks := by
  refine yields_modify ⟨rfl, h.changed hs fun state hstate => ⟨hf state, fun _ => .inl ?_⟩⟩
  have hopen := hplain _ (h.known _ (Completes.refl _ _)).1 #[] 0
  rw [(hf state).action_eq]
  simp only [isOpenAt, hstate, Bool.and_eq_true, Option.isNone_iff_eq_none] at hopen
  exact hopen.2

end Steps

/-! Fragments. -/

/-- A step builds a fragment, and on the way the states for some lookarounds, which depend on the
flags in effect. The exit of the fragment is left loose. -/
def Traces (build : Step Fragment) (entries : Flags → List Lookaround) (next : Flags → Flags) :
    Prop :=
  ∀ (p : Blueprint) (loose : List Nat) (Known : Automaton → Prop) (looks : List Lookaround),
    Traced p loose Known looks → Yields build p fun f p' => p'.flags = next p.flags ∧
      Traced p' (f.stop :: loose) Known (looks ++ entries p.flags)

section Fragments

variable {build yes no : Step Fragment} {entries yesEntries noEntries : Flags → List Lookaround}
  {next : Flags → Flags}

/-- A fragment of one state without lookarounds. -/
theorem traces_single {x : Step Nat}
    (h : ∀ {p : Blueprint} {loose : List Nat} {Known : Automaton → Prop} {looks : List Lookaround},
      Traced p loose Known looks → Yields x p fun s p' => p'.flags = p.flags ∧
        Traced p' (s :: loose) Known looks) : Traces (single <$> x) (fun _ => []) id := by
  intro p loose Known looks htraced
  rw [List.append_nil]
  exact yields_map (h htraced) fun _ _ hs => hs

theorem traces_skip : Traces skip (fun _ => []) id :=
  traces_single fun h s p' hrun => by
    obtain ⟨hflags, htraced⟩ := traced_newState h s p' hrun
    exact ⟨hflags, htraced.mono (fun _ hk => hk) fun _ ha => ha.1⟩

theorem traces_acting {action : Action} (h : action.look? = none) :
    Traces (single <$> actionState action) (fun _ => []) id :=
  traces_single fun htraced => traced_actionState htraced h

theorem traces_marked (marks : Marks) :
    Traces (single <$> markedState marks) (fun _ => []) id :=
  traces_single fun htraced => traced_markedState htraced marks

theorem traces_flags? {build : Flags → Step Fragment}
    (h : ∀ flags, Traces (build flags) entries next) : Traces (flags? >>= build) entries next :=
  fun p => h p.flags p

theorem traces_keepingFlags (h : Traces build entries next) :
    Traces (keepingFlags build) entries id := by
  intro p loose Known looks htraced f p' hrun
  obtain ⟨p₁, hrun₁, rfl⟩ := run_keepingFlags_ok hrun
  exact ⟨rfl, (h p loose Known looks htraced f p₁ hrun₁).2.withFlags _⟩

/-- Options change the flags first. -/
theorem traces_withOptions (h : Traces build entries next) (opts : OptionSet) :
    Traces (do
      modify fun p => { p with flags := opts.apply p.flags }
      build) (fun flags => entries (opts.apply flags)) fun flags => next (opts.apply flags) :=
  fun _ loose Known looks htraced => h _ loose Known looks (htraced.withFlags _)

theorem traces_resolved (ref : GroupRef) {build : Nat → Step Fragment}
    (h : ∀ group, Traces (build group) entries next) :
    Traces (resolve ref >>= build) entries next := by
  intro p loose Known looks htraced
  refine yields_bind (yields_resolve ref p) fun group p' hp => ?_
  subst hp
  exact h group _ loose Known looks htraced

theorem traces_consuming (label : List Char) : Traces (consuming label) (fun _ => []) id := by
  intro p loose Known looks h
  rw [List.append_nil]
  refine yields_bind (traced_newState h) fun start p₁ ⟨hflags₁, h₁⟩ => ?_
  refine yields_bind (traced_newState h₁) fun stop p₂ ⟨hflags₂, h₂⟩ => ?_
  cases hlabel : Label.ofChars label with
  | error e =>
    intro f p' hrun
    cases hrun
  | ok label =>
    have hjoined := h₂.changed (f := fun s => s.addTransition ⟨start, stop, some label, 0⟩)
      (List.mem_cons_of_mem _ List.mem_cons_self) fun _ _ => ⟨⟨rfl, fun _ _ => rfl⟩, fun h => h⟩
    intro f p' hrun
    cases hrun
    exact ⟨hflags₂.trans hflags₁, hjoined.mono (by grind) fun _ ha => ha.1.1⟩

theorem traces_captured (h : Traces build entries next) (index : Nat) (name : Option String) :
    Traces (captured index name build) entries next := by
  intro p loose Known looks htraced
  refine yields_bind (traced_newState htraced) fun start p₁ ⟨hflags₁, h₁⟩ => ?_
  refine yields_bind (h p₁ _ _ _ h₁) fun inner p₂ ⟨hflags₂, h₂⟩ => ?_
  refine yields_bind (traced_newState h₂) fun stop p₃ ⟨hflags₃, h₃⟩ => ?_
  refine yields_bind (traced_mark h₃ (by simp) (fun a ha => ha.1.2)
    (openGroup_passesAs index name)) fun _ p₄ ⟨hflags₄, h₄⟩ => ?_
  refine yields_bind (traced_mark h₄ List.mem_cons_self (fun a ha => ha.2)
    (closeGroup_passesAs index name)) fun _ p₅ ⟨hflags₅, h₅⟩ => ?_
  refine yields_bind (traced_join h₅ (by simp) inner.start) fun _ p₆ ⟨hflags₆, h₆⟩ => ?_
  refine yields_bind (traced_join h₆ (by simp) stop) fun _ p₇ ⟨hflags₇, h₇⟩ => ?_
  refine yields_pure ⟨?_, ?_⟩
  · rw [hflags₇, hflags₆, hflags₅, hflags₄, hflags₃, hflags₂, hflags₁]
  · rw [hflags₁] at h₇
    exact h₇.mono (by grind) fun _ ha => ha.1.1

/-- What closes a body leaves nothing loose. -/
theorem traced_closeBody {inner : Fragment} (h : Traced p (inner.stop :: loose) Known looks) :
    Yields (closeBody inner) p fun _ p' => p'.flags = p.flags ∧ Traced p' loose Known looks := by
  refine yields_bind (traced_markedState h .bodyEnd) fun stop p₁ ⟨hflags₁, h₁⟩ => ?_
  refine yields_bind (traced_join h₁ (by simp) stop) fun _ p₂ ⟨hflags₂, h₂⟩ => ?_
  exact yields_pure ⟨hflags₂.trans hflags₁, h₂.mono (by grind) fun _ ha => ha⟩

/-- A body stays as it was built. -/
theorem traced_body (h : Traces build entries next) (htraced : Traced p loose Known looks) :
    Yields (body build) p fun _ p' => p'.flags = p.flags ∧ Traced p' loose
      (fun a => Known a ∧ ∀ k, p.size ≤ k → k < p'.size →
        a.states[k]? = p'.automaton.states[k]?) (looks ++ entries p.flags) := by
  have hkept := traces_keepingFlags h
  refine yields_bind (hkept p _ _ _ htraced) fun inner p₁ ⟨hflags₁, h₁⟩ => ?_
  intro b p₂ hrun
  obtain ⟨hflags₂, h₂⟩ := traced_closeBody h₁ b p₂ hrun
  refine ⟨hflags₂.trans hflags₁, h₂.loose_lt, h₂.neat, fun a ha => ?_⟩
  obtain ⟨hknown, hlooks⟩ := h₂.known a ha
  refine ⟨⟨hknown, fun k hlo hhi => ?_⟩, hlooks⟩
  have hstate : p₂.automaton.states[k]? = some p₂.automaton.states[k] :=
    Array.getElem?_eq_getElem hhi
  obtain ⟨s, hs, _, heq⟩ := ha k _ hstate
  rw [hs, hstate, heq fun hmem => Nat.not_le_of_lt (htraced.loose_lt k hmem) hlo]

theorem traced_lookBody (look : Lookaround) (h : Traces (fragment look.body) entries next)
    (htraced : Traced p loose Known looks) (hflags : p.flags = look.flags) :
    Yields (body (fragment look.body)) p fun b p' => p'.flags = p.flags ∧
      Traced p' loose (fun a => Known a ∧ a.HasBody look b) (looks ++ entries p.flags) := by
  intro b p' hrun
  obtain ⟨hflags', h'⟩ := traced_body h htraced b p' hrun
  exact ⟨hflags', h'.mono (fun _ hk => hk) fun a ha => ⟨ha.1, p, p', hflags, hrun, ha.2⟩⟩

theorem traces_look (kind : LookKind) {child : Tree}
    (h : Traces (fragment child) (lookarounds child) next) :
    Traces (fragment (.look kind child)) (lookarounds (.look kind child)) id := by
  intro p loose Known looks htraced
  refine yields_bind (traced_lookBody ⟨kind, child, p.flags⟩ h htraced rfl)
    fun b p₁ ⟨hflags₁, h₁⟩ => ?_
  have hlook : (Action.look kind b).look? = some (kind, b) := rfl
  refine yields_map (traced_lookState h₁ hlook) fun s p₂ ⟨hflags₂, h₂⟩ => ?_
  rw [List.append_assoc] at h₂
  exact ⟨hflags₂.trans hflags₁, h₂⟩

/-- An atomic group has the lookarounds of what is in it. -/
theorem traces_atomic (h : Traces build entries next) :
    Traces (do single <$> actionState (.atomic (← body build))) entries id := by
  intro p loose Known looks htraced
  refine yields_bind (traced_body h htraced) fun b p₁ ⟨hflags₁, h₁⟩ => ?_
  refine yields_map (traced_actionState h₁ rfl) fun s p₂ ⟨hflags₂, h₂⟩ => ?_
  exact ⟨hflags₂.trans hflags₁, h₂.mono (fun _ hk => hk) fun _ ha => ha.1⟩

theorem traces_copies (h : Traces build entries id) (count : Nat) :
    ∀ {p : Blueprint} {last : Nat} {loose : List Nat} {Known : Automaton → Prop}
      {looks : List Lookaround}, Traced p (last :: loose) Known looks →
      Yields (copies build count last) p fun last' p' => p'.flags = p.flags ∧
        Traced p' (last' :: loose) Known (looks ++ (List.replicate count (entries p.flags)).flatten) := by
  induction count with
  | zero =>
    intro p last loose Known looks htraced
    exact yields_pure ⟨rfl, by simpa using htraced⟩
  | succ count ih =>
    intro p last loose Known looks htraced
    refine yields_bind (h p _ _ _ htraced) fun inner p₁ ⟨hflags₁, h₁⟩ => ?_
    refine yields_bind (traced_join h₁ (by simp) inner.start) fun _ p₂ ⟨hflags₂, h₂⟩ => ?_
    have hflags : p₂.flags = p.flags := hflags₂.trans hflags₁
    have hnext : Traced p₂ (inner.stop :: loose) Known _ := h₂.mono (by grind) fun _ ha => ha
    intro last' p₃ hrun
    obtain ⟨hflags₃, h₃⟩ := ih hnext last' p₃ hrun
    rw [hflags, List.append_assoc] at h₃
    exact ⟨hflags₃.trans hflags, h₃⟩

theorem traces_optionalCopies (h : Traces build entries id) (exit : Nat) (greedy : Bool)
    (count : Nat) :
    ∀ {p : Blueprint} {last : Nat} {loose : List Nat} {Known : Automaton → Prop}
      {looks : List Lookaround}, Traced p (last :: loose) Known looks →
      Yields (optionalCopies build exit greedy count last) p fun last' p' => p'.flags = p.flags ∧
        Traced p' (last' :: loose) Known (looks ++ (List.replicate count (entries p.flags)).flatten) := by
  induction count with
  | zero =>
    intro p last loose Known looks htraced
    exact yields_pure ⟨rfl, by simpa using htraced⟩
  | succ count ih =>
    intro p last loose Known looks htraced
    refine yields_bind (h p _ _ _ htraced) fun inner p₁ ⟨hflags₁, h₁⟩ => ?_
    refine yields_bind (traced_choice h₁ (by simp) inner.start exit greedy)
      fun _ p₂ ⟨hflags₂, h₂⟩ => ?_
    have hflags : p₂.flags = p.flags := hflags₂.trans hflags₁
    have hnext : Traced p₂ (inner.stop :: loose) Known _ := h₂.mono (by grind) fun _ ha => ha
    intro last' p₃ hrun
    obtain ⟨hflags₃, h₃⟩ := ih hnext last' p₃ hrun
    rw [hflags, List.append_assoc] at h₃
    exact ⟨hflags₃.trans hflags, h₃⟩

theorem traces_unbounded (h : Traces build entries id) (min : Nat) (greedy : Bool) :
    Traces (repetition build min none greedy)
      (fun flags => (List.replicate (min - 1 + 1) (entries flags)).flatten) id := by
  intro p loose Known looks htraced
  refine yields_bind (traced_newState htraced) fun start p₁ ⟨hflags₁, h₁⟩ => ?_
  refine yields_bind (traces_copies h (min - 1) h₁) fun last p₂ ⟨hflags₂, h₂⟩ => ?_
  refine yields_bind (h p₂ _ _ _ h₂) fun inner p₃ ⟨hflags₃, h₃⟩ => ?_
  refine yields_bind (traced_newState h₃) fun exit p₄ ⟨hflags₄, h₄⟩ => ?_
  rw [hflags₂, hflags₁, List.append_assoc] at h₄
  have hends {p₅ : Blueprint}
      (h₅ : p₅.flags = p₄.flags ∧ Traced p₅ (exit :: inner.stop :: last :: loose)
        (fun a => (Known a ∧ IsPlain a start) ∧ IsPlain a exit)
        (looks ++ ((List.replicate (min - 1) (entries p.flags)).flatten ++ entries p.flags))) :
      Yields (pure ⟨start, exit⟩ : Step Fragment) p₅ fun f p' => p'.flags = id p.flags ∧
        Traced p' (f.stop :: loose) Known
          (looks ++ (List.replicate (min - 1 + 1) (entries p.flags)).flatten) := by
    refine yields_pure ⟨?_, ?_⟩
    · rw [h₅.1, hflags₄, hflags₃, hflags₂, hflags₁]
    · rw [List.replicate_succ', List.flatten_append, List.flatten_singleton]
      exact h₅.2.mono (by grind) fun _ ha => ha.1.1
  by_cases hmin : 0 < min
  · rw [if_pos hmin]
    refine yields_bind (traced_join h₄ (by simp) inner.start) fun _ p₅ ⟨hflags₅, h₅⟩ => ?_
    refine yields_bind (traced_choice h₅ (by simp) inner.start exit greedy)
      fun _ p₆ ⟨hflags₆, h₆⟩ => hends ⟨hflags₆.trans hflags₅, h₆⟩
  · rw [if_neg hmin]
    refine yields_bind (traced_choice h₄ (by simp) inner.start exit greedy)
      fun _ p₅ ⟨hflags₅, h₅⟩ => ?_
    refine yields_bind (traced_join h₅ (by simp) last)
      fun _ p₆ ⟨hflags₆, h₆⟩ => hends ⟨hflags₆.trans hflags₅, h₆⟩

theorem traces_bounded (h : Traces build entries id) (min max : Nat) (greedy : Bool) :
    Traces (repetition build min (some max) greedy)
      (fun flags => (List.replicate (min + (max - min)) (entries flags)).flatten) id := by
  intro p loose Known looks htraced
  refine yields_bind (traced_newState htraced) fun start p₁ ⟨hflags₁, h₁⟩ => ?_
  refine yields_bind (traces_copies h min h₁) fun last p₂ ⟨hflags₂, h₂⟩ => ?_
  refine yields_bind (traced_newState h₂) fun exit p₃ ⟨hflags₃, h₃⟩ => ?_
  have hswapped : Traced p₃ (last :: exit :: loose) Known _ := h₃.mono (by grind) fun _ ha => ha.1.1
  refine yields_bind (traces_optionalCopies h exit greedy (max - min) hswapped)
    fun last' p₄ ⟨hflags₄, h₄⟩ => ?_
  refine yields_bind (traced_join h₄ (by simp) exit) fun _ p₅ ⟨hflags₅, h₅⟩ => ?_
  refine yields_pure ⟨?_, ?_⟩
  · rw [hflags₅, hflags₄, hflags₃, hflags₂, hflags₁, id]
  · rw [hflags₃, hflags₂, hflags₁, List.append_assoc, ← List.flatten_append,
      List.replicate_append_replicate] at h₅
    exact h₅.mono (by grind) fun _ ha => ha

theorem traces_quantified (h : Traces build entries next) (q : Quantifier) :
    Traces (quantified q build)
      (fun flags => (List.replicate q.copies (entries flags)).flatten) id := by
  have hkept := traces_keepingFlags h
  have hrepetition (greedy : Bool) :
      Traces (repetition (keepingFlags build) q.min q.max greedy)
        (fun flags => (List.replicate q.copies (entries flags)).flatten) id := by
    unfold Quantifier.copies
    cases q.max with
    | none => exact traces_unbounded hkept q.min greedy
    | some max => exact traces_bounded hkept q.min max greedy
  refine traces_flags? fun flags => ?_
  dsimp only
  split
  · intro p loose Known looks htraced
    refine yields_bind (hrepetition true p _ _ _ htraced) fun inner p₁ ⟨hflags₁, h₁⟩ => ?_
    refine yields_bind (traced_closeBody h₁) fun b p₂ ⟨hflags₂, h₂⟩ => ?_
    refine yields_map (traced_actionState h₂ rfl) fun s p₃ ⟨hflags₃, h₃⟩ => ?_
    exact ⟨hflags₃.trans (hflags₂.trans hflags₁), h₃⟩
  · exact hrepetition _

theorem traced_conditional {condition : Condition} {looks' : List Lookaround}
    (hstate : Yields (actionState (.branch condition)) p fun s p' => p'.flags = p.flags ∧
      Traced p' (s :: loose) Known looks')
    (hyes : Traces yes yesEntries next) {next' : Flags → Flags} (hno : Traces no noEntries next') :
    Yields (conditional condition yes no) p fun f p' => p'.flags = p.flags ∧
      Traced p' (f.stop :: loose) Known (looks' ++ (yesEntries p.flags ++ noEntries p.flags)) := by
  refine yields_bind hstate fun s p₁ ⟨hflags₁, h₁⟩ => ?_
  refine yields_bind (traced_newState h₁) fun stop p₂ ⟨hflags₂, h₂⟩ => ?_
  refine yields_bind (traces_keepingFlags hyes p₂ _ _ _ h₂) fun yes p₃ ⟨hflags₃, h₃⟩ => ?_
  refine yields_bind (traces_keepingFlags hno p₃ _ _ _ h₃) fun no p₄ ⟨hflags₄, h₄⟩ => ?_
  refine yields_bind (traced_join h₄ (by simp) yes.start) fun _ p₅ ⟨hflags₅, h₅⟩ => ?_
  refine yields_bind (traced_join h₅ (by simp) no.start) fun _ p₆ ⟨hflags₆, h₆⟩ => ?_
  refine yields_bind (traced_join h₆ (by simp) stop) fun _ p₇ ⟨hflags₇, h₇⟩ => ?_
  refine yields_bind (traced_join h₇ (by simp) stop) fun _ p₈ ⟨hflags₈, h₈⟩ => ?_
  simp only [id] at hflags₃ hflags₄
  refine yields_pure ⟨?_, ?_⟩
  · rw [hflags₈, hflags₇, hflags₆, hflags₅, hflags₄, hflags₃, hflags₂, hflags₁]
  · rw [hflags₃, hflags₂, hflags₁, List.append_assoc] at h₈
    exact h₈.mono (by grind) fun _ ha => ha.1

theorem traces_groupCond (ref : GroupRef) (hyes : Traces yes yesEntries next)
    {next' : Flags → Flags} (hno : Traces no noEntries next') :
    Traces (do conditional (.group (← resolve ref)) yes no)
      (fun flags => yesEntries flags ++ noEntries flags) id :=
  traces_resolved ref fun _ _ _ _ _ htraced =>
    traced_conditional (traced_actionState htraced rfl) hyes hno

theorem traces_lookCond (kind : LookKind) {test : Tree}
    (htest : Traces (fragment test) (lookarounds test) next) {nextYes nextNo : Flags → Flags}
    (hyes : Traces yes yesEntries nextYes) (hno : Traces no noEntries nextNo) :
    Traces (do conditional (.look kind (← body (fragment test))) yes no)
      (fun flags => lookarounds test flags ++ [⟨kind, test, flags⟩] ++
        (yesEntries flags ++ noEntries flags)) id := by
  intro p loose Known looks htraced
  refine yields_bind (traced_lookBody ⟨kind, test, p.flags⟩ htest htraced rfl)
    fun b p₁ ⟨hflags₁, h₁⟩ => ?_
  have hlook : (Action.branch (.look kind b)).look? = some (kind, b) := rfl
  intro f p₂ hrun
  obtain ⟨hflags₂, h₂⟩ := traced_conditional (traced_lookState h₁ hlook) hyes hno f p₂ hrun
  rw [hflags₁, List.append_assoc, List.append_assoc,
    ← List.append_assoc (lookarounds test p.flags)] at h₂
  exact ⟨hflags₂.trans hflags₁, h₂⟩

/-- A step adds alternatives between two states. -/
def TracesBetween (add : Nat → Nat → Step Unit) (entries : Flags → List Lookaround)
    (next : Flags → Flags) : Prop :=
  ∀ (p : Blueprint) (start stop : Nat) (loose : List Nat) (Known : Automaton → Prop)
    (looks : List Lookaround), start ∈ loose → Traced p loose Known looks →
      Yields (add start stop) p fun _ p' => p'.flags = next p.flags ∧
        Traced p' loose Known (looks ++ entries p.flags)

theorem traces_alternatives_cons {item : Tree} {rest : List Tree}
    (hitem : Traces (fragment item) (lookarounds item) (flagsAfter .innermost item))
    (hrest : TracesBetween (fun start stop => alternatives start stop rest)
      (lookaroundsAll rest) (flagsAfterAll .innermost rest)) :
    TracesBetween (fun start stop => alternatives start stop (item :: rest))
      (lookaroundsAll (item :: rest)) (flagsAfterAll .innermost (item :: rest)) := by
  intro p start stop loose Known looks hstart htraced
  refine yields_bind (hitem p _ _ _ htraced) fun inner p₁ ⟨hflags₁, h₁⟩ => ?_
  refine yields_bind (traced_join h₁ (List.mem_cons_of_mem _ hstart) inner.start)
    fun _ p₂ ⟨hflags₂, h₂⟩ => ?_
  refine yields_bind (traced_join h₂ List.mem_cons_self stop) fun _ p₃ ⟨hflags₃, h₃⟩ => ?_
  have hflags : p₃.flags = flagsAfter .innermost item p.flags :=
    hflags₃.trans (hflags₂.trans hflags₁)
  have hnext : Traced p₃ loose Known _ := h₃.mono (by grind) fun _ ha => ha
  intro v p₄ hrun
  obtain ⟨hflags₄, h₄⟩ := hrest p₃ start stop loose _ _ hstart hnext v p₄ hrun
  rw [hflags] at hflags₄ h₄
  rw [List.append_assoc] at h₄
  exact ⟨hflags₄, h₄⟩

theorem traces_alt {items : List Tree}
    (h : TracesBetween (fun start stop => alternatives start stop items) (lookaroundsAll items)
      (flagsAfterAll .innermost items)) :
    Traces (fragment (.alt items)) (lookarounds (.alt items)) id := by
  have hbuild : Traces (do
      let start ← newState
      let stop ← newState
      alternatives start stop items
      pure ⟨start, stop⟩) (lookaroundsAll items) (flagsAfterAll .innermost items) := by
    intro p loose Known looks htraced
    refine yields_bind (traced_newState htraced) fun start p₁ ⟨hflags₁, h₁⟩ => ?_
    refine yields_bind (traced_newState h₁) fun stop p₂ ⟨hflags₂, h₂⟩ => ?_
    have hflags : p₂.flags = p.flags := hflags₂.trans hflags₁
    refine yields_bind (h p₂ start stop _ _ _ (by simp) h₂) fun _ p₃ ⟨hflags₃, h₃⟩ => ?_
    rw [hflags] at hflags₃ h₃
    exact yields_pure ⟨hflags₃, h₃.mono (by grind) fun _ ha => ha.1.1⟩
  exact traces_keepingFlags hbuild

/-- A step appends something to a fragment. -/
def TracesAfter (append : Fragment → Step Fragment) (entries : Flags → List Lookaround)
    (next : Flags → Flags) : Prop :=
  ∀ (p : Blueprint) (before : Fragment) (loose : List Nat) (Known : Automaton → Prop)
    (looks : List Lookaround), Traced p (before.stop :: loose) Known looks →
      Yields (append before) p fun f p' => p'.flags = next p.flags ∧
        Traced p' (f.stop :: loose) Known (looks ++ entries p.flags)

theorem traces_sequel_cons {item : Tree} {rest : List Tree}
    (hitem : Traces (fragment item) (lookarounds item) (flagsAfter .innermost item))
    (hrest : TracesAfter (sequel · rest) (lookaroundsAll rest) (flagsAfterAll .innermost rest)) :
    TracesAfter (sequel · (item :: rest)) (lookaroundsAll (item :: rest))
      (flagsAfterAll .innermost (item :: rest)) := by
  intro p before loose Known looks htraced
  refine yields_bind (hitem p _ _ _ htraced) fun inner p₁ ⟨hflags₁, h₁⟩ => ?_
  refine yields_bind (traced_join h₁ (by simp) inner.start) fun _ p₂ ⟨hflags₂, h₂⟩ => ?_
  have hflags : p₂.flags = flagsAfter .innermost item p.flags := hflags₂.trans hflags₁
  have hnext : Traced p₂ (inner.stop :: loose) Known _ := h₂.mono (by grind) fun _ ha => ha
  intro f p₃ hrun
  obtain ⟨hflags₃, h₃⟩ := hrest p₂ ⟨before.start, inner.stop⟩ loose _ _ hnext f p₃ hrun
  rw [hflags] at hflags₃ h₃
  rw [List.append_assoc] at h₃
  exact ⟨hflags₃, h₃⟩

theorem traces_concat {item : Tree} {rest : List Tree}
    (hitem : Traces (fragment item) (lookarounds item) (flagsAfter .innermost item))
    (hrest : TracesAfter (sequel · rest) (lookaroundsAll rest) (flagsAfterAll .innermost rest)) :
    Traces (fragment (.concat (item :: rest))) (lookarounds (.concat (item :: rest)))
      (flagsAfter .innermost (.concat (item :: rest))) := by
  intro p loose Known looks htraced
  refine yields_bind (hitem p _ _ _ htraced) fun first p₁ ⟨hflags₁, h₁⟩ => ?_
  intro f p₂ hrun
  obtain ⟨hflags₂, h₂⟩ := hrest p₁ first loose _ _ h₁ f p₂ hrun
  rw [hflags₁] at hflags₂ h₂
  rw [List.append_assoc] at h₂
  exact ⟨hflags₂, h₂⟩

end Fragments

mutual

/-- The fragment of an expression has the states for its lookarounds. -/
theorem traces_fragment : (t : Tree) →
    Traces (fragment t) (lookarounds t) (flagsAfter .innermost t)
  | .empty => traces_skip
  | .comment _ => traces_skip
  | .invalid => traces_acting rfl
  | .literal _ => traces_flags? fun _ => traces_consuming _
  | .dot => traces_flags? fun flags => by
    split
    · exact traces_consuming _
    · exact traces_consuming _
  | .cls _ _ => traces_flags? fun _ => traces_consuming _
  | .capture index name child =>
    traces_keepingFlags (traces_captured (traces_fragment child) index name)
  | .group child => traces_keepingFlags (traces_fragment child)
  | .scope opts child => traces_keepingFlags (traces_withOptions (traces_fragment child) opts)
  | .backref ref => traces_resolved ref fun _ => traces_flags? fun _ => traces_acting rfl
  | .repetition q child => traces_quantified (traces_fragment child) q
  | .anchor _ => traces_flags? fun _ => traces_marked _
  | .boundary _ => traces_marked _
  | .look kind child => traces_look kind (traces_fragment child)
  | .atomic child => traces_atomic (traces_fragment child)
  | .options opts => traces_withOptions traces_skip opts
  | .groupCond ref yes none => by
    have h := traces_groupCond ref (traces_fragment yes) traces_skip
    simp only [List.append_nil] at h
    exact h
  | .groupCond ref yes (some no) =>
    traces_groupCond ref (traces_fragment yes) (traces_fragment no)
  | .lookCond kind test yes none => by
    have h := traces_lookCond kind (traces_fragment test) (traces_fragment yes) traces_skip
    simp only [List.append_nil] at h
    exact h
  | .lookCond kind test yes (some no) =>
    traces_lookCond kind (traces_fragment test) (traces_fragment yes) (traces_fragment no)
  | .verb v => traces_acting (by cases v <;> rfl)
  | .alt items => traces_alt (traces_alternatives items)
  | .concat [] => traces_skip
  | .concat (item :: rest) => traces_concat (traces_fragment item) (traces_sequel rest)

theorem traces_alternatives : (items : List Tree) →
    TracesBetween (fun start stop => alternatives start stop items) (lookaroundsAll items)
      (flagsAfterAll .innermost items)
  | [] => fun _ _ _ _ _ _ _ htraced => yields_pure ⟨rfl, by simpa [lookaroundsAll] using htraced⟩
  | item :: rest => traces_alternatives_cons (traces_fragment item) (traces_alternatives rest)

theorem traces_sequel : (items : List Tree) →
    TracesAfter (sequel · items) (lookaroundsAll items) (flagsAfterAll .innermost items)
  | [] => fun _ _ _ _ _ htraced => yields_pure ⟨rfl, by simpa [lookaroundsAll] using htraced⟩
  | item :: rest => traces_sequel_cons (traces_fragment item) (traces_sequel rest)

end

theorem traces_whole (root : Tree) (htraced : Traced p loose Known looks) :
    Yields (whole root) p fun _ p' => ∃ loose',
      Traced p' loose' Known (looks ++ root.lookarounds p.flags) := by
  refine yields_bind (traces_fragment root p _ _ _ htraced) fun inner p₁ ⟨_, h₁⟩ => ?_
  refine yields_bind (traced_newState h₁) fun stop p₂ ⟨_, h₂⟩ => ?_
  refine yields_bind (traced_join h₂ (by simp) stop) fun _ p₃ ⟨_, h₃⟩ => ?_
  have haccepting := h₃.changed (f := fun s => { s with accepting := true }) List.mem_cons_self
    fun _ _ => ⟨⟨rfl, fun _ _ => rfl⟩, fun hneat => hneat⟩
  intro f p₄ hrun
  cases hrun
  exact ⟨_, haccepting.mono (fun _ hk => hk) fun _ ha => ha.1⟩

end Blueprint

namespace Automaton

/-- A compiled automaton has one state for each lookaround of its tree, in their order, and such a
state does nothing else than to look for the body. -/
theorem ofTree_looksFor {tree : SyntaxTree} {maxStates : Nat} {base nextId : UInt32} {a : Automaton}
    (hrun : (ofTree tree maxStates).run base = (.ok a, nextId)) :
    (∀ (k : Nat) (s : State), a.states[k]? = some s → s.IsNeat) ∧
      List.Forall₂ a.LooksFor a.lookStates (tree.root.lookarounds tree.flags) := by
  obtain ⟨f, p, hwhole, hstates, _⟩ := ofTree_run hrun
  have hempty : Blueprint.Traced ⟨.empty .nfa, base, tree.flags, tree.groups, maxStates⟩ []
      (fun _ => True) [] :=
    ⟨by simp, by simp [empty], fun _ _ => ⟨trivial, .nil⟩⟩
  obtain ⟨loose, htraced⟩ := Blueprint.traces_whole tree.root hempty f p hwhole
  rw [List.nil_append] at htraced
  have hcompletes : a.Completes p.automaton loose := fun k s hs =>
    ⟨s, hstates ▸ hs, ⟨rfl, fun _ _ => rfl⟩, fun _ => rfl⟩
  have hcount : a.stateCount = p.size := by
    simp only [stateCount, Blueprint.size, hstates]
  refine ⟨fun k s hs => htraced.neat k s (hstates ▸ hs), ?_⟩
  rw [lookStates, hcount]
  exact (htraced.known a hcompletes).2

end Automaton

end RegexEngine
