import RegexEngine.Proofs.Automaton.Charts
import RegexEngine.Proofs.Automaton.Compiled
import RegexEngine.Proofs.Tree.Visits

/-!
The charts of compiled automata. While an automaton is built, a plan says of each state at which
stage of a group it is entered and at which stage it is left. Later steps add states, and lead on
from states of their own only, so what was planned stays. An expression that fits two stages is
built so that its fragment is entered at the first and left at the second.
-/

namespace RegexEngine

/-- The stages at which states are entered and left. -/
structure Plan where
  enter : Nat → Stage
  leave : Nat → Stage

/-- The plan with one more state. -/
def Plan.withState (c : Plan) (index : Nat) (y z : Stage) : Plan where
  enter k := if k = index then y else c.enter k
  leave k := if k = index then z else c.leave k

namespace State

variable {group : Nat} {chart chart' : Nat → Stage} {s s' : State} {y z : Stage}

/-- Only the place of the body matters in a chart. -/
theorem Turns.congr (h : s.Turns group chart y z)
    (hbody : ∀ body, s.asks? = some body → chart' body.start = chart body.start) :
    s.Turns group chart' y z := by
  cases h with
  | passes hgroup hasks hnext => exact .passes hgroup hasks hnext
  | opens hgroup hopens hcloses hasks => exact .opens hgroup hopens hcloses hasks
  | closes hgroup hopens hcloses hasks hnext => exact .closes hgroup hopens hcloses hasks hnext
  | asks hgroup haccepting hasks hthrough =>
    exact .asks hgroup haccepting hasks (hbody _ hasks ▸ hthrough)

/-- Transitions do not matter to what a state makes of a stage. -/
theorem Turns.withTransitions (h : s.Turns group chart y z) (ts : List Transition) :
    ({ s with transitions := ts } : State).Turns group chart y z := by
  cases h with
  | passes hgroup hasks hnext => exact .passes hgroup hasks hnext
  | opens hgroup hopens hcloses hasks => exact .opens hgroup hopens hcloses hasks
  | closes hgroup hopens hcloses hasks hnext => exact .closes hgroup hopens hcloses hasks hnext
  | asks hgroup haccepting hasks hthrough => exact .asks hgroup haccepting hasks hthrough

/-- A state that does nothing and leads nowhere. -/
def IsBlank (s : State) : Prop :=
  s.groupIndex = none ∧ s.marks = .empty ∧ s.action = none ∧ s.transitions = []

end State

namespace Blueprint

open Automaton RegexEngine.Tree

variable {group n m : Nat} {c c' c'' : Plan} {p p' p'' : Blueprint} {y z : Stage}

/-- What is built so far goes by a plan. -/
structure Planned (group : Nat) (c : Plan) (p : Blueprint) : Prop where
  turns : ∀ (k : Nat) (s : State), p.automaton.states[k]? = some s →
    s.Turns group c.enter (c.enter k) (c.leave k)
  leads : ∀ (k : Nat) (s : State), p.automaton.states[k]? = some s → ∀ t ∈ s.transitions,
    t.target < p.size ∧ (c.leave k).Next (c.enter t.target)
  asks : ∀ (k : Nat) (s : State), p.automaton.states[k]? = some s → ∀ body, s.asks? = some body →
    body.start < p.size

/-- The construction has gone on with states from a place on, and left alone those before it. -/
structure Evolves (group n : Nat) (c : Plan) (p : Blueprint) (c' : Plan) (p' : Blueprint) :
    Prop where
  planned : Planned group c' p'
  size_le : p.size ≤ p'.size
  enter_eq : ∀ k < p.size, c'.enter k = c.enter k
  leave_eq : ∀ k < p.size, c'.leave k = c.leave k
  states_eq : ∀ k < n, p'.automaton.states[k]? = p.automaton.states[k]?

theorem Evolves.trans (h : Evolves group n c p c' p') (h' : Evolves group m c' p' c'' p'')
    (hle : n ≤ m) : Evolves group n c p c'' p'' := by
  refine ⟨h'.planned, Nat.le_trans h.size_le h'.size_le, fun k hk => ?_, fun k hk => ?_,
    fun k hk => ?_⟩
  · exact (h'.enter_eq k (Nat.lt_of_lt_of_le hk h.size_le)).trans (h.enter_eq k hk)
  · exact (h'.leave_eq k (Nat.lt_of_lt_of_le hk h.size_le)).trans (h.leave_eq k hk)
  · exact (h'.states_eq k (by omega)).trans (h.states_eq k hk)

theorem Evolves.mono (h : Evolves group m c p c' p') (hle : n ≤ m) : Evolves group n c p c' p' :=
  ⟨h.planned, h.size_le, h.enter_eq, h.leave_eq, fun k hk => h.states_eq k (by omega)⟩

theorem Planned.evolves (h : Planned group c p) (n : Nat) : Evolves group n c p c p :=
  ⟨h, Nat.le_refl _, fun _ _ => rfl, fun _ _ => rfl, fun _ _ => rfl⟩

/-- The flags in effect do not count. -/
theorem Evolves.withFlags (h : Evolves group n c p c' p') (flags : Flags) :
    Evolves group n c p c' { p' with flags := flags } :=
  ⟨⟨h.planned.turns, h.planned.leads, h.planned.asks⟩, h.size_le, h.enter_eq, h.leave_eq,
    h.states_eq⟩

/-! Steps. -/

/-- A state is added that leads nowhere yet. -/
theorem Planned.added (h : Planned group c p) {state : State}
    (htransitions : state.transitions = []) (hturns : state.Turns group c.enter y z)
    (hasks : ∀ body, state.asks? = some body → body.start < p.size) :
    Evolves group p.size c p (c.withState p.size y z) (p.added state) := by
  have hne {k : Nat} (hk : k < p.size) : k ≠ p.size := Nat.ne_of_lt hk
  have henter {k : Nat} (hk : k < p.size) : (c.withState p.size y z).enter k = c.enter k :=
    if_neg (hne hk)
  have hleave {k : Nat} (hk : k < p.size) : (c.withState p.size y z).leave k = c.leave k :=
    if_neg (hne hk)
  have hold {k : Nat} (hk : k < p.size) :
      (p.added state).automaton.states[k]? = p.automaton.states[k]? := by
    rw [Blueprint.added, Automaton.withState, Array.getElem?_push]
    exact if_neg (hne hk)
  have hcases {k : Nat} {s : State} (hs : (p.added state).automaton.states[k]? = some s) :
      k < p.size ∧ p.automaton.states[k]? = some s ∨ k = p.size ∧ s = state := by
    have hlt := (Array.getElem?_eq_some_iff.mp hs).1
    have hsize : (p.added state).automaton.states.size = p.size + 1 := size_added p state
    rcases Nat.lt_or_ge k p.size with hk | hk
    · exact .inl ⟨hk, hold hk ▸ hs⟩
    · have hk : k = p.size := by omega
      subst hk
      rw [Blueprint.added, Automaton.withState, Array.getElem?_push] at hs
      exact .inr ⟨rfl, by simpa [size, stateCount] using hs.symm⟩
  refine ⟨⟨fun k s hs => ?_, fun k s hs t ht => ?_, fun k s hs body hbody => ?_⟩, ?_,
    fun k => henter, fun k => hleave, fun k => hold⟩
  · rcases hcases hs with ⟨hk, hs⟩ | ⟨rfl, rfl⟩
    · rw [henter hk, hleave hk]
      exact (h.turns k s hs).congr fun body hbody => henter (h.asks k s hs body hbody)
    · have hself : s.Turns group (c.withState p.size y z).enter y z :=
        hturns.congr fun body hbody => henter (hasks body hbody)
      simpa [Plan.withState] using hself
  · rw [size_added]
    rcases hcases hs with ⟨hk, hs⟩ | ⟨rfl, rfl⟩
    · obtain ⟨hlt, hnext⟩ := h.leads k s hs t ht
      rw [hleave hk, henter hlt]
      exact ⟨Nat.lt_succ_of_lt hlt, hnext⟩
    · rw [htransitions] at ht
      cases ht
  · rw [size_added]
    rcases hcases hs with ⟨hk, hs⟩ | ⟨rfl, rfl⟩
    · exact Nat.lt_succ_of_lt (h.asks k s hs body hbody)
    · exact Nat.lt_succ_of_lt (hasks body hbody)
  · rw [size_added]
    exact Nat.le_succ _

/-- A state is known to be entered at one stage and left at another. -/
structure Holds (c : Plan) (p : Blueprint) (s : Nat) (y z : Stage) : Prop where
  lt : s < p.size
  enter_eq : c.enter s = y
  leave_eq : c.leave s = z

theorem Holds.mono {s : Nat} (h : Holds c p s y z) (hevolves : Evolves group n c p c' p') :
    Holds c' p' s y z :=
  ⟨Nat.lt_of_lt_of_le h.lt hevolves.size_le, (hevolves.enter_eq s h.lt).trans h.enter_eq,
    (hevolves.leave_eq s h.lt).trans h.leave_eq⟩

theorem holds_added (c : Plan) (p : Blueprint) (state : State) (y z : Stage) :
    Holds (c.withState p.size y z) (p.added state) p.size y z :=
  ⟨by simp, by simp [Plan.withState], by simp [Plan.withState]⟩

/-- A state is added, and what it does is said at once. -/
theorem plans_placed (h : Planned group c p) (f : State → State)
    (htransitions : ∀ id, (f (.new id false)).transitions = [])
    (hturns : ∀ id, (f (.new id false)).Turns group c.enter y z)
    (hasks : ∀ id body, (f (.new id false)).asks? = some body → body.start < p.size) :
    Yields (do
      let s ← newState
      change s f
      pure s) p fun s p' => s = p.size ∧
        ∃ c', Evolves group p.size c p c' p' ∧ Holds c' p' s y z := by
  intro s p' hrun
  obtain ⟨rfl, rfl, _⟩ := yields_placed f p s p' hrun
  exact ⟨rfl, _, h.added (htransitions _) (hturns _) (hasks _), holds_added ..⟩

theorem plans_newState (h : Planned group c p) (hnext : y.Next z) :
    Yields newState p fun s p' => s = p.size ∧
      (∃ state, p'.automaton.states[s]? = some state ∧ state.IsBlank ∧ state.accepting = false) ∧
        ∃ c', Evolves group p.size c p c' p' ∧ Holds c' p' s y z := by
  intro s p' hrun
  obtain ⟨rfl, rfl⟩ := yields_added p s p' hrun
  refine ⟨rfl, ⟨.new p.nextId false, ?_, ⟨rfl, rfl, rfl, rfl⟩, rfl⟩, c.withState p.size y z,
    ?_, holds_added ..⟩
  · simp [Blueprint.added, Automaton.withState]
  · exact h.added rfl (.passes (by simp [State.new]) rfl hnext)
      fun body hbody => (by cases hbody)

/-- A state leads on to another one that is entered at the stage at which it is left, or at one that
comes next. -/
theorem Planned.connect (h : Planned group c p) {s t : Nat} (hs : n ≤ s) (ht : t < p.size)
    (hnext : (c.leave s).Next (c.enter t)) (label : Option Label) (priority : Int) :
    Evolves group n c p c { p with automaton := p.automaton.connect s t label priority } := by
  have hsize : size { p with automaton := p.automaton.connect s t label priority } = p.size :=
    stateCount_connect ..
  have hcases {k : Nat} {state : State}
      (hstate : (p.automaton.connect s t label priority).states[k]? = some state) :
      ∃ before, p.automaton.states[k]? = some before ∧
        (state = before ∨ k = s ∧ state = before.addTransition ⟨s, t, label, priority⟩) := by
    rw [Automaton.connect, Automaton.modifyState, Array.getElem?_modify] at hstate
    split at hstate
    · rename_i heq
      obtain ⟨before, hbefore, rfl⟩ := Option.map_eq_some_iff.mp hstate
      exact ⟨before, hbefore, .inr ⟨heq.symm, rfl⟩⟩
    · exact ⟨state, hstate, .inl rfl⟩
  refine ⟨⟨fun k state hstate => ?_, fun k state hstate e he => ?_,
    fun k state hstate body hbody => ?_⟩, Nat.le_of_eq hsize.symm, fun _ _ => rfl, fun _ _ => rfl,
    fun k hk => ?_⟩
  · obtain ⟨before, hbefore, rfl | ⟨rfl, rfl⟩⟩ := hcases hstate
    · exact h.turns k _ hbefore
    · exact (h.turns k before hbefore).withTransitions _
  · rw [hsize]
    obtain ⟨before, hbefore, rfl | ⟨rfl, rfl⟩⟩ := hcases hstate
    · exact h.leads k _ hbefore e he
    · rcases mem_addTransition.mp he with rfl | he
      · exact ⟨ht, hnext⟩
      · exact h.leads k before hbefore e he
  · rw [hsize]
    obtain ⟨before, hbefore, rfl | ⟨rfl, rfl⟩⟩ := hcases hstate
    · exact h.asks k _ hbefore body hbody
    · exact h.asks k before hbefore body hbody
  · change (p.automaton.connect s t label priority).states[k]? = _
    rw [Automaton.connect, Automaton.modifyState, Array.getElem?_modify, if_neg (by omega)]

theorem plans_join (h : Planned group c p) {s t : Nat} (hs : n ≤ s) (ht : t < p.size)
    (hnext : (c.leave s).Next (c.enter t)) :
    Yields (join s t) p fun _ p' => Evolves group n c p c p' ∧ p'.size = p.size :=
  yields_modify ⟨h.connect hs ht hnext none 0, stateCount_connect ..⟩

/-- A state that does nothing is made to do something, and is left at another stage from then on. -/
theorem plans_change {c₀ : Plan} {p₀ : Blueprint} (h : Evolves group n c₀ p₀ c p) {s : Nat}
    {state : State} (hs : p₀.size ≤ s) (hn : n ≤ p₀.size)
    (hstate : p.automaton.states[s]? = some state) {f : State → State} (z : Stage)
    (htransitions : (f state).transitions = []) (hasks : (f state).asks? = none)
    (hturns : (f state).Turns group c.enter (c.enter s) z) :
    Yields (change s f) p fun _ p' => p'.size = p.size ∧
      (∀ k, k ≠ s → p'.automaton.states[k]? = p.automaton.states[k]?) ∧
        Evolves group n c₀ p₀ ⟨c.enter, fun k => if k = s then z else c.leave k⟩ p' := by
  have hsize : (p.changed s f).size = p.size := size_changed ..
  have hcases {k : Nat} {state' : State}
      (hstate' : (p.changed s f).automaton.states[k]? = some state') :
      k ≠ s ∧ p.automaton.states[k]? = some state' ∨ k = s ∧ state' = f state := by
    rw [Blueprint.changed, Automaton.modifyState, Array.getElem?_modify] at hstate'
    split at hstate'
    · rename_i heq
      subst heq
      rw [hstate] at hstate'
      exact .inr ⟨rfl, (Option.some.inj hstate').symm⟩
    · rename_i hne
      exact .inl ⟨Ne.symm hne, hstate'⟩
  have hothers (k : Nat) (hk : k ≠ s) :
      (p.changed s f).automaton.states[k]? = p.automaton.states[k]? := by
    rw [Blueprint.changed, Automaton.modifyState, Array.getElem?_modify, if_neg (Ne.symm hk)]
  refine yields_modify ⟨hsize, hothers, ⟨fun k state' hstate' => ?_, fun k state' hstate' t ht => ?_,
    fun k state' hstate' body hbody => ?_⟩, hsize.symm ▸ h.size_le, h.enter_eq, fun k hk => ?_,
    fun k hk => (hothers k (by omega)).trans (h.states_eq k hk)⟩
  · rcases hcases hstate' with ⟨hne, hstate'⟩ | ⟨rfl, rfl⟩
    · simpa [hne] using h.planned.turns k state' hstate'
    · simpa using hturns
  · change t.target < (p.changed s f).size ∧ _
    rw [hsize]
    rcases hcases hstate' with ⟨hne, hstate'⟩ | ⟨rfl, rfl⟩
    · simpa [hne] using h.planned.leads k state' hstate' t ht
    · rw [htransitions] at ht
      cases ht
  · change body.start < (p.changed s f).size
    rw [hsize]
    rcases hcases hstate' with ⟨hne, hstate'⟩ | ⟨rfl, rfl⟩
    · exact h.planned.asks k state' hstate' body hbody
    · rw [hasks] at hbody
      cases hbody
  · exact (if_neg (by omega)).trans (h.leave_eq k hk)

/-! Fragments. -/

/-- A fragment was built that is entered at one stage and left at another. -/
structure Covers (group : Nat) (y z : Stage) (c : Plan) (p : Blueprint) (f : Fragment) (c' : Plan)
    (p' : Blueprint) : Prop extends Evolves group p.size c p c' p' where
  start_ge : p.size ≤ f.start
  start_lt : f.start < p'.size
  stop_ge : p.size ≤ f.stop
  stop_lt : f.stop < p'.size
  enters : c'.enter f.start = y
  leaves : (c'.leave f.stop).Next z

/-- From whatever was planned, a step builds a fragment that is entered at one stage and left at
another. -/
def Plans (group : Nat) (y z : Stage) (build : Step Fragment) : Prop :=
  ∀ (c : Plan) (p : Blueprint), Planned group c p → Yields build p fun f p' =>
    ∃ c', Covers group y z c p f c' p'

variable {build yes no : Step Fragment} {e e' x : Stage}

theorem covers_single {s : Nat} (hevolves : Evolves group p.size c p c' p') (hge : p.size ≤ s)
    (hs : Holds c' p' s y z) : Covers group y z c p (single s) c' p' :=
  ⟨hevolves, hge, hs.lt, hge, hs.lt, hs.enter_eq, hs.leave_eq ▸ .same _⟩

theorem plans_skip (hnext : y.Next z) : Plans group y z skip := by
  intro c p h
  refine yields_map (plans_newState h hnext) fun s p' hmade => ?_
  obtain ⟨hs, _, c', hevolves, hholds⟩ := hmade
  exact ⟨c', covers_single hevolves (Nat.le_of_eq hs.symm) hholds⟩

/-- The flags in effect do not count. -/
theorem Planned.withFlags (h : Planned group c p) (flags : Flags) :
    Planned group c { p with flags := flags } :=
  ⟨h.turns, h.leads, h.asks⟩

theorem Plans.later (h : Plans group y x build) (hnext : x.Next z) : Plans group y z build := by
  intro c p hplanned f p' hrun
  obtain ⟨c', hcovers⟩ := h c p hplanned f p' hrun
  exact ⟨c', { hcovers with leaves := hcovers.leaves.trans hnext }⟩

theorem plans_flags? {build : Flags → Step Fragment} (h : ∀ flags, Plans group y z (build flags)) :
    Plans group y z (flags? >>= build) := by
  intro c p hplanned
  refine yields_bind (yields_flags? p) fun flags p' hp => ?_
  obtain ⟨rfl, rfl⟩ := hp
  exact h _ _ _ hplanned

theorem Covers.withFlags {f : Fragment} (h : Covers group y z c p f c' p') (flags : Flags) :
    Covers group y z c p f c' { p' with flags := flags } :=
  ⟨h.toEvolves.withFlags flags, h.start_ge, h.start_lt, h.stop_ge, h.stop_lt, h.enters, h.leaves⟩

theorem plans_keepingFlags (h : Plans group y z build) : Plans group y z (keepingFlags build) := by
  intro c p hplanned
  refine yields_bind (yields_flags? p) fun flags p' hp => ?_
  obtain ⟨rfl, rfl⟩ := hp
  refine yields_bind (h _ _ hplanned) fun f p₁ hmade => ?_
  obtain ⟨c', hcovers⟩ := hmade
  intro f' p₂ hrun
  cases hrun
  exact ⟨c', hcovers.withFlags _⟩

/-- Options change the flags first. -/
theorem plans_withOptions (h : Plans group y z build) (opts : OptionSet) :
    Plans group y z (do
      modify fun p => { p with flags := opts.apply p.flags }
      build) := by
  intro c p hplanned
  have hmodified : Yields (modify fun p => { p with flags := opts.apply p.flags }) p
      fun _ p' => p' = { p with flags := opts.apply p.flags } := yields_modify rfl
  refine yields_bind hmodified fun _ p' hp => ?_
  subst hp
  intro f p' hrun
  obtain ⟨c', hcovers⟩ := h c _ (hplanned.withFlags _) f p' hrun
  exact ⟨c', ⟨hcovers.planned, hcovers.size_le, hcovers.enter_eq, hcovers.leave_eq,
    hcovers.states_eq⟩, hcovers.start_ge, hcovers.start_lt, hcovers.stop_ge, hcovers.stop_lt,
    hcovers.enters, hcovers.leaves⟩

theorem plans_marked (hnext : y.Next z) (marks : Marks) :
    Plans group y z (single <$> markedState marks) := by
  intro c p h
  have hplaced := plans_placed h (fun state => { state with marks := marks }) (fun _ => rfl)
    (fun _ => .passes (by simp [State.new]) rfl hnext) (fun _ _ hbody => by cases hbody)
  refine yields_map hplaced fun s p' hmade => ?_
  obtain ⟨hs, c', hevolves, hholds⟩ := hmade
  exact ⟨c', covers_single hevolves (Nat.le_of_eq hs.symm) hholds⟩

theorem plans_acting (hnext : y.Next z) {action : Action}
    (hbody : ({ State.new 0 false with action := some action } : State).asks? = none) :
    Plans group y z (single <$> actionState action) := by
  intro c p h
  have hplaced := plans_placed h (fun state => { state with action := some action })
    (fun _ => rfl) (fun _ => .passes (by simp [State.new]) hbody hnext)
    (fun _ _ hasked => by cases hbody.symm.trans hasked)
  refine yields_map hplaced fun s p' hmade => ?_
  obtain ⟨hs, c', hevolves, hholds⟩ := hmade
  exact ⟨c', covers_single hevolves (Nat.le_of_eq hs.symm) hholds⟩

theorem plans_consuming (hnext : y.Next z) (label : List Char) :
    Plans group y z (consuming label) := by
  intro c p h
  refine yields_bind (plans_newState h (.same y)) fun start p₁ hmade => ?_
  obtain ⟨hstart, _, c₁, hgrown₁, hholds₁⟩ := hmade
  refine yields_bind (plans_newState hgrown₁.planned hnext) fun stop p₂ hmade => ?_
  obtain ⟨hstop, _, c₂, hgrown₂, hholds₂⟩ := hmade
  have hfirst := hholds₁.mono hgrown₂
  have hle := hgrown₁.size_le
  cases hlabel : Label.ofChars label with
  | error e =>
    intro f p' hrun
    cases hrun
  | ok label =>
    have hjoined := hgrown₂.planned.connect (n := p.size) (Nat.le_of_eq hstart.symm) hholds₂.lt
      (by rw [hfirst.leave_eq, hholds₂.enter_eq]; exact .same y) (some label) 0
    have hall := (hgrown₁.trans hgrown₂ hle).trans hjoined (Nat.le_refl _)
    intro f p' hrun
    cases hrun
    refine ⟨c₂, hall, Nat.le_of_eq hstart.symm, ?_, Nat.le_trans hle (Nat.le_of_eq hstop.symm), ?_,
      hfirst.enter_eq, ?_⟩
    · exact Nat.lt_of_lt_of_le hfirst.lt hjoined.size_le
    · exact Nat.lt_of_lt_of_le hholds₂.lt hjoined.size_le
    · exact hholds₂.leave_eq ▸ .same _

/-! Groups. -/

/-- A group whose states turn one stage into another, around what is entered and left there. -/
theorem plans_captured {y' z' : Stage} (h : Plans group y' z' build) (index : Nat)
    (name : Option String)
    (hopens : ∀ (s : State) (chart : Nat → Stage), s.IsBlank →
      ({ s.openGroup index with groupName := name } : State).Turns group chart y y')
    (hcloses : ∀ (s : State) (chart : Nat → Stage), s.IsBlank →
      ({ s.closeGroup index with groupName := name } : State).Turns group chart z' z) :
    Plans group y z (captured index name build) := by
  intro c p hplanned
  refine yields_bind (plans_newState hplanned (.same y)) fun start p₁ hmade => ?_
  obtain ⟨hstart, ⟨first, hfirst, hblank, _⟩, c₁, hgrown₁, hholds₁⟩ := hmade
  refine yields_bind (h _ _ hgrown₁.planned) fun inner p₂ hmade => ?_
  obtain ⟨c₂, hinner⟩ := hmade
  refine yields_bind (plans_newState hinner.planned (.same z')) fun stop p₃ hmade => ?_
  obtain ⟨hstop, ⟨last, hlast, hblank', _⟩, c₃, hgrown₃, hholds₃⟩ := hmade
  have hsizes := And.intro hgrown₁.size_le (And.intro hinner.size_le hgrown₃.size_le)
  have hbounds := And.intro hinner.start_ge (And.intro hinner.start_lt
    (And.intro hinner.stop_ge hinner.stop_lt))
  have hlt := hholds₁.lt
  have hbegin := (hholds₁.mono hinner.toEvolves).mono hgrown₃
  have hfirst₃ : p₃.automaton.states[start]? = some first := by
    rw [hgrown₃.states_eq start (by omega), hinner.states_eq start hlt, hfirst]
  have hgrown := (hgrown₁.trans hinner.toEvolves (by omega)).trans hgrown₃ (by omega)
  have hopened := plans_change hgrown (by omega) (Nat.le_refl _) hfirst₃
    (f := fun s => { s.openGroup index with groupName := name }) y' hblank.2.2.2
    (by simp [State.asks?, State.openGroup, hblank.2.2.1])
    (by rw [hbegin.enter_eq]; exact hopens first _ hblank)
  refine yields_bind hopened fun _ p₄ hmade => ?_
  obtain ⟨hsize₄, hothers, hgrown₄⟩ := hmade
  have hlast₄ : p₄.automaton.states[stop]? = some last := by
    rw [hothers stop (by omega), hlast]
  have hclosed := plans_change hgrown₄ (by omega) (Nat.le_refl _) hlast₄
    (f := fun s => { s.closeGroup index with groupName := name }) z hblank'.2.2.2
    (by simp [State.asks?, State.closeGroup, hblank'.2.2.1])
    (by rw [hholds₃.enter_eq]; exact hcloses last _ hblank')
  refine yields_bind hclosed fun _ p₅ hmade => ?_
  obtain ⟨hsize₅, _, hgrown₅⟩ := hmade
  have hinner₃ : c₃.enter inner.start = y' ∧ c₃.leave inner.stop = c₂.leave inner.stop :=
    ⟨(hgrown₃.enter_eq _ hinner.start_lt).trans hinner.enters, hgrown₃.leave_eq _ hinner.stop_lt⟩
  have hlast := hholds₃.lt
  have henter := plans_join (n := p.size) hgrown₅.planned (s := start) (t := inner.start)
    (by omega) (by omega) (by
      have hne : start ≠ stop := by omega
      simp only [hne, if_true, if_false, hinner₃.1]
      exact .same y')
  refine yields_bind henter fun _ p₆ hmade => ?_
  obtain ⟨hgrown₆, hsize₆⟩ := hmade
  have hleave := plans_join (n := p.size) hgrown₆.planned (s := inner.stop) (t := stop)
    (by omega) (by omega) (by
      have hne : inner.stop ≠ stop := by omega
      have hne' : inner.stop ≠ start := by omega
      simp only [hne, hne', if_false, hinner₃.2, hholds₃.enter_eq]
      exact hinner.leaves)
  refine yields_bind hleave fun _ p₇ hmade => ?_
  obtain ⟨hgrown₇, hsize₇⟩ := hmade
  have hall := (hgrown₅.trans hgrown₆ (Nat.le_refl _)).trans hgrown₇ (Nat.le_refl _)
  obtain ⟨hge, hlt, hge', hlt'⟩ :
      p.size ≤ start ∧ start < p₇.size ∧ p.size ≤ stop ∧ stop < p₇.size := by omega
  refine yields_pure ⟨_, hall, hge, hlt, hge', hlt', hbegin.enter_eq, ?_⟩
  simp only [if_true]
  exact .same z

/-- The group itself. -/
theorem plans_captured_self (h : Plans group .within .within build) (name : Option String) :
    Plans group .outside .outside (captured group name build) := by
  have hstart : (Marks.empty.union .groupStart).contains .groupStart = true ∧
      (Marks.empty.union .groupStart).contains .groupEnd = false := by decide
  have hend : (Marks.empty.union .groupEnd).contains .groupStart = false ∧
      (Marks.empty.union .groupEnd).contains .groupEnd = true := by decide
  apply plans_captured h
  · rintro s chart ⟨_, hmarks, haction, _⟩
    apply State.Turns.opens rfl
    · simp only [State.opensGroup, State.openGroup, hmarks, hstart.1]
    · simp only [State.closesGroup, State.openGroup, hmarks, hstart.2]
    · simp only [State.asks?, State.openGroup, haction]
  · rintro s chart ⟨_, hmarks, haction, _⟩
    apply State.Turns.closes rfl
    · simp only [State.opensGroup, State.closeGroup, hmarks, hend.1]
    · simp only [State.closesGroup, State.closeGroup, hmarks, hend.2]
    · simp only [State.asks?, State.closeGroup, haction]
    · exact .leaves

/-- Another group. -/
theorem plans_captured_other (h : Plans group y z build) {index : Nat} (hne : index ≠ group)
    (name : Option String) : Plans group y z (captured index name build) := by
  apply plans_captured h
  · rintro s chart ⟨_, _, haction, _⟩
    exact .passes (by simpa [State.openGroup] using hne)
      (by simp only [State.asks?, State.openGroup, haction]) (.same y)
  · rintro s chart ⟨_, _, haction, _⟩
    exact .passes (by simpa [State.closeGroup] using hne)
      (by simp only [State.asks?, State.closeGroup, haction]) (.same z)

/-! Bodies. -/

/-- A step builds a body that is entered at a stage. -/
def PlansBody (group : Nat) (e : Stage) (build : Step Nat) : Prop :=
  ∀ (c : Plan) (p : Blueprint), Planned group c p → Yields build p fun b p' =>
    ∃ c', Evolves group p.size c p c' p' ∧ b < p'.size ∧ c'.enter b = e

theorem plans_closeBody (h : Plans group e e' build) :
    PlansBody group e (build >>= closeBody) := by
  intro c p hplanned
  refine yields_bind (h c p hplanned) fun inner p₁ hmade => ?_
  obtain ⟨c₁, hinner⟩ := hmade
  have hmarked := plans_placed hinner.planned (y := e') (z := e')
    (fun state => { state with marks := .bodyEnd }) (fun _ => rfl)
    (fun _ => .passes (by simp [State.new]) rfl (.same e')) (fun _ _ hbody => by cases hbody)
  refine yields_bind hmarked fun stop p₂ hmade => ?_
  obtain ⟨hstop, c₂, hgrown, hholds⟩ := hmade
  have hjoin := plans_join (n := p.size) hgrown.planned hinner.stop_ge hholds.lt (by
    rw [hgrown.leave_eq _ hinner.stop_lt, hholds.enter_eq]
    exact hinner.leaves)
  refine yields_bind hjoin fun _ p₃ hmade => ?_
  obtain ⟨hgrown₃, hsize₃⟩ := hmade
  have hsize := hgrown.size_le
  have hstart := hinner.start_lt
  refine yields_pure ⟨c₂, (hinner.toEvolves.trans hgrown hinner.size_le).trans hgrown₃
    (Nat.le_refl _), by omega, ?_⟩
  exact (hgrown.enter_eq _ hstart).trans hinner.enters

theorem plans_body (h : Plans group e e' build) : PlansBody group e (body build) :=
  plans_closeBody (plans_keepingFlags h)

/-- A state with a body that is passed as it may be. -/
theorem plans_asking {getBody : Step Nat} (h : PlansBody group e getBody) (action : Nat → Action)
    (behind : Bool)
    (hasks : ∀ b id, ({ State.new id false with action := some (action b) } : State).asks? =
      some ⟨b, behind⟩)
    (hthrough : ∀ b id, Stage.Through
      ({ State.new id false with action := some (action b) } : State).isAtomic y e z) :
    Plans group y z (getBody >>= fun b => single <$> actionState (action b)) := by
  intro c p hplanned
  refine yields_bind (h c p hplanned) fun b p₂ hmade => ?_
  obtain ⟨c₂, hgrown₂, hlt, henters⟩ := hmade
  have hplaced := plans_placed hgrown₂.planned (y := y) (z := z)
    (fun state => { state with action := some (action b) }) (fun _ => rfl)
    (fun id => .asks (by simp [State.new]) rfl (hasks b id) (henters ▸ hthrough b id))
    (fun id body hbody => by
      cases (hasks b id).symm.trans hbody
      exact hlt)
  refine yields_map hplaced fun s p₃ hmade => ?_
  obtain ⟨hs, c₃, hgrown₃, hholds⟩ := hmade
  have hsize := hgrown₂.size_le
  exact ⟨c₃, covers_single (hgrown₂.trans hgrown₃ hsize) (by omega) hholds⟩

/-- A condition with its branches. The state that decides turns one stage into the one at which
both branches are entered. -/
theorem plans_conditional (condition : Condition) (hplanned : Planned group c p)
    (hturns : ∀ id, ({ State.new id false with action := some (.branch condition) } :
      State).Turns group c.enter y x)
    (hasks : ∀ id body, ({ State.new id false with action := some (.branch condition) } :
      State).asks? = some body → body.start < p.size)
    (hyes : Plans group x z yes) (hno : Plans group x z no) :
    Yields (conditional condition yes no) p fun f p' => ∃ c', Covers group y z c p f c' p' := by
  have hplaced := plans_placed hplanned
    (fun state => { state with action := some (.branch condition) }) (fun _ => rfl) hturns hasks
  refine yields_bind hplaced fun s p₁ hmade => ?_
  obtain ⟨hs, c₁, hgrown₁, hholds₁⟩ := hmade
  refine yields_bind (plans_newState hgrown₁.planned (.same z)) fun stop p₂ hmade => ?_
  obtain ⟨hstop, _, c₂, hgrown₂, hholds₂⟩ := hmade
  refine yields_bind (plans_keepingFlags hyes _ _ hgrown₂.planned) fun yes p₃ hmade => ?_
  obtain ⟨c₃, hyes⟩ := hmade
  refine yields_bind (plans_keepingFlags hno _ _ hyes.planned) fun no p₄ hmade => ?_
  obtain ⟨c₄, hno⟩ := hmade
  have hsizes := And.intro hgrown₁.size_le (And.intro hgrown₂.size_le
    (And.intro hyes.size_le hno.size_le))
  have hyesBounds := And.intro hyes.start_ge (And.intro hyes.start_lt
    (And.intro hyes.stop_ge hyes.stop_lt))
  have hnoBounds := And.intro hno.start_ge (And.intro hno.start_lt
    (And.intro hno.stop_ge hno.stop_lt))
  have hlt₁ := hholds₁.lt
  have hlt₂ := hholds₂.lt
  have hs₄ := ((hholds₁.mono hgrown₂).mono hyes.toEvolves).mono hno.toEvolves
  have hstop₄ := (hholds₂.mono hyes.toEvolves).mono hno.toEvolves
  have hyesEnter : c₄.enter yes.start = x := (hno.enter_eq _ hyes.start_lt).trans hyes.enters
  have hyesLeave : (c₄.leave yes.stop).Next z := by
    rw [hno.leave_eq _ hyes.stop_lt]
    exact hyes.leaves
  have hgrown₄ := ((hgrown₁.trans hgrown₂ (by omega)).trans hyes.toEvolves (by omega)).trans
    hno.toEvolves (by omega)
  -- The four ways between the state that decides, the branches and the end.
  have hsame : x.Next x := .same x
  refine yields_bind (plans_join (n := p.size) hgrown₄.planned (s := s) (t := yes.start) (by omega)
    (by omega) (by rw [hs₄.leave_eq, hyesEnter]; exact hsame)) fun _ p₅ hmade => ?_
  obtain ⟨hgrown₅, hsize₅⟩ := hmade
  refine yields_bind (plans_join (n := p.size) hgrown₅.planned (s := s) (t := no.start) (by omega)
    (by omega) (by rw [hs₄.leave_eq, hno.enters]; exact hsame)) fun _ p₆ hmade => ?_
  obtain ⟨hgrown₆, hsize₆⟩ := hmade
  refine yields_bind (plans_join (n := p.size) hgrown₆.planned (s := yes.stop) (t := stop)
    (by omega) (by omega) (by rw [hstop₄.enter_eq]; exact hyesLeave))
    fun _ p₇ hmade => ?_
  obtain ⟨hgrown₇, hsize₇⟩ := hmade
  refine yields_bind (plans_join (n := p.size) hgrown₇.planned (s := no.stop) (t := stop)
    (by omega) (by omega) (by rw [hstop₄.enter_eq]; exact hno.leaves))
    fun _ p₈ hmade => ?_
  obtain ⟨hgrown₈, hsize₈⟩ := hmade
  have hall := hgrown₄.trans (((hgrown₅.trans hgrown₆ (Nat.le_refl _)).trans hgrown₇
    (Nat.le_refl _)).trans hgrown₈ (Nat.le_refl _)) (Nat.le_refl _)
  obtain ⟨hge, hlt, hge', hlt'⟩ :
      p.size ≤ s ∧ s < p₈.size ∧ p.size ≤ stop ∧ stop < p₈.size := by omega
  refine yields_pure ⟨c₄, hall, hge, hlt, hge', hlt', hs₄.enter_eq, ?_⟩
  rw [hstop₄.leave_eq]
  exact .same z

/-! Repetitions. -/

/-- Something is appended to a state: what was built goes on from there. -/
structure Appended (group : Nat) (z : Stage) (n : Nat) (c : Plan) (p : Blueprint) (last : Nat)
    (c' : Plan) (p' : Blueprint) : Prop extends Evolves group n c p c' p' where
  last_ge : n ≤ last
  last_lt : last < p'.size
  leaves : (c'.leave last).Next z

/-- Copies of what is entered at one stage and left at another. There is one at most, unless both
are the same. -/
theorem plans_copies (h : Plans group y z build) (count : Nat) :
    ∀ {c : Plan} {p : Blueprint} {last : Nat} {w : Stage}, Planned group c p → n ≤ last →
      last < p.size → n ≤ p.size → (c.leave last).Next w → (0 < count → w = y) →
        (1 < count → z = y) → Yields (copies build count last) p fun last' p' =>
          ∃ c', Appended group (if count = 0 then w else z) n c p last' c' p' := by
  induction count with
  | zero =>
    intro c p last w hplanned hge hlt _ hleaves _ _
    exact yields_pure ⟨c, hplanned.evolves n, hge, hlt, hleaves⟩
  | succ count ih =>
    intro c p last w hplanned hge hlt hn hleaves hone hmany
    obtain rfl := hone (Nat.succ_pos _)
    refine yields_bind (h _ _ hplanned) fun inner p₁ hmade => ?_
    obtain ⟨c₁, hinner⟩ := hmade
    have hsize := hinner.size_le
    have hstop := And.intro hinner.stop_ge hinner.stop_lt
    refine yields_bind (plans_join (n := n) hinner.planned hge hinner.start_lt
      (by rw [hinner.leave_eq _ hlt, hinner.enters]; exact hleaves)) fun _ p₂ hmade => ?_
    obtain ⟨hgrown₂, hsize₂⟩ := hmade
    intro last' p₃ hrun
    obtain ⟨c₃, hrest⟩ := ih hgrown₂.planned (by omega) (by omega) (by omega) hinner.leaves
      (fun hpos => hmany (by omega)) (fun hpos => hmany (by omega)) last' p₃ hrun
    have hall := ((hinner.toEvolves.mono hn).trans hgrown₂ (Nat.le_refl _)).trans hrest.toEvolves
      (Nat.le_refl _)
    exact ⟨c₃, hall, hrest.last_ge, hrest.last_lt, by simpa using hrest.leaves⟩

/-- What is known of two states allows the one to lead into a repetition and out of it. -/
theorem plans_choice (hplanned : Planned group c p) {s inside outside : Nat} (hs : n ≤ s)
    (hinside : inside < p.size) (houtside : outside < p.size)
    (hin : (c.leave s).Next (c.enter inside)) (hout : (c.leave s).Next (c.enter outside))
    (greedy : Bool) : Yields (choice s inside outside greedy) p fun _ p' =>
      Evolves group n c p c p' ∧ p'.size = p.size := by
  have htwo {t u : Nat} (ht : t < p.size) (hu : u < p.size) (hnext : (c.leave s).Next (c.enter t))
      (hnext' : (c.leave s).Next (c.enter u)) :
      Yields (do join s t; join s u) p fun _ p' => Evolves group n c p c p' ∧ p'.size = p.size := by
    refine yields_bind (plans_join hplanned hs ht hnext) fun _ p₁ hmade => ?_
    obtain ⟨hgrown₁, hsize₁⟩ := hmade
    intro _ p₂ hrun
    obtain ⟨hgrown₂, hsize₂⟩ :=
      plans_join (n := n) hgrown₁.planned hs (hsize₁ ▸ hu) hnext' _ p₂ hrun
    exact ⟨hgrown₁.trans hgrown₂ (Nat.le_refl _), hsize₂.trans hsize₁⟩
  cases greedy with
  | true => exact htwo hinside houtside hin hout
  | false => exact htwo houtside hinside hout hin

/-- Copies that may be left out, with an exit from each. -/
theorem plans_optionalCopies (h : Plans group y z build) {exit : Nat} (greedy : Bool)
    (count : Nat) (hnext : y.Next z) :
    ∀ {c : Plan} {p : Blueprint} {last : Nat} {w : Stage}, Planned group c p → n ≤ last →
      last < p.size → n ≤ p.size → exit < p.size → c.enter exit = z → (c.leave last).Next w →
        w.Next z → (0 < count → w = y) → (1 < count → z = y) →
          Yields (optionalCopies build exit greedy count last) p fun last' p' =>
            ∃ c', Appended group z n c p last' c' p' := by
  induction count with
  | zero =>
    intro c p last w hplanned hge hlt _ _ _ hleaves hw _ _
    exact yields_pure ⟨c, hplanned.evolves n, hge, hlt, hleaves.trans hw⟩
  | succ count ih =>
    -- Only the first copy may be entered at another stage than it is left.
    intro c p last w hplanned hge hlt hn hexit hexits hleaves hw hone hmany
    obtain rfl := hone (Nat.succ_pos _)
    refine yields_bind (h _ _ hplanned) fun inner p₁ hmade => ?_
    obtain ⟨c₁, hinner⟩ := hmade
    have hsize := hinner.size_le
    have hstop := And.intro hinner.stop_ge hinner.stop_lt
    have hexit₁ : c₁.enter exit = z := (hinner.enter_eq _ hexit).trans hexits
    have hlast₁ : (c₁.leave last).Next w := by
      rw [hinner.leave_eq _ hlt]
      exact hleaves
    refine yields_bind (plans_choice (n := n) hinner.planned hge hinner.start_lt (by omega)
      (by rw [hinner.enters]; exact hlast₁) (by rw [hexit₁]; exact hlast₁.trans hw) greedy)
      fun _ p₂ hmade => ?_
    obtain ⟨hgrown₂, hsize₂⟩ := hmade
    intro last' p₃ hrun
    obtain ⟨c₃, hrest⟩ := ih hgrown₂.planned (by omega) (by omega) (by omega) (by omega) hexit₁
      hinner.leaves (.same z) (fun hpos => hmany (by omega)) (fun hpos => hmany (by omega))
      last' p₃ hrun
    have hall := ((hinner.toEvolves.mono hn).trans hgrown₂ (Nat.le_refl _)).trans hrest.toEvolves
      (Nat.le_refl _)
    exact ⟨c₃, hall, hrest.last_ge, hrest.last_lt, hrest.leaves⟩

/-- A repetition with an upper bound. -/
theorem plans_bounded (h : Plans group y z build) (hnext : y.Next z) (min max : Nat)
    (hrecurs : 1 < min ∨ 1 < max → z = y) (greedy : Bool) :
    Plans group y z (repetition build min (some max) greedy) := by
  intro c p hplanned
  refine yields_bind (plans_newState hplanned (.same y)) fun start p₁ hmade => ?_
  obtain ⟨hstart, _, c₁, hgrown₁, hholds₁⟩ := hmade
  have hsize₁ := hgrown₁.size_le
  have hlt₁ := hholds₁.lt
  refine yields_bind (plans_copies (n := p.size) h min hgrown₁.planned (by omega) hlt₁ hsize₁
    (w := y) (by rw [hholds₁.leave_eq]; exact .same y) (fun _ => rfl)
    (fun hpos => hrecurs (.inl hpos))) fun last p₂ hmade => ?_
  obtain ⟨c₂, hcopies⟩ := hmade
  have hsize₂ := hcopies.size_le
  have hlast := And.intro hcopies.last_ge hcopies.last_lt
  refine yields_bind (plans_newState hcopies.planned (.same z)) fun exit p₃ hmade => ?_
  obtain ⟨hexit, _, c₃, hgrown₃, hholds₃⟩ := hmade
  have hsize₃ := hgrown₃.size_le
  have hlt₃ := hholds₃.lt
  refine yields_bind (plans_optionalCopies (n := p.size) h greedy (max - min) hnext hgrown₃.planned
    hlast.1 (by omega) (by omega) hlt₃ hholds₃.enter_eq
    (w := if min = 0 then y else z) ?_ ?_ ?_ ?_) fun last' p₄ hmade => ?_
  · rw [hgrown₃.leave_eq _ hlast.2]
    exact hcopies.leaves
  · split
    · exact hnext
    · exact .same z
  · intro hpos
    split
    · rfl
    · exact hrecurs (.inr (by omega))
  · exact fun hpos => hrecurs (.inr (by omega))
  obtain ⟨c₄, hoptional⟩ := hmade
  have hsize₄ := hoptional.size_le
  have hexit₄ := hholds₃.mono hoptional.toEvolves
  refine yields_bind (plans_join (n := p.size) hoptional.planned hoptional.last_ge hexit₄.lt
    (by rw [hexit₄.enter_eq]; exact hoptional.leaves)) fun _ p₅ hmade => ?_
  obtain ⟨hgrown₅, hsize₅⟩ := hmade
  have hall := (((hgrown₁.trans hcopies.toEvolves (Nat.le_refl _)).trans hgrown₃ (by omega)).trans
    hoptional.toEvolves (Nat.le_refl _)).trans hgrown₅ (Nat.le_refl _)
  have hstart₄ := ((hholds₁.mono hcopies.toEvolves).mono hgrown₃).mono hoptional.toEvolves
  obtain ⟨hge, hlt, hge', hlt'⟩ :
      p.size ≤ start ∧ start < p₅.size ∧ p.size ≤ exit ∧ exit < p₅.size := by
    have := hexit₄.lt
    omega
  refine yields_pure ⟨c₄, hall, hge, hlt, hge', hlt', hstart₄.enter_eq, ?_⟩
  rw [hexit₄.leave_eq]
  exact .same z

/-- A repetition without an upper bound: what is repeated is entered where it is left. -/
theorem plans_unbounded (h : Plans group z z build) (min : Nat) (greedy : Bool) :
    Plans group z z (repetition build min none greedy) := by
  intro c p hplanned
  have hsame : z.Next z := .same z
  refine yields_bind (plans_newState hplanned hsame) fun start p₁ hmade => ?_
  obtain ⟨hstart, _, c₁, hgrown₁, hholds₁⟩ := hmade
  have hsize₁ := hgrown₁.size_le
  have hlt₁ := hholds₁.lt
  have hnone : Yields (copies build (min - 1) start) p₁ fun last _ => min = 0 → last = start := by
    intro last p₂ hrun hmin
    subst hmin
    cases hrun
    rfl
  -- Where nothing has to be repeated there are no copies, so the exit of the loop leads to the start.
  have hcopied := plans_copies (n := p.size) h (min - 1) hgrown₁.planned (by omega) hlt₁ hsize₁
    (w := z) (by rw [hholds₁.leave_eq]; exact hsame) (fun _ => rfl) (fun _ => rfl)
  refine yields_bind (hcopied.and hnone) fun last p₂ hmade => ?_
  obtain ⟨⟨c₂, hcopies⟩, hfirst⟩ := hmade
  rw [ite_self] at hcopies
  refine yields_bind (h _ _ hcopies.planned) fun inner p₃ hmade => ?_
  obtain ⟨c₃, hinner⟩ := hmade
  refine yields_bind (plans_newState hinner.planned hsame) fun exit p₄ hmade => ?_
  obtain ⟨hexit, _, c₄, hgrown₄, hholds₄⟩ := hmade
  have hsizes := And.intro hcopies.size_le (And.intro hinner.size_le hgrown₄.size_le)
  have hlast := And.intro hcopies.last_ge hcopies.last_lt
  have hbounds := And.intro hinner.start_ge (And.intro hinner.start_lt
    (And.intro hinner.stop_ge hinner.stop_lt))
  have hlt₄ := hholds₄.lt
  have hgrown := ((hgrown₁.trans hcopies.toEvolves (Nat.le_refl _)).trans hinner.toEvolves
    (by omega)).trans hgrown₄ (by omega)
  have hstart₄ := ((hholds₁.mono hcopies.toEvolves).mono hinner.toEvolves).mono hgrown₄
  have hlast₄ : (c₄.leave last).Next z := by
    rw [hgrown₄.leave_eq _ (by omega), hinner.leave_eq _ hlast.2]
    exact hcopies.leaves
  have hin₄ : c₄.enter inner.start = z := (hgrown₄.enter_eq _ hbounds.2.1).trans hinner.enters
  have hout₄ : (c₄.leave inner.stop).Next z := by
    rw [hgrown₄.leave_eq _ hbounds.2.2.2]
    exact hinner.leaves
  have hdone {p₅ : Blueprint} (h₅ : Evolves group p.size c₄ p₄ c₄ p₅) (hsize₅ : p₅.size = p₄.size) :
      Covers group z z c p ⟨start, exit⟩ c₄ p₅ := by
    obtain ⟨hge, hlt, hge', hlt'⟩ :
        p.size ≤ start ∧ start < p₅.size ∧ p.size ≤ exit ∧ exit < p₅.size := by omega
    refine ⟨hgrown.trans h₅ (Nat.le_refl _), hge, hlt, hge', hlt', hstart₄.enter_eq, ?_⟩
    exact hholds₄.leave_eq ▸ hsame
  split
  · refine yields_bind (plans_join (n := p.size) hgrown.planned hlast.1 (by omega)
      (by rw [hin₄]; exact hlast₄)) fun _ p₅ hmade => ?_
    obtain ⟨hgrown₅, hsize₅⟩ := hmade
    refine yields_bind (plans_choice (n := p.size) hgrown₅.planned (by omega) (by omega) (by omega)
      (by rw [hin₄]; exact hout₄) (by rw [hholds₄.enter_eq]; exact hout₄) greedy)
      fun _ p₆ hmade => ?_
    obtain ⟨hgrown₆, hsize₆⟩ := hmade
    exact yields_pure ⟨c₄, hdone (hgrown₅.trans hgrown₆ (Nat.le_refl _)) (hsize₆.trans hsize₅)⟩
  · refine yields_bind (plans_choice (n := p.size) hgrown.planned hlast.1 (by omega) hlt₄
      (by rw [hin₄]; exact hlast₄) (by rw [hholds₄.enter_eq]; exact hlast₄) greedy)
      fun _ p₅ hmade => ?_
    obtain ⟨hgrown₅, hsize₅⟩ := hmade
    obtain rfl := hfirst (by omega)
    refine yields_bind (plans_join (n := p.size) hgrown₅.planned (by omega) (by omega)
      (by rw [hstart₄.enter_eq]; exact hout₄)) fun _ p₆ hmade => ?_
    obtain ⟨hgrown₆, hsize₆⟩ := hmade
    exact yields_pure ⟨c₄, hdone (hgrown₅.trans hgrown₆ (Nat.le_refl _)) (hsize₆.trans hsize₅)⟩

/-- A repetition of an expression that fits. -/
theorem plans_repetition (h : Plans group y z build) (hnext : y.Next z) {q : Quantifier}
    (hrecurs : q.recurs = true → z = y) (greedy : Bool) :
    Plans group y z (repetition build q.min q.max greedy) := by
  simp only [Quantifier.recurs, Bool.or_eq_true, decide_eq_true_iff] at hrecurs
  cases hmax : q.max with
  | none =>
    obtain rfl := hrecurs (.inr (by simp [hmax]))
    exact plans_unbounded h q.min greedy
  | some most =>
    apply plans_bounded h hnext
    intro hcount
    apply hrecurs
    simpa [hmax] using hcount

theorem plans_quantified {q : Quantifier} (h : Plans group e e' build)
    (hnext : e.Next e') (hrecurs : q.recurs = true → e' = e)
    (hbody : if q.possessive then Stage.Through true y e z else y = e ∧ z = e') :
    Plans group y z (quantified q build) := by
  apply plans_flags?
  intro flags
  have hrepetition (greedy : Bool) :=
    plans_repetition (plans_keepingFlags h) hnext hrecurs greedy
  cases hpossessive : q.possessive with
  | true =>
    rw [hpossessive, if_pos rfl] at hbody
    rw [if_pos rfl]
    have hasking := plans_asking (plans_closeBody (hrepetition true)) .atomic false
      (fun _ _ => rfl) (fun _ _ => hbody)
    rwa [bind_assoc] at hasking
  | false =>
    rw [hpossessive, if_neg Bool.false_ne_true] at hbody
    obtain ⟨rfl, rfl⟩ := hbody
    rw [if_neg Bool.false_ne_true]
    exact hrepetition _

/-! Expressions. -/

/-- A step adds alternatives between two states. -/
def PlansBetween (group : Nat) (y z : Stage) (add : Nat → Nat → Step Unit) : Prop :=
  ∀ (n : Nat) (c : Plan) (p : Blueprint) (start stop : Nat), Planned group c p → n ≤ start →
    n ≤ p.size → Holds c p start y y → Holds c p stop z z → Yields (add start stop) p fun _ p' =>
      ∃ c', Evolves group n c p c' p'

theorem plans_alternatives_cons {item : Tree} {rest : List Tree}
    (hitem : Plans group y z (fragment item))
    (hrest : PlansBetween group y z fun start stop => alternatives start stop rest) :
    PlansBetween group y z fun start stop => alternatives start stop (item :: rest) := by
  intro n c p start stop hplanned hge hn hstart hstop
  refine yields_bind (hitem c p hplanned) fun inner p₁ hmade => ?_
  obtain ⟨c₁, hinner⟩ := hmade
  have hsize := hinner.size_le
  have hstops := hinner.stop_ge
  have hstart₁ := hstart.mono hinner.toEvolves
  have hstop₁ := hstop.mono hinner.toEvolves
  refine yields_bind (plans_join (n := n) hinner.planned hge hinner.start_lt
    (by rw [hstart₁.leave_eq, hinner.enters]; exact .same y)) fun _ p₂ hmade => ?_
  obtain ⟨hgrown₂, hsize₂⟩ := hmade
  refine yields_bind (plans_join (n := n) hgrown₂.planned (s := inner.stop) (t := stop) (by omega)
    (hstop₁.mono hgrown₂).lt (by rw [hstop₁.enter_eq]; exact hinner.leaves))
    fun _ p₃ hmade => ?_
  obtain ⟨hgrown₃, hsize₃⟩ := hmade
  intro _ p₄ hrun
  obtain ⟨c₄, hgrown₄⟩ := hrest n _ _ start stop hgrown₃.planned hge (by omega)
    ((hstart₁.mono hgrown₂).mono hgrown₃) ((hstop₁.mono hgrown₂).mono hgrown₃) _ p₄ hrun
  exact ⟨c₄, (((hinner.toEvolves.mono hn).trans hgrown₂ (Nat.le_refl _)).trans hgrown₃
    (Nat.le_refl _)).trans hgrown₄ (Nat.le_refl _)⟩

theorem plans_alt {items : List Tree}
    (h : PlansBetween group y z fun start stop => alternatives start stop items) :
    Plans group y z (fragment (.alt items)) := by
  apply plans_keepingFlags
  intro c p hplanned
  refine yields_bind (plans_newState hplanned (.same y)) fun start p₁ hmade => ?_
  obtain ⟨hstart, _, c₁, hgrown₁, hholds₁⟩ := hmade
  refine yields_bind (plans_newState hgrown₁.planned (.same z)) fun stop p₂ hmade => ?_
  obtain ⟨hstop, _, c₂, hgrown₂, hholds₂⟩ := hmade
  have hsizes := And.intro hgrown₁.size_le hgrown₂.size_le
  have hfirst := hholds₁.mono hgrown₂
  refine yields_bind (h p.size c₂ p₂ start stop hgrown₂.planned (by omega) (by omega) hfirst hholds₂)
    fun _ p₃ hmade => ?_
  obtain ⟨c₃, hgrown₃⟩ := hmade
  have hall := (hgrown₁.trans hgrown₂ (by omega)).trans hgrown₃ (Nat.le_refl _)
  have hfirst₃ := hfirst.mono hgrown₃
  have hlast₃ := hholds₂.mono hgrown₃
  obtain ⟨hge, hge'⟩ : p.size ≤ start ∧ p.size ≤ stop := by omega
  refine yields_pure ⟨c₃, hall, hge, hfirst₃.lt, hge', hlast₃.lt, hfirst₃.enter_eq, ?_⟩
  exact hlast₃.leave_eq ▸ .same z

/-- A step appends something to a fragment. -/
def PlansAfter (group : Nat) (x z : Stage) (append : Fragment → Step Fragment) : Prop :=
  ∀ (n : Nat) (c : Plan) (p : Blueprint) (before : Fragment), Planned group c p →
    n ≤ before.stop → before.stop < p.size → n ≤ p.size → (c.leave before.stop).Next x →
      Yields (append before) p fun f p' => ∃ c', Appended group z n c p f.stop c' p' ∧
        f.start = before.start

theorem plans_sequel_cons {item : Tree} {rest : List Tree} (hitem : Plans group y x (fragment item))
    (hrest : PlansAfter group x z (sequel · rest)) :
    PlansAfter group y z (sequel · (item :: rest)) := by
  intro n c p before hplanned hge hlt hn hleaves
  refine yields_bind (hitem c p hplanned) fun inner p₁ hmade => ?_
  obtain ⟨c₁, hinner⟩ := hmade
  have hsize := hinner.size_le
  have hstop := And.intro hinner.stop_ge hinner.stop_lt
  refine yields_bind (plans_join (n := n) hinner.planned hge hinner.start_lt
    (by rw [hinner.leave_eq _ hlt, hinner.enters]; exact hleaves)) fun _ p₂ hmade => ?_
  obtain ⟨hgrown₂, hsize₂⟩ := hmade
  obtain ⟨hge₂, hlt₂⟩ : n ≤ inner.stop ∧ inner.stop < p₂.size := by omega
  intro f p₃ hrun
  obtain ⟨c₃, happended, hfirst⟩ := hrest n c₁ p₂ ⟨before.start, inner.stop⟩ hgrown₂.planned hge₂
    hlt₂ (by omega) hinner.leaves f p₃ hrun
  have hall := ((hinner.toEvolves.mono hn).trans hgrown₂ (Nat.le_refl _)).trans
    happended.toEvolves (Nat.le_refl _)
  exact ⟨c₃, ⟨hall, happended.last_ge, happended.last_lt, happended.leaves⟩, hfirst⟩

theorem plans_concat {item : Tree} {rest : List Tree} (hitem : Plans group y x (fragment item))
    (hrest : PlansAfter group x z (sequel · rest)) :
    Plans group y z (fragment (.concat (item :: rest))) := by
  intro c p hplanned
  refine yields_bind (hitem c p hplanned) fun first p₁ hmade => ?_
  obtain ⟨c₁, hfirst⟩ := hmade
  intro f p₂ hrun
  obtain ⟨c₂, happended, hstart⟩ := hrest p.size c₁ p₁ first hfirst.planned hfirst.stop_ge
    hfirst.stop_lt hfirst.size_le hfirst.leaves f p₂ hrun
  refine ⟨c₂, hfirst.toEvolves.trans happended.toEvolves (Nat.le_refl _), ?_, ?_,
    happended.last_ge, happended.last_lt, ?_, happended.leaves⟩
  · exact hstart ▸ hfirst.start_ge
  · exact hstart ▸ Nat.lt_of_lt_of_le hfirst.start_lt happended.size_le
  · rw [hstart, happended.enter_eq _ hfirst.start_lt]
    exact hfirst.enters

theorem plans_groupCond (ref : GroupRef) (hyes : Plans group y z yes) (hno : Plans group y z no) :
    Plans group y z (resolve ref >>= fun g => conditional (.group g) yes no) := by
  intro c p hplanned
  refine yields_bind (yields_resolve ref p) fun g p' hp => ?_
  subst hp
  exact plans_conditional (.group g) hplanned
    (fun _ => .passes (by simp [State.new]) rfl (.same y)) (fun _ _ hbody => by cases hbody)
    hyes hno

theorem plans_lookCond (kind : LookKind) {test : Step Fragment} (htest : Plans group e e' test)
    (hthrough : Stage.Through false y e x) (hyes : Plans group x z yes) (hno : Plans group x z no) :
    Plans group y z (body test >>= fun b => conditional (.look kind b) yes no) := by
  intro c p hplanned
  refine yields_bind (plans_body htest c p hplanned) fun b p₁ hmade => ?_
  obtain ⟨c₁, hgrown, hlt, henters⟩ := hmade
  have hconditional := plans_conditional (.look kind b) hgrown.planned
    (fun _ => .asks (by simp [State.new]) rfl rfl (henters ▸ hthrough))
    (fun _ _ hbody => by cases hbody; exact hlt) hyes hno
  intro f p₂ hrun
  obtain ⟨c₂, hcovers⟩ := hconditional f p₂ hrun
  have hsize := hgrown.size_le
  exact ⟨c₂, hgrown.trans hcovers.toEvolves hsize, Nat.le_trans hsize hcovers.start_ge,
    hcovers.start_lt, Nat.le_trans hsize hcovers.stop_ge, hcovers.stop_lt, hcovers.enters,
    hcovers.leaves⟩

mutual

/-- The fragment of an expression is entered and left at stages that the expression fits. -/
theorem plans_fragment (group : Nat) : (t : Tree) → (y z : Stage) → t.Fits group y z →
    Plans group y z (fragment t)
  | .empty, _, _, h => plans_skip h
  | .comment _, _, _, h => plans_skip h
  | .invalid, _, _, h => plans_acting h rfl
  | .literal _, _, _, h => plans_flags? fun _ => plans_consuming h _
  | .dot, _, _, h => by
    apply plans_flags?
    intro flags
    split
    · exact plans_consuming h _
    · exact plans_consuming h _
  | .cls _ _, _, _, h => plans_flags? fun _ => plans_consuming h _
  | .capture index name child, y, z, h => by
    apply plans_keepingFlags
    obtain ⟨_, h⟩ := h
    split at h
    · rename_i heq
      obtain ⟨rfl, rfl, hchild⟩ := h
      subst heq
      exact plans_captured_self (plans_fragment index child _ _ hchild) name
    · rename_i hne
      exact plans_captured_other (plans_fragment group child y z h) hne name
  | .group child, y, z, h => plans_keepingFlags (plans_fragment group child y z h)
  | .scope opts child, y, z, h =>
    plans_keepingFlags (plans_withOptions (plans_fragment group child y z h) opts)
  | .backref ref, _, _, h => by
    intro c p hplanned
    refine yields_bind (yields_resolve ref p) fun g p' hp => ?_
    subst hp
    exact plans_flags? (fun _ => plans_acting h rfl) c p' hplanned
  | .repetition q child, y, z, h => by
    rw [Tree.Fits] at h
    split at h
    · rename_i hpossessive
      obtain ⟨e, e', hchild, hnext, hrecurs, hthrough⟩ := h
      exact plans_quantified (plans_fragment group child e e' hchild) hnext hrecurs
        (by rw [if_pos hpossessive]; exact hthrough)
    · rename_i hgreedy
      obtain ⟨hchild, hnext, hrecurs⟩ := h
      exact plans_quantified (plans_fragment group child y z hchild) hnext hrecurs
        (by rw [if_neg hgreedy]; exact ⟨rfl, rfl⟩)
  | .anchor _, _, _, h => plans_flags? fun _ => plans_marked h _
  | .boundary _, _, _, h => plans_marked h _
  | .look kind child, y, z, h => by
    obtain ⟨e, e', hchild, hthrough⟩ := h
    exact plans_asking (plans_body (plans_fragment group child e e' hchild))
      (.look kind) kind.isBehind (fun _ _ => rfl) (fun _ _ => hthrough)
  | .atomic child, y, z, h => by
    obtain ⟨e, e', hchild, hthrough⟩ := h
    exact plans_asking (plans_body (plans_fragment group child e e' hchild))
      .atomic false (fun _ _ => rfl) (fun _ _ => hthrough)
  | .options opts, _, _, h => plans_withOptions (plans_skip h) opts
  | .groupCond ref yes none, y, z, h =>
    plans_groupCond ref (plans_fragment group yes y z h.1) (plans_skip h.2)
  | .groupCond ref yes (some no), y, z, h => by
    obtain ⟨⟨w, hyes, hw⟩, w', hno, hw'⟩ := h
    exact plans_groupCond ref ((plans_fragment group yes y w hyes).later hw)
      ((plans_fragment group no y w' hno).later hw')
  | .lookCond kind test yes none, y, z, h => by
    obtain ⟨e, e', x, htest, hthrough, hyes, hno⟩ := h
    exact plans_lookCond kind (plans_fragment group test e e' htest) hthrough
      (plans_fragment group yes x z hyes) (plans_skip hno)
  | .lookCond kind test yes (some no), y, z, h => by
    obtain ⟨e, e', x, htest, hthrough, ⟨w, hyes, hw⟩, w', hno, hw'⟩ := h
    exact plans_lookCond kind (plans_fragment group test e e' htest) hthrough
      ((plans_fragment group yes x w hyes).later hw) ((plans_fragment group no x w' hno).later hw')
  | .verb v, _, _, h => by
    apply plans_acting h
    cases v <;> rfl
  | .alt items, y, z, h => plans_alt (plans_alternatives group items y z h.1)
  | .concat [], _, _, h => plans_skip h
  | .concat (item :: rest), y, z, h => by
    obtain ⟨x, hitem, hrest⟩ := h
    exact plans_concat (plans_fragment group item y x hitem) (plans_sequel group rest x z hrest)

theorem plans_alternatives (group : Nat) : (items : List Tree) → (y z : Stage) →
    FitsEach group items y z →
      PlansBetween group y z fun start stop => alternatives start stop items
  | [], _, _, _ => fun n c _ _ _ hplanned _ _ _ _ => yields_pure ⟨c, hplanned.evolves n⟩
  | item :: rest, y, z, h => by
    obtain ⟨⟨x, hitem, hx⟩, hrest⟩ := h
    exact plans_alternatives_cons ((plans_fragment group item y x hitem).later hx)
      (plans_alternatives group rest y z hrest)

theorem plans_sequel (group : Nat) : (items : List Tree) → (y z : Stage) →
    FitsAll group items y z → PlansAfter group y z (sequel · items)
  | [], _, _, h => fun n c _ _ hplanned hge hlt _ hleaves =>
    yields_pure ⟨c, ⟨hplanned.evolves n, hge, hlt, hleaves.trans h⟩, rfl⟩
  | item :: rest, y, z, h => by
    obtain ⟨x, hitem, hrest⟩ := h
    exact plans_sequel_cons (plans_fragment group item y x hitem)
      (plans_sequel group rest x z hrest)

end

/-- The whole automaton is entered at the stage at which its expression is. -/
theorem plans_whole {root : Tree} (hfits : root.Fits group y z) (hplanned : Planned group c p) :
    Yields (whole root) p fun f p' => ∃ c', Planned group c' p' ∧ c'.enter f.start = y := by
  refine yields_bind (plans_fragment group root y z hfits c p hplanned) fun inner p₁ hmade => ?_
  obtain ⟨c₁, hinner⟩ := hmade
  refine yields_bind (plans_newState hinner.planned (.same z)) fun stop p₂ hmade => ?_
  obtain ⟨hstop, ⟨last, hlast, hblank, _⟩, c₂, hgrown₂, hholds₂⟩ := hmade
  have hsizes := And.intro hinner.size_le hgrown₂.size_le
  have hstops := hinner.stop_lt
  have hlt := hholds₂.lt
  have hevolves := hinner.toEvolves.trans hgrown₂ hinner.size_le
  have hjoined := hgrown₂.planned.connect (n := p.size) hinner.stop_ge hlt
    (by rw [hgrown₂.leave_eq _ hstops, hholds₂.enter_eq]; exact hinner.leaves) none 0
  have hlast₃ : (p₂.automaton.connect inner.stop stop none 0).states[stop]? = some last := by
    rw [connect, modifyState, Array.getElem?_modify, if_neg (by omega)]
    exact hlast
  have hjoin : Yields (join inner.stop stop) p₂ fun _ p₃ =>
      p₃ = { p₂ with automaton := p₂.automaton.connect inner.stop stop none 0 } := yields_modify rfl
  refine yields_bind hjoin fun _ p₃ hp₃ => ?_
  subst hp₃
  have haccepts := plans_change (hevolves.trans hjoined (Nat.le_refl _)) (s := stop) (by omega)
    (Nat.le_refl _) hlast₃ (f := fun s => { s with accepting := true }) z hblank.2.2.2
    (by simp [State.asks?, hblank.2.2.1])
    (.passes (by simp [hblank.1]) (by simp [State.asks?, hblank.2.2.1])
      (by rw [hholds₂.enter_eq]; exact .same z))
  refine yields_bind haccepts fun _ p₄ hmade => ?_
  obtain ⟨_, _, hgrown₄⟩ := hmade
  exact yields_pure ⟨_, hgrown₄.planned, (hgrown₂.enter_eq _ hinner.start_lt).trans hinner.enters⟩

theorem planned_empty (c : Plan) (base : UInt32) (flags : Flags) (groups : List (Option String))
    (maxStates : Nat) : Planned group c ⟨.empty .nfa, base, flags, groups, maxStates⟩ := by
  constructor <;> intro k s hs <;> simp [Automaton.empty] at hs

end Blueprint

/-- A compiled expression is entered at any stage that it fits. -/
theorem Automaton.ofTree_startsAt {group : Nat} {y z : Stage} {tree : SyntaxTree} {maxStates : Nat}
    {base nextId : UInt32} {a : Automaton} (hfits : tree.root.Fits group y z)
    (hrun : (ofTree tree maxStates).run base = (.ok a, nextId)) : a.StartsAt group y := by
  obtain ⟨f, p', hwhole, hstates, hinitial⟩ := ofTree_run hrun
  let blank : Plan := ⟨fun _ => y, fun _ => y⟩
  obtain ⟨c', hplanned, henter⟩ := Blueprint.plans_whole hfits
    (Blueprint.planned_empty blank base tree.flags tree.groups maxStates) f p' hwhole
  refine ⟨c'.enter, f.start, fun index s hs => ?_, hinitial, henter ▸ .same y⟩
  rw [hstates] at hs
  exact ⟨c'.leave index, hplanned.turns index s hs, fun t ht => (hplanned.leads index s hs t ht).2⟩

end RegexEngine
