import RegexEngine.Proofs.Automaton.Independence
import RegexEngine.Proofs.Automaton.Layout
import RegexEngine.Proofs.Automaton.Subsets
import RegexEngine.Proofs.Steps
import RegexEngine.Proofs.Search.Contraction

/-!
Constructions with states put in. Two constructions may differ by some states that the first one has
at a place of its own, so that all later states have moved. Steps that do the same in both, each at
its own places, leave it at that, whatever the steps are; and what one of them fails at, the other
one fails at too, unless there was no room for a state.
-/

namespace RegexEngine

/-! States that are put in. -/

/-- States that are put into an automaton in front of one of its places. -/
structure Splice where
  front : Nat
  states : List State
  /-- The place, without them, where they lead. -/
  target : Nat

namespace Splice

variable (c : Splice)

/-- Where a state is once the others are put in. -/
def lift (i : Nat) : Nat := if i < c.front then i else i + c.states.length

/-- Where a state is without those that are put in, or where these lead. -/
def place (i : Nat) : Nat :=
  if i < c.front then i
  else if i < c.front + c.states.length then c.target
  else i - c.states.length

@[simp] theorem place_lift (i : Nat) : c.place (c.lift i) = i := by
  unfold place lift
  grind

theorem lift_inj {i j : Nat} : c.lift i = c.lift j ↔ i = j := by
  unfold lift
  grind

/-- No state is moved to where one is put in. -/
theorem lift_ne {i j : Nat} (hj : j < c.states.length) : c.lift i ≠ c.front + j := by
  unfold lift
  grind

theorem lift_of_le {i : Nat} (h : c.front ≤ i) : c.lift i = i + c.states.length :=
  if_neg (Nat.not_lt.mpr h)

end Splice

/-- A transition does what another one does, with places renamed. None of them goes first. -/
structure Transition.Copies (place : Nat → Nat) (t' t : Transition) : Prop
    extends t'.Imitates place t where
  priority_eq : t.priority = 0
  priority_eq' : t'.priority = 0

/-- A state does what another one does, with places renamed. -/
structure State.Copies (place : Nat → Nat) (s' s : State) : Prop where
  accepting_eq : s'.accepting = s.accepting
  marks_eq : s'.marks = s.marks
  groupIndex_eq : s'.groupIndex = s.groupIndex
  action_eq : s'.action = s.action.map (·.mapBody place)
  transitions : List.Forall₂ (fun t t' => t'.Copies place t) s.transitions s'.transitions

namespace State

variable {place : Nat → Nat} {s s' : State}

theorem Copies.imitates (h : s'.Copies place s) : s'.Imitates place s := by
  have hall : List.Forall₂ (fun t t' => t'.Imitates place t) s.transitions s'.transitions :=
    h.transitions.imp fun _ _ ht => ht.toImitates
  have hthinned {ts ts' : List Transition}
      (hts : List.Forall₂ (fun t t' => t'.Imitates place t) ts ts') :
      ∀ before, Thinned place before ts ts' := by
    induction hts with
    | nil => exact fun _ => .nil
    | cons ht _ ih => exact fun _ => .keep ht (ih _)
  exact ⟨h.accepting_eq, h.marks_eq, h.groupIndex_eq, h.action_eq, hthinned hall [], fun _ => hall⟩

theorem copies_new (place : Nat → Nat) (id id' : UInt32) :
    (State.new id' false).Copies place (State.new id false) := ⟨rfl, rfl, rfl, rfl, .nil⟩

theorem Copies.addTransition (h : s'.Copies place s) {source source' target target' : Nat}
    (htarget : target' = place target) (label : Option Label) :
    (s'.addTransition ⟨source', target', label, 0⟩).Copies place
      (s.addTransition ⟨source, target, label, 0⟩) := by
  have hpriority : (∀ t ∈ s.transitions, t.priority = 0) ∧
      ∀ t ∈ s'.transitions, t.priority = 0 := by
    have hall := h.transitions
    generalize s.transitions = ts at hall
    generalize s'.transitions = ts' at hall
    induction hall with
    | nil => simp
    | cons ht _ ih =>
      exact ⟨List.forall_mem_cons.mpr ⟨ht.priority_eq, ih.1⟩,
        List.forall_mem_cons.mpr ⟨ht.priority_eq', ih.2⟩⟩
  refine ⟨h.accepting_eq, h.marks_eq, h.groupIndex_eq, h.action_eq, ?_⟩
  rw [Automaton.Subsets.transitions_addTransition hpriority.1,
    Automaton.Subsets.transitions_addTransition hpriority.2]
  exact List.rel_append h.transitions (.cons ⟨⟨rfl, htarget⟩, rfl, rfl⟩ .nil)

end State

/-- The first automaton is the second one with some states put in. -/
structure Splice.Divides (c : Splice) (a b : Automaton) : Prop where
  size_eq : a.stateCount = b.stateCount + c.states.length
  front_le : c.front ≤ b.stateCount
  kept : ∀ i s', b.states[i]? = some s' →
    ∃ s, a.states[c.lift i]? = some s ∧ s'.Copies c.place s
  put : ∀ i s, c.states[i]? = some s → a.states[c.front + i]? = some s

/-! Constructions. -/

open Blueprint

/-- The first construction is the second one with some states put in. -/
structure Splice.Spliced (c : Splice) (p q : Blueprint) : Prop
    extends c.Divides p.automaton q.automaton where
  groups_eq : p.groups = q.groups

namespace Splice

variable {c : Splice} {p q : Blueprint}

theorem Spliced.size_eq_lift (h : c.Spliced p q) : p.size = c.lift q.size :=
  h.size_eq.trans (c.lift_of_le h.front_le).symm

theorem Spliced.added (h : c.Spliced p q) {s s' : State} (hs : s'.Copies c.place s) :
    c.Spliced (p.added s) (q.added s') := by
  have hold {k : Nat} {state : State} (hstate : p.automaton.states[k]? = some state) :
      (p.added s).automaton.states[k]? = some state := by
    have hk : k ≠ p.size := Nat.ne_of_lt (Array.getElem?_eq_some_iff.mp hstate).1
    rwa [getElem?_added, if_neg hk]
  refine ⟨⟨?_, ?_, fun k other hother => ?_, fun k other hother => hold (h.put k other hother)⟩,
    h.groups_eq⟩
  · change (p.added s).size = (q.added s').size + _
    rw [size_added, size_added, Nat.add_right_comm]
    exact congrArg (· + 1) h.size_eq
  · change _ ≤ (q.added s').size
    rw [size_added]
    exact Nat.le_succ_of_le h.front_le
  · rcases getElem?_added_cases hother with ⟨_, hother⟩ | ⟨rfl, rfl⟩
    · obtain ⟨before, hbefore, hcopies⟩ := h.kept k other hother
      exact ⟨before, hold hbefore, hcopies⟩
    · refine ⟨s, ?_, hs⟩
      rw [getElem?_added, if_pos h.size_eq_lift.symm]

/-- The flags in effect do not count. -/
theorem Spliced.withFlags (h : c.Spliced p q) (flags flags' : Flags) :
    c.Spliced { p with flags := flags } { q with flags := flags' } := ⟨h.toDivides, h.groups_eq⟩

theorem Spliced.changed (h : c.Spliced p q) (i : Nat) {f g : State → State}
    (hf : ∀ s s' : State, s'.Copies c.place s → (g s').Copies c.place (f s)) :
    c.Spliced (p.changed (c.lift i) f) (q.changed i g) := by
  refine ⟨⟨?_, ?_, fun k other hother => ?_, fun k other hother => ?_⟩, h.groups_eq⟩
  · change (p.changed _ f).size = (q.changed i g).size + _
    rw [size_changed, size_changed]
    exact h.size_eq
  · change _ ≤ (q.changed i g).size
    rw [size_changed]
    exact h.front_le
  · rw [getElem?_changed] at hother ⊢
    by_cases hk : i = k
    · rw [if_pos hk] at hother
      rw [if_pos (congrArg c.lift hk)]
      obtain ⟨before, hbefore, rfl⟩ := Option.map_eq_some_iff.mp hother
      obtain ⟨s, hs, hcopies⟩ := h.kept k before hbefore
      exact ⟨f s, by rw [hs]; rfl, hf s before hcopies⟩
    · rw [if_neg hk] at hother
      rw [if_neg (fun heq => hk (c.lift_inj.mp heq))]
      exact h.kept k other hother
  · have hlt : k < c.states.length := (List.getElem?_eq_some_iff.mp hother).1
    rw [getElem?_changed, if_neg (c.lift_ne hlt)]
    exact h.put k other hother

end Splice

/-! Steps. -/

namespace Blueprint

/-- What a step answers and leaves behind, unless it fails. -/
def outcome {α : Type} (x : Step α) (p : Blueprint) : Except Error (α × Blueprint) :=
  (x.run p).1.map fun v => (v, (x.run p).2)

theorem outcome_bind {α β : Type} (x : Step α) (f : α → Step β) (p : Blueprint) :
    outcome (x >>= f) p = outcome x p >>= fun r => outcome (f r.1) r.2 := by
  unfold outcome
  rw [run_step_bind]
  cases (x.run p).1 <;> rfl

theorem outcome_newState (p : Blueprint) :
    outcome newState p =
      if p.maxStates ≤ p.automaton.stateCount then .error (LimitFault.states p.maxStates).error
      else .ok (p.size, p.added (.new p.nextId false)) := by
  rw [outcome, run_newState]
  split <;> rfl

theorem outcome_keepingFlags {α : Type} (x : Step α) (p : Blueprint) :
    outcome (keepingFlags x) p =
      (outcome x p).map fun r => (r.1, { r.2 with flags := p.flags }) := by
  unfold outcome
  rw [run_keepingFlags]
  cases (x.run p).1 <;> rfl

theorem outcome_resolve (ref : GroupRef) (p : Blueprint) :
    outcome (resolve ref) p = (resolved p.groups ref).map fun n => (n, p) := by
  rw [outcome, run_resolve]

end Blueprint

namespace Splice

/-- From constructions that differ by what is put in, two steps come to such constructions again.
The answer of the first one is what the answer of the second one is moved to. Something may be known
of the flags in effect. -/
structure Respects (c : Splice) (rel : Flags → Flags → Prop) {α β : Type} (moved : β → α)
    (x : Step α) (y : Step β) : Prop where
  concurs : ∀ p q, c.Spliced p q → rel p.flags q.flags →
    Concur (fun r r' => r.1 = moved r'.1 ∧ c.Spliced r.2 r'.2 ∧ rel r.2.flags r'.2.flags)
      (outcome x p) (outcome y q)

section Steps

variable {c : Splice} {rel : Flags → Flags → Prop} {α β γ δ : Type} {moved : β → α}
  {moved' : δ → γ}

theorem respects_pure (v : β) : c.Respects rel moved (pure (moved v)) (pure v) :=
  ⟨fun _ _ h hrel => .answered ⟨rfl, h, hrel⟩⟩

theorem respects_throw (e : Error) :
    c.Respects rel moved (throw e : Step α) (throw e : Step β) := ⟨fun _ _ _ _ => .failed e e⟩

theorem respects_bind {x : Step α} {y : Step β} {f : α → Step γ} {g : β → Step δ}
    (hx : c.Respects rel moved x y) (hf : ∀ v, c.Respects rel moved' (f (moved v)) (g v)) :
    c.Respects rel moved' (x >>= f) (y >>= g) := by
  refine ⟨fun p q h hrel => ?_⟩
  rw [outcome_bind, outcome_bind]
  refine (hx.concurs p q h hrel).bind ?_
  rintro ⟨_, p₁⟩ ⟨v, q₁⟩ ⟨rfl, h₁, hrel₁⟩
  exact (hf v).concurs p₁ q₁ h₁ hrel₁

theorem respects_map {x : Step α} {y : Step β} (h : c.Respects rel moved x y) {f : α → γ}
    {g : β → δ} (hf : ∀ v, f (moved v) = moved' (g v)) :
    c.Respects rel moved' (f <$> x) (g <$> y) := by
  rw [← bind_pure_comp, ← bind_pure_comp]
  exact respects_bind h fun v => hf v ▸ respects_pure (g v)

theorem respects_modify {f g : Blueprint → Blueprint}
    (h : ∀ p q, c.Spliced p q → rel p.flags q.flags →
      c.Spliced (f p) (g q) ∧ rel (f p).flags (g q).flags) :
    c.Respects rel id (modify f : Step PUnit) (modify g) :=
  ⟨fun p q hpq hrel => .answered ⟨rfl, h p q hpq hrel⟩⟩

theorem respects_flags? {build : Flags → Step α} {build' : Flags → Step β}
    (h : ∀ flags, c.Respects Eq moved (build flags) (build' flags)) :
    c.Respects Eq moved (flags? >>= build) (flags? >>= build') := by
  refine ⟨fun p q hpq hflags => ?_⟩
  have hstep := (h q.flags).concurs p q hpq hflags
  change Concur _ (outcome (build p.flags) p) (outcome (build' q.flags) q)
  rwa [hflags]

theorem respects_keepingFlags {x : Step α} {y : Step β} (h : c.Respects rel moved x y) :
    c.Respects rel moved (keepingFlags x) (keepingFlags y) := by
  refine ⟨fun p q hpq hrel => ?_⟩
  rw [outcome_keepingFlags, outcome_keepingFlags]
  exact (h.concurs p q hpq hrel).map fun r r' hr => ⟨hr.1, hr.2.1.withFlags _ _, hrel⟩

theorem respects_newState : c.Respects rel c.lift newState newState := by
  refine ⟨fun p q h hrel => ?_⟩
  rw [outcome_newState, outcome_newState]
  split
  · exact .large (.inl rfl)
  · split
    · exact .large' (.inl rfl)
    · exact .answered ⟨h.size_eq_lift, h.added (State.copies_new ..), hrel⟩

theorem respects_change (i : Nat) {f g : State → State}
    (hf : ∀ s s' : State, s'.Copies c.place s → (g s').Copies c.place (f s)) :
    c.Respects rel id (change (c.lift i) f) (change i g) :=
  respects_modify fun _ _ h hrel => ⟨h.changed i hf, hrel⟩

theorem respects_connect (s : Nat) {t t' : Nat} (ht : t' = c.place t) (label : Option Label) :
    c.Respects rel id
      (modify fun p => { p with automaton := p.automaton.connect (c.lift s) t label 0 })
      (modify fun q => { q with automaton := q.automaton.connect s t' label 0 }) :=
  respects_modify fun _ _ h hrel =>
    ⟨h.changed s fun _ _ hcopies => hcopies.addTransition ht label, hrel⟩

theorem respects_join (s t : Nat) : c.Respects rel id (join (c.lift s) (c.lift t)) (join s t) :=
  respects_connect s (c.place_lift t).symm none

theorem respects_markedState (marks : Marks) :
    c.Respects rel c.lift (markedState marks) (markedState marks) := by
  refine respects_bind respects_newState fun s => ?_
  refine respects_bind (respects_change s fun _ _ h => ?_) fun _ => respects_pure s
  exact ⟨h.accepting_eq, rfl, h.groupIndex_eq, h.action_eq, h.transitions⟩

theorem respects_actionState {action action' : Action}
    (haction : action' = action.mapBody c.place) :
    c.Respects rel c.lift (actionState action) (actionState action') := by
  refine respects_bind respects_newState fun s => ?_
  refine respects_bind (respects_change s fun _ _ h => ?_) fun _ => respects_pure s
  exact ⟨h.accepting_eq, h.marks_eq, h.groupIndex_eq, congrArg some haction, h.transitions⟩

/-- Where a fragment is once states are put in. -/
def liftFragment (c : Splice) (f : Fragment) : Fragment := ⟨c.lift f.start, c.lift f.stop⟩

theorem respects_single {x y : Step Nat} (h : c.Respects rel c.lift x y) :
    c.Respects rel c.liftFragment (single <$> x) (single <$> y) := respects_map h fun _ => rfl

/-- A fragment between two states. -/
theorem respects_between (start stop : Nat) :
    c.Respects rel c.liftFragment (pure ⟨c.lift start, c.lift stop⟩) (pure ⟨start, stop⟩) :=
  respects_pure (Fragment.mk start stop)

theorem respects_consuming (label : List Char) :
    c.Respects rel c.liftFragment (consuming label) (consuming label) := by
  refine respects_bind respects_newState fun start => respects_bind respects_newState fun stop => ?_
  cases Label.ofChars label with
  | error e => exact respects_throw e
  | ok label =>
    refine respects_bind (respects_pure label) fun (label : Label) =>
      respects_bind (respects_connect start (c.place_lift stop).symm (some label)) fun _ =>
        respects_between start stop

theorem respects_resolve (ref : GroupRef) : c.Respects rel id (resolve ref) (resolve ref) := by
  refine ⟨fun p q h hrel => ?_⟩
  rw [outcome_resolve, outcome_resolve, h.groups_eq]
  cases resolved q.groups ref with
  | error e => exact .failed e e
  | ok n => exact .answered ⟨rfl, h, hrel⟩

theorem respects_choice (s inside outside : Nat) (greedy : Bool) :
    c.Respects rel id (choice (c.lift s) (c.lift inside) (c.lift outside) greedy)
      (choice s inside outside greedy) := by
  cases greedy with
  | true => exact respects_bind (respects_join ..) fun _ => respects_join ..
  | false => exact respects_bind (respects_join ..) fun _ => respects_join ..

theorem respects_closeBody (inner : Fragment) :
    c.Respects rel c.lift (closeBody (c.liftFragment inner)) (closeBody inner) :=
  respects_bind (respects_markedState _) fun _ => respects_bind (respects_join ..) fun _ =>
    respects_pure inner.start

theorem respects_skip : c.Respects rel c.liftFragment skip skip := respects_single respects_newState

end Steps

section Constructs

variable {c : Splice} {rel : Flags → Flags → Prop} {build build' : Step Fragment}

theorem respects_body (h : c.Respects rel c.liftFragment build build') :
    c.Respects rel c.lift (body build) (body build') :=
  respects_bind (respects_keepingFlags h) respects_closeBody

theorem respects_copies (h : c.Respects rel c.liftFragment build build') (n : Nat) :
    ∀ last, c.Respects rel c.lift (copies build n (c.lift last)) (copies build' n last) := by
  induction n with
  | zero => exact fun last => respects_pure last
  | succ n ih =>
    exact fun last => respects_bind h fun inner => respects_bind (respects_join ..) fun _ => ih _

theorem respects_optionalCopies (h : c.Respects rel c.liftFragment build build') (exit : Nat)
    (greedy : Bool) (n : Nat) :
    ∀ last, c.Respects rel c.lift (optionalCopies build (c.lift exit) greedy n (c.lift last))
      (optionalCopies build' exit greedy n last) := by
  induction n with
  | zero => exact fun last => respects_pure last
  | succ n ih =>
    exact fun last => respects_bind h fun inner => respects_bind (respects_choice ..) fun _ => ih _

theorem respects_repetition (h : c.Respects rel c.liftFragment build build') (min : Nat)
    (max : Option Nat) (greedy : Bool) :
    c.Respects rel c.liftFragment (repetition build min max greedy)
      (repetition build' min max greedy) := by
  refine respects_bind respects_newState fun start => ?_
  cases max with
  | none =>
    refine respects_bind (respects_copies h _ _) fun last => respects_bind h fun inner => ?_
    refine respects_bind respects_newState fun exit => ?_
    by_cases hmin : 0 < min
    · rw [if_pos hmin, if_pos hmin]
      exact respects_bind (respects_join ..) fun _ => respects_bind (respects_choice ..)
        fun _ => respects_between start exit
    · rw [if_neg hmin, if_neg hmin]
      exact respects_bind (respects_choice ..) fun _ => respects_bind (respects_join ..)
        fun _ => respects_between start exit
  | some max =>
    refine respects_bind (respects_copies h _ _) fun last => ?_
    refine respects_bind respects_newState fun exit => ?_
    exact respects_bind (respects_optionalCopies h ..) fun _ => respects_bind (respects_join ..)
      fun _ => respects_between start exit

theorem respects_quantified (h : c.Respects Eq c.liftFragment build build') (q : Quantifier) :
    c.Respects Eq c.liftFragment (quantified q build) (quantified q build') := by
  have hrepetition := respects_repetition (respects_keepingFlags h) q.min q.max
  refine respects_flags? fun flags => ?_
  by_cases hpossessive : q.possessive = true
  · rw [if_pos hpossessive, if_pos hpossessive]
    refine respects_bind (hrepetition true) fun inner => ?_
    refine respects_bind (respects_closeBody inner) fun b => ?_
    exact respects_single (respects_actionState (by rw [Action.mapBody, c.place_lift]))
  · rw [if_neg hpossessive, if_neg hpossessive]
    exact hrepetition _

theorem respects_conditional {condition condition' : Condition}
    (hcondition : Action.branch condition' = (Action.branch condition).mapBody c.place)
    {yes yes' no no' : Step Fragment} (hyes : c.Respects rel c.liftFragment yes yes')
    (hno : c.Respects rel c.liftFragment no no') :
    c.Respects rel c.liftFragment (conditional condition yes no)
      (conditional condition' yes' no') := by
  refine respects_bind (respects_actionState hcondition) fun s => ?_
  refine respects_bind respects_newState fun stop => ?_
  refine respects_bind (respects_keepingFlags hyes) fun yes => ?_
  refine respects_bind (respects_keepingFlags hno) fun no => ?_
  refine respects_bind (respects_join ..) fun _ => respects_bind (respects_join ..) fun _ => ?_
  exact respects_bind (respects_join ..) fun _ => respects_bind (respects_join ..) fun _ =>
    respects_between s stop

theorem respects_captured (h : c.Respects rel c.liftFragment build build') (index : Nat)
    (name : Option String) :
    c.Respects rel c.liftFragment (captured index name build) (captured index name build') := by
  refine respects_bind respects_newState fun start => respects_bind h fun inner => ?_
  refine respects_bind respects_newState fun stop => ?_
  have hmarks {s s' : State} (hcopies : s'.Copies c.place s) (mark : Marks) :
      s'.marks.union mark = s.marks.union mark := by rw [hcopies.marks_eq]
  refine respects_bind (respects_change start fun _ _ hs => ?_) fun _ => ?_
  · exact ⟨hs.accepting_eq, hmarks hs _, rfl, hs.action_eq, hs.transitions⟩
  refine respects_bind (respects_change stop fun _ _ hs => ?_) fun _ => ?_
  · exact ⟨hs.accepting_eq, hmarks hs _, rfl, hs.action_eq, hs.transitions⟩
  refine respects_bind (respects_join ..) fun _ => respects_bind (respects_join ..) fun _ => ?_
  exact respects_between start stop

theorem respects_options (opts : OptionSet) :
    c.Respects Eq id (modify fun p => { p with flags := opts.apply p.flags })
      (modify fun p => { p with flags := opts.apply p.flags }) :=
  respects_modify fun _ _ h hflags => ⟨h.withFlags _ _, congrArg opts.apply hflags⟩

end Constructs

mutual

/-- The fragment of an expression is the same, wherever it is built. -/
theorem respects_fragment (c : Splice) :
    (t : Tree) → c.Respects Eq c.liftFragment (fragment t) (fragment t)
  | .empty => respects_skip
  | .comment _ => respects_skip
  | .invalid => respects_single (respects_actionState rfl)
  | .literal c => respects_flags? fun flags => respects_consuming _
  | .dot => by
    refine respects_flags? fun flags => ?_
    by_cases hdotAll : flags.contains .dotAll = true
    · rw [if_pos hdotAll]
      exact respects_consuming _
    · rw [if_neg hdotAll]
      exact respects_consuming _
  | .cls _ spec => respects_flags? fun flags => respects_consuming _
  | .capture index name child =>
    respects_keepingFlags (respects_captured (respects_fragment c child) index name)
  | .group child => respects_keepingFlags (respects_fragment c child)
  | .scope opts child =>
    respects_keepingFlags (respects_bind (respects_options opts) fun _ => respects_fragment c child)
  | .backref ref => respects_bind (respects_resolve ref) fun group =>
      respects_flags? fun flags => respects_single (respects_actionState rfl)
  | .repetition q child => respects_quantified (respects_fragment c child) q
  | .anchor a => respects_flags? fun flags => respects_single (respects_markedState _)
  | .boundary _ => respects_single (respects_markedState _)
  | .look _ child => respects_bind (respects_body (respects_fragment c child)) fun b =>
      respects_single (respects_actionState (by rw [Action.mapBody, c.place_lift]))
  | .atomic child => respects_bind (respects_body (respects_fragment c child)) fun b =>
      respects_single (respects_actionState (by rw [Action.mapBody, c.place_lift]))
  | .options opts => respects_bind (respects_options opts) fun _ => respects_skip
  | .groupCond ref yes none => respects_bind (respects_resolve ref) fun _ =>
      respects_conditional rfl (respects_fragment c yes) respects_skip
  | .groupCond ref yes (some no) => respects_bind (respects_resolve ref) fun _ =>
      respects_conditional rfl (respects_fragment c yes) (respects_fragment c no)
  | .lookCond _ test yes none => respects_bind (respects_body (respects_fragment c test)) fun b =>
      respects_conditional (by rw [Action.mapBody, c.place_lift]) (respects_fragment c yes)
        respects_skip
  | .lookCond _ test yes (some no) =>
    respects_bind (respects_body (respects_fragment c test)) fun b =>
      respects_conditional (by rw [Action.mapBody, c.place_lift]) (respects_fragment c yes)
        (respects_fragment c no)
  | .verb v => respects_single (respects_actionState (by cases v <;> rfl))
  | .alt items => by
    refine respects_keepingFlags (respects_bind respects_newState fun start => ?_)
    refine respects_bind respects_newState fun stop => ?_
    exact respects_bind (respects_alternatives c items start stop) fun _ =>
      respects_between start stop
  | .concat [] => respects_skip
  | .concat (item :: rest) =>
    respects_bind (respects_fragment c item) fun first => respects_sequel c rest first

theorem respects_alternatives (c : Splice) : (items : List Tree) → (start stop : Nat) →
    c.Respects Eq id (alternatives (c.lift start) (c.lift stop) items)
      (alternatives start stop items)
  | [], _, _ => respects_pure ()
  | item :: rest, start, stop => by
    refine respects_bind (respects_fragment c item) fun inner => ?_
    refine respects_bind (respects_join ..) fun _ => respects_bind (respects_join ..) fun _ => ?_
    exact respects_alternatives c rest start stop

theorem respects_sequel (c : Splice) : (items : List Tree) → (before : Fragment) →
    c.Respects Eq c.liftFragment (sequel (c.liftFragment before) items) (sequel before items)
  | [], before => respects_pure before
  | item :: rest, before => by
    refine respects_bind (respects_fragment c item) fun inner => ?_
    exact respects_bind (respects_join ..) fun _ =>
      respects_sequel c rest ⟨before.start, inner.stop⟩

end

end Splice

end RegexEngine
