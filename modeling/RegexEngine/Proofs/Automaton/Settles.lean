import RegexEngine.Proofs.Automaton.Compiled
import RegexEngine.Proofs.Tree.Checked

/-!
The construction of an automaton from a tree that was checked comes to an end that is as it should
be: it runs into the bound on states, or everything it has built refers to states that are there. A
step is looked at from all constructions with at least so many states, so that states that are known
to be there before it stay known after it.
-/

namespace RegexEngine

/-- Both ends of a fragment are among the first states, of so many. -/
def Fragment.Inside (f : Fragment) (count : Nat) : Prop := f.start < count ∧ f.stop < count

namespace Blueprint

open Automaton RegexEngine.Tree

/-- What stays the same from the start of a construction to its end. -/
structure Terms where
  base : UInt32
  groups : List (Option String)
  maxStates : Nat

variable {terms : Terms} {n m : Nat}

/-- A construction on these terms that refers to no state outside. -/
structure Meets (terms : Terms) (p : Blueprint) : Prop where
  sound : p.Sound terms.base
  groups_eq : p.groups = terms.groups
  bound_eq : p.maxStates = terms.maxStates

theorem Meets.continued {p p' : Blueprint} (h : p.Meets terms)
    (continues : Continues terms.base p p') (groups : p'.groups = p.groups) : p'.Meets terms :=
  ⟨continues.sound, groups.trans h.groups_eq, continues.bound_eq.trans h.bound_eq⟩

/-- A step that starts with at least so many states runs into a limit, or goes on with at least as
many. Of its answer and the number of states then, `post` is true. -/
def Settles {α : Type} (terms : Terms) (n : Nat) (x : Step α) (post : α → Nat → Prop) : Prop :=
  ∀ p : Blueprint, p.Meets terms → n ≤ p.size →
    match x.run p with
    | (.ok v, p') => p'.Meets terms ∧ p.size ≤ p'.size ∧ post v p'.size
    | (.error e, _) => e.kind = .limit

section Steps

variable {α β : Type} {x : Step α} {mid : α → Nat → Prop} {post : β → Nat → Prop}

theorem settles_pure {v : β} (h : ∀ m, n ≤ m → post v m) : Settles terms n (pure v) post :=
  fun _ meets big => ⟨meets, Nat.le_refl _, h _ big⟩

theorem settles_bind {f : α → Step β} (hx : Settles terms n x mid)
    (hf : ∀ v m, n ≤ m → mid v m → Settles terms m (f v) post) :
    Settles terms n (x >>= f) post := by
  intro p meets big
  have first := hx p meets big
  rw [run_step_bind]
  cases hrun : x.run p with
  | mk answer p' =>
    rw [hrun] at first
    cases answer with
    | error e => exact first
    | ok v =>
      obtain ⟨meets', grown, hv⟩ := first
      -- The second step starts with all states that there are after the first.
      have second := hf v p'.size (Nat.le_trans big grown) hv p' meets' (Nat.le_refl _)
      change match (f v).run p' with
        | (.ok w, p'') => p''.Meets terms ∧ p.size ≤ p''.size ∧ post w p''.size
        | (.error e, _) => e.kind = .limit
      cases hrun' : (f v).run p' with
      | mk answer' p'' =>
        rw [hrun'] at second
        cases answer' with
        | error e => exact second
        | ok w => exact ⟨second.1, Nat.le_trans grown second.2.1, second.2.2⟩

/-- A change that adds no states and always succeeds. -/
theorem settles_modify {f : Blueprint → Blueprint}
    (h : ∀ p : Blueprint, p.Meets terms → n ≤ p.size → (f p).Meets terms ∧ (f p).size = p.size) :
    Settles terms n (modify f) fun _ _ => True :=
  fun p meets big => ⟨(h p meets big).1, Nat.le_of_eq (h p meets big).2.symm, trivial⟩

theorem settles_flags? {build : Flags → Step β} (h : ∀ flags, Settles terms n (build flags) post) :
    Settles terms n (flags? >>= build) post :=
  fun p => h p.flags p

theorem Meets.withFlags {p : Blueprint} (h : p.Meets terms) (flags : Flags) :
    Meets terms { p with flags := flags } :=
  ⟨h.sound.withFlags flags, h.groups_eq, h.bound_eq⟩

theorem settles_keepingFlags (hx : Settles terms n x mid) :
    Settles terms n (keepingFlags x) mid := by
  intro p meets big
  have first := hx p meets big
  rw [run_keepingFlags]
  cases hrun : x.run p with
  | mk answer p' =>
    rw [hrun] at first
    cases answer with
    | error e => exact first
    | ok v => exact ⟨first.1.withFlags p.flags, first.2⟩

theorem settles_options (opts : OptionSet) :
    Settles terms n (modify fun p => { p with flags := opts.apply p.flags }) fun _ _ => True :=
  settles_modify fun _ meets _ => ⟨meets.withFlags _, rfl⟩

theorem settles_newState : Settles terms n newState fun s m => s < m := by
  intro p meets _
  rw [run_newState]
  by_cases full : p.maxStates ≤ p.automaton.stateCount
  · rw [if_pos full]
    rfl
  · rw [if_neg full]
    have added : Continues terms.base p (p.added (.new p.nextId false)) :=
      meets.sound.added (Nat.lt_of_not_le full) rfl rfl (by simp [State.new])
    exact ⟨meets.continued added rfl, added.size_le, by simp [size, stateCount]⟩

/-- A state is added, and what it does is said at once. -/
theorem settles_placed {f : State → State}
    (hid : ∀ state, (f state).id = state.id)
    (htransitions : ∀ state, (f state).transitions = state.transitions)
    (hbody : ∀ id b, (f (.new id false)).action.bind Action.body? = some b → b < n) :
    Settles terms n (do
      let s ← newState
      change s f
      pure s) fun s m => s < m := by
  intro p meets big
  cases hrun : (do let s ← newState; change s f; pure s : Step Nat).run p with
  | mk answer p' =>
    cases answer with
    | error e =>
      rw [run_step_bind, run_newState] at hrun
      split at hrun
      · cases hrun
        rfl
      · cases hrun
    | ok s =>
      obtain ⟨rfl, rfl, room⟩ := yields_placed f p s p' hrun
      have added : Continues terms.base p (p.added (f (.new p.nextId false))) :=
        meets.sound.added room (hid _) (htransitions _) fun b hb =>
          Nat.lt_of_lt_of_le (hbody _ b hb) big
      exact ⟨meets.continued added rfl, added.size_le, by simp⟩

theorem settles_markedState (marks : Marks) :
    Settles terms n (markedState marks) fun s m => s < m :=
  settles_placed (fun _ => rfl) (fun _ => rfl) (by simp [State.new])

theorem settles_actionState {action : Action} (hbody : ∀ b, action.body? = some b → b < n) :
    Settles terms n (actionState action) fun s m => s < m :=
  settles_placed (fun _ => rfl) (fun _ => rfl) fun _ => hbody

theorem settles_join {s t : Nat} (hs : s < n) (ht : t < n) :
    Settles terms n (join s t) fun _ _ => True :=
  settles_modify fun p meets big => by
    have linked := meets.sound.connect (Nat.lt_of_lt_of_le hs big) (Nat.lt_of_lt_of_le ht big) none
    exact ⟨meets.continued linked.toContinues rfl, linked.size_eq⟩

theorem settles_choice {s inside outside : Nat} (hs : s < n) (hinside : inside < n)
    (houtside : outside < n) (greedy : Bool) :
    Settles terms n (choice s inside outside greedy) fun _ _ => True := by
  cases greedy with
  | true => exact settles_bind (settles_join hs hinside) fun _ m hm _ =>
      settles_join (by omega) (by omega)
  | false => exact settles_bind (settles_join hs houtside) fun _ m hm _ =>
      settles_join (by omega) (by omega)

/-- A reference that names a group is resolved, and nothing else is done. -/
theorem settles_resolve {ref : GroupRef} (names : ref.Names terms.groups) :
    Settles terms n (resolve ref) fun _ _ => True := by
  intro p meets _
  rw [run_resolve, meets.groups_eq]
  cases ref with
  | number n =>
    have found : resolved terms.groups (.number n) = .ok n := if_pos names
    rw [found]
    exact ⟨meets, Nat.le_refl _, trivial⟩
  | name text =>
    obtain ⟨n, found⟩ := Option.isSome_iff_exists.mp names
    simp only [resolved, found]
    exact ⟨meets, Nat.le_refl _, trivial⟩

end Steps

/-! Fragments. -/

/-- From any number of states on, a step settles with a fragment between two states. -/
def Composes (terms : Terms) (build : Step Fragment) : Prop :=
  ∀ n, Settles terms n build Fragment.Inside

section Fragments

variable {build yes no : Step Fragment}

theorem settles_ends {start stop : Nat} (hstart : start < n) (hstop : stop < n) :
    Settles terms n (pure ⟨start, stop⟩) Fragment.Inside :=
  settles_pure fun _ hm => ⟨Nat.lt_of_lt_of_le hstart hm, Nat.lt_of_lt_of_le hstop hm⟩

theorem settles_single {x : Step Nat} (hx : Settles terms n x fun s m => s < m) :
    Settles terms n (single <$> x) Fragment.Inside := by
  rw [← bind_pure_comp]
  exact settles_bind hx fun s m _ hs => settles_ends hs hs

theorem composes_skip : Composes terms skip := fun _ => settles_single settles_newState

theorem composes_acting {action : Action} (h : action.body? = none) :
    Composes terms (single <$> actionState action) :=
  fun _ => settles_single (settles_actionState (by simp [h]))

/-- The fragment of a label that can be read. -/
theorem composes_consuming {label : List Char} {matcher : Matcher}
    (h : Matcher.parse label = .ok matcher) : Composes terms (consuming label) := by
  intro n
  refine settles_bind settles_newState fun start n₁ _ hstart => ?_
  refine settles_bind settles_newState fun stop n₂ hn₂ hstop => ?_
  rw [Label.ofChars_eq h]
  simp only [pure_bind]
  have connected (label : Label) : Settles terms n₂ (modify fun p =>
      { p with automaton := p.automaton.connect start stop (some label) 0 }) fun _ _ => True :=
    settles_modify fun p meets big => by
      have linked := meets.sound.connect (s := start) (t := stop) (by omega) (by omega) (some label)
      exact ⟨meets.continued linked.toContinues rfl, linked.size_eq⟩
  exact settles_bind (connected _) fun _ n₃ _ _ => settles_ends (by omega) (by omega)

theorem settles_closeBody {inner : Fragment} (hstart : inner.start < n) (hstop : inner.stop < n) :
    Settles terms n (closeBody inner) fun b m => b < m :=
  settles_bind (settles_markedState .bodyEnd) fun stop n₁ hn₁ hend =>
    settles_bind (settles_join (by omega) hend) fun _ n₂ hn₂ _ =>
      settles_pure fun m hm => by omega

theorem settles_body (h : Composes terms build) :
    Settles terms n (body build) fun b m => b < m :=
  settles_bind (settles_keepingFlags (h n)) fun _ _ _ ⟨hstart, hstop⟩ =>
    settles_closeBody hstart hstop

theorem composes_acting_body (h : Composes terms build) {action : Nat → Action}
    (haction : ∀ b, (action b).body? = some b) :
    Composes terms (do single <$> actionState (action (← body build))) :=
  fun n => settles_bind (settles_body h) fun b n₁ _ hb =>
    settles_single (settles_actionState fun b' hb' => by
      rw [haction, Option.some_inj] at hb'
      omega)

theorem settles_mark (index : Nat) {f : State → State} (mark : Marks)
    (hmark : mark.inter .bodyEnd = .empty)
    (hf : ∀ state : State, (f state).id = state.id ∧ (f state).transitions = state.transitions ∧
      (f state).action = state.action ∧ (f state).accepting = state.accepting ∧
      (f state).marks = state.marks.union mark) :
    Settles terms n (change index f) fun _ _ => True :=
  settles_modify fun p meets _ => by
    have marked := continues_mark meets.sound index mark hmark hf () (p.changed index f) rfl
    exact ⟨meets.continued marked.1 rfl, marked.2⟩

theorem composes_captured (h : Composes terms build) (index : Nat) (name : Option String) :
    Composes terms (captured index name build) := by
  intro n
  refine settles_bind settles_newState fun start n₁ _ hstart => ?_
  refine settles_bind (h n₁) fun inner n₂ hn₂ ⟨hfirst, hlast⟩ => ?_
  refine settles_bind settles_newState fun stop n₃ hn₃ hstop => ?_
  refine settles_bind (settles_mark start .groupStart (by decide)
    fun state => ⟨rfl, rfl, rfl, rfl, rfl⟩) fun _ n₄ hn₄ _ => ?_
  refine settles_bind (settles_mark stop .groupEnd (by decide)
    fun state => ⟨rfl, rfl, rfl, rfl, rfl⟩) fun _ n₅ hn₅ _ => ?_
  refine settles_bind (settles_join (by omega) (by omega)) fun _ n₆ hn₆ _ => ?_
  refine settles_bind (settles_join (by omega) (by omega)) fun _ n₇ hn₇ _ => ?_
  exact settles_ends (by omega) (by omega)

theorem settles_conditional {condition : Condition}
    (hbody : ∀ b, (Action.branch condition).body? = some b → b < n) (hyes : Composes terms yes)
    (hno : Composes terms no) :
    Settles terms n (conditional condition yes no) Fragment.Inside := by
  refine settles_bind (settles_actionState hbody) fun s n₁ _ hs => ?_
  refine settles_bind settles_newState fun stop n₂ hn₂ hstop => ?_
  refine settles_bind (settles_keepingFlags (hyes n₂)) fun yes n₃ hn₃ ⟨hyes, hyes'⟩ => ?_
  refine settles_bind (settles_keepingFlags (hno n₃)) fun no n₄ hn₄ ⟨hno, hno'⟩ => ?_
  refine settles_bind (settles_join (by omega) (by omega)) fun _ n₅ hn₅ _ => ?_
  refine settles_bind (settles_join (by omega) (by omega)) fun _ n₆ hn₆ _ => ?_
  refine settles_bind (settles_join (by omega) (by omega)) fun _ n₇ hn₇ _ => ?_
  refine settles_bind (settles_join (by omega) (by omega)) fun _ n₈ hn₈ _ => ?_
  exact settles_ends (by omega) (by omega)

theorem settles_copies (h : Composes terms build) (count : Nat) : ∀ {n last : Nat}, last < n →
    Settles terms n (copies build count last) fun last' m => last' < m := by
  induction count with
  | zero => exact fun hlast => settles_pure fun m hm => by omega
  | succ count ih =>
    intro n last hlast
    refine settles_bind (h n) fun inner n₁ hn₁ ⟨hstart, hstop⟩ => ?_
    exact settles_bind (settles_join (by omega) hstart) fun _ n₂ hn₂ _ => ih (by omega)

theorem settles_optionalCopies (h : Composes terms build) (exit : Nat) (greedy : Bool)
    (count : Nat) : ∀ {n last : Nat}, last < n → exit < n →
    Settles terms n (optionalCopies build exit greedy count last) fun last' m => last' < m := by
  induction count with
  | zero => exact fun hlast _ => settles_pure fun m hm => by omega
  | succ count ih =>
    intro n last hlast hexit
    refine settles_bind (h n) fun inner n₁ hn₁ ⟨hstart, hstop⟩ => ?_
    exact settles_bind (settles_choice (by omega) hstart (by omega) greedy) fun _ n₂ hn₂ _ =>
      ih (by omega) (by omega)

theorem composes_unbounded (h : Composes terms build) (min : Nat) (greedy : Bool) :
    Composes terms (repetition build min none greedy) := by
  intro n
  refine settles_bind settles_newState fun start n₁ _ hstart => ?_
  refine settles_bind (settles_copies h (min - 1) hstart) fun last n₂ hn₂ hlast => ?_
  refine settles_bind (h n₂) fun inner n₃ hn₃ ⟨hfirst, hstop⟩ => ?_
  refine settles_bind settles_newState fun exit n₄ hn₄ hexit => ?_
  by_cases hmin : 0 < min
  · rw [if_pos hmin]
    refine settles_bind (settles_join (by omega) (by omega)) fun _ n₅ hn₅ _ => ?_
    refine settles_bind (settles_choice (by omega) (by omega) (by omega) greedy)
      fun _ n₆ hn₆ _ => ?_
    exact settles_ends (by omega) (by omega)
  · rw [if_neg hmin]
    refine settles_bind (settles_choice (by omega) (by omega) (by omega) greedy)
      fun _ n₅ hn₅ _ => ?_
    refine settles_bind (settles_join (by omega) (by omega)) fun _ n₆ hn₆ _ => ?_
    exact settles_ends (by omega) (by omega)

theorem composes_bounded (h : Composes terms build) (min max : Nat) (greedy : Bool) :
    Composes terms (repetition build min (some max) greedy) := by
  intro n
  refine settles_bind settles_newState fun start n₁ _ hstart => ?_
  refine settles_bind (settles_copies h min hstart) fun last n₂ hn₂ hlast => ?_
  refine settles_bind settles_newState fun exit n₃ hn₃ hexit => ?_
  refine settles_bind (settles_optionalCopies h exit greedy (max - min) (by omega) hexit)
    fun last' n₄ hn₄ hlast' => ?_
  refine settles_bind (settles_join hlast' (by omega)) fun _ n₅ hn₅ _ => ?_
  exact settles_ends (by omega) (by omega)

theorem composes_quantified (h : Composes terms build) (q : Quantifier) :
    Composes terms (quantified q build) := by
  have kept : Composes terms (keepingFlags build) := fun n => settles_keepingFlags (h n)
  have repeated (greedy : Bool) :
      Composes terms (repetition (keepingFlags build) q.min q.max greedy) := by
    cases q.max with
    | none => exact composes_unbounded kept q.min greedy
    | some max => exact composes_bounded kept q.min max greedy
  refine fun n => settles_flags? fun flags => ?_
  by_cases possessive : q.possessive = true
  · rw [if_pos possessive]
    refine settles_bind (repeated true n) fun inner n₁ _ ⟨hstart, hstop⟩ => ?_
    refine settles_bind (settles_closeBody hstart hstop) fun b n₂ _ hb => ?_
    exact settles_single (settles_actionState fun b' hb' => by cases hb'; exact hb)
  · rw [if_neg possessive]
    exact repeated _ n

/-- An expression settles that goes on with what a reference names. -/
theorem composes_resolved {ref : GroupRef} (names : ref.Names terms.groups)
    {build : Nat → Step Fragment} (h : ∀ group, Composes terms (build group)) :
    Composes terms (resolve ref >>= build) :=
  fun _ => settles_bind (settles_resolve names) fun group m _ _ => h group m

theorem composes_groupCond {ref : GroupRef} (names : ref.Names terms.groups)
    (hyes : Composes terms yes) (hno : Composes terms no) :
    Composes terms (do conditional (.group (← resolve ref)) yes no) :=
  composes_resolved names fun _ _ =>
    settles_conditional (by simp [Action.body?]) hyes hno

theorem composes_lookCond (kind : LookKind) {test : Step Fragment} (htest : Composes terms test)
    (hyes : Composes terms yes) (hno : Composes terms no) :
    Composes terms (do conditional (.look kind (← body test)) yes no) :=
  fun _ => settles_bind (settles_body htest) fun b _ _ hb =>
    settles_conditional (fun b' hb' => by cases hb'; exact hb) hyes hno

end Fragments

mutual

/-- The fragment of a checked expression is built, or runs into a limit. -/
theorem composes_fragment : (t : Tree) → t.Each (Checked terms.groups) →
    Composes terms (fragment t)
  | .empty, _ | .comment _, _ | .concat [], _ => composes_skip
  | .invalid, _ => composes_acting rfl
  | .literal c, _ => fun n => settles_flags? fun flags =>
    composes_consuming (Matcher.parse_literal (flags.contains .nocase) c) n
  | .dot, _ => by
    have hline : Matcher.parse ['.'] = .ok (.any false) := by decide
    have hall : Matcher.parse (Matcher.dotAllMark ++ ['.']) = .ok (.any true) := by decide
    refine fun n => settles_flags? fun flags => ?_
    by_cases dotAll : flags.contains .dotAll = true
    · rw [if_pos dotAll]
      exact composes_consuming hall n
    · rw [if_neg dotAll]
      exact composes_consuming hline n
  | .cls _ spec, h => by
    obtain ⟨set, read⟩ := h.self
    exact fun n => settles_flags? fun flags =>
      composes_consuming (Matcher.parse_cls (flags.contains .nocase) read) n
  | .capture index name child, h => by
    have inner := composes_fragment child ((each_capture ..).mp h).2
    exact fun n => settles_keepingFlags (composes_captured inner index name n)
  | .group child, h =>
    fun n => settles_keepingFlags (composes_fragment child (each_group.mp h).2 n)
  | .scope opts child, h => fun n =>
    settles_keepingFlags (settles_bind (settles_options opts) fun _ m _ _ =>
      composes_fragment child ((each_scope ..).mp h).2 m)
  | .backref ref, h => by
    have names : ref.Names terms.groups := h.self
    exact composes_resolved names fun _ _ => settles_flags? fun _ => composes_acting rfl _
  | .repetition q child, h =>
    composes_quantified (composes_fragment child ((each_repetition ..).mp h).2) q
  | .anchor _, _ => fun _ => settles_flags? fun _ => settles_single (settles_markedState _)
  | .boundary _, _ => fun _ => settles_single (settles_markedState _)
  | .look kind child, h =>
    composes_acting_body (composes_fragment child ((each_look ..).mp h).2) fun _ => rfl
  | .atomic child, h =>
    composes_acting_body (composes_fragment child (each_atomic.mp h).2) fun _ => rfl
  | .options opts, _ => fun _ =>
    settles_bind (settles_options opts) fun _ m _ _ => composes_skip m
  | .groupCond ref yes none, h => by
    obtain ⟨names, hyes, _⟩ := (each_groupCond ..).mp h
    exact composes_groupCond names (composes_fragment yes hyes) composes_skip
  | .groupCond ref yes (some no), h => by
    obtain ⟨names, hyes, hno⟩ := (each_groupCond ..).mp h
    exact composes_groupCond names (composes_fragment yes hyes) (composes_fragment no (hno no rfl))
  | .lookCond kind test yes none, h => by
    obtain ⟨_, htest, hyes, _⟩ := (each_lookCond ..).mp h
    exact composes_lookCond kind (composes_fragment test htest) (composes_fragment yes hyes)
      composes_skip
  | .lookCond kind test yes (some no), h => by
    obtain ⟨_, htest, hyes, hno⟩ := (each_lookCond ..).mp h
    exact composes_lookCond kind (composes_fragment test htest) (composes_fragment yes hyes)
      (composes_fragment no (hno no rfl))
  | .verb v, _ => composes_acting (by cases v <;> rfl)
  | .alt items, h => by
    refine fun n => settles_keepingFlags ?_
    refine settles_bind settles_newState fun start n₁ _ hstart => ?_
    refine settles_bind settles_newState fun stop n₂ hn₂ hstop => ?_
    refine settles_bind (settles_alternatives items (each_alt.mp h).2 (by omega) hstop)
      fun _ n₃ hn₃ _ => ?_
    exact settles_ends (by omega) (by omega)
  | .concat (item :: rest), h => by
    obtain ⟨hitem, hrest⟩ := List.forall_mem_cons.mp (each_concat.mp h).2
    exact fun n => settles_bind (composes_fragment item hitem n) fun before m _ inside =>
      settles_sequel rest hrest inside

theorem settles_alternatives : (items : List Tree) →
    (∀ item ∈ items, item.Each (Checked terms.groups)) → ∀ {n start stop : Nat}, start < n →
      stop < n → Settles terms n (alternatives start stop items) fun _ _ => True
  | [], _, _, _, _, _, _ => settles_pure fun _ _ => trivial
  | item :: rest, h, n, start, stop, hstart, hstop => by
    obtain ⟨hitem, hrest⟩ := List.forall_mem_cons.mp h
    refine settles_bind (composes_fragment item hitem n) fun inner n₁ hn₁ ⟨hfirst, hlast⟩ => ?_
    refine settles_bind (settles_join (by omega) hfirst) fun _ n₂ hn₂ _ => ?_
    refine settles_bind (settles_join (by omega) (by omega)) fun _ n₃ hn₃ _ => ?_
    exact settles_alternatives rest hrest (by omega) (by omega)

theorem settles_sequel : (items : List Tree) →
    (∀ item ∈ items, item.Each (Checked terms.groups)) → ∀ {n : Nat} {before : Fragment},
      before.Inside n → Settles terms n (sequel before items) Fragment.Inside
  | [], _, _, _, inside => settles_ends inside.1 inside.2
  | item :: rest, h, n, before, ⟨hstart, hstop⟩ => by
    obtain ⟨hitem, hrest⟩ := List.forall_mem_cons.mp h
    refine settles_bind (composes_fragment item hitem n) fun inner n₁ hn₁ ⟨hfirst, hlast⟩ => ?_
    refine settles_bind (settles_join (by omega) hfirst) fun _ n₂ hn₂ _ => ?_
    exact settles_sequel rest hrest ⟨by simp only; omega, by simp only; omega⟩

end

/-- The whole automaton is built, or runs into a limit. -/
theorem settles_whole {root : Tree} (h : root.Each (Checked terms.groups)) :
    Settles terms n (whole root) Fragment.Inside := by
  refine settles_bind (composes_fragment root h n) fun inner n₁ hn₁ ⟨hstart, hstop⟩ => ?_
  refine settles_bind settles_newState fun stop n₂ hn₂ hend => ?_
  refine settles_bind (settles_join (by omega) hend) fun _ n₃ hn₃ _ => ?_
  have accepting : Settles terms n₃ (change stop fun s => { s with accepting := true })
      fun _ _ => True :=
    settles_modify fun p meets _ => by
      have changed : Continues terms.base p
          (p.changed stop fun s => { s with accepting := true }) :=
        meets.sound.changed (fun _ => rfl) (fun _ => ⟨fun _ ht => ht, rfl, fun _ => rfl⟩)
          fun _ fits => ⟨fits.1, fits.2, fits.3⟩
      exact ⟨meets.continued changed rfl, size_changed ..⟩
  exact settles_bind accepting fun _ n₄ hn₄ _ => settles_ends (by omega) (by omega)

end Blueprint

namespace Automaton

/-- The automaton of a checked tree has no more states than are allowed, and makes sense as long as
there are identifiers for all of them. If there is none, that is for a limit. -/
theorem ofTree_settles {tree : SyntaxTree} (h : tree.root.Each (Tree.Checked tree.groups))
    (maxStates : Nat) (base : UInt32) :
    match ((ofTree tree maxStates).run base).1 with
    | .ok a => a.stateCount ≤ maxStates ∧
        (a.checkIntegrity = .ok () ↔ a.stateCount ≤ UInt32.size)
    | .error e => e.kind = .limit := by
  have meets : Blueprint.Meets ⟨base, tree.groups, maxStates⟩
      ⟨.empty .nfa, base, tree.flags, tree.groups, maxStates⟩ :=
    ⟨Blueprint.sound_empty base tree.flags tree.groups maxStates, rfl, rfl⟩
  have whole := Blueprint.settles_whole h _ meets (Nat.zero_le _)
  rw [run_ofTree]
  cases hrun : (Blueprint.whole tree.root).run
      ⟨.empty .nfa, base, tree.flags, tree.groups, maxStates⟩ with
  | mk made p =>
    rw [hrun] at whole
    cases made with
    | error e => exact whole
    | ok f =>
      obtain ⟨⟨sound, _, bound⟩, _, inside⟩ := whole
      have count : p.size ≤ p.maxStates := sound.size_le
      rw [bound] at count
      refine ⟨count, ?_⟩
      have start (s : Nat) (hs : some f.start = some s) : s < p.automaton.stateCount := by
        cases hs
        exact inside.1
      have distinct : (p.automaton.states.toList.map (·.id)).Nodup ↔
          p.automaton.stateCount ≤ UInt32.size := by
        rw [sound.ids_eq]
        exact Determinized.nodup_words_iff base _
      rw [checkIntegrity_iff]
      refine ⟨fun wellFormed => distinct.mp wellFormed.distinct, fun few => ?_⟩
      exact ⟨start, start, sound.fits, distinct.mpr few, fun hkind => by
        cases sound.kind_eq.symm.trans hkind⟩

end Automaton

end RegexEngine
