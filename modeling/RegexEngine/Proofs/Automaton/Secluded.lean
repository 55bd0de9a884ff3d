import RegexEngine.Proofs.Automaton.Independence
import RegexEngine.Proofs.Automaton.Layout
import RegexEngine.Proofs.Automaton.OfTree
import RegexEngine.Proofs.Search.Bodies

/-!
The bodies of lookarounds are secluded. While a regular expression is built as a body, the states
that were added since it was begun do nothing themselves and lead to each other only; the state that
ends the body comes last. Each step is looked at from all constructions with at least so many states,
so that places that are known to be in the body before it are known to be in it afterwards.
-/

namespace RegexEngine

/-- Both ends of a fragment are among the states from one place up to another. -/
structure Fragment.Between (lo : Nat) (f : Fragment) (hi : Nat) : Prop where
  start_ge : lo ≤ f.start
  start_lt : f.start < hi
  stop_ge : lo ≤ f.stop
  stop_lt : f.stop < hi

namespace Automaton

variable {lo hi stop hi' stop' k : Nat} {s : State}

/-- A body may get more states, and its end may come later. -/
theorem Inner.mono (h : Inner lo hi stop k s) (hhi : hi ≤ hi') (hstop : k ≠ stop)
    (hstop' : k ≠ stop') : Inner lo hi' stop' k s := by
  refine ⟨h.action_eq, h.accepting_eq, ?_, fun hk => absurd hk hstop', h.target_ge,
    fun t ht => Nat.lt_of_lt_of_le (h.target_lt t ht) hhi, h.single⟩
  rw [h.ends_iff]
  exact iff_of_false hstop hstop'

/-- A state that does nothing and leads nowhere may be part of any body. -/
theorem inner_of_transitions_eq_nil (hstop : k ≠ stop) (haction : s.action = none)
    (haccepting : s.accepting = false) (hmarks : s.marks.contains .bodyEnd = false)
    (htransitions : s.transitions = []) : Inner lo hi stop k s := by
  have hnone (t : Transition) (ht : t ∈ s.transitions) : False := by
    rw [htransitions] at ht
    cases ht
  refine ⟨haction, haccepting, iff_of_false ?_ hstop, fun _ => htransitions,
    fun t ht => (hnone t ht).elim, fun t ht => (hnone t ht).elim, fun t ht => (hnone t ht).elim⟩
  rw [hmarks]
  exact Bool.false_ne_true

theorem Inner.addTransition (h : Inner lo hi stop k s) (hk : k ≠ stop) {t : Transition}
    (hlo : lo ≤ t.target) (hhi : t.target < hi)
    (hsingle : t.label.all (·.matcher.isSingle) = true) :
    Inner lo hi stop k (s.addTransition t) := by
  refine ⟨h.action_eq, h.accepting_eq, h.ends_iff, fun hlast => absurd hlast hk, fun e he => ?_,
    fun e he => ?_, fun e he => ?_⟩
  all_goals rcases mem_addTransition.mp he with rfl | he
  · exact hlo
  · exact h.target_ge e he
  · exact hhi
  · exact h.target_lt e he
  · exact hsingle
  · exact h.single e he

/-- A state of a body may get marks that do not end it. -/
theorem Inner.withMarks (h : Inner lo hi stop k s) {mark : Marks} (hmark : mark.inter .bodyEnd = .empty)
    {s' : State} (haction : s'.action = s.action) (haccepting : s'.accepting = s.accepting)
    (htransitions : s'.transitions = s.transitions) (hmarks : s'.marks = s.marks.union mark) :
    Inner lo hi stop k s' := by
  refine ⟨haction.trans h.action_eq, haccepting.trans h.accepting_eq, ?_, ?_, ?_, ?_, ?_⟩
  · rw [hmarks, Marks.contains_eq_inter, Marks.inter_union hmark]
    exact h.ends_iff
  all_goals rw [htransitions]
  · exact h.last
  · exact h.target_ge
  · exact h.target_lt
  · exact h.single

end Automaton

namespace Blueprint

open Automaton RegexEngine.Tree

variable {lo n m : Nat} {p : Blueprint}

/-- The states from a place on are those of a body, whose end would come next. -/
structure Secluded (lo : Nat) (p : Blueprint) : Prop where
  le_size : lo ≤ p.size
  inside : ∀ (k : Nat) (s : State), lo ≤ k → p.automaton.states[k]? = some s →
    Inner lo p.size p.size k s

theorem secluded_size (p : Blueprint) : p.Secluded p.size :=
  ⟨Nat.le_refl _, fun _ _ hk hs =>
    absurd (Array.getElem?_eq_some_iff.mp hs).1 (Nat.not_lt_of_le hk)⟩

theorem Secluded.withFlags (h : p.Secluded lo) (flags : Flags) :
    Secluded lo { p with flags := flags } := ⟨h.le_size, h.inside⟩

theorem Secluded.added (h : p.Secluded lo) {state : State} (haction : state.action = none)
    (haccepting : state.accepting = false) (hmarks : state.marks.contains .bodyEnd = false)
    (htransitions : state.transitions = []) : Secluded lo (p.added state) := by
  refine ⟨by rw [size_added]; exact Nat.le_succ_of_le h.le_size, fun k s hk hs => ?_⟩
  have hle := h.le_size
  rw [size_added]
  rcases getElem?_added_cases hs with ⟨hlt, hs⟩ | ⟨rfl, rfl⟩
  · exact (h.inside k s hk hs).mono (Nat.le_succ _) (Nat.ne_of_lt hlt) (by omega)
  · exact inner_of_transitions_eq_nil (by omega) haction haccepting hmarks htransitions

theorem Secluded.changed (h : p.Secluded lo) {index : Nat} {f : State → State}
    (hf : index < p.size → ∀ s, Inner lo p.size p.size index s →
      Inner lo p.size p.size index (f s)) :
    Secluded lo (p.changed index f) := by
  refine ⟨by rw [size_changed]; exact h.le_size, fun k s hk hs => ?_⟩
  rw [size_changed]
  obtain ⟨before, hbefore, rfl | ⟨rfl, rfl⟩⟩ := getElem?_changed_cases hs
  · exact h.inside k _ hk hbefore
  · exact hf (Array.getElem?_eq_some_iff.mp hbefore).1 before (h.inside k before hk hbefore)

/-- A step that starts with at least so many states leaves the body as it should be. Of its answer
and the number of states then, `post` is true. -/
def Secludes {α : Type} (lo n : Nat) (x : Step α) (post : α → Nat → Prop) : Prop :=
  ∀ p : Blueprint, p.Secluded lo → n ≤ p.size →
    Yields x p fun v p' => p'.Secluded lo ∧ p.size ≤ p'.size ∧ post v p'.size

section Steps

variable {α β : Type} {x : Step α} {mid : α → Nat → Prop} {post : β → Nat → Prop}

theorem secludes_pure {v : β} (h : ∀ m, n ≤ m → post v m) : Secludes lo n (pure v) post :=
  fun _ hp hn => yields_pure ⟨hp, Nat.le_refl _, h _ hn⟩

theorem secludes_bind {f : α → Step β} (hx : Secludes lo n x mid)
    (hf : ∀ v m, n ≤ m → mid v m → Secludes lo m (f v) post) :
    Secludes lo n (x >>= f) post := by
  intro p hp hn
  refine yields_bind (hx p hp hn) fun v p₁ ⟨hp₁, hsize₁, hv⟩ w p₂ hrun => ?_
  obtain ⟨hp₂, hsize₂, hw⟩ := hf v p₁.size (Nat.le_trans hn hsize₁) hv p₁ hp₁ (Nat.le_refl _) w p₂
    hrun
  exact ⟨hp₂, Nat.le_trans hsize₁ hsize₂, hw⟩

theorem secludes_map {f : α → β} (hx : Secludes lo n x mid)
    (hf : ∀ v m, n ≤ m → mid v m → post (f v) m) : Secludes lo n (f <$> x) post := by
  intro p hp hn
  refine yields_map (hx p hp hn) fun v p₁ ⟨hp₁, hsize₁, hv⟩ => ⟨hp₁, hsize₁, ?_⟩
  exact hf v _ (Nat.le_trans hn hsize₁) hv

theorem secludes_flags? {build : Flags → Step β}
    (h : ∀ flags, Secludes lo n (build flags) post) : Secludes lo n (flags? >>= build) post :=
  fun p => h p.flags p

theorem secludes_keepingFlags (hx : Secludes lo n x mid) :
    Secludes lo n (keepingFlags x) mid := by
  intro p hp hn v p' hrun
  obtain ⟨p₁, hrun₁, rfl⟩ := run_keepingFlags_ok hrun
  obtain ⟨hp₁, hsize₁, hv⟩ := hx p hp hn v p₁ hrun₁
  exact ⟨hp₁.withFlags _, hsize₁, hv⟩

theorem secludes_options (opts : OptionSet) :
    Secludes lo n (modify fun p => { p with flags := opts.apply p.flags }) fun _ _ => True :=
  fun _ hp _ => yields_modify ⟨hp.withFlags _, Nat.le_refl _, trivial⟩

/-- A state is added, and what it does is said at once. -/
theorem secludes_placed {f : State → State} (haction : ∀ id, (f (.new id false)).action = none)
    (haccepting : ∀ id, (f (.new id false)).accepting = false)
    (hmarks : ∀ id, (f (.new id false)).marks.contains .bodyEnd = false)
    (htransitions : ∀ id, (f (.new id false)).transitions = []) :
    Secludes lo n (do
      let s ← newState
      change s f
      pure s) fun s m => lo ≤ s ∧ s < m := by
  intro p hp hn s p' hrun
  obtain ⟨rfl, rfl, _⟩ := yields_placed f p s p' hrun
  refine ⟨hp.added (haction _) (haccepting _) (hmarks _) (htransitions _), ?_, hp.le_size, ?_⟩
  all_goals rw [size_added]
  · exact Nat.le_succ _
  · exact Nat.lt_succ_self _

theorem secludes_newState : Secludes lo n newState fun s m => lo ≤ s ∧ s < m := by
  intro p hp hn s p' hrun
  obtain ⟨rfl, rfl⟩ := yields_added p s p' hrun
  have hmarks : Marks.empty.contains .bodyEnd = false := by decide
  refine ⟨hp.added rfl rfl hmarks rfl, ?_, hp.le_size, ?_⟩
  all_goals rw [size_added]
  · exact Nat.le_succ _
  · exact Nat.lt_succ_self _

theorem secludes_markedState {marks : Marks} (h : marks.contains .bodyEnd = false) :
    Secludes lo n (markedState marks) fun s m => lo ≤ s ∧ s < m :=
  secludes_placed (fun _ => rfl) (fun _ => rfl) (fun _ => h) fun _ => rfl

theorem secludes_connect {s t : Nat} (hlo : lo ≤ t) (ht : t < n) {label : Option Label}
    (hsingle : label.all (·.matcher.isSingle) = true) :
    Secludes lo n (modify fun p => { p with automaton := p.automaton.connect s t label 0 })
      fun _ _ => True := by
  intro p hp hn
  have hstays : Secluded lo (p.changed s fun state => state.addTransition ⟨s, t, label, 0⟩) :=
    hp.changed fun hs _ hinner =>
      hinner.addTransition (Nat.ne_of_lt hs) hlo (Nat.lt_of_lt_of_le ht hn) hsingle
  exact yields_modify ⟨hstays, Nat.le_of_eq (size_changed ..).symm, trivial⟩

theorem secludes_join {s t : Nat} (hlo : lo ≤ t) (ht : t < n) :
    Secludes lo n (join s t) fun _ _ => True :=
  secludes_connect hlo ht rfl

theorem secludes_choice {s inside outside : Nat} (hinside : lo ≤ inside ∧ inside < n)
    (houtside : lo ≤ outside ∧ outside < n) (greedy : Bool) :
    Secludes lo n (choice s inside outside greedy) fun _ _ => True := by
  cases greedy with
  | true => exact secludes_bind (secludes_join hinside.1 hinside.2) fun _ m hm _ =>
      secludes_join houtside.1 (Nat.lt_of_lt_of_le houtside.2 hm)
  | false => exact secludes_bind (secludes_join houtside.1 houtside.2) fun _ m hm _ =>
      secludes_join hinside.1 (Nat.lt_of_lt_of_le hinside.2 hm)

/-- A state opens or closes a group. -/
theorem secludes_mark (index : Nat) {f : State → State} (mark : Marks)
    (hmark : mark.inter .bodyEnd = .empty)
    (hf : ∀ state : State, (f state).transitions = state.transitions ∧
      (f state).action = state.action ∧ (f state).accepting = state.accepting ∧
      (f state).marks = state.marks.union mark) :
    Secludes lo n (change index f) fun _ _ => True := by
  intro p hp hn
  have hstays : Secluded lo (p.changed index f) := hp.changed fun _ s hinner => by
    obtain ⟨htransitions, haction, haccepting, hmarks⟩ := hf s
    exact hinner.withMarks hmark haction haccepting htransitions hmarks
  exact yields_modify ⟨hstays, Nat.le_of_eq (size_changed ..).symm, trivial⟩

end Steps

/-! Fragments. -/

/-- From any number of states on, a step adds a fragment to the body. -/
def Secluding (lo : Nat) (build : Step Fragment) : Prop :=
  ∀ n, Secludes lo n build (Fragment.Between lo)

section Fragments

variable {build : Step Fragment}

theorem secludes_ends {start stop : Nat} (hstart : lo ≤ start ∧ start < n)
    (hstop : lo ≤ stop ∧ stop < n) :
    Secludes lo n (pure ⟨start, stop⟩) (Fragment.Between lo) :=
  secludes_pure fun _ hm => ⟨hstart.1, Nat.lt_of_lt_of_le hstart.2 hm, hstop.1,
    Nat.lt_of_lt_of_le hstop.2 hm⟩

theorem secludes_single {x : Step Nat} (hx : Secludes lo n x fun s m => lo ≤ s ∧ s < m) :
    Secludes lo n (single <$> x) (Fragment.Between lo) :=
  secludes_map hx fun _ _ _ hs => ⟨hs.1, hs.2, hs.1, hs.2⟩

theorem secluding_skip : Secluding lo skip := fun _ => secludes_single secludes_newState

theorem secluding_marked {marks : Marks} (h : marks.contains .bodyEnd = false) :
    Secluding lo (single <$> markedState marks) := fun _ => secludes_single (secludes_markedState h)

/-- The fragment of a label that takes one character. -/
theorem secluding_consuming {label : List Char} {m : Matcher} (h : Matcher.parse label = .ok m)
    (hsingle : m.isSingle = true) : Secluding lo (consuming label) := by
  intro n
  refine secludes_bind secludes_newState fun start n₁ _ hstart => ?_
  refine secludes_bind secludes_newState fun stop n₂ hn₂ hstop => ?_
  rw [Label.ofChars_eq h]
  simp only [pure_bind]
  refine secludes_bind (secludes_connect hstop.1 hstop.2 hsingle) fun _ n₃ hn₃ _ => ?_
  exact secludes_ends ⟨hstart.1, by omega⟩ ⟨hstop.1, by omega⟩

theorem secluding_captured (h : Secluding lo build) (index : Nat) (name : Option String) :
    Secluding lo (captured index name build) := by
  intro n
  refine secludes_bind secludes_newState fun start n₁ _ hstart => ?_
  refine secludes_bind (h n₁) fun inner n₂ hn₂ hinner => ?_
  refine secludes_bind secludes_newState fun stop n₃ hn₃ hstop => ?_
  refine secludes_bind (secludes_mark start .groupStart (by decide) fun _ => ⟨rfl, rfl, rfl, rfl⟩)
    fun _ n₄ hn₄ _ => ?_
  refine secludes_bind (secludes_mark stop .groupEnd (by decide) fun _ => ⟨rfl, rfl, rfl, rfl⟩)
    fun _ n₅ hn₅ _ => ?_
  have hfirst := hinner.start_lt
  refine secludes_bind (secludes_join hinner.start_ge (by omega)) fun _ n₆ hn₆ _ => ?_
  refine secludes_bind (secludes_join hstop.1 (by omega)) fun _ n₇ hn₇ _ => ?_
  exact secludes_ends ⟨hstart.1, by omega⟩ ⟨hstop.1, by omega⟩

theorem secludes_copies (h : Secluding lo build) (count : Nat) : ∀ {n last : Nat},
    lo ≤ last ∧ last < n →
      Secludes lo n (copies build count last) fun last' m => lo ≤ last' ∧ last' < m := by
  induction count with
  | zero => exact fun hlast => secludes_pure fun m hm => ⟨hlast.1, Nat.lt_of_lt_of_le hlast.2 hm⟩
  | succ count ih =>
    intro n last hlast
    refine secludes_bind (h n) fun inner n₁ hn₁ hinner => ?_
    refine secludes_bind (secludes_join hinner.start_ge hinner.start_lt) fun _ n₂ hn₂ _ => ?_
    exact ih ⟨hinner.stop_ge, Nat.lt_of_lt_of_le hinner.stop_lt hn₂⟩

theorem secludes_optionalCopies (h : Secluding lo build) (exit : Nat) (greedy : Bool)
    (count : Nat) : ∀ {n last : Nat}, lo ≤ last ∧ last < n → lo ≤ exit ∧ exit < n →
      Secludes lo n (optionalCopies build exit greedy count last)
        fun last' m => lo ≤ last' ∧ last' < m := by
  induction count with
  | zero =>
    exact fun hlast _ => secludes_pure fun m hm => ⟨hlast.1, Nat.lt_of_lt_of_le hlast.2 hm⟩
  | succ count ih =>
    intro n last hlast hexit
    refine secludes_bind (h n) fun inner n₁ hn₁ hinner => ?_
    refine secludes_bind (secludes_choice ⟨hinner.start_ge, hinner.start_lt⟩
      ⟨hexit.1, Nat.lt_of_lt_of_le hexit.2 hn₁⟩ greedy) fun _ n₂ hn₂ _ => ?_
    exact ih ⟨hinner.stop_ge, Nat.lt_of_lt_of_le hinner.stop_lt hn₂⟩ ⟨hexit.1, by omega⟩

theorem secluding_unbounded (h : Secluding lo build) (min : Nat) (greedy : Bool) :
    Secluding lo (repetition build min none greedy) := by
  intro n
  refine secludes_bind secludes_newState fun start n₁ _ hstart => ?_
  refine secludes_bind (secludes_copies h (min - 1) hstart) fun last n₂ hn₂ hlast => ?_
  refine secludes_bind (h n₂) fun inner n₃ hn₃ hinner => ?_
  refine secludes_bind secludes_newState fun exit n₄ hn₄ hexit => ?_
  have hinside : lo ≤ inner.start ∧ inner.start < n₄ :=
    ⟨hinner.start_ge, Nat.lt_of_lt_of_le hinner.start_lt hn₄⟩
  have hends {n : Nat} (hn : n₄ ≤ n) :
      Secludes lo n (pure ⟨start, exit⟩) (Fragment.Between lo) :=
    secludes_ends ⟨hstart.1, by omega⟩ ⟨hexit.1, by omega⟩
  by_cases hmin : 0 < min
  · rw [if_pos hmin]
    refine secludes_bind (secludes_join hinside.1 hinside.2) fun _ n₅ hn₅ _ => ?_
    refine secludes_bind (secludes_choice ⟨hinside.1, by omega⟩ ⟨hexit.1, by omega⟩ greedy)
      fun _ n₆ hn₆ _ => hends (by omega)
  · rw [if_neg hmin]
    refine secludes_bind (secludes_choice hinside hexit greedy) fun _ n₅ hn₅ _ => ?_
    refine secludes_bind (secludes_join hlast.1 (by omega)) fun _ n₆ hn₆ _ => hends (by omega)

theorem secluding_bounded (h : Secluding lo build) (min max : Nat) (greedy : Bool) :
    Secluding lo (repetition build min (some max) greedy) := by
  intro n
  refine secludes_bind secludes_newState fun start n₁ _ hstart => ?_
  refine secludes_bind (secludes_copies h min hstart) fun last n₂ hn₂ hlast => ?_
  refine secludes_bind secludes_newState fun exit n₃ hn₃ hexit => ?_
  refine secludes_bind (secludes_optionalCopies h exit greedy (max - min) ⟨hlast.1, by omega⟩ hexit)
    fun last' n₄ hn₄ hlast' => ?_
  refine secludes_bind (secludes_join hexit.1 (by omega)) fun _ n₅ hn₅ _ => ?_
  exact secludes_ends ⟨hstart.1, by omega⟩ ⟨hexit.1, by omega⟩

theorem secluding_quantified (h : Secluding lo build) {q : Quantifier}
    (hpossessive : q.possessive = false) : Secluding lo (quantified q build) := by
  have hkept : Secluding lo (keepingFlags build) := fun n => secludes_keepingFlags (h n)
  refine fun n => secludes_flags? fun flags => ?_
  dsimp only
  rw [if_neg (hpossessive ▸ Bool.false_ne_true)]
  cases q.max with
  | none => exact secluding_unbounded hkept q.min _ n
  | some max => exact secluding_bounded hkept q.min max _ n

/-- Alternatives are added between two states of the body. -/
theorem secludes_alternatives_cons {item : Tree} {rest : List Tree}
    (hitem : Secluding lo (fragment item))
    (hrest : ∀ n start stop, lo ≤ stop ∧ stop < n →
      Secludes lo n (alternatives start stop rest) fun _ _ => True)
    (start : Nat) {stop : Nat} (hstop : lo ≤ stop ∧ stop < n) :
    Secludes lo n (alternatives start stop (item :: rest)) fun _ _ => True := by
  refine secludes_bind (hitem n) fun inner n₁ hn₁ hinner => ?_
  refine secludes_bind (secludes_join hinner.start_ge hinner.start_lt) fun _ n₂ hn₂ _ => ?_
  refine secludes_bind (secludes_join hstop.1 (by omega)) fun _ n₃ hn₃ _ => ?_
  exact hrest n₃ start stop ⟨hstop.1, by omega⟩

theorem secluding_alt {items : List Tree}
    (h : ∀ n start stop, lo ≤ stop ∧ stop < n →
      Secludes lo n (alternatives start stop items) fun _ _ => True) :
    Secluding lo (fragment (.alt items)) := by
  refine fun n => secludes_keepingFlags ?_
  refine secludes_bind secludes_newState fun start n₁ _ hstart => ?_
  refine secludes_bind secludes_newState fun stop n₂ hn₂ hstop => ?_
  refine secludes_bind (h n₂ start stop hstop) fun _ n₃ hn₃ _ => ?_
  exact secludes_ends ⟨hstart.1, by omega⟩ ⟨hstop.1, by omega⟩

/-- An expression is appended to a fragment of the body. -/
theorem secludes_sequel_cons {item : Tree} {rest : List Tree}
    (hitem : Secluding lo (fragment item))
    (hrest : ∀ n before, before.Between lo n →
      Secludes lo n (sequel before rest) (Fragment.Between lo))
    {before : Fragment} (hbefore : before.Between lo n) :
    Secludes lo n (sequel before (item :: rest)) (Fragment.Between lo) := by
  refine secludes_bind (hitem n) fun inner n₁ hn₁ hinner => ?_
  refine secludes_bind (secludes_join hinner.start_ge hinner.start_lt) fun _ n₂ hn₂ _ => ?_
  exact hrest n₂ _ ⟨hbefore.start_ge, Nat.lt_of_lt_of_le hbefore.start_lt (Nat.le_trans hn₁ hn₂),
    hinner.stop_ge, Nat.lt_of_lt_of_le hinner.stop_lt hn₂⟩

end Fragments

mutual

/-- The fragment of a regular expression keeps to itself. -/
theorem secluding_fragment (lo : Nat) : (t : Tree) → t.isRegular = true →
    (∀ node ∈ t.preorder, node.HasMeaning) → Secluding lo (fragment t)
  | .empty, _, _ => secluding_skip
  | .comment _, _, _ => secluding_skip
  | .literal c, _, _ => fun _ => secludes_flags? fun flags =>
    secluding_consuming (Matcher.parse_literal (flags.contains .nocase) c) rfl _
  | .dot, _, _ => fun _ => secludes_flags? fun flags => by
    have hline : Matcher.parse ['.'] = .ok (.any false) := by decide
    have hall : Matcher.parse (Matcher.dotAllMark ++ ['.']) = .ok (.any true) := by decide
    split
    · exact secluding_consuming hall rfl _
    · exact secluding_consuming hline rfl _
  | .cls kind spec, _, hmeaning => fun _ => secludes_flags? fun flags => by
    obtain ⟨set, hset⟩ := hmeaning (.cls kind spec) List.mem_cons_self
    exact secluding_consuming (Matcher.parse_cls (flags.contains .nocase) hset) rfl _
  | .anchor a, _, _ => fun _ => secludes_flags? fun flags => secluding_marked (by
    cases a <;> dsimp only [anchorMarks] <;> try split
    all_goals decide) _
  | .boundary negated, _, _ => secluding_marked (by cases negated <;> decide)
  | .options opts, _, _ => fun _ => secludes_bind (secludes_options opts) fun _ _ _ _ =>
    secluding_skip _
  | .capture index name child, hregular, hmeaning => fun _ => secludes_keepingFlags
    (secluding_captured (secluding_fragment lo child hregular fun node hnode =>
      hmeaning node (List.mem_cons_of_mem _ hnode)) index name _)
  | .group child, hregular, hmeaning => fun _ => secludes_keepingFlags
    (secluding_fragment lo child hregular (fun node hnode =>
      hmeaning node (List.mem_cons_of_mem _ hnode)) _)
  | .scope opts child, hregular, hmeaning => fun _ => secludes_keepingFlags
    (secludes_bind (secludes_options opts) fun _ _ _ _ =>
      secluding_fragment lo child hregular (fun node hnode =>
        hmeaning node (List.mem_cons_of_mem _ hnode)) _)
  | .repetition q child, hregular, hmeaning => by
    have hchild : (!q.possessive && child.isRegular) = true := hregular
    rw [Bool.and_eq_true, Bool.not_eq_true'] at hchild
    exact secluding_quantified (secluding_fragment lo child hchild.2 fun node hnode =>
      hmeaning node (List.mem_cons_of_mem _ hnode)) hchild.1
  | .alt items, hregular, hmeaning =>
    secluding_alt fun n start stop hstop => secludes_alternatives lo items hregular
      (fun node hnode => hmeaning node (List.mem_cons_of_mem _ hnode)) n start hstop
  | .concat [], _, _ => secluding_skip
  | .concat (item :: rest), hregular, hmeaning => by
    have hall : (item.isRegular && areRegular rest) = true := hregular
    rw [Bool.and_eq_true] at hall
    refine fun n => secludes_bind (secluding_fragment lo item hall.1 (fun node hnode => ?_) n)
      fun first n₁ hn₁ hfirst => secludes_sequel lo rest hall.2 (fun node hnode => ?_) n₁ hfirst
    · exact hmeaning node (List.mem_cons_of_mem _ (List.mem_append_left _ hnode))
    · exact hmeaning node (List.mem_cons_of_mem _ (List.mem_append_right _ hnode))
  | .invalid, hregular, _ => nomatch hregular
  | .backref _, hregular, _ => nomatch hregular
  | .look _ _, hregular, _ => nomatch hregular
  | .atomic _, hregular, _ => nomatch hregular
  | .groupCond _ _ _, hregular, _ => nomatch hregular
  | .lookCond _ _ _ _, hregular, _ => nomatch hregular
  | .verb _, hregular, _ => nomatch hregular

theorem secludes_alternatives (lo : Nat) : (items : List Tree) → areRegular items = true →
    (∀ node ∈ preorders items, node.HasMeaning) → ∀ (n start : Nat) {stop : Nat},
      lo ≤ stop ∧ stop < n → Secludes lo n (alternatives start stop items) fun _ _ => True
  | [], _, _ => fun _ _ _ _ => secludes_pure fun _ _ => trivial
  | item :: rest, hregular, hmeaning => by
    have hall : (item.isRegular && areRegular rest) = true := hregular
    rw [Bool.and_eq_true] at hall
    refine fun n start stop hstop => secludes_alternatives_cons
      (secluding_fragment lo item hall.1 fun node hnode => ?_)
      (fun n start stop hstop => secludes_alternatives lo rest hall.2 (fun node hnode => ?_) n start
        hstop) start hstop
    · exact hmeaning node (List.mem_append_left _ hnode)
    · exact hmeaning node (List.mem_append_right _ hnode)

theorem secludes_sequel (lo : Nat) : (items : List Tree) → areRegular items = true →
    (∀ node ∈ preorders items, node.HasMeaning) → ∀ (n : Nat) {before : Fragment},
      before.Between lo n → Secludes lo n (sequel before items) (Fragment.Between lo)
  | [], _, _ => fun _ _ hbefore => secludes_pure fun _ hm => ⟨hbefore.start_ge,
      Nat.lt_of_lt_of_le hbefore.start_lt hm, hbefore.stop_ge,
      Nat.lt_of_lt_of_le hbefore.stop_lt hm⟩
  | item :: rest, hregular, hmeaning => by
    have hall : (item.isRegular && areRegular rest) = true := hregular
    rw [Bool.and_eq_true] at hall
    refine fun n before hbefore => secludes_sequel_cons
      (secluding_fragment lo item hall.1 fun node hnode => ?_)
      (fun n before hbefore => secludes_sequel lo rest hall.2 (fun node hnode => ?_) n hbefore)
      hbefore
    · exact hmeaning node (List.mem_append_left _ hnode)
    · exact hmeaning node (List.mem_append_right _ hnode)

end

end Blueprint

end RegexEngine
