import RegexEngine.Proofs.Automaton.Compiled
import RegexEngine.Proofs.Tree.Checked

/-!
Where the actions of an automaton come from. What holds of all actions that the expressions of a
tree ask for, wherever their bodies start, holds of the actions of its automaton: while it is built,
states are added with such actions only, and no other step touches them.
-/

namespace RegexEngine

/-- Something holds of all actions that an expression asks for itself, among some groups. -/
def Tree.AsksFor (groups : List (Option String)) (ok : Action → Prop) : Tree → Prop
  | invalid => ok .fail
  | backref ref => ∀ group nocase, Blueprint.resolved groups ref = .ok group →
    ok (.backref group nocase)
  | repetition q _ => q.possessive = true → ∀ body, ok (.atomic body)
  | look kind _ => ∀ body, ok (.look kind body)
  | atomic _ => ∀ body, ok (.atomic body)
  | groupCond ref _ _ => ∀ group, Blueprint.resolved groups ref = .ok group →
    ok (.branch (.group group))
  | lookCond kind _ _ _ => ∀ body, ok (.branch (.look kind body))
  | verb v => ok (Blueprint.verbAction v)
  | _ => True

namespace Blueprint

variable {groups : List (Option String)} {ok : Action → Prop} {p : Blueprint}

/-- Something holds of all actions so far. -/
structure Acts (groups : List (Option String)) (ok : Action → Prop) (p : Blueprint) : Prop where
  groups_eq : p.groups = groups
  actions : ∀ (k : Nat) (s : State), p.automaton.states[k]? = some s →
    ∀ action, s.action = some action → ok action

theorem Acts.withFlags (h : p.Acts groups ok) (flags : Flags) :
    Acts groups ok { p with flags := flags } :=
  ⟨h.groups_eq, h.actions⟩

theorem Acts.added (h : p.Acts groups ok) {state : State}
    (hstate : ∀ action, state.action = some action → ok action) :
    (p.added state).Acts groups ok := by
  refine ⟨h.groups_eq, fun k s hs => ?_⟩
  rcases getElem?_added_cases hs with ⟨_, hs⟩ | ⟨_, rfl⟩
  · exact h.actions k s hs
  · exact hstate

theorem Acts.changed (h : p.Acts groups ok) {index : Nat} {f : State → State}
    (hf : ∀ s, (f s).action = s.action) : (p.changed index f).Acts groups ok := by
  refine ⟨h.groups_eq, fun k s hs => ?_⟩
  obtain ⟨before, hbefore, rfl | ⟨_, rfl⟩⟩ := getElem?_changed_cases hs
  · exact h.actions k _ hbefore
  · rw [hf before]
    exact h.actions k before hbefore

/-- A step of the construction adds only actions of which something holds. -/
def Keeps {α : Type} (groups : List (Option String)) (ok : Action → Prop) (x : Step α) : Prop :=
  ∀ p : Blueprint, p.Acts groups ok → Yields x p fun _ p' => p'.Acts groups ok

section Steps

variable {α β : Type} {x : Step α}

theorem keeps_pure (v : α) : Keeps groups ok (pure v) := fun _ hp => yields_pure hp

theorem keeps_bind {f : α → Step β} (hx : Keeps groups ok x) (hf : ∀ v, Keeps groups ok (f v)) :
    Keeps groups ok (x >>= f) :=
  fun p hp => yields_bind (hx p hp) fun v p' hp' => hf v p' hp'

theorem keeps_map (hx : Keeps groups ok x) (f : α → β) : Keeps groups ok (f <$> x) :=
  fun p hp => yields_map (hx p hp) fun _ _ hp' => hp'

theorem keeps_flags? {build : Flags → Step β} (h : ∀ flags, Keeps groups ok (build flags)) :
    Keeps groups ok (flags? >>= build) :=
  fun p => h p.flags p

theorem keeps_keepingFlags (hx : Keeps groups ok x) : Keeps groups ok (keepingFlags x) := by
  intro p hp v p' hrun
  obtain ⟨p₁, hrun₁, rfl⟩ := run_keepingFlags_ok hrun
  exact (hx p hp v p₁ hrun₁).withFlags _

theorem keeps_options (opts : OptionSet) :
    Keeps groups ok (modify fun p => { p with flags := opts.apply p.flags }) :=
  fun _ hp => yields_modify (hp.withFlags _)

/-- A reference is resolved to the group that it names. -/
theorem keeps_resolve {build : Nat → Step β} (ref : GroupRef)
    (h : ∀ group, resolved groups ref = .ok group → Keeps groups ok (build group)) :
    Keeps groups ok (resolve ref >>= build) := by
  intro p hp
  have hresolve : Yields (resolve ref) p fun group p' =>
      resolved groups ref = .ok group ∧ p' = p := by
    intro group p' hrun
    rw [run_resolve, hp.groups_eq] at hrun
    exact ⟨congrArg Prod.fst hrun, (congrArg Prod.snd hrun).symm⟩
  refine yields_bind hresolve fun group p' hgroup => ?_
  exact h group hgroup.1 p' (hgroup.2 ▸ hp)

theorem keeps_newState : Keeps groups ok newState := by
  intro p hp s p' hrun
  obtain ⟨rfl, rfl⟩ := yields_added p s p' hrun
  apply hp.added
  rintro action ⟨⟩

theorem keeps_change (index : Nat) {f : State → State} (hf : ∀ s, (f s).action = s.action) :
    Keeps groups ok (change index f) :=
  fun _ hp => yields_modify (hp.changed hf)

theorem keeps_connect (s t : Nat) (label : Option Label) :
    Keeps groups ok (modify fun p => { p with automaton := p.automaton.connect s t label 0 }) :=
  fun _ hp => yields_modify (hp.changed fun _ => rfl)

theorem keeps_join (s t : Nat) : Keeps groups ok (join s t) := keeps_connect s t none

theorem keeps_choice (s inside outside : Nat) (greedy : Bool) :
    Keeps groups ok (choice s inside outside greedy) := by
  cases greedy with
  | true => exact keeps_bind (keeps_join s inside) fun _ => keeps_join s outside
  | false => exact keeps_bind (keeps_join s outside) fun _ => keeps_join s inside

theorem keeps_markedState (marks : Marks) : Keeps groups ok (markedState marks) :=
  keeps_bind keeps_newState fun s => keeps_bind (keeps_change s fun _ => rfl) fun _ => keeps_pure s

theorem keeps_actionState {action : Action} (h : ok action) :
    Keeps groups ok (actionState action) := by
  intro p hp s p' hrun
  obtain ⟨rfl, rfl, _⟩ := yields_placed _ p s p' hrun
  apply hp.added
  rintro other ⟨⟩
  exact h

end Steps

/-! Fragments. -/

section Fragments

variable {build yes no : Step Fragment}

theorem keeps_consuming (label : List Char) : Keeps groups ok (consuming label) := by
  refine keeps_bind keeps_newState fun start => keeps_bind keeps_newState fun stop => ?_
  cases Label.ofChars label with
  | error e =>
    intro p _ f p' hrun
    cases hrun
  | ok made =>
    simp only [pure_bind]
    exact keeps_bind (keeps_connect start stop (some made)) fun _ => keeps_pure _

theorem keeps_captured (h : Keeps groups ok build) (index : Nat) (name : Option String) :
    Keeps groups ok (captured index name build) := by
  refine keeps_bind keeps_newState fun start => keeps_bind h fun inner => ?_
  refine keeps_bind keeps_newState fun stop => ?_
  refine keeps_bind (keeps_change start fun _ => rfl) fun _ => ?_
  refine keeps_bind (keeps_change stop fun _ => rfl) fun _ => ?_
  refine keeps_bind (keeps_join _ _) fun _ => keeps_bind (keeps_join _ _) fun _ => ?_
  exact keeps_pure _

theorem keeps_copies (h : Keeps groups ok build) (count last : Nat) :
    Keeps groups ok (copies build count last) := by
  induction count generalizing last with
  | zero => exact keeps_pure last
  | succ count ih =>
    exact keeps_bind h fun inner => keeps_bind (keeps_join _ _) fun _ => ih inner.stop

theorem keeps_optionalCopies (h : Keeps groups ok build) (exit : Nat) (greedy : Bool)
    (count last : Nat) : Keeps groups ok (optionalCopies build exit greedy count last) := by
  induction count generalizing last with
  | zero => exact keeps_pure last
  | succ count ih =>
    exact keeps_bind h fun inner => keeps_bind (keeps_choice _ _ _ greedy) fun _ => ih inner.stop

theorem keeps_repetition (h : Keeps groups ok build) (min : Nat) (max : Option Nat)
    (greedy : Bool) : Keeps groups ok (repetition build min max greedy) := by
  refine keeps_bind keeps_newState fun start => ?_
  cases max with
  | none =>
    refine keeps_bind (keeps_copies h _ _) fun last => keeps_bind h fun inner => ?_
    refine keeps_bind keeps_newState fun exit => ?_
    by_cases hmin : 0 < min
    · rw [if_pos hmin]
      exact keeps_bind (keeps_join _ _) fun _ => keeps_bind (keeps_choice _ _ _ _) fun _ =>
        keeps_pure _
    · rw [if_neg hmin]
      exact keeps_bind (keeps_choice _ _ _ _) fun _ => keeps_bind (keeps_join _ _) fun _ =>
        keeps_pure _
  | some max =>
    refine keeps_bind (keeps_copies h _ _) fun last => keeps_bind keeps_newState fun exit => ?_
    refine keeps_bind (keeps_optionalCopies h _ _ _ _) fun last => ?_
    exact keeps_bind (keeps_join _ _) fun _ => keeps_pure _

theorem keeps_closeBody (inner : Fragment) : Keeps groups ok (closeBody inner) :=
  keeps_bind (keeps_markedState _) fun _ => keeps_bind (keeps_join _ _) fun _ => keeps_pure _

theorem keeps_body (h : Keeps groups ok build) : Keeps groups ok (body build) :=
  keeps_bind (keeps_keepingFlags h) keeps_closeBody

theorem keeps_quantified {q : Quantifier} (h : Keeps groups ok build)
    (hq : q.possessive = true → ∀ body, ok (.atomic body)) :
    Keeps groups ok (quantified q build) := by
  have hkept := keeps_keepingFlags h
  apply keeps_flags?
  intro flags
  dsimp only
  split
  · rename_i hpossessive
    refine keeps_bind (keeps_repetition hkept _ _ _) fun inner => ?_
    refine keeps_bind (keeps_closeBody inner) fun body => ?_
    exact keeps_map (keeps_actionState (hq hpossessive body)) single
  · exact keeps_repetition hkept _ _ _

theorem keeps_conditional {condition : Condition} (h : ok (.branch condition))
    (hyes : Keeps groups ok yes) (hno : Keeps groups ok no) :
    Keeps groups ok (conditional condition yes no) := by
  refine keeps_bind (keeps_actionState h) fun s => keeps_bind keeps_newState fun stop => ?_
  refine keeps_bind (keeps_keepingFlags hyes) fun first => ?_
  refine keeps_bind (keeps_keepingFlags hno) fun second => ?_
  refine keeps_bind (keeps_join _ _) fun _ => keeps_bind (keeps_join _ _) fun _ => ?_
  refine keeps_bind (keeps_join _ _) fun _ => keeps_bind (keeps_join _ _) fun _ => ?_
  exact keeps_pure _

theorem keeps_skip : Keeps groups ok skip := keeps_map keeps_newState single

theorem keeps_acting {action : Action} (h : ok action) :
    Keeps groups ok (single <$> actionState action) := keeps_map (keeps_actionState h) single

theorem keeps_marked (marks : Marks) : Keeps groups ok (single <$> markedState marks) :=
  keeps_map (keeps_markedState marks) single

end Fragments

open RegexEngine.Tree

mutual

/-- The fragment of an expression has actions that the expressions in it ask for. -/
theorem keeps_fragment : (t : Tree) → t.Each (AsksFor groups ok) → Keeps groups ok (fragment t)
  | .empty, _ | .comment _, _ => keeps_skip
  | .invalid, h => keeps_acting h.self
  | .literal _, _ | .cls _ _, _ => keeps_flags? fun _ => keeps_consuming _
  | .dot, _ => keeps_flags? fun _ => by split <;> exact keeps_consuming _
  | .anchor _, _ => keeps_flags? fun _ => keeps_marked _
  | .boundary _, _ => keeps_marked _
  | .options opts, _ => keeps_bind (keeps_options opts) fun _ => keeps_skip
  | .verb v, h => keeps_acting h.self
  | .backref ref, h => keeps_resolve ref fun group hgroup => keeps_flags? fun _ =>
    keeps_acting (h.self group _ hgroup)
  | .capture index name child, h =>
    keeps_keepingFlags (keeps_captured (keeps_fragment child ((each_capture ..).mp h).2) index name)
  | .group child, h => keeps_keepingFlags (keeps_fragment child (each_group.mp h).2)
  | .scope opts child, h => keeps_keepingFlags (keeps_bind (keeps_options opts) fun _ =>
    keeps_fragment child ((each_scope opts).mp h).2)
  | .repetition q child, h => by
    obtain ⟨hq, hchild⟩ := (each_repetition q).mp h
    exact keeps_quantified (keeps_fragment child hchild) hq
  | .look kind child, h => by
    obtain ⟨hkind, hchild⟩ := (each_look kind).mp h
    exact keeps_bind (keeps_body (keeps_fragment child hchild)) fun body =>
      keeps_acting (hkind body)
  | .atomic child, h => by
    obtain ⟨hatomic, hchild⟩ := each_atomic.mp h
    exact keeps_bind (keeps_body (keeps_fragment child hchild)) fun body =>
      keeps_acting (hatomic body)
  | .groupCond ref yes none, h => by
    obtain ⟨href, hyes, _⟩ := (each_groupCond ref none).mp h
    exact keeps_resolve ref fun group hgroup =>
      keeps_conditional (href group hgroup) (keeps_fragment yes hyes) keeps_skip
  | .groupCond ref yes (some no), h => by
    obtain ⟨href, hyes, hno⟩ := (each_groupCond ref (some no)).mp h
    exact keeps_resolve ref fun group hgroup =>
      keeps_conditional (href group hgroup) (keeps_fragment yes hyes)
        (keeps_fragment no (hno no rfl))
  | .lookCond kind test yes none, h => by
    obtain ⟨hkind, htest, hyes, _⟩ := (each_lookCond kind none).mp h
    exact keeps_bind (keeps_body (keeps_fragment test htest)) fun body =>
      keeps_conditional (hkind body) (keeps_fragment yes hyes) keeps_skip
  | .lookCond kind test yes (some no), h => by
    obtain ⟨hkind, htest, hyes, hno⟩ := (each_lookCond kind (some no)).mp h
    exact keeps_bind (keeps_body (keeps_fragment test htest)) fun body =>
      keeps_conditional (hkind body) (keeps_fragment yes hyes) (keeps_fragment no (hno no rfl))
  | .alt items, h => by
    refine keeps_keepingFlags (keeps_bind keeps_newState fun start => ?_)
    refine keeps_bind keeps_newState fun stop => ?_
    exact keeps_bind (keeps_alternatives start stop items (each_alt.mp h).2) fun _ => keeps_pure _
  | .concat [], _ => keeps_skip
  | .concat (item :: rest), h => by
    obtain ⟨hitem, hrest⟩ := List.forall_mem_cons.mp (each_concat.mp h).2
    exact keeps_bind (keeps_fragment item hitem) fun first => keeps_sequel first rest hrest

theorem keeps_alternatives (start stop : Nat) : (items : List Tree) →
    (∀ item ∈ items, item.Each (AsksFor groups ok)) →
      Keeps groups ok (alternatives start stop items)
  | [], _ => keeps_pure ()
  | item :: rest, h => by
    obtain ⟨hitem, hrest⟩ := List.forall_mem_cons.mp h
    refine keeps_bind (keeps_fragment item hitem) fun inner => ?_
    refine keeps_bind (keeps_join _ _) fun _ => keeps_bind (keeps_join _ _) fun _ => ?_
    exact keeps_alternatives start stop rest hrest

theorem keeps_sequel (before : Fragment) : (items : List Tree) →
    (∀ item ∈ items, item.Each (AsksFor groups ok)) → Keeps groups ok (sequel before items)
  | [], _ => keeps_pure before
  | item :: rest, h => by
    obtain ⟨hitem, hrest⟩ := List.forall_mem_cons.mp h
    refine keeps_bind (keeps_fragment item hitem) fun inner => ?_
    exact keeps_bind (keeps_join _ _) fun _ => keeps_sequel _ rest hrest

end

theorem keeps_whole {root : Tree} (h : root.Each (AsksFor groups ok)) :
    Keeps groups ok (whole root) := by
  refine keeps_bind (keeps_fragment root h) fun inner => keeps_bind keeps_newState fun stop => ?_
  refine keeps_bind (keeps_join _ _) fun _ => ?_
  refine keeps_bind (keeps_change stop fun _ => rfl) fun _ => ?_
  exact keeps_pure _

end Blueprint

/-- The actions of a compiled automaton are asked for by the expressions of its tree. -/
theorem Automaton.ofTree_actions {tree : SyntaxTree} {maxStates : Nat} {base nextId : UInt32}
    {a : Automaton} {ok : Action → Prop} (h : tree.root.Each (Tree.AsksFor tree.groups ok))
    (hrun : (ofTree tree maxStates).run base = (.ok a, nextId)) :
    ∀ s ∈ a.states, ∀ action, s.action = some action → ok action := by
  obtain ⟨f, p, hwhole, hstates, _⟩ := ofTree_run hrun
  have hempty : Blueprint.Acts tree.groups ok ⟨.empty .nfa, base, tree.flags, tree.groups,
      maxStates⟩ := by
    refine ⟨rfl, ?_⟩
    rintro k s ⟨⟩
  have hacts := Blueprint.keeps_whole h _ hempty f p hwhole
  intro s hs
  obtain ⟨k, hk⟩ := Array.mem_iff_getElem?.mp hs
  rw [hstates] at hk
  exact hacts.actions k s hk

end RegexEngine
