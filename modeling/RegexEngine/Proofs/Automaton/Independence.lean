import RegexEngine.Automaton.OfTree
import RegexEngine.Proofs.Flags.Apart

/-!
What the construction does not look at: the numbers that states are told apart by, and what becomes
of its result. From whatever number it starts, every step does the same; and a flag that asks for a
simple automaton or for a deterministic one is there from the start to the end, for no option
changes it.
-/

namespace RegexEngine

/-- A state with another number. -/
def State.shifted (shift : UInt32) (s : State) : State := { s with id := s.id + shift }

/-- An automaton whose states have other numbers. -/
def Automaton.shifted (shift : UInt32) (a : Automaton) : Automaton :=
  { a with states := a.states.map (State.shifted shift) }

theorem Automaton.modifyState_shifted (shift : UInt32) (a : Automaton) (index : Nat)
    {f : State → State} (hf : ∀ s : State, f (s.shifted shift) = (f s).shifted shift) :
    (a.shifted shift).modifyState index f = (a.modifyState index f).shifted shift := by
  simp only [shifted, modifyState, Automaton.mk.injEq, true_and, and_true]
  refine Array.ext (by simp) fun k hk _ => ?_
  simp only [Array.getElem_modify, Array.getElem_map]
  split
  · exact hf _
  · rfl

namespace Blueprint

/-- The same construction with other numbers, and with one more flag. -/
def shifted (shift : UInt32) (late : Flags) (p : Blueprint) : Blueprint :=
  { p with
    automaton := p.automaton.shifted shift
    nextId := p.nextId + shift
    flags := p.flags.union late }

/-- A step does the same whatever the numbers of states are, and whatever becomes of the result. -/
structure Ignores {α : Type} (x : Step α) : Prop where
  run_shifted : ∀ (shift : UInt32) {late : Flags}, late.Late → ∀ p : Blueprint,
    x.run (p.shifted shift late) = ((x.run p).1, (x.run p).2.shifted shift late)

section Steps

variable {α β : Type}

theorem ignores_pure (v : α) : Ignores (pure v) := ⟨fun _ _ _ _ => rfl⟩

theorem ignores_throw (e : Error) : Ignores (throw e : Step α) := ⟨fun _ _ _ _ => rfl⟩

theorem run_step_bind (x : Step α) (f : α → Step β) (p : Blueprint) :
    (x >>= f).run p = ExceptT.bindCont f (x.run p).1 (x.run p).2 := rfl

theorem ignores_bind {x : Step α} {f : α → Step β} (hx : Ignores x) (hf : ∀ v, Ignores (f v)) :
    Ignores (x >>= f) := by
  refine ⟨fun shift late hlate p => ?_⟩
  rw [run_step_bind, run_step_bind, hx.run_shifted shift hlate p]
  cases (x.run p).1 with
  | error e => rfl
  | ok v => exact (hf v).run_shifted shift hlate _

theorem ignores_map {x : Step α} (f : α → β) (hx : Ignores x) : Ignores (f <$> x) := by
  have hmap : f <$> x = x >>= fun v => pure (f v) := (bind_pure_comp f x).symm
  rw [hmap]
  exact ignores_bind hx fun v => ignores_pure (f v)

theorem ignores_modify {f : Blueprint → Blueprint}
    (h : ∀ (shift : UInt32) {late : Flags}, late.Late → ∀ p : Blueprint,
      f (p.shifted shift late) = (f p).shifted shift late) :
    Ignores (modify f) := ⟨fun shift _ hlate p => congrArg (Prod.mk _) (h shift hlate p)⟩

/-- What depends on the other flags only. -/
theorem ignores_flags? {build : Flags → Step α}
    (hsame : ∀ {late : Flags}, late.Late → ∀ flags : Flags, build (flags.union late) = build flags)
    (h : ∀ flags, Ignores (build flags)) : Ignores (flags? >>= build) := by
  refine ⟨fun shift late hlate p => ?_⟩
  change (build (p.flags.union late)).run (p.shifted shift late) = _
  rw [hsame hlate]
  exact (h p.flags).run_shifted shift hlate p

theorem run_keepingFlags (build : Step α) (p : Blueprint) :
    (keepingFlags build).run p =
      match (build.run p).1 with
      | .error e => (.error e, (build.run p).2)
      | .ok built => (.ok built, { (build.run p).2 with flags := p.flags }) := by
  change (build >>= fun built => do
    modify fun q => { q with flags := p.flags }
    pure built : Step α).run p = _
  rw [run_step_bind]
  cases (build.run p).1 <;> rfl

theorem run_keepingFlags_ok {build : Step α} {p p' : Blueprint} {v : α}
    (hrun : (keepingFlags build).run p = (.ok v, p')) :
    ∃ p₁, build.run p = (.ok v, p₁) ∧ p' = { p₁ with flags := p.flags } := by
  rw [run_keepingFlags] at hrun
  cases hbuild : build.run p with
  | mk made p₁ =>
    rw [hbuild] at hrun
    cases made with
    | error e => cases hrun
    | ok w =>
      cases hrun
      exact ⟨p₁, rfl, rfl⟩

theorem ignores_keepingFlags {build : Step α} (h : Ignores build) :
    Ignores (keepingFlags build) := by
  refine ⟨fun shift late hlate p => ?_⟩
  rw [run_keepingFlags, run_keepingFlags, h.run_shifted shift hlate p]
  cases (build.run p).1 <;> rfl

end Steps

theorem run_newState (p : Blueprint) :
    newState.run p =
      if p.maxStates ≤ p.automaton.stateCount then
        (.error (LimitFault.states p.maxStates).error, p)
      else (.ok p.automaton.states.size, { p with
        automaton := { p.automaton with states := p.automaton.states.push (.new p.nextId false) }
        nextId := p.nextId + 1 }) := by
  change (if _ then _ else _ : Step Nat).run p = _
  split <;> rfl

theorem ignores_newState : Ignores newState := by
  refine ⟨fun shift late _ p => ?_⟩
  have hcount : (p.shifted shift late).automaton.stateCount = p.automaton.stateCount := by
    simp [shifted, Automaton.shifted, Automaton.stateCount]
  rw [run_newState, run_newState, hcount]
  change (if p.maxStates ≤ p.automaton.stateCount then _ else _) = _
  split
  · rfl
  · refine Prod.ext (congrArg Except.ok hcount) ?_
    simp only [shifted, Automaton.shifted, Blueprint.mk.injEq, Automaton.mk.injEq, true_and,
      and_true, Array.map_push]
    refine ⟨rfl, ?_⟩
    rw [UInt32.add_assoc, UInt32.add_comm shift, UInt32.add_assoc]

theorem ignores_change (index : Nat) {f : State → State}
    (hf : ∀ (shift : UInt32) (s : State), f (s.shifted shift) = (f s).shifted shift) :
    Ignores (change index f) := by
  refine ignores_modify fun shift _ _ p => ?_
  simp only [shifted, Automaton.modifyState_shifted shift _ index (hf shift)]

theorem ignores_connect (s t : Nat) (label : Option Label) :
    Ignores (modify fun p => { p with automaton := p.automaton.connect s t label 0 }) := by
  refine ignores_modify fun shift _ _ p => ?_
  have hconnect : (p.automaton.shifted shift).connect s t label 0 =
      (p.automaton.connect s t label 0).shifted shift :=
    Automaton.modifyState_shifted shift _ _ fun _ => rfl
  simp only [shifted, hconnect]

theorem ignores_join (s t : Nat) : Ignores (join s t) := ignores_connect s t none

theorem ignores_markedState (marks : Marks) : Ignores (markedState marks) :=
  ignores_bind ignores_newState fun s => ignores_bind (ignores_change s fun _ _ => rfl) fun _ =>
    ignores_pure s

theorem ignores_actionState (action : Action) : Ignores (actionState action) :=
  ignores_bind ignores_newState fun s => ignores_bind (ignores_change s fun _ _ => rfl) fun _ =>
    ignores_pure s

theorem ignores_consuming (label : List Char) : Ignores (consuming label) := by
  refine ignores_bind ignores_newState fun start => ignores_bind ignores_newState fun stop => ?_
  cases Label.ofChars label with
  | error e => exact ignores_throw e
  | ok label =>
    exact ignores_bind (ignores_pure label) fun _ =>
      ignores_bind (ignores_connect ..) fun _ => ignores_pure _

/-- The group that a reference names, or why there is none. -/
def resolved (groups : List (Option String)) : GroupRef → Except Error Nat
  | .number n =>
    if 0 < n ∧ n ≤ groups.length then .ok n else .error (PatternFault.undefinedGroup n).error
  | .name name =>
    match SyntaxTree.indexOfName? groups name with
    | some n => .ok n
    | none => .error (PatternFault.undefinedName name).error

theorem run_resolve (ref : GroupRef) (p : Blueprint) :
    (resolve ref).run p = (resolved p.groups ref, p) := by
  cases ref with
  | number n =>
    change (if _ then _ else _ : Step Nat).run p = _
    by_cases hn : 0 < n ∧ n ≤ p.groups.length
    · rw [if_pos hn, resolved, if_pos hn]
      rfl
    · rw [if_neg hn, resolved, if_neg hn]
      rfl
  | name name =>
    change (match SyntaxTree.indexOfName? p.groups name with
      | some n => pure n
      | none => throw (PatternFault.undefinedName name).error : Step Nat).run p = _
    cases hname : SyntaxTree.indexOfName? p.groups name with
    | none =>
      rw [resolved, hname]
      rfl
    | some n =>
      rw [resolved, hname]
      rfl

theorem ignores_resolve (ref : GroupRef) : Ignores (resolve ref) :=
  ⟨fun _ _ _ p => by rw [run_resolve, run_resolve]; rfl⟩

theorem ignores_choice (s inside outside : Nat) (greedy : Bool) :
    Ignores (choice s inside outside greedy) := by
  cases greedy with
  | true => exact ignores_bind (ignores_join ..) fun _ => ignores_join ..
  | false => exact ignores_bind (ignores_join ..) fun _ => ignores_join ..

theorem ignores_closeBody (inner : Fragment) : Ignores (closeBody inner) :=
  ignores_bind (ignores_markedState _) fun _ => ignores_bind (ignores_join ..) fun _ =>
    ignores_pure _

section Constructs

variable {build : Step Fragment}

theorem ignores_body (h : Ignores build) : Ignores (body build) :=
  ignores_bind (ignores_keepingFlags h) ignores_closeBody

theorem ignores_copies (h : Ignores build) (n : Nat) : ∀ last, Ignores (copies build n last) := by
  induction n with
  | zero => exact fun last => ignores_pure last
  | succ n ih =>
    exact fun last => ignores_bind h fun inner => ignores_bind (ignores_join ..) fun _ => ih _

theorem ignores_optionalCopies (h : Ignores build) (exit : Nat) (greedy : Bool) (n : Nat) :
    ∀ last, Ignores (optionalCopies build exit greedy n last) := by
  induction n with
  | zero => exact fun last => ignores_pure last
  | succ n ih =>
    exact fun last => ignores_bind h fun inner => ignores_bind (ignores_choice ..) fun _ => ih _

theorem ignores_repetition (h : Ignores build) (min : Nat) (max : Option Nat) (greedy : Bool) :
    Ignores (repetition build min max greedy) := by
  refine ignores_bind ignores_newState fun start => ?_
  cases max with
  | none =>
    refine ignores_bind (ignores_copies h _ _) fun last => ignores_bind h fun inner => ?_
    refine ignores_bind ignores_newState fun exit => ?_
    by_cases hmin : 0 < min
    · rw [if_pos hmin]
      exact ignores_bind (ignores_join ..) fun _ => ignores_bind (ignores_choice ..)
        fun _ => ignores_pure _
    · rw [if_neg hmin]
      exact ignores_bind (ignores_choice ..) fun _ => ignores_bind (ignores_join ..)
        fun _ => ignores_pure _
  | some max =>
    refine ignores_bind (ignores_copies h _ _) fun last => ?_
    refine ignores_bind ignores_newState fun exit => ?_
    exact ignores_bind (ignores_optionalCopies h ..) fun _ => ignores_bind (ignores_join ..)
      fun _ => ignores_pure _

theorem ignores_quantified (h : Ignores build) (q : Quantifier) : Ignores (quantified q build) := by
  have hrepetition := ignores_repetition (ignores_keepingFlags h) q.min q.max
  refine ignores_flags? (fun hlate flags => ?_) fun flags => ?_
  · simp only [hlate.contains_union (a := flags) (c := .ungreedy) (by decide)]
  · by_cases hpossessive : q.possessive = true
    · rw [if_pos hpossessive]
      exact ignores_bind (hrepetition _) fun inner => ignores_bind (ignores_closeBody inner)
        fun b => ignores_map _ (ignores_actionState _)
    · rw [if_neg hpossessive]
      exact hrepetition _

theorem ignores_conditional (condition : Condition) {yes no : Step Fragment} (hyes : Ignores yes)
    (hno : Ignores no) : Ignores (conditional condition yes no) := by
  refine ignores_bind (ignores_actionState _) fun s => ignores_bind ignores_newState fun stop => ?_
  refine ignores_bind (ignores_keepingFlags hyes) fun yes => ?_
  refine ignores_bind (ignores_keepingFlags hno) fun no => ?_
  refine ignores_bind (ignores_join ..) fun _ => ignores_bind (ignores_join ..) fun _ => ?_
  exact ignores_bind (ignores_join ..) fun _ => ignores_bind (ignores_join ..) fun _ =>
    ignores_pure _

theorem ignores_skip : Ignores skip := ignores_map single ignores_newState

theorem ignores_captured (h : Ignores build) (index : Nat) (name : Option String) :
    Ignores (captured index name build) := by
  refine ignores_bind ignores_newState fun start => ignores_bind h fun inner => ?_
  refine ignores_bind ignores_newState fun stop => ?_
  refine ignores_bind (ignores_change _ fun _ _ => rfl) fun _ => ?_
  refine ignores_bind (ignores_change _ fun _ _ => rfl) fun _ => ?_
  refine ignores_bind (ignores_join ..) fun _ => ?_
  exact ignores_bind (ignores_join ..) fun _ => ignores_pure _

theorem ignores_options (opts : OptionSet) :
    Ignores (modify fun p => { p with flags := opts.apply p.flags }) := by
  refine ignores_modify fun shift _ hlate p => ?_
  simp only [shifted, OptionSet.apply_union hlate]

end Constructs

mutual

/-- The fragment of an expression does not depend on numbers, nor on what becomes of it. -/
theorem ignores_fragment : (t : Tree) → Ignores (fragment t)
  | .empty => ignores_skip
  | .comment _ => ignores_skip
  | .invalid => ignores_map _ (ignores_actionState _)
  | .literal c => by
    refine ignores_flags? (fun hlate flags => ?_) fun flags => ignores_consuming _
    simp only [caseMark, hlate.contains_union (a := flags) (c := .nocase) (by decide)]
  | .dot => by
    refine ignores_flags? (fun hlate flags => ?_) fun flags => ?_
    · simp only [hlate.contains_union (a := flags) (c := .dotAll) (by decide)]
    · by_cases hdotAll : flags.contains .dotAll = true
      · rw [if_pos hdotAll]
        exact ignores_consuming _
      · rw [if_neg hdotAll]
        exact ignores_consuming _
  | .cls _ spec => by
    refine ignores_flags? (fun hlate flags => ?_) fun flags => ignores_consuming _
    simp only [caseMark, hlate.contains_union (a := flags) (c := .nocase) (by decide)]
  | .capture index name child =>
    ignores_keepingFlags (ignores_captured (ignores_fragment child) index name)
  | .group child => ignores_keepingFlags (ignores_fragment child)
  | .scope opts child =>
    ignores_keepingFlags (ignores_bind (ignores_options opts) fun _ => ignores_fragment child)
  | .backref ref => by
    refine ignores_bind (ignores_resolve ref) fun group => ?_
    refine ignores_flags? (fun hlate flags => ?_) fun flags => ignores_map _ (ignores_actionState _)
    rw [hlate.contains_union (by decide)]
  | .repetition q child => ignores_quantified (ignores_fragment child) q
  | .anchor a => by
    refine ignores_flags? (fun {late} hlate flags => ?_) fun flags =>
      ignores_map _ (ignores_markedState _)
    have hmarks : anchorMarks (flags.union late) a = anchorMarks flags a := by
      cases a <;> simp only [anchorMarks, hlate.contains_union (a := flags) (c := .multiline)
        (by decide)]
    rw [hmarks]
  | .boundary _ => ignores_map _ (ignores_markedState _)
  | .look _ child =>
    ignores_bind (ignores_body (ignores_fragment child)) fun _ =>
      ignores_map _ (ignores_actionState _)
  | .atomic child =>
    ignores_bind (ignores_body (ignores_fragment child)) fun _ =>
      ignores_map _ (ignores_actionState _)
  | .options opts => ignores_bind (ignores_options opts) fun _ => ignores_skip
  | .groupCond ref yes none => ignores_bind (ignores_resolve ref) fun _ =>
      ignores_conditional _ (ignores_fragment yes) ignores_skip
  | .groupCond ref yes (some no) => ignores_bind (ignores_resolve ref) fun _ =>
      ignores_conditional _ (ignores_fragment yes) (ignores_fragment no)
  | .lookCond _ test yes none => ignores_bind (ignores_body (ignores_fragment test)) fun _ =>
      ignores_conditional _ (ignores_fragment yes) ignores_skip
  | .lookCond _ test yes (some no) => ignores_bind (ignores_body (ignores_fragment test)) fun _ =>
      ignores_conditional _ (ignores_fragment yes) (ignores_fragment no)
  | .verb _ => ignores_map _ (ignores_actionState _)
  | .alt items => by
    refine ignores_keepingFlags (ignores_bind ignores_newState fun start => ?_)
    refine ignores_bind ignores_newState fun stop => ?_
    exact ignores_bind (ignores_alternatives items start stop) fun _ => ignores_pure _
  | .concat [] => ignores_skip
  | .concat (item :: rest) => ignores_bind (ignores_fragment item) fun _ => ignores_sequel rest _

theorem ignores_alternatives : (items : List Tree) → (start stop : Nat) →
    Ignores (alternatives start stop items)
  | [], _, _ => ignores_pure ()
  | item :: rest, start, stop => by
    refine ignores_bind (ignores_fragment item) fun inner => ?_
    refine ignores_bind (ignores_join ..) fun _ => ignores_bind (ignores_join ..) fun _ => ?_
    exact ignores_alternatives rest start stop

theorem ignores_sequel : (items : List Tree) → (before : Fragment) →
    Ignores (sequel before items)
  | [], before => ignores_pure before
  | item :: rest, before => by
    refine ignores_bind (ignores_fragment item) fun inner => ?_
    exact ignores_bind (ignores_join ..) fun _ => ignores_sequel rest _

end

theorem ignores_whole (root : Tree) : Ignores (whole root) := by
  refine ignores_bind (ignores_fragment root) fun inner => ?_
  refine ignores_bind ignores_newState fun stop => ?_
  exact ignores_bind (ignores_join ..) fun _ => ignores_bind (ignores_change _ fun _ _ => rfl)
    fun _ => ignores_pure _

end Blueprint

namespace Automaton

theorem ofTree_eq (tree : SyntaxTree) (flags : Flags) (maxStates : Nat) (base : UInt32) :
    (ofTree { tree with flags := flags } maxStates).run base =
      (((Blueprint.whole tree.root).run
          ⟨.empty .nfa, base, flags, tree.groups, maxStates⟩).1.map fun inner =>
        { ((Blueprint.whole tree.root).run
            ⟨.empty .nfa, base, flags, tree.groups, maxStates⟩).2.automaton with
          initial := some inner.start, current := some inner.start, flags := flags },
        ((Blueprint.whole tree.root).run
          ⟨.empty .nfa, base, flags, tree.groups, maxStates⟩).2.nextId) := rfl

/-- From any number on, and whatever becomes of it, a tree has the same automaton, but for the
numbers of its states and for its flags. -/
theorem run_ofTree_union {late : Flags} (hlate : late.Late) (tree : SyntaxTree) (maxStates : Nat)
    (base shift : UInt32) :
    (ofTree { tree with flags := tree.flags.union late } maxStates).run (base + shift) =
      (((ofTree tree maxStates).run base).1.map fun a =>
        { a.shifted shift with flags := tree.flags.union late },
        ((ofTree tree maxStates).run base).2 + shift) := by
  have hshifted := (Blueprint.ignores_whole tree.root).run_shifted shift hlate
    ⟨.empty .nfa, base, tree.flags, tree.groups, maxStates⟩
  have hstart : Blueprint.shifted shift late
      ⟨.empty .nfa, base, tree.flags, tree.groups, maxStates⟩ =
        ⟨.empty .nfa, base + shift, tree.flags.union late, tree.groups, maxStates⟩ := by
    simp [Blueprint.shifted, shifted, Automaton.empty]
  rw [hstart] at hshifted
  rw [ofTree_eq, show ofTree tree maxStates = ofTree { tree with flags := tree.flags } maxStates
    from rfl, ofTree_eq, hshifted]
  cases ((Blueprint.whole tree.root).run
    ⟨.empty .nfa, base, tree.flags, tree.groups, maxStates⟩).1 <;> rfl

theorem run_ofTree_shifted (tree : SyntaxTree) (maxStates : Nat) (base shift : UInt32) :
    (ofTree { tree with flags := tree.flags.union .optimized } maxStates).run (base + shift) =
      (((ofTree tree maxStates).run base).1.map fun a =>
        { a.shifted shift with flags := tree.flags.union .optimized },
        ((ofTree tree maxStates).run base).2 + shift) :=
  run_ofTree_union .optimized tree maxStates base shift

end Automaton

end RegexEngine
