import RegexEngine.Proofs.Automaton.Fragments
import RegexEngine.Proofs.Automaton.LeadsOn
import RegexEngine.Proofs.Tree.LeadingOptions

/-!
What options in front of an expression add to its automaton. They are a state of their own in front
of all that follows them, and this state only leads on. All else is built as it is without them, if
the flags that they set are in effect from the start.
-/

namespace RegexEngine

open Blueprint Automaton

/-! Putting a state in. -/

/-- No state leads anywhere yet. -/
def Blueprint.Unlinked (p : Blueprint) : Prop :=
  ∀ (k : Nat) (s : State), p.automaton.states[k]? = some s → s.successors = []

theorem Blueprint.Unlinked.added {p : Blueprint} (h : p.Unlinked) (id : UInt32) :
    (p.added (.new id false)).Unlinked := by
  intro k s hs
  rcases getElem?_added_cases hs with ⟨_, hs⟩ | ⟨_, rfl⟩
  · exact h k s hs
  · rfl

/-- Where a state leads nowhere, it does not matter how places are renamed. -/
theorem State.Copies.of_unlinked {place : Nat → Nat} {s s' : State} (h : s'.Copies place s)
    (hs : s.successors = []) (place' : Nat → Nat) : s'.Copies place' s := by
  obtain ⟨htransitions, hbody⟩ := List.append_eq_nil_iff.mp hs
  have htransitions : s.transitions = [] := List.map_eq_nil_iff.mp htransitions
  have hall := h.transitions
  rw [htransitions] at hall
  refine ⟨h.accepting_eq, h.marks_eq, h.groupIndex_eq, h.action_eq.trans ?_, ?_⟩
  · cases haction : s.action with
    | none => rfl
    | some action =>
      rw [haction] at hbody
      have hnone : action.body? = none := Option.toList_eq_nil_iff.mp hbody
      refine congrArg some (mapBody_congr fun body hsome => ?_)
      cases hnone.symm.trans hsome
  · rw [htransitions, List.forall₂_nil_left_iff.mp hall]
    exact .nil

namespace Splice

variable {p q : Blueprint}

theorem lift_of_nil {c : Splice} (hc : c.states = []) (i : Nat) : c.lift i = i := by
  rw [lift, hc, List.length_nil, Nat.add_zero, ite_self]

theorem place_front (front target : Nat) (s : State) :
    (Splice.mk front [s] target).place front = target := by
  simp [place]

/-- Where no state leads anywhere yet, a new one can be put in. -/
theorem Spliced.put_new {c : Splice} (h : c.Spliced p q) (hc : c.states = []) (hp : p.Unlinked)
    (s : State) (target : Nat) : (Splice.mk p.size [s] target).Spliced (p.added s) q := by
  have hsize : p.size = q.size := h.size_eq_lift.trans (lift_of_nil hc _)
  refine ⟨⟨?_, hsize.le, fun i s' hs' => ?_, fun i other hother => ?_⟩, h.groups_eq⟩
  · change (p.added s).size = q.size + 1
    rw [size_added, hsize]
  · obtain ⟨before, hbefore, hcopies⟩ := h.kept i s' hs'
    rw [lift_of_nil hc] at hbefore
    have hi : i < p.size := (Array.getElem?_eq_some_iff.mp hbefore).1
    refine ⟨before, ?_, hcopies.of_unlinked (hp i before hbefore) _⟩
    rw [lift, if_pos hi, getElem?_added, if_neg (Nat.ne_of_lt hi), hbefore]
  · obtain ⟨hi, rfl⟩ := List.getElem?_eq_some_iff.mp hother
    obtain rfl : i = 0 := Nat.lt_one_iff.mp hi
    rw [getElem?_added]
    exact if_pos rfl

/-- A state that was put in may be changed. -/
theorem Spliced.changed_put {front target : Nat} {s : State}
    (h : (Splice.mk front [s] target).Spliced p q) (f : State → State) :
    (Splice.mk front [f s] target).Spliced (p.changed front f) q := by
  refine ⟨⟨?_, h.front_le, fun i s' hs' => ?_, fun i other hother => ?_⟩, h.groups_eq⟩
  · change (p.changed front f).size = q.size + 1
    rw [size_changed]
    exact h.size_eq
  · obtain ⟨before, hbefore, hcopies⟩ := h.kept i s' hs'
    have hne : front ≠ (Splice.mk front [s] target).lift i :=
      (lift_ne (j := 0) (c := .mk front [s] target) Nat.one_pos).symm
    refine ⟨before, ?_, hcopies⟩
    change (p.changed front f).automaton.states[(Splice.mk front [s] target).lift i]? = _
    rw [getElem?_changed, if_neg hne, hbefore]
  · obtain ⟨hi, rfl⟩ := List.getElem?_eq_some_iff.mp hother
    obtain rfl : i = 0 := Nat.lt_one_iff.mp hi
    have hput := h.put 0 s rfl
    rw [Nat.add_zero] at hput ⊢
    rw [getElem?_changed, if_pos rfl, hput]
    rfl

end Splice

/-! Fragments with options in front. -/

namespace Splice

/-- Two fragments begin and end at the same places, but for states that are put in and only lead
on. -/
structure Aligns (c : Splice) (r r' : Fragment × Blueprint) : Prop where
  spliced : c.Spliced r.2 r'.2
  leadsOn : c.LeadsOn
  start_eq : c.place r.1.start = r'.1.start
  stop_eq : r.1.stop = c.lift r'.1.stop

variable {c : Splice} {p q : Blueprint}

/-- A sequence ends where the first one ends, whatever they begin with. -/
theorem respects_sequel_of_stop (start start' : Nat) (items : List Tree) (stop : Nat) :
    c.Respects Eq (fun f => ⟨start, c.lift f.stop⟩) (sequel ⟨start, c.lift stop⟩ items)
      (sequel ⟨start', stop⟩ items) := by
  induction items generalizing stop with
  | nil => exact respects_pure (Fragment.mk start' stop)
  | cons item rest ih =>
    refine respects_bind (respects_fragment c item) fun inner => ?_
    exact respects_bind (respects_join ..) fun _ => ih inner.stop

end Splice

/-- A sequence begins where it began. -/
theorem yields_sequel : (items : List Tree) → (before : Fragment) → (p : Blueprint) →
    Yields (sequel before items) p fun f _ => f.start = before.start
  | [], _, _ => yields_pure rfl
  | _ :: rest, before, _ => yields_bind_any fun inner _ => yields_bind_any fun _ p' =>
      yields_sequel rest ⟨before.start, inner.stop⟩ p'

/-- What a step yields is what its outcome is. -/
theorem Blueprint.Yields.of_outcome {α : Type} {x : Step α} {p : Blueprint}
    {post : α → Blueprint → Prop} (h : Yields x p post) {r : α × Blueprint}
    (hr : outcome x p = .ok r) : post r.1 r.2 := by
  unfold outcome at hr
  cases hrun : x.run p with
  | mk made p' =>
    rw [hrun] at hr
    cases made with
    | error e => cases hr
    | ok v =>
      cases hr
      exact h v p' hrun

/-- A list of expressions is built one after the other. -/
theorem fragment_ofList_cons (item : Tree) (rest : List Tree) :
    fragment (.ofList (item :: rest)) = fragment item >>= fun first => sequel first rest := by
  cases rest with
  | nil => exact (bind_pure _).symm
  | cons second others =>
    change fragment (.concat (item :: second :: others)) = _
    rw [fragment]

theorem outcome_options (opts : OptionSet) (p : Blueprint) :
    outcome (fragment (.options opts)) p =
      outcome skip { p with flags := opts.apply p.flags } := by
  rw [fragment]
  exact outcome_bind _ _ p

theorem outcome_skip (p : Blueprint) :
    outcome skip p =
      if p.maxStates ≤ p.automaton.stateCount then .error (LimitFault.states p.maxStates).error
      else .ok (single p.size, p.added (.new p.nextId false)) := by
  rw [skip, ← bind_pure_comp, outcome_bind, outcome_newState]
  split <;> rfl

section Leading

variable {opts : OptionSet} {p q : Blueprint}

/-- The one state of options is put in front of what follows them. -/
theorem concur_leading_cons {c : Splice} (h : c.Spliced p q) (hc : c.states = [])
    (hp : p.Unlinked) (hflags : opts.apply p.flags = q.flags) (item : Tree) (rest : List Tree) :
    Concur (fun r r' => r.2.flags = r'.2.flags ∧ ∃ c : Splice, (∀ i < p.size, c.lift i = i) ∧
        c.Aligns r r')
      (outcome (fragment (.ofList (.options opts :: item :: rest))) p)
      (outcome (fragment (.ofList (item :: rest))) q) := by
  rw [fragment_ofList_cons, fragment_ofList_cons, outcome_bind, outcome_options, outcome_skip]
  split
  · exact .large (.inl rfl)
  let p₁ : Blueprint := { p with flags := opts.apply p.flags }
  let s : State := .new p.nextId false
  change Concur _ (outcome (sequel (single p.size) (item :: rest)) (p₁.added s)) _
  have hspliced (target : Nat) : (Splice.mk p.size [s] target).Spliced (p₁.added s) q :=
    (h.withFlags (opts.apply p.flags) q.flags).put_new hc hp s target
  -- The state leads to where the first expression starts without it.
  have hfirst := Concur.choose (fun target =>
    (Splice.respects_fragment (.mk p.size [s] target) item).concurs _ _ (hspliced target) hflags)
    fun r' => r'.1.start
  rw [sequel, outcome_bind, outcome_bind]
  refine hfirst.bind ?_
  rintro ⟨_, p₂⟩ ⟨inner, q₂⟩ ⟨rfl, hspliced₂, hflags₂⟩
  dsimp only at hspliced₂ hflags₂ ⊢
  let leading : State :=
    s.addTransition ⟨p.size, (Splice.mk p.size [s] inner.start).lift inner.start, none, 0⟩
  let c : Splice := ⟨p.size, [leading], inner.start⟩
  have hspliced₃ : c.Spliced
      { p₂ with automaton := p₂.automaton.connect p.size (c.lift inner.start) none 0 } q₂ :=
    hspliced₂.changed_put fun state => state.addTransition ⟨p.size, c.lift inner.start, none, 0⟩
  have hleads : c.LeadsOn := by
    intro state hstate
    obtain rfl := List.mem_singleton.mp hstate
    exact ⟨rfl, _, rfl, rfl, rfl⟩
  have hplace : c.place p.size = inner.start := Splice.place_front ..
  have hrest := ((c.respects_sequel_of_stop p.size inner.start rest inner.stop).concurs _ _
    hspliced₃ hflags₂).with_ok
  refine hrest.mono ?_
  rintro ⟨_, p₄⟩ ⟨last, q₄⟩ ⟨⟨rfl, hspliced₄, hflags₄⟩, _, hlast⟩
  have hstart := (yields_sequel rest ⟨inner.start, inner.stop⟩ q₂).of_outcome hlast
  refine ⟨hflags₄, c, fun i hi => if_pos hi, hspliced₄, hleads, hplace.trans hstart.symm, rfl⟩

/-- The options are put in front of what follows them, or stand for nothing where nothing does. -/
theorem concur_leading {c : Splice} (h : c.Spliced p q) (hc : c.states = []) (hp : p.Unlinked)
    (hflags : opts.apply p.flags = q.flags) (items : List Tree) :
    Concur (fun r r' => r.2.flags = r'.2.flags ∧ ∃ c : Splice, (∀ i < p.size, c.lift i = i) ∧
        c.Aligns r r')
      (outcome (fragment (.ofList (.options opts :: items))) p)
      (outcome (fragment (.ofList items)) q) := by
  cases items with
  | cons item rest => exact concur_leading_cons h hc hp hflags item rest
  | nil =>
    change Concur _ (outcome (fragment (.options opts)) p) (outcome (fragment .empty) q)
    rw [outcome_options, fragment]
    refine (Splice.respects_skip.concurs _ _ (h.withFlags (opts.apply p.flags) q.flags)
      hflags).mono ?_
    rintro ⟨_, p₁⟩ ⟨f, q₁⟩ ⟨rfl, h₁, hflags₁⟩
    refine ⟨hflags₁, c, fun i _ => Splice.lift_of_nil hc i, h₁, fun s hs => ?_,
      c.place_lift f.start, rfl⟩
    rw [hc] at hs
    cases hs

/-- The states at both ends of alternatives, and the first alternative. -/
theorem concur_branches {c : Splice} (h : c.Spliced p q) (hc : c.states = []) (hp : p.Unlinked)
    (hflags : opts.apply p.flags = q.flags) (items rest : List Tree) {start stop : Nat}
    (hstart : start < p.size) (hstop : stop < p.size) :
    Concur (fun r r' => ∃ c : Splice, c.Spliced r.2 r'.2 ∧ c.LeadsOn ∧ c.lift start = start ∧
        c.lift stop = stop)
      (outcome (alternatives start stop (.ofList (.options opts :: items) :: rest)) p)
      (outcome (alternatives start stop (.ofList items :: rest)) q) := by
  rw [alternatives, alternatives, outcome_bind, outcome_bind]
  refine (concur_leading h hc hp hflags items).bind ?_
  rintro ⟨inner, p₁⟩ ⟨inner', q₁⟩ ⟨hflags₁, c, hlift, haligns⟩
  have hlinked : c.Respects Eq id
      (do
        join start inner.start
        join inner.stop stop
        alternatives start stop rest)
      (do
        join start inner'.start
        join inner'.stop stop
        alternatives start stop rest) := by
    have houter : c.Respects Eq id (join (c.lift start) inner.start) (join start inner'.start) :=
      Splice.respects_connect start haligns.start_eq.symm none
    have hend : c.Respects Eq id (join (c.lift inner'.stop) (c.lift stop))
        (join inner'.stop stop) :=
      c.respects_join inner'.stop stop
    have hothers := c.respects_alternatives rest start stop
    rw [hlift start hstart] at houter hothers
    rw [hlift stop hstop] at hend hothers
    rw [← haligns.stop_eq] at hend
    exact Splice.respects_bind houter fun _ => Splice.respects_bind hend fun _ => hothers
  refine (hlinked.concurs p₁ q₁ haligns.spliced hflags₁).mono ?_
  rintro ⟨_, p₂⟩ ⟨_, q₂⟩ ⟨_, hspliced, _⟩
  exact ⟨c, hspliced, haligns.leadsOn, hlift start hstart, hlift stop hstop⟩

/-- There is room for a state in both constructions, or one of them is too large. -/
theorem concur_newState (p q : Blueprint) :
    Concur (fun r r' => r = (p.size, p.added (.new p.nextId false)) ∧
        r' = (q.size, q.added (.new q.nextId false)))
      (outcome newState p) (outcome newState q) := by
  rw [outcome_newState, outcome_newState]
  split
  · exact .large (.inl rfl)
  · split
    · exact .large' (.inl rfl)
    · exact .answered ⟨rfl, rfl⟩

/-- The states at both ends of alternatives are added to both constructions at the same places. -/
theorem concur_ends {α β : Type} {same : α × Blueprint → β × Blueprint → Prop}
    {f : Nat → Nat → Step α} {g : Nat → Nat → Step β} {c : Splice} (h : c.Spliced p q)
    (hc : c.states = []) (hp : p.Unlinked)
    (hrest : ∀ p' q' : Blueprint, c.Spliced p' q' → p'.Unlinked → p'.size = p.size + 1 + 1 →
      p'.flags = p.flags → q'.flags = q.flags →
        Concur same (outcome (f p.size (p.size + 1)) p') (outcome (g p.size (p.size + 1)) q')) :
    Concur same (outcome (newState >>= fun start => newState >>= f start) p)
      (outcome (newState >>= fun start => newState >>= g start) q) := by
  have hsame : q.size = p.size := (h.size_eq_lift.trans (Splice.lift_of_nil hc _)).symm
  rw [outcome_bind, outcome_bind]
  refine (concur_newState p q).bind ?_
  rintro ⟨start, p₁⟩ ⟨start', q₁⟩ ⟨hfirst, hfirst'⟩
  cases hfirst
  cases hfirst'
  rw [outcome_bind, outcome_bind]
  refine (concur_newState _ _).bind ?_
  rintro ⟨stop, p₂⟩ ⟨stop', q₂⟩ ⟨hsecond, hsecond'⟩
  cases hsecond
  cases hsecond'
  rw [size_added, size_added, hsame]
  refine hrest _ _ ?_ ((hp.added p.nextId).added (p.nextId + 1)) ?_ rfl rfl
  · exact (h.added (State.copies_new _ p.nextId q.nextId)).added
      (State.copies_new _ (p.nextId + 1) (q.nextId + 1))
  · rw [size_added, size_added]

/-- A whole expression with options in front is what it is without them, but for their state. -/
theorem concur_root {t t' : Tree} (hled : Tree.Led opts t t') {c : Splice} (h : c.Spliced p q)
    (hc : c.states = []) (hp : p.Unlinked) (hflags : opts.apply p.flags = q.flags) :
    Concur (fun r r' => ∃ c : Splice, c.Aligns r r') (outcome (fragment t') p)
      (outcome (fragment t) q) := by
  cases hled with
  | items items =>
    exact (concur_leading h hc hp hflags items).mono fun _ _ ⟨_, c, _, haligns⟩ => ⟨c, haligns⟩
  | branches items rest =>
    rw [fragment, fragment, outcome_keepingFlags, outcome_keepingFlags]
    -- The flags of before are put back at the end.
    suffices hpaired : Concur (fun r r' => ∃ c : Splice, c.Aligns r r') (outcome _ p)
        (outcome _ q) from
      hpaired.map fun r r' ⟨c, haligns⟩ => ⟨c, haligns.spliced.withFlags _ _, haligns.leadsOn,
        haligns.start_eq, haligns.stop_eq⟩
    refine concur_ends h hc hp fun p₁ q₁ hspliced hunlinked hsize hflags₁ hflags₁' => ?_
    have hstart : p.size < p₁.size := by omega
    have hstop : p.size + 1 < p₁.size := by omega
    have hinner := concur_branches hspliced hc hunlinked (hflags₁ ▸ hflags₁' ▸ hflags) items rest
      hstart hstop
    rw [outcome_bind, outcome_bind]
    refine hinner.bind ?_
    rintro ⟨_, p₂⟩ ⟨_, q₂⟩ ⟨c, hspliced₂, hleads, hfirst, hlast⟩
    have hplace : c.place p.size = p.size := by
      have hplaced := c.place_lift p.size
      rwa [hfirst] at hplaced
    exact .answered ⟨c, hspliced₂, hleads, hplace, hlast.symm⟩

end Leading

/-! Whole automata. -/

/-- Adds the accepting state after an expression. -/
def closing (start stop : Nat) : Step Fragment := do
  let last ← newState
  join stop last
  change last fun s => { s with accepting := true }
  pure ⟨start, last⟩

theorem whole_eq (root : Tree) :
    whole root = fragment root >>= fun inner => closing inner.start inner.stop := rfl

theorem yields_closing (start stop : Nat) (p : Blueprint) :
    Yields (closing start stop) p fun f _ => f.start = start :=
  yields_bind_any fun _ _ => yields_bind_any fun _ _ => yields_bind_any fun _ _ => yields_pure rfl

/-- The accepting state is added in the same way, whatever the flags are by then. -/
theorem respects_closing (c : Splice) (start start' stop : Nat) :
    c.Respects (fun _ _ => True) (fun f => ⟨start, c.lift f.stop⟩) (closing start (c.lift stop))
      (closing start' stop) := by
  refine Splice.respects_bind Splice.respects_newState fun last => ?_
  refine Splice.respects_bind (c.respects_join stop last) fun _ => ?_
  refine Splice.respects_bind (Splice.respects_change last fun _ _ h => ?_) fun _ => ?_
  · exact ⟨rfl, h.marks_eq, h.groupIndex_eq, h.action_eq, h.transitions⟩
  · exact Splice.respects_pure (Fragment.mk start' last)

theorem concur_whole {opts : OptionSet} {p q : Blueprint} {t t' : Tree}
    (hled : Tree.Led opts t t') {c : Splice} (h : c.Spliced p q) (hc : c.states = [])
    (hp : p.Unlinked) (hflags : opts.apply p.flags = q.flags) :
    Concur (fun r r' => ∃ c : Splice, c.Aligns r r') (outcome (whole t') p)
      (outcome (whole t) q) := by
  rw [whole_eq, whole_eq, outcome_bind, outcome_bind]
  refine (concur_root hled h hc hp hflags).bind ?_
  rintro ⟨⟨start, stop⟩, p₁⟩ ⟨⟨start', stop'⟩, q₁⟩ ⟨c, hspliced, hleads, hstart, hstop⟩
  dsimp only at hspliced hstart hstop
  subst hstop
  refine ((respects_closing c start start' stop').concurs p₁ q₁ hspliced trivial).with_ok.mono ?_
  rintro ⟨_, p₂⟩ ⟨last, q₂⟩ ⟨⟨rfl, hspliced₂, _⟩, _, hlast⟩
  have hstart' := (yields_closing start' stop' q₁).of_outcome hlast
  exact ⟨c, hspliced₂, hleads, hstart.trans hstart'.symm, rfl⟩

theorem fst_run_ofTree (tree : SyntaxTree) (maxStates : Nat) (base : UInt32) :
    ((Automaton.ofTree tree maxStates).run base).1 =
      (outcome (whole tree.root) ⟨.empty .nfa, base, tree.flags, tree.groups, maxStates⟩).map
        fun r => { r.2.automaton with
          initial := some r.1.start, current := some r.1.start, flags := tree.flags } := by
  refine (congrArg Prod.fst (ofTree_eq tree tree.flags maxStates base)).trans ?_
  unfold outcome
  cases ((whole tree.root).run ⟨.empty .nfa, base, tree.flags, tree.groups, maxStates⟩).1 <;> rfl

/-- Options in front of a tree add to its automaton no more than a state that only leads on, unless
one of the automata is too large. -/
theorem concur_ofTree {opts : OptionSet} {more : Flags} {tree tree' : SyntaxTree}
    (hled : tree.Led opts more tree') (hopts : ∀ flags, opts.apply flags = flags.union more)
    (maxStates : Nat) (base base' : UInt32) :
    Concur Automaton.IsLed ((Automaton.ofTree tree' maxStates).run base).1
      ((Automaton.ofTree tree maxStates).run base').1 := by
  rw [fst_run_ofTree, fst_run_ofTree]
  have hstart : (Splice.mk 0 [] 0).Spliced
      ⟨.empty .nfa, base, tree'.flags, tree'.groups, maxStates⟩
      ⟨.empty .nfa, base', tree.flags, tree.groups, maxStates⟩ :=
    ⟨⟨rfl, Nat.le_refl 0, fun _ _ h => by simp [Automaton.empty] at h, fun _ _ h => by simp at h⟩,
      hled.groups⟩
  have hempty : Unlinked ⟨.empty .nfa, base, tree'.flags, tree'.groups, maxStates⟩ := by
    intro k s hs
    simp [Automaton.empty] at hs
  refine (concur_whole hled.root hstart rfl hempty ((hopts _).trans hled.flags.symm)).map ?_
  rintro ⟨f, p⟩ ⟨f', q⟩ ⟨c, haligns⟩
  exact ⟨c, f.start, f'.start, ⟨haligns.spliced.size_eq, haligns.spliced.front_le,
    haligns.spliced.kept, haligns.spliced.put⟩, haligns.leadsOn, rfl, rfl, haligns.start_eq⟩

end RegexEngine
