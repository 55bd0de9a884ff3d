import RegexEngine.Program.OfAutomaton
import RegexEngine.Proofs.Automaton.Charts
import RegexEngine.Proofs.Automaton.Determinize
import RegexEngine.Proofs.Program.Charts

/-!
Charts of the programs of automata. The block of a state is entered at the stage at which the state
is. It leads to other blocks by jumps and lookarounds, which are settled when it is known where the
blocks stand, so until then a chart of states says at which stages they are entered.
-/

namespace RegexEngine

namespace Draft

/-- A draft that stands at an address fits charts of states and of addresses. -/
def Charted (group : Nat) (enter chart : Nat → Stage) (at_ : Nat) : Draft → Prop
  | ready i => i.Charted group chart at_
  | jump state => (chart at_).Next (enter state)
  | look _ body next => ∃ z, Stage.Through false (chart at_) (enter body) z ∧ z.Next (chart next)

variable {group : Nat} {enter chart : Nat → Stage} {at_ : Nat} {d : Draft} {i : Instr}

/-- What was a state is the start of its block. -/
theorem Charted.settle {block? : Nat → Option Nat} (h : d.Charted group enter chart at_)
    (hblocks : ∀ s address, block? s = some address → (enter s).Next (chart address))
    (hsettle : d.settle block? = .ok i) : i.Charted group chart at_ := by
  cases d with
  | ready i =>
    cases hsettle
    exact h
  | jump state =>
    simp only [Draft.settle] at hsettle
    split at hsettle
    · rename_i address haddress
      cases hsettle
      exact Stage.Next.trans h (hblocks state address haddress)
    · cases hsettle
  | look kind body next =>
    simp only [Draft.settle] at hsettle
    split at hsettle
    · rename_i address haddress
      cases hsettle
      obtain ⟨z, hthrough, hnext⟩ := h
      exact ⟨z, hthrough.next (hblocks body address haddress), hnext⟩
    · cases hsettle

end Draft

namespace Lowering

variable {group : Nat} {enter : Nat → Stage} {at_ : Nat} {y z : Stage} {s : State}

/-- The drafts of a stretch that nothing has to stand behind. -/
abbrev Closed (group : Nat) (enter : Nat → Stage) (at_ : Nat) (y : Stage) (code : List Draft) :
    Prop :=
  Stretch Stage.Next (Draft.Charted group enter) at_ code y fun _ => True

/-- Instructions that only lead to the next one. -/
theorem stretch_onwards {code : List Draft}
    (h : ∀ d ∈ code, ∀ chart k, d.Charted group enter chart k = (chart k).Next (chart (k + 1))) :
    Stretch Stage.Next (Draft.Charted group enter) at_ code z z.Next := by
  induction code generalizing at_ with
  | nil => exact stretch_nil fun _ h => h
  | cons d rest ih =>
    have hfirst : Stretch Stage.Next (Draft.Charted group enter) at_ [d] z z.Next := by
      apply stretch_single
      intro chart hfirst hends
      rw [h d List.mem_cons_self, hfirst]
      exact hends
    exact hfirst.append (ih fun d hd => h d (List.mem_cons_of_mem _ hd))

theorem returns_labelCode (label : Label) : Returns (labelCode label) fun code =>
    Stretch Stage.Next (Draft.Charted group enter) at_ code z z.Next := by
  unfold labelCode
  split
  · apply returns_pure
    apply stretch_onwards
    intro d hd chart k
    obtain ⟨c, _, rfl⟩ := List.mem_map.mp hd
    rfl
  · apply returns_pure
    apply stretch_onwards
    intro d hd chart k
    obtain rfl := List.mem_singleton.mp hd
    rfl
  · refine returns_bind (returns_classInstr _) fun i hi => returns_pure ?_
    obtain ⟨offset, length, rfl⟩ := hi
    apply stretch_onwards
    intro d hd chart k
    obtain rfl := List.mem_singleton.mp hd
    rfl

/-- What a transition takes comes first, and then the jump to its target. -/
theorem transitionCode_cons (accepting : Bool) (at_ : Nat) (t : Transition)
    (rest : List Transition) : transitionCode accepting at_ (t :: rest) =
      (t.label.elim (pure []) labelCode >>= fun code =>
        let way := if rest.isEmpty && !accepting then code ++ [Draft.jump t.target]
          else .ready (.split (at_ + 1) (at_ + (code ++ [Draft.jump t.target]).length + 1)) ::
            (code ++ [.jump t.target])
        transitionCode accepting (at_ + way.length) rest >>= fun more => pure (way ++ more)) := by
  rw [transitionCode]
  cases t.label <;> rfl

/-- The transitions of a state lead to the blocks of their targets. -/
theorem returns_transitionCode {accepting : Bool} {ts : List Transition}
    (hsome : ts ≠ [] ∨ accepting = true) (hleads : ∀ t ∈ ts, z.Next (enter t.target)) :
    Returns (transitionCode accepting at_ ts) (Closed group enter at_ z) := by
  induction ts generalizing at_ with
  | nil =>
    obtain rfl : accepting = true := hsome.resolve_left fun h => h rfl
    exact returns_pure (stretch_single fun _ _ _ => trivial)
  | cons t rest ih =>
    have hlabel (at_ : Nat) : Returns (t.label.elim (pure []) labelCode) fun code =>
        Stretch Stage.Next (Draft.Charted group enter) at_ code z z.Next := by
      cases t.label with
      | none => exact returns_pure (stretch_nil fun _ h => h)
      | some label => exact returns_labelCode label
    have hjump (at_ : Nat) : Closed group enter at_ z [.jump t.target] := by
      apply stretch_single
      intro chart hfirst _
      rw [Draft.Charted, hfirst]
      exact hleads t List.mem_cons_self
    rw [transitionCode_cons]
    by_cases hlast : rest = [] ∧ accepting = false
    · obtain ⟨rfl, rfl⟩ := hlast
      refine returns_bind (hlabel at_) fun code hcode => ?_
      exact returns_pure (by simpa using hcode.append (hjump _))
    · have hmore : rest ≠ [] ∨ accepting = true := by
        by_cases hrest : rest = []
        · exact .inr (by simpa [hrest] using hlast)
        · exact .inl hrest
      have hsplit : (rest.isEmpty && !accepting) = false := by
        rcases hmore with h | h <;> simp [h]
      refine returns_bind (hlabel (at_ + 1)) fun code hcode => ?_
      have hway : Stretch Stage.Next (Draft.Charted group enter) (at_ + 1)
          (code ++ [.jump t.target]) z z.Next :=
        (hcode.append (hjump _)).leave fun _ _ => trivial
      simp only [hsplit, if_false, Bool.false_eq_true]
      refine returns_bind (ih hmore fun t ht => hleads t (List.mem_cons_of_mem _ ht))
        fun others hothers => returns_pure ?_
      refine Stretch.append (x := z) ?_ hothers
      apply hway.cons
      intro chart hfirst henter hends
      exact ⟨hfirst ▸ henter, hfirst ▸ hends⟩

theorem returns_exitCode (hleads : ∀ t ∈ s.transitions, z.Next (enter t.target)) :
    Returns (exitCode s at_) (Closed group enter at_ z) := by
  unfold exitCode
  split
  · exact returns_pure (stretch_single fun _ _ _ => trivial)
  · rename_i hsome
    apply returns_transitionCode _ hleads
    by_cases h : s.transitions = []
    · exact .inr (by simpa [h] using hsome)
    · exact .inl h

/-- What a state does after it was entered. A body is passed before it goes on. -/
theorem returns_actionCode (hleads : ∀ t ∈ s.transitions, z.Next (enter t.target))
    (hpassed : s.asks? = none → y = z)
    (hasks : ∀ body, s.asks? = some body → Stage.Through s.isAtomic y (enter body.start) z) :
    Returns (actionCode s at_) (Closed group enter at_ y) := by
  have hexit (at_ : Nat) : Returns (exitCode s at_) (Closed group enter at_ z) :=
    returns_exitCode hleads
  unfold actionCode
  split
  · exact returns_pure (stretch_single fun _ _ _ => trivial)
  · split
    · rename_i haction
      obtain rfl := hpassed (by simp [State.asks?, haction])
      exact hexit at_
    · exact returns_pure (stretch_single fun _ _ _ => trivial)
    · exact returns_pure (stretch_single fun _ _ _ => trivial)
    · rename_i haction
      obtain rfl := hpassed (by simp [State.asks?, haction])
      refine returns_bind_any fun _ => returns_bind (hexit _) fun code hcode => returns_pure ?_
      apply hcode.cons
      intro chart hfirst henter _
      change (chart at_).Next (chart (at_ + 1))
      exact hfirst ▸ henter
    · rename_i kind body haction
      refine returns_bind (hexit _) fun code hcode => returns_pure ?_
      have hthrough := hasks ⟨body, kind.isBehind⟩ (by simp [State.asks?, haction])
      rw [State.isAtomic_of_look (.inl haction)] at hthrough
      apply hcode.cons
      intro chart hfirst henter _
      exact ⟨z, hfirst ▸ hthrough, henter⟩
    · exact returns_throw _
    · exact returns_throw _
    · exact returns_throw _

/-- The instruction that checks what a state asserts. -/
theorem stretch_checks (marks : Marks) : Stretch Stage.Next (Instr.Charted group) at_
    (if marks.isEmpty then [] else [.boundary marks]) z z.Next := by
  split
  · exact stretch_nil fun _ h => h
  · exact stretch_onward (.same z) fun _ => rfl

/-- What a state opens and closes. -/
def saves (s : State) (group : Nat) : List Instr :=
  (if s.opensGroup then [.openGroup group] else []) ++
    if s.closesGroup then [.closeGroup group] else []

/-- A state without a group saves nothing. -/
theorem entryCode_ok {code : List Draft} (h : entryCode s = .ok code) :
    ∃ saved, code = (saved ++ if (s.marks.inter .assertions).isEmpty then []
        else [.boundary (s.marks.inter .assertions)]).map .ready ∧
      (saved = [] ∧ (∀ g, s.groupIndex ≠ some (g + 1)) ∨
        ∃ g, s.groupIndex = some (g + 1) ∧ saved = saves s (g + 1)) := by
  unfold entryCode at h
  split at h
  · rename_i g hgroup
    unfold groupOperand at h
    split at h
    · cases h
      exact ⟨saves s (g + 1), rfl, .inr ⟨g, hgroup, rfl⟩⟩
    · cases h
  · rename_i hgroup
    cases h
    exact ⟨[], rfl, .inl ⟨rfl, hgroup⟩⟩

theorem stretch_saves_other {other : Nat} (hpos : 0 < other) (hne : other ≠ group) :
    Stretch Stage.Next (Instr.Charted group) at_ (saves s other) z z.Next := by
  have hopens (at_ : Nat) : Stretch Stage.Next (Instr.Charted group) at_
      (if s.opensGroup then [.openGroup other] else []) z z.Next := by
    split
    · apply stretch_single
      intro chart hfirst hends
      rw [Instr.Charted, if_neg hne, hfirst]
      exact ⟨hpos, hends⟩
    · exact stretch_nil fun _ h => h
  have hcloses (at_ : Nat) : Stretch Stage.Next (Instr.Charted group) at_
      (if s.closesGroup then [.closeGroup other] else []) z z.Next := by
    split
    · apply stretch_single
      intro chart hfirst hends
      rw [Instr.Charted, if_neg hne, hfirst]
      exact ⟨hpos, hends⟩
    · exact stretch_nil fun _ h => h
  exact (hopens at_).append (hcloses _)

/-- What a state saves and checks takes it from the stage at which it is entered to the one at which
it is left, or at which it waits for its body. -/
theorem stretch_entryCode (at_ : Nat) {code : List Draft} (hgroup : 0 < group)
    (h : entryCode s = .ok code) (hturns : s.Turns group enter y z) :
    ∃ x, Stretch Stage.Next (Draft.Charted group enter) at_ code y x.Next ∧
      (s.asks? = none → x = z) ∧
        ∀ body, s.asks? = some body → Stage.Through s.isAtomic x (enter body.start) z := by
  obtain ⟨saved, rfl, hsaved⟩ := entryCode_ok h
  have hentry {x : Stage} (hsaves : Stretch Stage.Next (Instr.Charted group) at_ saved y x.Next) :
      Stretch Stage.Next (Draft.Charted group enter) at_ ((saved ++
        if (s.marks.inter .assertions).isEmpty then [] else [Instr.boundary (s.marks.inter .assertions)]).map .ready) y x.Next :=
    (hsaves.append (stretch_checks _)).map fun _ _ _ h => h
  have hother (hne : s.groupIndex ≠ some group) :
      Stretch Stage.Next (Instr.Charted group) at_ saved y y.Next := by
    rcases hsaved with ⟨rfl, _⟩ | ⟨g, hg, rfl⟩
    · exact stretch_nil fun _ h => h
    · exact stretch_saves_other (Nat.succ_pos g) fun heq => hne (heq ▸ hg)
  have hself (heq : s.groupIndex = some group) : saved = saves s group := by
    obtain ⟨g, rfl⟩ := Nat.exists_eq_succ_of_ne_zero (Nat.ne_of_gt hgroup)
    rcases hsaved with ⟨_, hnone⟩ | ⟨g', hg', rfl⟩
    · exact absurd heq (hnone g)
    · cases heq.symm.trans hg'
      rfl
  cases hturns with
  | passes hindex hasks hnext =>
    refine ⟨z, hentry ((hother hindex).leave fun _ h => hnext.trans h), fun _ => rfl, ?_⟩
    intro body hbody
    cases hasks.symm.trans hbody
  | asks hindex _ hasks hthrough =>
    refine ⟨y, hentry (hother hindex), fun hnone => ?_, fun body hbody => ?_⟩
    · cases hnone.symm.trans hasks
    · cases hbody.symm.trans hasks
      exact hthrough
  | opens hindex hopens hcloses hasks =>
    refine ⟨.within, hentry ?_, fun _ => rfl, fun body hbody => by cases hasks.symm.trans hbody⟩
    rw [hself hindex, saves, hopens, hcloses]
    apply stretch_single
    intro chart hfirst hends
    rw [Instr.Charted, if_pos rfl]
    exact ⟨hfirst, hends.isLevel (.inr rfl)⟩
  | closes hindex hopens hcloses hasks hnext =>
    refine ⟨z, hentry ?_, fun _ => rfl, fun body hbody => by cases hasks.symm.trans hbody⟩
    rw [hself hindex, saves, hopens, hcloses]
    apply stretch_single
    intro chart hfirst hends
    rw [Instr.Charted, if_pos rfl]
    exact ⟨hfirst, hnext.trans hends⟩

/-- The block of a state is entered at the stage at which the state is. -/
theorem returns_block (hgroup : 0 < group) (hturns : s.Turns group enter y z)
    (hleads : ∀ t ∈ s.transitions, z.Next (enter t.target)) :
    Returns (block s at_) (Closed group enter at_ y) := by
  intro l code l' hrun
  unfold block at hrun
  cases hentry : entryCode s with
  | error e =>
    rw [hentry] at hrun
    cases hrun
  | ok entry =>
    obtain ⟨x, hstretch, hpassed, hasks⟩ := stretch_entryCode at_ hgroup hentry hturns
    have haction : Returns (actionCode s (at_ + entry.length) >>= fun code => pure (entry ++ code))
        (Closed group enter at_ y) :=
      returns_bind (returns_actionCode hleads hpassed hasks) fun code hcode =>
        returns_pure (hstretch.append hcode)
    rw [hentry] at hrun
    exact haction l code l' hrun

/-- Blocks stand where it is said that they start, and are entered there at the stages of their
states. -/
theorem returns_blocks {a : Automaton} (hgroup : 0 < group) (hcharted : a.Charted group enter)
    (indices : List Nat) : Returns (blocks a at_ indices) fun made =>
      ∃ stages : List Stage, stages.length = made.1.length ∧ ∀ chart, HasStages chart at_ stages →
        AllFrom (Draft.Charted group enter chart) at_ made.1 ∧
          ∀ e ∈ made.2, (enter e.1).Next (chart e.2) := by
  induction indices generalizing at_ with
  | nil => exact returns_pure ⟨[], rfl, fun _ _ => ⟨trivial, by simp⟩⟩
  | cons index rest ih =>
    unfold blocks
    split
    · exact ih
    · rename_i s hs
      obtain ⟨z, hturns, hleads⟩ := hcharted index s hs
      refine returns_bind (returns_block hgroup hturns hleads) fun code hcode => ?_
      refine returns_bind ih fun made hmade => returns_pure ?_
      obtain ⟨stages, hlength, hfits⟩ := hcode
      obtain ⟨stages', hlength', hfits'⟩ := hmade
      refine ⟨stages ++ stages', by simp [hlength, hlength'], fun chart hstages => ?_⟩
      obtain ⟨hstages, hstages'⟩ := allFrom_append.mp hstages
      obtain ⟨henter, hblock⟩ := hfits chart hstages trivial
      obtain ⟨hblocks, hstarts⟩ := hfits' chart (hlength ▸ hstages')
      exact ⟨allFrom_append.mpr ⟨hblock, hblocks⟩, List.forall_mem_cons.mpr ⟨henter, hstarts⟩⟩

/-- The first block is that of the first state. -/
theorem returns_blocks_cons {a : Automaton} {index : Nat} (hs : index < a.stateCount)
    (rest : List Nat) : Returns (blocks a at_ (index :: rest)) fun made =>
      made.2.head? = some (index, at_) := by
  unfold blocks
  split
  · rename_i hnone
    rw [Array.getElem?_eq_none_iff] at hnone
    exact absurd hs (Nat.not_lt.mpr hnone)
  · exact returns_bind_any fun _ => returns_bind_any fun _ => returns_pure rfl

/-- Blocks are found where they start. -/
theorem mem_of_blockTable {size index address : Nat} {starts : List (Nat × Nat)}
    (h : (blockTable size starts)[index]?.join = some address) : (index, address) ∈ starts := by
  have hstored : (Graph.store Prod.fst (fun e => some e.2) (Array.replicate size none)
      starts)[index]? = some (some address) := Option.join_eq_some_iff.mp h
  rcases Graph.of_getElem?_store Prod.fst _ hstored with hempty | ⟨e, he, rfl, hvalue⟩
  · rw [Array.getElem?_replicate] at hempty
    split at hempty
    · cases hempty
    · cases hempty
  · cases hvalue
    exact he

end Lowering

namespace Program

variable {group : Nat} {z : Stage} {a : Automaton} {p : Program}

/-- A program is put together from blocks. -/
theorem ofAutomaton_ok (h : ofAutomaton a = .ok p) : ∃ drafts starts l l',
    (Lowering.blocks a 0 a.reachable).run l = .ok ((drafts, starts), l') ∧ p.classes = l'.classes ∧
      List.Forall₂ (fun d i => d.settle (fun s =>
        (Lowering.blockTable a.stateCount starts)[s]?.join) = .ok i) drafts p.instrs.toList := by
  unfold ofAutomaton at h
  cases hinitial : a.initial with
  | none =>
    rw [hinitial] at h
    cases h
  | some i =>
    rw [hinitial] at h
    cases hrun : (Lowering.blocks a 0 a.reachable).run ⟨a.flags, .empty⟩ with
    | error e =>
      rw [hrun] at h
      cases h
    | ok answer =>
      rw [hrun] at h
      obtain ⟨⟨drafts, starts⟩, l⟩ := answer
      refine ⟨drafts, starts, _, l, hrun, ?_⟩
      change (drafts.mapM (Draft.settle fun s =>
        (Lowering.blockTable a.stateCount starts)[s]?.join) >>=
          fun code => ofCode code a.groupCount [] a.flags l.classes) = .ok p at h
      cases hsettled : drafts.mapM
          (Draft.settle fun s => (Lowering.blockTable a.stateCount starts)[s]?.join) with
      | error e =>
        rw [hsettled] at h
        cases h
      | ok code =>
        rw [hsettled] at h
        obtain rfl := ofCode_ok h
        exact ⟨rfl, mapM_eq_ok.mp hsettled⟩

/-- A chart of an automaton gives one of its program. What it says of addresses outside is of no
matter. -/
theorem ofAutomaton_charted (hgroup : 0 < group) {enter : Nat → Stage}
    (hcharted : a.Charted group enter) (h : ofAutomaton a = .ok p) (beyond : Stage) :
    ∃ chart, p.Charted group chart ∧ (∀ at_, p.length ≤ at_ → chart at_ = beyond) ∧
      ∀ i, a.initial = some i → p.length ≠ 0 → (enter i).Next (chart 0) := by
  obtain ⟨drafts, starts, l, l', hrun, _, hsettled⟩ := ofAutomaton_ok h
  obtain ⟨stages, hlength, hfits⟩ := Lowering.returns_blocks hgroup hcharted a.reachable l _ l' hrun
  obtain ⟨hdrafts, haddresses⟩ := hfits _ (hasStages_getD stages beyond)
  refine ⟨fun k => stages[k]?.getD beyond, fun at_ instr hinstr => ?_, fun at_ hat => ?_,
    fun i hinitial hsome => ?_⟩
  · rw [← Array.getElem?_toList] at hinstr
    obtain ⟨hlt, rfl⟩ := List.getElem?_eq_some_iff.mp hinstr
    have hlt' : at_ < drafts.length := hsettled.length_eq ▸ hlt
    have hdraft := allFrom_iff.mp hdrafts at_ _ (List.getElem?_eq_getElem hlt')
    rw [Nat.zero_add] at hdraft
    apply hdraft.settle _ (hsettled.get hlt' hlt)
    intro s address hblock
    exact haddresses (s, address) (Lowering.mem_of_blockTable hblock)
  · have hout : stages.length ≤ at_ := by
      rw [hlength, hsettled.length_eq, Array.length_toList]
      exact hat
    dsimp only
    rw [List.getElem?_eq_none hout]
    rfl
  · rw [Automaton.reachable, hinitial] at hrun
    by_cases hi : i < a.stateCount
    · have hfirst :
          (Graph.breadthFirst a.successors (Graph.unseen a.stateCount) [i])[0]? = some i :=
        Graph.breadthFirst_start hi
      cases hlist : Graph.breadthFirst a.successors (Graph.unseen a.stateCount) [i] with
      | nil => simp [hlist] at hfirst
      | cons first rest =>
        obtain rfl : first = i := by simpa [hlist] using hfirst
        rw [Option.toList_some, hlist] at hrun
        have hhead := Lowering.returns_blocks_cons hi rest l _ l' hrun
        exact haddresses (first, 0) (List.mem_of_mem_head? (by rw [hhead]; rfl))
    · -- A start that is no state has no block, and the program has no instructions.
      have hempty : Graph.breadthFirst a.successors (Graph.unseen a.stateCount) [i] = [] := by
        rw [Graph.breadthFirst, dif_neg (by simpa [Graph.unseen] using hi), Graph.breadthFirst]
      rw [Option.toList_some, hempty] at hrun
      cases hrun
      exact absurd hsettled.length_eq.symm hsome

/-- The program of an automaton is entered where the automaton is. -/
theorem ofAutomaton_startsAt (hgroup : 0 < group) (hstarts : a.StartsAt group z)
    (h : ofAutomaton a = .ok p) : p.StartsAt group z := by
  obtain ⟨enter, i, hcharted, hinitial, hstart⟩ := hstarts
  obtain ⟨chart, hchart, hbeyond, hfirst⟩ := ofAutomaton_charted hgroup hcharted h z
  refine ⟨chart, hchart, ?_⟩
  by_cases hempty : p.length = 0
  · rw [hbeyond 0 (Nat.le_of_eq hempty)]
    exact .same z
  · exact hstart.trans (hfirst i hinitial hempty)

end Program

end RegexEngine
