import RegexEngine.Proofs.Automaton.Determinize
import RegexEngine.Proofs.Automaton.Independence
import RegexEngine.Proofs.Automaton.Layout
import RegexEngine.Proofs.Automaton.OfTree
import RegexEngine.Proofs.Tree.Alternatives

/-!
Compiled automata are trim. The fragment of every expression has all states that were added for it:
each of them can be reached from its start, and what follows comes to its stop, or to the end of a
body. The one exception are alternatives without any, which no pattern has.
-/

namespace RegexEngine

namespace Blueprint

open Automaton RegexEngine.Tree

variable {base : UInt32} {p : Blueprint} {build : Step Fragment}

/-- From wherever a step starts, it builds a fragment that has all states that it adds. -/
def Constructs (base : UInt32) (build : Step Fragment) : Prop :=
  ∀ p : Blueprint, p.Sound base → Yields build p fun f p' => Lays base p p' f.start f.stop

theorem constructs_skip (base : UInt32) : Constructs base skip :=
  fun _ h => yields_map (lays_newState h) fun _ _ hlays => hlays

/-- The flags in effect do not count. -/
theorem Sound.withFlags (h : p.Sound base) (flags : Flags) :
    Sound base { p with flags := flags } :=
  ⟨h.kind_eq, h.ids_eq, h.nextId_eq, h.size_le, h.fits⟩

theorem constructs_flags? {build : Flags → Step Fragment}
    (h : ∀ flags, Constructs base (build flags)) : Constructs base (flags? >>= build) := by
  intro p hsound
  refine yields_bind (yields_flags? p) fun flags p' hp => ?_
  obtain ⟨rfl, rfl⟩ := hp
  exact h _ _ hsound

theorem constructs_keepingFlags (h : Constructs base build) :
    Constructs base (keepingFlags build) := by
  intro p hsound
  refine yields_bind (yields_flags? p) fun flags p' hp => ?_
  obtain ⟨rfl, rfl⟩ := hp
  refine yields_bind (h _ hsound) fun f p₁ hlays => ?_
  intro f' p₂ hrun
  cases hrun
  exact ⟨⟨hlays.sound.withFlags _, hlays.grows, hlays.size_le, hlays.bound_eq⟩, hlays.start_ge,
    hlays.start_lt, hlays.stop_ge, hlays.stop_lt, hlays.owns⟩

/-- Options change the flags first. -/
theorem constructs_withOptions (h : Constructs base build) (opts : OptionSet) :
    Constructs base (do
      modify fun p => { p with flags := opts.apply p.flags }
      build) := by
  intro p hsound
  have hmodified : Yields (modify fun p => { p with flags := opts.apply p.flags }) p
      fun _ p' => p' = { p with flags := opts.apply p.flags } := yields_modify rfl
  refine yields_bind hmodified fun _ p' hp => ?_
  subst hp
  intro f p' hrun
  have hlays := h _ (hsound.withFlags _) f p' hrun
  exact ⟨⟨hlays.sound, hlays.grows, hlays.size_le, hlays.bound_eq⟩, hlays.start_ge, hlays.start_lt,
    hlays.stop_ge, hlays.stop_lt, hlays.owns⟩

theorem constructs_consuming (base : UInt32) (label : List Char) :
    Constructs base (consuming label) := by
  intro p hsound
  refine yields_bind (lays_newState hsound) fun start p₁ hstart => ?_
  refine yields_bind (lays_newState hstart.sound) fun stop p₂ hstop => ?_
  have hlt : start < p₂.size := Nat.lt_of_lt_of_le hstart.start_lt hstop.size_le
  cases hlabel : Label.ofChars label with
  | error e =>
    intro f p' hrun
    cases hrun
  | ok label =>
    have hlinks := hstop.sound.connect hlt hstop.start_lt (some label)
    intro f p' hrun
    cases hrun
    have hfirst := On.of_passes (.refl _ start) hlinks.passes
    have hlast := On.of_passes hlinks.passes (.refl _ stop)
    refine ⟨(hstart.toContinues.trans hstop.toContinues).trans hlinks.toContinues,
      hstart.start_ge, ?_, Nat.le_trans hstart.size_le hstop.start_ge, ?_, ?_⟩
    · exact hlinks.size_eq ▸ hlt
    · exact hlinks.size_eq ▸ hstop.start_lt
    · rw [hlinks.size_eq]
      exact (hstart.owns.within (hstop.grows.trans hlinks.grows) hfirst hfirst).append
        (hstop.owns.within hlinks.grows hlast hlast)

/-! Bodies. -/

/-- What was built last is the body of an action, if anything was: it can be reached from where the
action goes, and comes to an end of its own. -/
structure Encloses (base : UInt32) (p p' : Blueprint) (action : Action) : Prop
    extends Continues base p p' where
  body_lt : ∀ b, action.body? = some b → b < p'.size
  inside : ∀ s, p.size ≤ s → s < p'.size →
    p'.automaton.IsLive s ∧ ∃ b, action.body? = some b ∧ p'.automaton.Reaches b s

theorem Sound.encloses (h : p.Sound base) {action : Action} (hbody : action.body? = none) :
    Encloses base p p action :=
  ⟨.refl h, fun b hb => (by rw [hbody] at hb; cases hb),
    fun _ hs hlt => absurd hs (Nat.not_le_of_lt hlt)⟩

theorem encloses_closeBody {p' : Blueprint} {inner : Fragment}
    (h : Lays base p p' inner.start inner.stop) :
    Yields (closeBody inner) p' fun b p'' =>
      ∀ action : Action, action.body? = some b → Encloses base p p'' action := by
  refine yields_bind (lays_markedState h.sound .bodyEnd) fun stop p₂ ⟨hstop, hend⟩ => ?_
  have hlt := Nat.lt_of_lt_of_le h.stop_lt hstop.size_le
  refine yields_bind (links_join hstop.sound hlt hstop.start_lt) fun _ p₃ hlinks => ?_
  refine yields_pure fun action hbody => ?_
  have hlive : p₃.automaton.IsLive stop := hlinks.grows.isLive (hend (by decide))
  have hgrows := hstop.grows.trans hlinks.grows
  have hpasses := (hgrows.passes h.passes).trans hlinks.passes
  have hfirst := On.of_passes (.refl _ inner.start) hpasses
  have hlast := On.of_passes hpasses (.refl _ stop)
  have howns : p₃.automaton.Owns inner.start stop p.size p₃.size := by
    rw [hlinks.size_eq]
    exact (h.owns.within hgrows hfirst
      (.of_passes (hgrows.passes h.passes) hlinks.passes)).append
        (hstop.owns.within hlinks.grows hlast hlast)
  refine ⟨(h.toContinues.trans hstop.toContinues).trans hlinks.toContinues, fun b hb => ?_,
    fun s hs hlt => ⟨(howns s hs hlt).comesTo.isLive hlive, _, hbody, (howns s hs hlt).reached⟩⟩
  cases hbody.symm.trans hb
  exact hlinks.size_eq ▸ Nat.lt_of_lt_of_le h.start_lt hstop.size_le

theorem encloses_body (h : Constructs base build) (hsound : p.Sound base) :
    Yields (body build) p fun b p' =>
      ∀ action : Action, action.body? = some b → Encloses base p p' action :=
  yields_bind (constructs_keepingFlags h p hsound) fun _ _ hlays => encloses_closeBody hlays

/-- A state with an action has the body of the action with it. -/
theorem lays_actionState {p' : Blueprint} {action : Action} (h : Encloses base p p' action) :
    Yields (actionState action) p' fun s p'' => Lays base p p'' s s := by
  intro s p'' hrun
  obtain ⟨rfl, rfl, hroom⟩ :=
    yields_placed (fun state => { state with action := some action }) p' s p'' hrun
  have hadded : Continues base p' (p'.added { State.new p'.nextId false with action := action }) :=
    h.sound.added hroom rfl rfl h.body_lt
  have hstate : (p'.added { State.new p'.nextId false with action := action }).automaton.states[
      p'.size]? = some { State.new p'.nextId false with action := action } := by
    simp [added, withState, size, stateCount]
  refine ⟨h.toContinues.trans hadded, h.size_le, by simp, h.size_le, by simp, ?_⟩
  refine Owns.append ?_ hadded.lays.owns
  intro s hs hlt
  obtain ⟨hlive, b, hb, hreached⟩ := h.inside s hs hlt
  refine ⟨Relation.ReflTransGen.head ?_ (hadded.grows.reaches hreached),
    .inl (hadded.grows.isLive hlive)⟩
  rw [successors_eq hstate]
  simp [State.successors, hb]

/-! Groups, conditions and repetitions. -/

/-- Opening or closing a group adds to a state only. -/
theorem continues_mark (h : p.Sound base) (index : Nat) {f : State → State} (mark : Marks)
    (hmark : mark.inter .bodyEnd = .empty)
    (hf : ∀ state : State, (f state).id = state.id ∧ (f state).transitions = state.transitions ∧
      (f state).action = state.action ∧ (f state).accepting = state.accepting ∧
      (f state).marks = state.marks.union mark) :
    Yields (change index f) p fun _ p' => Continues base p p' ∧ p'.size = p.size := by
  refine yields_modify ⟨h.changed (fun state => (hf state).1) (fun state => ?_) fun state hfits => ?_,
    size_changed ..⟩
  · obtain ⟨_, htransitions, haction, haccepting, hmarks⟩ := hf state
    refine ⟨fun t ht => htransitions ▸ ht, haction, fun hfinal => ?_⟩
    rw [isFinal, haccepting, haction, hmarks, Marks.contains_eq_inter, Marks.inter_union hmark]
    exact hfinal
  · obtain ⟨_, htransitions, haction, _, _⟩ := hf state
    refine ⟨fun t ht => hfits.source_eq t (htransitions ▸ ht),
      fun t ht => hfits.target_lt t (htransitions ▸ ht), fun b hb => hfits.body_lt b ?_⟩
    rw [← haction]
    exact hb

theorem constructs_captured (h : Constructs base build) (index : Nat) (name : Option String) :
    Constructs base (captured index name build) := by
  intro p hsound
  refine yields_bind (lays_newState hsound) fun start p₁ hstart => ?_
  refine yields_bind (h p₁ hstart.sound) fun inner p₂ hinner => ?_
  refine yields_bind (lays_newState hinner.sound) fun stop p₃ hstop => ?_
  refine yields_bind (continues_mark hstop.sound start .groupStart (by decide)
    fun state => ⟨rfl, rfl, rfl, rfl, rfl⟩) fun _ p₄ ⟨hopen, hsize₄⟩ => ?_
  refine yields_bind (continues_mark hopen.sound stop .groupEnd (by decide)
    fun state => ⟨rfl, rfl, rfl, rfl, rfl⟩) fun _ p₅ ⟨hclose, hsize₅⟩ => ?_
  have hsize : p₅.size = p₃.size := hsize₅.trans hsize₄
  have hbounds := And.intro hinner.size_le hstop.size_le
  refine yields_bind (links_join hclose.sound (s := start) (t := inner.start)
    (by have := hstart.start_lt; omega) (by have := hinner.start_lt; omega))
    fun _ p₆ henter => ?_
  refine yields_bind (links_join henter.sound (s := inner.stop) (t := stop)
    (by have := hinner.stop_lt; have := henter.size_eq; omega)
    (by have := hstop.start_lt; have := henter.size_eq; omega)) fun _ p₇ hleave => ?_
  have hsize' : p₇.size = p₃.size := hleave.size_eq.trans (henter.size_eq.trans hsize)
  have hgrows₃ : p₃.automaton.Grows p₇.automaton :=
    (hopen.grows.trans hclose.grows).trans (henter.grows.trans hleave.grows)
  have hgrows₂ := hstop.grows.trans hgrows₃
  have hgrows₁ := hinner.grows.trans hgrows₂
  have hin := hleave.grows.passes henter.passes
  have hacross := hgrows₂.passes hinner.passes
  have hout := hleave.passes
  have hlays : Lays base p p₇ start stop := ?_
  · exact yields_pure hlays
  refine ⟨?_, hstart.start_ge, ?_, ?_, ?_, ?_⟩
  · exact ((hstart.toContinues.trans hinner.toContinues).trans hstop.toContinues).trans
      ((hopen.trans hclose).trans (henter.toContinues.trans hleave.toContinues))
  · have := hstart.start_lt
    omega
  · have := hstart.size_le
    have := hstop.start_ge
    omega
  · have := hstop.start_lt
    omega
  · rw [hsize']
    have hfirst := On.of_passes (.refl _ start) (hin.trans (hacross.trans hout))
    have hlast := On.of_passes (hin.trans (hacross.trans hout)) (.refl _ stop)
    refine (hstart.owns.within hgrows₁ hfirst hfirst).append (Owns.append ?_
      (hstop.owns.within hgrows₃ hlast hlast))
    exact hinner.owns.within hgrows₂ (.of_passes hin (hacross.trans hout))
      (.of_passes (hin.trans hacross) hout)

/-- A condition with its branches, after the body that it looks at. -/
theorem lays_conditional {p' : Blueprint} {condition : Condition} {yes no : Step Fragment}
    (h : Encloses base p p' (.branch condition)) (hyes : Constructs base yes)
    (hno : Constructs base no) :
    Yields (conditional condition yes no) p' fun f p'' => Lays base p p'' f.start f.stop := by
  refine yields_bind (lays_actionState h) fun s p₁ hs => ?_
  refine yields_bind (lays_newState hs.sound) fun stop p₂ hstop => ?_
  refine yields_bind (constructs_keepingFlags hyes p₂ hstop.sound) fun yes p₃ hyes => ?_
  refine yields_bind (constructs_keepingFlags hno p₃ hyes.sound) fun no p₄ hno => ?_
  have hbounds := And.intro hstop.size_le (And.intro hyes.size_le hno.size_le)
  have hslt : s < p₄.size := by have := hs.start_lt; omega
  have hstoplt : stop < p₄.size := by have := hstop.start_lt; omega
  have hyeslt : yes.start < p₄.size ∧ yes.stop < p₄.size := by
    have := hyes.start_lt
    have := hyes.stop_lt
    omega
  refine yields_bind (links_join hno.sound hslt hyeslt.1) fun _ p₅ hinYes => ?_
  refine yields_bind (links_join hinYes.sound (hinYes.size_eq ▸ hslt)
    (hinYes.size_eq ▸ hno.start_lt)) fun _ p₆ hinNo => ?_
  have hsize₆ : p₆.size = p₄.size := hinNo.size_eq.trans hinYes.size_eq
  refine yields_bind (links_join hinNo.sound (hsize₆ ▸ hyeslt.2) (hsize₆ ▸ hstoplt))
    fun _ p₇ houtYes => ?_
  have hsize₇ : p₇.size = p₄.size := houtYes.size_eq.trans hsize₆
  refine yields_bind (links_join houtYes.sound (hsize₇ ▸ hno.stop_lt) (hsize₇ ▸ hstoplt))
    fun _ p₈ houtNo => ?_
  have hsize₈ : p₈.size = p₄.size := houtNo.size_eq.trans hsize₇
  have hgrows₆ := houtYes.grows.trans houtNo.grows
  have hgrows₄ := (hinYes.grows.trans hinNo.grows).trans hgrows₆
  have hgrows₃ := hno.grows.trans hgrows₄
  have hgrows₂ := hyes.grows.trans hgrows₃
  have hinYes' := (hinNo.grows.trans hgrows₆).passes hinYes.passes
  have hinNo' := hgrows₆.passes hinNo.passes
  have houtYes' := houtNo.grows.passes houtYes.passes
  have hyes' := hgrows₃.passes hyes.passes
  have hno' := hgrows₄.passes hno.passes
  have hlays : Lays base p p₈ s stop := ?_
  · exact yields_pure hlays
  refine ⟨?_, hs.start_ge, hsize₈ ▸ hslt, ?_, hsize₈ ▸ hstoplt, ?_⟩
  · exact ((hs.toContinues.trans hstop.toContinues).trans
      (hyes.toContinues.trans hno.toContinues)).trans
        ((hinYes.toContinues.trans hinNo.toContinues).trans
          (houtYes.toContinues.trans houtNo.toContinues))
  · exact Nat.le_trans hs.size_le hstop.start_ge
  · rw [hsize₈]
    have hall := hinYes'.trans (hyes'.trans houtYes')
    have hfirst := On.of_passes (.refl _ s) hall
    have hlast := On.of_passes hall (.refl _ stop)
    have hyesOwns := hyes.owns.within hgrows₃ (.of_passes hinYes' (hyes'.trans houtYes'))
      (.of_passes (hinYes'.trans hyes') houtYes')
    have hnoOwns := hno.owns.within hgrows₄ (.of_passes hinNo' (hno'.trans houtNo.passes))
      (.of_passes (hinNo'.trans hno') houtNo.passes)
    exact (hs.owns.within (hstop.grows.trans hgrows₂) hfirst hfirst).append
      ((hstop.owns.within hgrows₂ hlast hlast).append (hyesOwns.append hnoOwns))

/-- What a step appends belongs between a state that was there and the state that it answers with.
-/
structure Prolongs (base : UInt32) (p p' : Blueprint) (last last' : Nat) : Prop
    extends Continues base p p' where
  last_lt : last' < p'.size
  last_ge : last' = last ∨ p.size ≤ last'
  passes : p'.automaton.Passes last last'
  owns : p'.automaton.Owns last last' p.size p'.size

theorem Sound.prolongs (h : p.Sound base) {last : Nat} (hlast : last < p.size) :
    Prolongs base p p last last :=
  ⟨.refl h, hlast, .inl rfl, .refl _ _, fun _ hs hlt => absurd hs (Nat.not_le_of_lt hlt)⟩

/-- A fragment that the state leads to is appended, and then the rest. -/
theorem Lays.prolongs {p₁ p₂ p₃ : Blueprint} {start stop last last' : Nat}
    (h : Lays base p p₁ start stop) (hlinks : Links base p₁ p₂ last start)
    (hrest : Prolongs base p₂ p₃ stop last') : Prolongs base p p₃ last last' := by
  have hgrows := hlinks.grows.trans hrest.grows
  have hin := hrest.grows.passes hlinks.passes
  have hacross := hgrows.passes h.passes
  refine ⟨(h.toContinues.trans hlinks.toContinues).trans hrest.toContinues, hrest.last_lt, ?_,
    hin.trans (hacross.trans hrest.passes), ?_⟩
  · rcases hrest.last_ge with heq | hge
    · exact .inr (heq ▸ h.stop_ge)
    · exact .inr (Nat.le_trans h.size_le (hlinks.size_eq ▸ hge))
  · have hmore := hlinks.size_eq ▸ hrest.owns
    exact (h.owns.within hgrows (.of_passes hin (hacross.trans hrest.passes))
      (.of_passes (hin.trans hacross) hrest.passes)).append
        (hmore.within (.refl _) (.of_passes (hin.trans hacross) hrest.passes)
          (.of_passes (hin.trans (hacross.trans hrest.passes)) (.refl _ _)))

/-- A fragment to whose stop something is appended. -/
theorem Lays.prolonged {p₁ p₂ : Blueprint} {start stop stop' : Nat}
    (h : Lays base p p₁ start stop) (hrest : Prolongs base p₁ p₂ stop stop') :
    Lays base p p₂ start stop' := by
  have hacross := hrest.grows.passes h.passes
  refine ⟨h.toContinues.trans hrest.toContinues, h.start_ge,
    Nat.lt_of_lt_of_le h.start_lt hrest.size_le, ?_, hrest.last_lt, ?_⟩
  · rcases hrest.last_ge with heq | hge
    · exact heq ▸ h.stop_ge
    · exact Nat.le_trans h.size_le hge
  · exact (h.owns.within hrest.grows (.of_passes (.refl _ _) (hacross.trans hrest.passes))
      (.of_passes hacross hrest.passes)).append
        (hrest.owns.within (.refl _) (.of_passes hacross hrest.passes)
          (.of_passes (hacross.trans hrest.passes) (.refl _ _)))

theorem prolongs_copies (h : Constructs base build) (n : Nat) :
    ∀ {p : Blueprint} {last : Nat}, p.Sound base → last < p.size →
      Yields (copies build n last) p fun last' p' => Prolongs base p p' last last' := by
  induction n with
  | zero => exact fun hsound hlast => yields_pure (hsound.prolongs hlast)
  | succ n ih =>
    intro p last hsound hlast
    refine yields_bind (h p hsound) fun inner p₁ hinner => ?_
    refine yields_bind (links_join hinner.sound (Nat.lt_of_lt_of_le hlast hinner.size_le)
      hinner.start_lt) fun _ p₂ hlinks => ?_
    intro last' p₃ hrun
    have hstop : inner.stop < p₂.size := hlinks.size_eq ▸ hinner.stop_lt
    exact hinner.prolongs hlinks (ih hlinks.sound hstop last' p₃ hrun)

theorem prolongs_optionalCopies (h : Constructs base build) (exit : Nat) (greedy : Bool) (n : Nat) :
    ∀ {p : Blueprint} {last : Nat}, p.Sound base → last < p.size → exit < p.size →
      Yields (optionalCopies build exit greedy n last) p fun last' p' =>
        Prolongs base p p' last last' := by
  induction n with
  | zero => exact fun hsound hlast _ => yields_pure (hsound.prolongs hlast)
  | succ n ih =>
    intro p last hsound hlast hexit
    refine yields_bind (h p hsound) fun inner p₁ hinner => ?_
    have hexit₁ : exit < p₁.size := Nat.lt_of_lt_of_le hexit hinner.size_le
    refine yields_bind (links_choice hinner.sound (Nat.lt_of_lt_of_le hlast hinner.size_le)
      hinner.start_lt hexit₁ greedy) fun _ p₂ ⟨hlinks, _⟩ => ?_
    intro last' p₃ hrun
    have hsize := hlinks.size_eq
    exact hinner.prolongs hlinks (ih hlinks.sound (hsize ▸ hinner.stop_lt) (hsize ▸ hexit₁)
      last' p₃ hrun)

theorem constructs_bounded (h : Constructs base build) (min max : Nat) (greedy : Bool) :
    Constructs base (repetition build min (some max) greedy) := by
  intro p hsound
  refine yields_bind (lays_newState hsound) fun start p₁ hstart => ?_
  refine yields_bind (prolongs_copies h min hstart.sound hstart.start_lt)
    fun last p₂ hcopies => ?_
  refine yields_bind (lays_newState hcopies.sound) fun exit p₃ hexit => ?_
  refine yields_bind (prolongs_optionalCopies h exit greedy (max - min) hexit.sound
    (Nat.lt_of_lt_of_le hcopies.last_lt hexit.size_le) hexit.start_lt) fun last' p₄ hmore => ?_
  have hexitlt : exit < p₄.size := Nat.lt_of_lt_of_le hexit.start_lt hmore.size_le
  refine yields_bind (links_join hmore.sound hmore.last_lt hexitlt) fun _ p₅ hleave => ?_
  have hbefore := hstart.prolonged hcopies
  have hgrows₃ := hmore.grows.trans hleave.grows
  have hgrows₂ := hexit.grows.trans hgrows₃
  have hin := hgrows₂.passes hbefore.passes
  have hacross := hleave.grows.passes hmore.passes
  have hout := hleave.passes
  have hlays : Lays base p p₅ start exit := ?_
  · exact yields_pure hlays
  refine ⟨(hbefore.toContinues.trans hexit.toContinues).trans
    (hmore.toContinues.trans hleave.toContinues), hbefore.start_ge, ?_,
    Nat.le_trans hbefore.size_le hexit.start_ge, hleave.size_eq ▸ hexitlt, ?_⟩
  · have := hbefore.start_lt
    have := hexit.size_le
    have := hmore.size_le
    have := hleave.size_eq
    omega
  · have hall := hin.trans (hacross.trans hout)
    have hlast := On.of_passes hall (.refl _ exit)
    rw [hleave.size_eq]
    refine (hbefore.owns.within hgrows₂ (.of_passes (.refl _ _) hall)
      (.of_passes hin (hacross.trans hout))).append
        ((hexit.owns.within hgrows₃ hlast hlast).append ?_)
    exact hmore.owns.within hleave.grows (.of_passes hin (hacross.trans hout))
      (.of_passes (hin.trans hacross) hout)

/-- However a loop leads back, its exit comes after it. -/
theorem lays_loop {p₁ p₂ p₃ p₄ : Blueprint} {start last exit : Nat} {inner : Fragment}
    (hbefore : Lays base p p₁ start last) (hinner : Lays base p₁ p₂ inner.start inner.stop)
    (hexit : Lays base p₂ p₃ exit exit) (hin : Links base p₃ p₄ last inner.start)
    (hout : p₄.automaton.Passes inner.stop exit) : Lays base p p₄ start exit := by
  have hgrows₂ := hexit.grows.trans hin.grows
  have hgrows₁ := hinner.grows.trans hgrows₂
  have hup := hgrows₁.passes hbefore.passes
  have hacross := hgrows₂.passes hinner.passes
  refine ⟨(hbefore.toContinues.trans hinner.toContinues).trans
    (hexit.toContinues.trans hin.toContinues), hbefore.start_ge, ?_, ?_,
    hin.size_eq ▸ hexit.start_lt, ?_⟩
  · have := hbefore.start_lt
    have := hinner.size_le
    have := hexit.size_le
    have := hin.size_eq
    omega
  · exact Nat.le_trans hbefore.size_le (Nat.le_trans hinner.size_le hexit.start_ge)
  · have hrest := hin.passes.trans (hacross.trans hout)
    have hlast := On.of_passes (hup.trans hrest) (.refl _ exit)
    rw [hin.size_eq]
    refine (hbefore.owns.within hgrows₁ (.of_passes (.refl _ _) (hup.trans hrest))
      (.of_passes hup hrest)).append (Owns.append ?_ (hexit.owns.within hin.grows hlast hlast))
    exact hinner.owns.within hgrows₂ (.of_passes (hup.trans hin.passes) (hacross.trans hout))
      (.of_passes (hup.trans (hin.passes.trans hacross)) hout)

theorem constructs_unbounded (h : Constructs base build) (min : Nat) (greedy : Bool) :
    Constructs base (repetition build min none greedy) := by
  intro p hsound
  refine yields_bind (lays_newState hsound) fun start p₁ hstart => ?_
  refine yields_bind (prolongs_copies h (min - 1) hstart.sound hstart.start_lt)
    fun last p₂ hcopies => ?_
  refine yields_bind (h p₂ hcopies.sound) fun inner p₃ hinner => ?_
  refine yields_bind (lays_newState hinner.sound) fun exit p₄ hexit => ?_
  have hbefore := hstart.prolonged hcopies
  have hlast : last < p₄.size := by
    have := hbefore.stop_lt
    have := hinner.size_le
    have := hexit.size_le
    omega
  have hinnerStart : inner.start < p₄.size :=
    Nat.lt_of_lt_of_le hinner.start_lt hexit.size_le
  have hinnerStop : inner.stop < p₄.size := Nat.lt_of_lt_of_le hinner.stop_lt hexit.size_le
  by_cases hmin : 0 < min
  · rw [if_pos hmin]
    refine yields_bind (links_join hexit.sound hlast hinnerStart) fun _ p₅ hin => ?_
    have hsize := hin.size_eq
    refine yields_bind (links_choice hin.sound (hsize ▸ hinnerStop) (hsize ▸ hinnerStart)
      (hsize ▸ hexit.start_lt) greedy) fun _ p₆ ⟨_, hout⟩ => ?_
    refine yields_pure (lays_loop hbefore hinner hexit ⟨?_, ?_, ?_⟩ hout.passes)
    · exact hin.toContinues.trans hout.toContinues
    · exact hout.size_eq.trans hsize
    · exact hout.grows.passes hin.passes
  · rw [if_neg hmin]
    refine yields_bind (links_choice hexit.sound hlast hinnerStart hexit.start_lt greedy)
      fun _ p₅ ⟨hin, hskip⟩ => ?_
    have hsize := hin.size_eq
    refine yields_bind (links_join hin.sound (hsize ▸ hinnerStop) (hsize ▸ hlast))
      fun _ p₆ hback => ?_
    refine yields_pure (lays_loop hbefore hinner hexit ⟨?_, ?_, ?_⟩
      (hback.passes.trans (hback.grows.passes hskip.passes)))
    · exact hin.toContinues.trans hback.toContinues
    · exact hback.size_eq.trans hsize
    · exact hback.grows.passes hin.passes

theorem constructs_quantified (h : Constructs base build) (q : Quantifier) :
    Constructs base (quantified q build) := by
  have hbuild := constructs_keepingFlags h
  have hrepetition (greedy : Bool) :
      Constructs base (repetition (keepingFlags build) q.min q.max greedy) := by
    cases q.max with
    | none => exact constructs_unbounded hbuild q.min greedy
    | some max => exact constructs_bounded hbuild q.min max greedy
  refine constructs_flags? fun flags => ?_
  by_cases hpossessive : q.possessive = true
  · rw [if_pos hpossessive]
    intro p hsound
    refine yields_bind (hrepetition true p hsound) fun inner p₁ hinner => ?_
    refine yields_bind (encloses_closeBody hinner) fun b p₂ hbody => ?_
    exact yields_map (lays_actionState (hbody (.atomic b) rfl)) fun _ _ hlays => hlays
  · rw [if_neg hpossessive]
    exact hrepetition _

/-! Expressions. -/

theorem constructs_marked (base : UInt32) (marks : Marks) :
    Constructs base (single <$> markedState marks) :=
  fun _ hsound => yields_map (lays_markedState hsound marks) fun _ _ h => h.1

theorem constructs_acting (base : UInt32) {action : Action} (hbody : action.body? = none) :
    Constructs base (single <$> actionState action) :=
  fun _ hsound => yields_map (lays_actionState (hsound.encloses hbody)) fun _ _ h => h

/-- Finding out which group is meant changes nothing. -/
theorem yields_resolve (ref : GroupRef) (p : Blueprint) :
    Yields (resolve ref) p fun _ p' => p' = p := by
  intro n p' hrun
  rw [run_resolve] at hrun
  exact (congrArg Prod.snd hrun).symm

theorem constructs_resolved (ref : GroupRef) {build : Nat → Step Fragment}
    (h : ∀ group, Constructs base (build group)) : Constructs base (resolve ref >>= build) := by
  intro p hsound
  refine yields_bind (yields_resolve ref p) fun group p' hp => ?_
  subst hp
  exact h group _ hsound

theorem constructs_acting_body (h : Constructs base build) {action : Nat → Action}
    (haction : ∀ b, (action b).body? = some b) :
    Constructs base (do single <$> actionState (action (← body build))) := by
  intro p hsound
  refine yields_bind (encloses_body h hsound) fun b p₁ hbody => ?_
  exact yields_map (lays_actionState (hbody _ (haction b))) fun _ _ h => h

theorem constructs_groupCond (ref : GroupRef) {yes no : Step Fragment}
    (hyes : Constructs base yes) (hno : Constructs base no) :
    Constructs base (do conditional (.group (← resolve ref)) yes no) :=
  constructs_resolved ref fun _ _ hsound => lays_conditional (hsound.encloses rfl) hyes hno

theorem constructs_lookCond (kind : LookKind) {test yes no : Step Fragment}
    (htest : Constructs base test) (hyes : Constructs base yes) (hno : Constructs base no) :
    Constructs base (do conditional (.look kind (← body test)) yes no) := by
  intro p hsound
  refine yields_bind (encloses_body htest hsound) fun b p₁ hbody => ?_
  exact lays_conditional (hbody _ rfl) hyes hno

/-- A step adds alternatives between two states, and some if it has to. -/
def Joins (base : UInt32) (add : Nat → Nat → Step Unit) (some : Prop) : Prop :=
  ∀ (p : Blueprint) (start stop : Nat), p.Sound base → start < p.size → stop < p.size →
    Yields (add start stop) p fun _ p' => Continues base p p' ∧
      p'.automaton.Owns start stop p.size p'.size ∧ (some → p'.automaton.Passes start stop)

theorem joins_cons {item : Tree} {rest : List Tree} (hitem : Constructs base (fragment item))
    (hrest : Joins base (fun start stop => alternatives start stop rest) (rest ≠ [])) :
    Joins base (fun start stop => alternatives start stop (item :: rest)) (item :: rest ≠ []) := by
  intro p start stop hsound hstart hstop
  refine yields_bind (hitem p hsound) fun inner p₁ hinner => ?_
  have hstart₁ := Nat.lt_of_lt_of_le hstart hinner.size_le
  have hstop₁ := Nat.lt_of_lt_of_le hstop hinner.size_le
  refine yields_bind (links_join hinner.sound hstart₁ hinner.start_lt) fun _ p₂ hin => ?_
  have hsize₂ := hin.size_eq
  refine yields_bind (links_join hin.sound (hsize₂ ▸ hinner.stop_lt) (hsize₂ ▸ hstop₁))
    fun _ p₃ hout => ?_
  have hsize₃ : p₃.size = p₁.size := hout.size_eq.trans hsize₂
  intro v p₄ hrun
  obtain ⟨hmore, howns, _⟩ :=
    hrest p₃ start stop hout.sound (hsize₃ ▸ hstart₁) (hsize₃ ▸ hstop₁) v p₄ hrun
  have hgrows₂ := hout.grows.trans hmore.grows
  have hgrows₁ := hin.grows.trans hgrows₂
  have hin' := hgrows₂.passes hin.passes
  have hacross := hgrows₁.passes hinner.passes
  have hout' := hmore.grows.passes hout.passes
  refine ⟨(hinner.toContinues.trans hin.toContinues).trans (hout.toContinues.trans hmore), ?_,
    fun _ => hin'.trans (hacross.trans hout')⟩
  refine Owns.append ?_ (hsize₃ ▸ howns)
  exact hinner.owns.within hgrows₁ (.of_passes hin' (hacross.trans hout'))
    (.of_passes (hin'.trans hacross) hout')

theorem constructs_alt {items : List Tree} (hitems : items ≠ [])
    (h : Joins base (fun start stop => alternatives start stop items) (items ≠ [])) :
    Constructs base (fragment (.alt items)) := by
  refine constructs_keepingFlags fun p hsound => ?_
  refine yields_bind (lays_newState hsound) fun start p₁ hstart => ?_
  refine yields_bind (lays_newState hstart.sound) fun stop p₂ hstop => ?_
  have hstart₂ := Nat.lt_of_lt_of_le hstart.start_lt hstop.size_le
  refine yields_bind (h p₂ start stop hstop.sound hstart₂ hstop.start_lt)
    fun _ p₃ ⟨hmore, howns, hpasses⟩ => ?_
  have hpasses := hpasses hitems
  have hfirst := On.of_passes (.refl _ start) hpasses
  have hlast := On.of_passes hpasses (.refl _ stop)
  have hlays : Lays base p p₃ start stop := ?_
  · exact yields_pure hlays
  refine ⟨(hstart.toContinues.trans hstop.toContinues).trans hmore, hstart.start_ge,
    Nat.lt_of_lt_of_le hstart₂ hmore.size_le, Nat.le_trans hstart.size_le hstop.start_ge,
    Nat.lt_of_lt_of_le hstop.start_lt hmore.size_le, ?_⟩
  exact (hstart.owns.within (hstop.grows.trans hmore.grows) hfirst hfirst).append
    ((hstop.owns.within hmore.grows hlast hlast).append howns)

/-- A step appends something to a fragment. -/
def Extends (base : UInt32) (append : Fragment → Step Fragment) : Prop :=
  ∀ (p : Blueprint) (before : Fragment), p.Sound base → before.stop < p.size →
    Yields (append before) p fun f p' =>
      f.start = before.start ∧ Prolongs base p p' before.stop f.stop

theorem extends_cons {item : Tree} {rest : List Tree} (hitem : Constructs base (fragment item))
    (hrest : Extends base (sequel · rest)) : Extends base (sequel · (item :: rest)) := by
  intro p before hsound hbefore
  refine yields_bind (hitem p hsound) fun inner p₁ hinner => ?_
  refine yields_bind (links_join hinner.sound (Nat.lt_of_lt_of_le hbefore hinner.size_le)
    hinner.start_lt) fun _ p₂ hlinks => ?_
  intro f p₃ hrun
  obtain ⟨hstart, hmore⟩ := hrest p₂ ⟨before.start, inner.stop⟩ hlinks.sound
    (hlinks.size_eq ▸ hinner.stop_lt) f p₃ hrun
  exact ⟨hstart, hinner.prolongs hlinks hmore⟩

theorem constructs_concat {item : Tree} {rest : List Tree}
    (hitem : Constructs base (fragment item)) (hrest : Extends base (sequel · rest)) :
    Constructs base (fragment (.concat (item :: rest))) := by
  intro p hsound
  refine yields_bind (hitem p hsound) fun first p₁ hfirst => ?_
  intro f p₂ hrun
  obtain ⟨hstart, hmore⟩ := hrest p₁ first hfirst.sound hfirst.stop_lt f p₂ hrun
  exact hstart ▸ hfirst.prolonged hmore

mutual

/-- The fragment of an expression has all states that are added for it. -/
theorem constructs_fragment (base : UInt32) : (t : Tree) → t.AlwaysOffers →
    Constructs base (fragment t)
  | .empty, _ => constructs_skip base
  | .comment _, _ => constructs_skip base
  | .invalid, _ => constructs_acting base rfl
  | .literal _, _ => constructs_flags? fun _ => constructs_consuming base _
  | .dot, _ => by
    refine constructs_flags? fun flags => ?_
    by_cases hdotAll : flags.contains .dotAll = true
    · rw [if_pos hdotAll]
      exact constructs_consuming base _
    · rw [if_neg hdotAll]
      exact constructs_consuming base _
  | .cls _ _, _ => constructs_flags? fun _ => constructs_consuming base _
  | .capture index name child, h => constructs_keepingFlags
      (constructs_captured (constructs_fragment base child ((alwaysOffers_capture ..).mp h))
        index name)
  | .group child, h =>
    constructs_keepingFlags (constructs_fragment base child (alwaysOffers_group.mp h))
  | .scope opts child, h => constructs_keepingFlags
      (constructs_withOptions (constructs_fragment base child ((alwaysOffers_scope ..).mp h)) opts)
  | .backref ref, _ =>
    constructs_resolved ref fun _ => constructs_flags? fun _ => constructs_acting base rfl
  | .repetition q child, h =>
    constructs_quantified (constructs_fragment base child ((alwaysOffers_repetition ..).mp h)) q
  | .anchor _, _ => constructs_flags? fun _ => constructs_marked base _
  | .boundary _, _ => constructs_marked base _
  | .look kind child, h =>
    constructs_acting_body (constructs_fragment base child ((alwaysOffers_look ..).mp h))
      fun _ => rfl
  | .atomic child, h =>
    constructs_acting_body (constructs_fragment base child (alwaysOffers_atomic.mp h)) fun _ => rfl
  | .options opts, _ => constructs_withOptions (constructs_skip base) opts
  | .groupCond ref yes none, h =>
    constructs_groupCond ref
      (constructs_fragment base yes ((alwaysOffers_groupCond ..).mp h).1) (constructs_skip base)
  | .groupCond ref yes (some no), h => by
    obtain ⟨hyes, hno⟩ := (alwaysOffers_groupCond ..).mp h
    exact constructs_groupCond ref (constructs_fragment base yes hyes)
      (constructs_fragment base no (hno no rfl))
  | .lookCond kind test yes none, h => by
    obtain ⟨htest, hyes, _⟩ := (alwaysOffers_lookCond ..).mp h
    exact constructs_lookCond kind (constructs_fragment base test htest)
      (constructs_fragment base yes hyes) (constructs_skip base)
  | .lookCond kind test yes (some no), h => by
    obtain ⟨htest, hyes, hno⟩ := (alwaysOffers_lookCond ..).mp h
    exact constructs_lookCond kind (constructs_fragment base test htest)
      (constructs_fragment base yes hyes) (constructs_fragment base no (hno no rfl))
  | .verb v, _ => constructs_acting base (by cases v <;> rfl)
  | .alt items, h => by
    obtain ⟨hsome, hitems⟩ := alwaysOffers_alt.mp h
    exact constructs_alt hsome (joins_alternatives base items hitems)
  | .concat [], _ => constructs_skip base
  | .concat (item :: rest), h => by
    obtain ⟨hitem, hrest⟩ := List.forall_mem_cons.mp (alwaysOffers_concat.mp h)
    exact constructs_concat (constructs_fragment base item hitem) (extends_sequel base rest hrest)

/-- Alternatives belong between the two states. -/
theorem joins_alternatives (base : UInt32) : (items : List Tree) →
    (∀ item ∈ items, item.AlwaysOffers) →
      Joins base (fun start stop => alternatives start stop items) (items ≠ [])
  | [], _ => fun _ _ _ hsound _ _ => yields_pure ⟨.refl hsound,
      fun _ hs hlt => absurd hs (Nat.not_le_of_lt hlt), fun h => absurd rfl h⟩
  | item :: rest, h => by
    obtain ⟨hitem, hrest⟩ := List.forall_mem_cons.mp h
    exact joins_cons (constructs_fragment base item hitem) (joins_alternatives base rest hrest)

/-- Expressions are appended with all their states. -/
theorem extends_sequel (base : UInt32) : (items : List Tree) →
    (∀ item ∈ items, item.AlwaysOffers) → Extends base (sequel · items)
  | [], _ => fun _ _ hsound hbefore => yields_pure ⟨rfl, hsound.prolongs hbefore⟩
  | item :: rest, h => by
    obtain ⟨hitem, hrest⟩ := List.forall_mem_cons.mp h
    exact extends_cons (constructs_fragment base item hitem) (extends_sequel base rest hrest)

end

/-- The whole automaton can be reached from its start, and from everywhere something ends. -/
theorem lays_whole {root : Tree} (hoffers : root.AlwaysOffers)
    (hsound : p.Sound base) :
    Yields (whole root) p fun f p' => Continues base p p' ∧ f.start < p'.size ∧
      ∀ s, p.size ≤ s → s < p'.size → p'.automaton.Reaches f.start s ∧ p'.automaton.IsLive s := by
  refine yields_bind (constructs_fragment base root hoffers p hsound) fun inner p₁ hinner => ?_
  refine yields_bind (lays_newState hinner.sound) fun stop p₂ hstop => ?_
  refine yields_bind (links_join hstop.sound (Nat.lt_of_lt_of_le hinner.stop_lt hstop.size_le)
    hstop.start_lt) fun _ p₃ hlinks => ?_
  have hstop₃ : stop < p₃.size := hlinks.size_eq ▸ hstop.start_lt
  have haccepts : Continues base p₃ (p₃.changed stop fun s => { s with accepting := true }) :=
    hlinks.sound.changed (fun _ => rfl)
      (fun _ => ⟨fun _ ht => ht, rfl, fun _ => rfl⟩) fun _ hfits => ⟨hfits.1, hfits.2, hfits.3⟩
  have hlive : (p₃.changed stop fun s => { s with accepting := true }).automaton.IsLive stop := by
    have hstate : p₃.automaton.states[stop]? = some p₃.automaton.states[stop] :=
      Array.getElem?_eq_getElem hstop₃
    refine ⟨stop, { p₃.automaton.states[stop] with accepting := true }, .refl, ?_, rfl⟩
    rw [changed, modifyState, Array.getElem?_modify, if_pos rfl, hstate]
    rfl
  intro f p₄ hrun
  cases hrun
  have hgrows₂ := hlinks.grows.trans haccepts.grows
  have hgrows₁ := hstop.grows.trans hgrows₂
  have hacross := hgrows₁.passes hinner.passes
  have hout := haccepts.grows.passes hlinks.passes
  have hsize : (p₃.changed stop fun s => { s with accepting := true }).size = p₂.size :=
    (size_changed ..).trans hlinks.size_eq
  refine ⟨(hinner.toContinues.trans hstop.toContinues).trans (hlinks.toContinues.trans haccepts),
    ?_, fun s hs hlt => ?_⟩
  · exact hsize ▸ Nat.lt_of_lt_of_le hinner.start_lt hstop.size_le
  · have hlast := On.of_passes (hacross.trans hout) (.refl _ stop)
    have howns := (hinner.owns.within hgrows₁ (.of_passes (.refl _ _) (hacross.trans hout))
      (.of_passes hacross hout)).append (hstop.owns.within hgrows₂ hlast hlast)
    have hon := howns s hs (hsize ▸ hlt)
    exact ⟨hon.reached, hon.comesTo.isLive hlive⟩

theorem sound_empty (base : UInt32) (flags : Flags) (groups : List (Option String))
    (maxStates : Nat) : Sound base ⟨.empty .nfa, base, flags, groups, maxStates⟩ := by
  refine ⟨rfl, rfl, (UInt32.add_zero base).symm, Nat.zero_le _, fun k s hs => ?_⟩
  simp [Automaton.empty] at hs

end Blueprint

namespace Automaton

/-- An automaton that was compiled refers to nothing that is not there. As long as its states are told
apart by their identifiers, it makes sense, and nothing in it is loose. -/
theorem ofTree_built {tree : SyntaxTree} {maxStates : Nat} {base nextId : UInt32} {a : Automaton}
    (hoffers : tree.root.AlwaysOffers)
    (hrun : (ofTree tree maxStates).run base = (.ok a, nextId)) :
    a.Inside ∧ a.states.toList.map (·.id) = (List.range a.stateCount).map (base + UInt32.ofNat ·) ∧
      a.stateCount ≤ maxStates ∧
      ((a.states.toList.map (·.id)).Nodup → ∃ i, a.Trim i) := by
  rw [run_ofTree] at hrun
  cases hwhole : (Blueprint.whole tree.root).run
      ⟨.empty .nfa, base, tree.flags, tree.groups, maxStates⟩ with
  | mk made p =>
    rw [hwhole] at hrun
    cases made with
    | error e => cases hrun
    | ok f =>
      obtain ⟨hcontinues, hstart, hall⟩ := Blueprint.lays_whole hoffers
        (Blueprint.sound_empty base tree.flags tree.groups maxStates) f p hwhole
      have hsound := hcontinues.sound
      cases hrun
      have hbound : p.maxStates = maxStates := hcontinues.bound_eq
      have hcount : p.size ≤ maxStates := hbound ▸ hsound.size_le
      have hinitial : ∀ s, some f.start = some s → s < p.automaton.stateCount := by
        rintro s hs
        cases hs
        exact hstart
      refine ⟨⟨hinitial, hsound.fits⟩, hsound.ids_eq, hcount, fun hdistinct => ?_⟩
      refine ⟨f.start, ⟨hinitial, hinitial, hsound.fits, hdistinct, fun hkind => ?_⟩,
        hsound.kind_eq, rfl, fun s hs => (hall s (Nat.zero_le s) hs).2, fun s state hstate _ => ?_⟩
      · cases hsound.kind_eq.symm.trans hkind
      · have hs := (Array.getElem?_eq_some_iff.mp hstate).1
        exact ⟨f.start, rfl, (hall s (Nat.zero_le s) hs).1⟩

/-- What was compiled has a start, and nothing in it is loose. -/
theorem ofTree_trim {tree : SyntaxTree} {maxStates : Nat} {base nextId : UInt32} {a : Automaton}
    (hoffers : tree.root.AlwaysOffers) (hmax : maxStates ≤ UInt32.size)
    (hrun : (ofTree tree maxStates).run base = (.ok a, nextId)) : ∃ i, a.Trim i := by
  obtain ⟨_, hids, hcount, htrim⟩ := ofTree_built hoffers hrun
  apply htrim
  rw [hids]
  exact (Determinized.nodup_words_iff base _).mpr (Nat.le_trans hcount hmax)

end Automaton

end RegexEngine
