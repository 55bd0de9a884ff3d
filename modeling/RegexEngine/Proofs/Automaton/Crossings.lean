import RegexEngine.Proofs.Automaton.Secluded
import RegexEngine.Proofs.Tree.Spans

/-!
What the bodies of lookarounds match. A body that was built for a regular expression can be crossed
from one place of an input to another exactly if the expression matches what is in between.

The fragment of the expression is known by the runs that go on from its end to the end of the input.
To stop at another place, the construction is completed in a way of its own: the end of the body is
led on over as many characters as are left. What is known of all completions is then read off this
one.
-/

namespace RegexEngine

/-- A label that takes any character. -/
def Label.anything : Label := ⟨Matcher.dotAllMark ++ ['.'], .any true, by decide⟩

namespace Automaton

open Blueprint (IsPlain)

variable {input : Array Char}

/-- An automaton under construction can be completed so that a loose end that is passed everywhere
has just so many characters in front of it when it is left for good. -/
theorem exists_wins_iff_add_eq (count : Nat) : ∀ {p : Automaton} {e : Nat}
    {Known : Automaton → Prop}, Site p [(e, [])] Known → (∀ a, Known a → IsPlain a e) →
      ∃ a, Known a ∧ ∀ k, a.Wins input e k ↔ k + count = input.size := by
  induction count with
  | zero =>
    intro p e Known hsite hplain
    obtain ⟨state, hstate, _, htransitions⟩ := hsite.exits (e, []) (by simp)
    have hget (k : Nat) : (p.modifyState e fun s => { s with accepting := true }).states[k]? =
        if e = k then (p.states[k]?).map (fun s => { s with accepting := true })
          else p.states[k]? := Array.getElem?_modify
    have hknown : Known (p.modifyState e fun s => { s with accepting := true }) := by
      apply hsite.known
      intro k s hs
      by_cases hk : e = k
      · refine ⟨{ s with accepting := true }, ?_, ⟨rfl, fun _ _ => rfl⟩, fun hmem => ?_⟩
        · rw [hget, if_pos hk, hs]
          rfl
        · exact absurd (hk ▸ List.mem_singleton_self e) hmem
      · exact ⟨s, by rw [hget, if_neg hk, hs], ⟨rfl, fun _ _ => rfl⟩, fun _ => rfl⟩
    refine ⟨_, hknown, fun k => ?_⟩
    rw [Nat.add_zero]
    have hlast : (p.modifyState e fun s => { s with accepting := true }).states[e]? =
        some { state with accepting := true } := by
      rw [hget, if_pos rfl, hstate]
      rfl
    exact Blueprint.wins_last_iff hlast rfl htransitions (hplain _ hknown) k
  | succ count ih =>
    intro p e Known hsite hplain
    -- The loose end leads over one character to a new one.
    have hpushed := @Site.push _ _ _ hsite (.new 0 false) rfl rfl
    have hconnected := Site.connect [(p.states.size, [])] hpushed p.states.size (some .anything)
    obtain ⟨a, ⟨⟨hknown, hnext⟩, hexits⟩, hwins⟩ :=
      ih (hconnected.finish [(p.states.size, [])]) fun a ha => Blueprint.isPlain_of_new ha.1.2
    refine ⟨a, hknown, fun k => ?_⟩
    have hbridge : a.Bridge input [e] p.states.size
        (TakesOne input fun c => (Matcher.any true).matchesChar c = true) :=
      Bridge.take (hplain a hknown input) hexits
    constructor
    · rintro ⟨n, hn⟩
      obtain ⟨_, m, _, ⟨c, hc, _, rfl⟩, hm⟩ := hbridge.sound n e k (List.mem_singleton_self e) hn
      have hend := (hwins (k + 1)).mp ⟨m, hm⟩
      omega
    · intro hend
      have hlt : k < input.size := by omega
      have htakes : TakesOne input (fun c => (Matcher.any true).matchesChar c = true) k (k + 1) :=
        ⟨input[k], Array.getElem?_eq_getElem hlt, rfl, rfl⟩
      obtain ⟨s, hs, hwins⟩ := hbridge.complete k (k + 1) htakes ((hwins (k + 1)).mpr (by omega))
      exact List.mem_singleton.mp hs ▸ hwins

section Region

variable {a b : Automaton} {lo hi stop : Nat}

/-- Two automata have the same body, up to what its end leads to. -/
def SameBody (lo hi stop : Nat) (a b : Automaton) : Prop :=
  ∀ k, lo ≤ k → k < hi → k ≠ stop →
    ∃ s, a.states[k]? = some s ∧ b.states[k]? = some s ∧ Inner lo hi stop k s

theorem SameBody.symm (h : SameBody lo hi stop a b) : SameBody lo hi stop b a := by
  intro k hlo hhi hk
  obtain ⟨s, hs, hs', hinner⟩ := h k hlo hhi hk
  exact ⟨s, hs', hs, hinner⟩

theorem BodyAt.sameBody (h : a.BodyAt lo hi stop)
    (hsame : ∀ k, lo ≤ k → k < hi → k ≠ stop → b.states[k]? = a.states[k]?) :
    SameBody lo hi stop (a.endingAt stop) b := by
  intro k hlo hhi hk
  obtain ⟨s, hs, hinner⟩ := h.inside k hlo hhi
  exact ⟨s, (getElem?_endingAt_of_ne hk).trans hs, (hsame k hlo hhi hk).trans hs, hinner⟩

/-- A run through a body can be made in another automaton with the same body, once it can be made
there from the end on. -/
theorem SameBody.leadsUpTo (h : SameBody lo hi stop a b) {j j' : Nat}
    (hstop : ∀ n i, a.LeadsUpTo input j n stop i → ∃ m, b.LeadsUpTo input j' m stop i)
    {n s i : Nat} (hlo : lo ≤ s) (hhi : s < hi) (hn : a.LeadsUpTo input j n s i) :
    ∃ m, b.LeadsUpTo input j' m s i := by
  induction n generalizing s i with
  | zero =>
    by_cases hs : s = stop
    · exact hs ▸ hstop 0 i (hs ▸ hn)
    · obtain ⟨state, hstate, _, hinner⟩ := h s hlo hhi hs
      cases hn with
      | accept _ hstate' haccepting =>
        cases hstate.symm.trans hstate'
        rw [hinner.accepting_eq] at haccepting
        cases haccepting
  | succ n ih =>
    by_cases hs : s = stop
    · exact hs ▸ hstop (n + 1) i (hs ▸ hn)
    · obtain ⟨state, hstate, hstate', hinner⟩ := h s hlo hhi hs
      have hopens (hopen : a.isOpenAt input i s = true) : b.isOpenAt input i s = true := by
        rw [isOpenAt_eq_holdAt hinner.action_eq hstate']
        rwa [isOpenAt_eq_holdAt hinner.action_eq hstate] at hopen
      cases hn with
      | pass hopen hu hrest =>
        obtain ⟨e, he, hepsilon, rfl⟩ := (mem_epsilonTargets_iff hstate).mp hu
        obtain ⟨m, hm⟩ := ih (hinner.target_ge e he) (hinner.target_lt e he) hrest
        have hu' := (mem_epsilonTargets_iff hstate').mpr ⟨e, he, hepsilon, rfl⟩
        exact ⟨m + 1, .pass (hopens hopen) hu' hm⟩
      | take hopen hc hu hrest =>
        obtain ⟨e, he, htakes, rfl⟩ := (mem_targetsOn_singleton_iff hstate).mp hu
        obtain ⟨m, hm⟩ := ih (hinner.target_ge e he) (hinner.target_lt e he) hrest
        have hu' := (mem_targetsOn_singleton_iff hstate').mpr ⟨e, he, htakes, rfl⟩
        exact ⟨m + 1, .take (hopens hopen) hc hu' hm⟩

theorem BodyAt.congr (h : a.BodyAt lo hi stop)
    (hsame : ∀ k, lo ≤ k → k < hi → b.states[k]? = a.states[k]?) : b.BodyAt lo hi stop := by
  refine ⟨h.stop_ge, h.stop_lt, fun k hlo hhi => ?_⟩
  rw [hsame k hlo hhi]
  exact h.inside k hlo hhi

/-- Nothing follows the end of a body. -/
theorem BodyAt.leadsUpTo_stop_iff (h : a.BodyAt lo hi stop) (hplain : IsPlain a stop) {i j : Nat} :
    (∃ n, (a.endingAt stop).LeadsUpTo input j n stop i) ↔ i = j := by
  obtain ⟨state, hstate, hinner⟩ := h.inside stop h.stop_ge h.stop_lt
  have hlast := getElem?_endingAt_self hstate
  have hnone := hinner.last rfl
  constructor
  · rintro ⟨n, hn⟩
    cases hn with
    | accept => rfl
    | pass _ hu _ =>
      obtain ⟨e, he, _⟩ := (mem_epsilonTargets_iff hlast).mp hu
      exact absurd (hnone ▸ he) List.not_mem_nil
    | take _ _ hu _ =>
      obtain ⟨e, he, _⟩ := (mem_targetsOn_singleton_iff hlast).mp hu
      exact absurd (hnone ▸ he) List.not_mem_nil
  · rintro rfl
    have hopen := hplain input i
    rw [isOpenAt_eq_holdAt hinner.action_eq hstate] at hopen
    have haction : ({ state with accepting := true } : State).action = none := hinner.action_eq
    have hopen' : (a.endingAt stop).isOpenAt input i stop = true :=
      (isOpenAt_eq_holdAt haction hlast ..).trans hopen
    exact ⟨0, .accept hopen' hlast rfl⟩

/-- A body can be crossed up to a place exactly if an automaton with the same body wins, where its
end can be left from that place only. -/
theorem BodyAt.crosses_iff_wins (h : a.BodyAt lo hi stop) (hplain : IsPlain a stop)
    (hsame : ∀ k, lo ≤ k → k < hi → k ≠ stop → b.states[k]? = a.states[k]?) {j : Nat}
    (hwins : ∀ i, b.Wins input stop i ↔ i = j) {start i : Nat} (hlo : lo ≤ start)
    (hhi : start < hi) : a.Crosses input start stop i j ↔ b.Wins input start i := by
  have hboth := h.sameBody hsame
  have hends (i : Nat) : (∃ n, (a.endingAt stop).LeadsUpTo input j n stop i) ↔
      ∃ m, b.LeadsUpTo input input.size m stop i := by
    rw [h.leadsUpTo_stop_iff hplain, ← hwins i]
    exact exists_congr fun _ => leads_iff_leadsUpTo
  rw [Crosses, Wins]
  simp only [leads_iff_leadsUpTo]
  constructor
  · rintro ⟨n, hn⟩
    exact hboth.leadsUpTo (fun n i hn => (hends i).mp ⟨n, hn⟩) hlo hhi hn
  · rintro ⟨n, hn⟩
    exact hboth.symm.leadsUpTo (fun n i hn => (hends i).mpr ⟨n, hn⟩) hlo hhi hn

end Region

end Automaton

namespace Blueprint

open Automaton RegexEngine.Tree

variable {input : Array Char} {p : Blueprint} {inner : Fragment} {lo : Nat}

/-- A body with the state that ends it. -/
theorem Secluded.bodyAt (h : p.Secluded lo) {f : State → State} {index : Nat} (hne : index ≠ p.size)
    {last : State} (hlast : Inner lo (p.size + 1) p.size p.size last)
    (hf : ∀ s, Inner lo (p.size + 1) p.size index s → Inner lo (p.size + 1) p.size index (f s)) :
    ((p.added last).changed index f).automaton.BodyAt lo (p.size + 1) p.size := by
  refine ⟨h.le_size, Nat.lt_succ_self _, fun k hlo hhi => ?_⟩
  have hlt : k < ((p.added last).changed index f).automaton.states.size := by
    have hsize : ((p.added last).changed index f).size = p.size + 1 :=
      (size_changed ..).trans (size_added ..)
    exact Nat.lt_of_lt_of_eq hhi hsize.symm
  refine ⟨_, Array.getElem?_eq_getElem hlt, ?_⟩
  have hadded {s : State} (hs : (p.added last).automaton.states[k]? = some s) :
      Inner lo (p.size + 1) p.size k s := by
    rcases getElem?_added_cases hs with ⟨hk, hs⟩ | ⟨rfl, rfl⟩
    · exact (h.inside k s hlo hs).mono (Nat.le_succ _) (Nat.ne_of_lt hk) (Nat.ne_of_lt hk)
    · exact hlast
  obtain ⟨before, hbefore, heq | ⟨rfl, heq⟩⟩ :=
    getElem?_changed_cases (Array.getElem?_eq_getElem hlt)
  · exact heq ▸ hadded hbefore
  · exact heq ▸ hf before (hadded hbefore)

/-- A body is closed by a state that ends it. -/
theorem bodyAt_closeBody (hsecluded : p.Secluded lo) (hinner : inner.Between lo p.size) :
    Yields (closeBody inner) p fun b p' =>
      b = inner.start ∧ p'.size = p.size + 1 ∧ p'.automaton.BodyAt lo (p.size + 1) p.size := by
  refine yields_bind (yields_placed (fun state => { state with marks := .bodyEnd }) p)
    fun stop p₁ hplaced => ?_
  obtain ⟨rfl, rfl, _⟩ := hplaced
  have hends : Marks.bodyEnd.contains .bodyEnd = true := by decide
  have hlast : Inner lo (p.size + 1) p.size p.size
      { State.new p.nextId false with marks := .bodyEnd } :=
    ⟨rfl, rfl, iff_of_true hends rfl, fun _ => rfl, by simp [State.new], by simp [State.new],
      by simp [State.new]⟩
  have hjoined := hsecluded.bodyAt (Nat.ne_of_lt hinner.stop_lt) hlast fun s hs =>
    hs.addTransition (t := ⟨inner.stop, p.size, none, 0⟩) (Nat.ne_of_lt hinner.stop_lt)
      hsecluded.le_size (Nat.lt_succ_self _) rfl
  intro b p' hrun
  cases hrun
  exact ⟨rfl, (size_changed ..).trans (size_added ..), hjoined⟩

/-- What is built in front of the end of a body leads to it. -/
theorem yields_closeBody {L : Nat → Nat → Prop}
    (hsite : Site p.automaton [(inner.stop, [])] fun a => a.Realizes input inner L) :
    Yields (closeBody inner) p fun _ p' =>
      Site p'.automaton [(p.size, [])] fun a =>
        a.Bridge input [inner.start] p.size L ∧ IsPlain a p.size := by
  refine yields_bind ((yields_placed (fun state => { state with marks := .bodyEnd }) p).and
    (yields_markedState hsite .bodyEnd)) fun stop p₁ ⟨⟨hstop, _⟩, _, hsite₁⟩ => ?_
  subst hstop
  refine yields_bind (yields_join [(p.size, [])] hsite₁ p.size) fun _ p₂ ⟨_, hsite₂⟩ => ?_
  refine yields_pure ((hsite₂.finish [(p.size, [])]).mono fun a ha => ?_)
  obtain ⟨⟨hinner, hopen⟩, hexits⟩ := ha
  have hplain : IsPlain a p.size := by
    intro input i
    have hmarks : Marks.bodyEnd.hasAssertion = false := by decide
    rw [hopen, Marks.holdAt, hmarks]
    rfl
  exact ⟨(hinner.join hexits (hplain.realizes input)).bridge.congr (by simp), hplain⟩

/-- What is known of a body that was built, for every input. -/
structure Built (root : Tree) (p : Blueprint) (b : Nat) (p' : Blueprint) (stop : Nat) : Prop where
  bodyAt : p'.automaton.BodyAt p.size p'.size stop
  start_ge : p.size ≤ b
  start_lt : b < p'.size
  site : ∀ input : Array Char, Site p'.automaton [(stop, [])] fun a =>
    a.Bridge input [b] stop (root.Spans .innermost input p.flags) ∧ IsPlain a stop

theorem built_body {root : Tree} (hregular : root.isRegular = true)
    (hmeaning : ∀ node ∈ root.preorder, node.HasMeaning) (p : Blueprint) :
    Yields (body (fragment root)) p fun b p' => ∃ stop, Built root p b p' stop := by
  have hsite : Site p.automaton [] fun _ => True :=
    ⟨List.nodup_nil, by simp, by simp, fun _ _ => trivial⟩
  have hinner : Yields (keepingFlags (fragment root)) p fun inner p₁ =>
      (p₁.Secluded p.size ∧ inner.Between p.size p₁.size) ∧ ∀ input,
        Site p₁.automaton [(inner.stop, [])] fun a =>
          a.Realizes input inner (root.Spans .innermost input p.flags) := by
    intro inner p₁ hrun
    obtain ⟨hsecluded, _, hbetween⟩ := secludes_keepingFlags
      (secluding_fragment p.size root hregular hmeaning p.size) p (secluded_size p)
        (Nat.le_refl _) inner p₁ hrun
    refine ⟨⟨hsecluded, hbetween⟩, fun input => ?_⟩
    have hbuilds := builds_keepingFlags (builds_fragment input root hregular hmeaning)
    exact (hbuilds p [] _ hsite inner p₁ hrun).2.mono fun a ha => ha.2
  refine yields_bind hinner fun inner p₁ ⟨⟨hsecluded, hbetween⟩, hsites⟩ => ?_
  intro b p' hrun
  obtain ⟨rfl, hsize, hbody⟩ := bodyAt_closeBody hsecluded hbetween b p' hrun
  refine ⟨p₁.size, ?_, hbetween.start_ge, ?_, fun input => ?_⟩
  · rwa [hsize]
  · rw [hsize]
    exact Nat.lt_succ_of_lt hbetween.start_lt
  · exact yields_closeBody (hsites input) _ p' hrun

/-- A body that was built for a regular expression matches what the expression matches, also after
the construction has gone on. -/
theorem Built.crosses_iff {root : Tree} {p' : Blueprint} {b stop : Nat}
    (h : Built root p b p' stop) {a : Automaton}
    (hsame : ∀ k, p.size ≤ k → k < p'.size → a.states[k]? = p'.automaton.states[k]?)
    {i : Nat} (hi : i ≤ input.size) (j : Nat) :
    a.Crosses input b stop i j ↔ root.Spans .innermost input p.flags i j := by
  have hbody := h.bodyAt.congr hsame
  have hstop := hsame stop hbody.stop_ge hbody.stop_lt
  have hplain : IsPlain a stop := fun input i => by
    simp only [isOpenAt, hstop]
    exact ((h.site input).known _ (Completes.refl _ _)).2 input i
  by_cases hj : j ≤ input.size
  · -- A completion in which the end of the body is left for good from this place only.
    have hsite := h.site input
    have hsite' : Site p'.automaton [(stop, [])] fun t => t.Completes p'.automaton [stop] ∧
        t.Bridge input [b] stop (root.Spans .innermost input p.flags) ∧ IsPlain t stop :=
      ⟨hsite.nodup, hsite.exits, hsite.level, fun t ht => ⟨ht, hsite.known t ht⟩⟩
    obtain ⟨t, ⟨hcompletes, hbridge, _⟩, hwins⟩ :=
      exists_wins_iff_add_eq (input.size - j) hsite' fun t ht => ht.2.2
    have hwins (k : Nat) : t.Wins input stop k ↔ k = j := by
      rw [hwins k]
      omega
    have hpart (k : Nat) (hlo : p.size ≤ k) (hhi : k < p'.size) (hk : k ≠ stop) :
        t.states[k]? = a.states[k]? := by
      obtain ⟨s, hs, _⟩ := h.bodyAt.inside k hlo hhi
      obtain ⟨s', hs', _, heq⟩ := hcompletes k s hs
      rw [hsame k hlo hhi, hs, hs', heq fun hmem => hk (List.mem_singleton.mp hmem)]
    rw [hbody.crosses_iff_wins hplain hpart hwins h.start_ge h.start_lt]
    constructor
    · rintro ⟨n, hn⟩
      obtain ⟨k, m, _, hspans, hm⟩ := hbridge.sound n b i (List.mem_singleton_self b) hn
      exact (hwins k).mp ⟨m, hm⟩ ▸ hspans
    · intro hspans
      obtain ⟨s, hs, hwins⟩ := hbridge.complete i j hspans ((hwins j).mpr rfl)
      exact List.mem_singleton.mp hs ▸ hwins
  · refine iff_of_false (fun hcrosses => hj ?_) fun hspans => hj ?_
    · obtain ⟨n, hn⟩ := hcrosses
      exact hn.stop_le hi
    · exact (advances_spans .innermost input root p.flags i j hspans hi).2

end Blueprint

end RegexEngine
