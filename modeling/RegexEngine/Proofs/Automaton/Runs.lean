import RegexEngine.Automaton.Basic
import RegexEngine.Proofs.Graph

/-!
Acceptance, said by single runs. The test of acceptance follows sets of states through the input; a
run goes from one state to the next, over a transition without a label or over one that takes the
next character, and ends in an accepting state with the input. An automaton accepts an input exactly
when a run leads from its initial state to the end.

Runs carry their length, because loops without input make the place in the input useless for
induction.
-/

namespace RegexEngine.Automaton

/-- A run of so many steps leads from a state at a place of the input to acceptance. -/
inductive Leads (a : Automaton) (input : Array Char) : Nat → Nat → Nat → Prop
  | accept {s : Nat} {state : State} :
      a.isOpenAt input input.size s = true → a.states[s]? = some state → state.accepting = true →
        Leads a input 0 s input.size
  | pass {n s t position : Nat} :
      a.isOpenAt input position s = true → t ∈ a.epsilonTargets s → Leads a input n t position →
        Leads a input (n + 1) s position
  | take {n s t position : Nat} {c : Char} :
      a.isOpenAt input position s = true → input[position]? = some c → t ∈ a.targetsOn c [s] →
        Leads a input n t (position + 1) → Leads a input (n + 1) s position

/-- Some run leads from a state at a place of the input to acceptance. -/
def Wins (a : Automaton) (input : Array Char) (s position : Nat) : Prop :=
  ∃ n, a.Leads input n s position

variable {a : Automaton} {input : Array Char}

theorem isOpenAt_lt {position s : Nat} (h : a.isOpenAt input position s = true) :
    s < a.stateCount := by
  unfold isOpenAt at h
  split at h
  · rename_i hstate
    exact (Array.getElem?_eq_some_iff.mp hstate).1
  · cases h

theorem Leads.isOpen {n s position : Nat} (h : a.Leads input n s position) :
    a.isOpenAt input position s = true := by
  cases h with
  | accept hopen _ _ => exact hopen
  | pass hopen _ _ => exact hopen
  | take hopen _ _ _ => exact hopen

/-- An open way without input leads from some states to a state that is open too. -/
def Enters (a : Automaton) (input : Array Char) (position : Nat) (start : List Nat) (t : Nat) :
    Prop :=
  a.isOpenAt input position t = true ∧ ∃ s ∈ start,
    Relation.ReflTransGen
      (fun u v => a.isOpenAt input position u = true ∧ v ∈ a.epsilonTargets u) s t

/-- Going without input and then on is a run. -/
theorem wins_of_path {position s t : Nat}
    (hpath : Relation.ReflTransGen
      (fun u v => a.isOpenAt input position u = true ∧ v ∈ a.epsilonTargets u) s t)
    (h : a.Wins input t position) : a.Wins input s position := by
  induction hpath using Relation.ReflTransGen.head_induction_on with
  | refl => exact h
  | head hstep _ ih =>
    obtain ⟨n, hn⟩ := ih
    exact ⟨n + 1, .pass hstep.1 hstep.2 hn⟩

theorem mem_enteredAt (position : Nat) (start : List Nat) (t : Nat) :
    t ∈ a.enteredAt input position start ↔ a.Enters input position start t := by
  unfold enteredAt
  dsimp only
  rw [List.mem_filter, Graph.mem_depthFirst_unseen]
  constructor
  · rintro ⟨⟨s, hs, _, hpath⟩, hopen⟩
    refine ⟨hopen, s, hs, Relation.ReflTransGen.mono ?_ _ _ hpath⟩
    intro u v hedge
    have hnext := hedge.1
    dsimp only at hnext
    split at hnext
    · rename_i hu
      exact ⟨hu, hnext⟩
    · cases hnext
  · rintro ⟨hopen, s, hs, hpath⟩
    refine ⟨?_, hopen⟩
    -- every state on the way to an open one is in the automaton
    have hinside : s < a.stateCount ∧ Relation.ReflTransGen
        (Graph.Edge (fun u => if a.isOpenAt input position u = true then a.epsilonTargets u else [])
          a.stateCount) s t := by
      clear hs
      induction hpath using Relation.ReflTransGen.head_induction_on with
      | refl => exact ⟨isOpenAt_lt hopen, .refl⟩
      | head hstep _ ih =>
        obtain ⟨hu, hv⟩ := hstep
        refine ⟨isOpenAt_lt hu, ih.2.head ⟨?_, ih.1⟩⟩
        simpa only [hu, if_true] using hv
    exact ⟨s, hs, hinside⟩

theorem mem_targetsOn {c : Char} {states : List Nat} {t : Nat} :
    t ∈ a.targetsOn c states ↔ ∃ s ∈ states, t ∈ a.targetsOn c [s] := by
  simp [targetsOn]

/-- The last state that a run is in before it takes input or ends is among those that were entered.
-/
theorem Leads.last_before_input {n s position : Nat} (h : a.Leads input n s position) :
    ∃ t, a.Enters input position [s] t ∧
      ((position = input.size ∧ ∃ state, a.states[t]? = some state ∧ state.accepting = true) ∨
        ∃ c u, input[position]? = some c ∧ u ∈ a.targetsOn c [t] ∧
          a.Wins input u (position + 1)) := by
  induction h with
  | @accept s state hopen hstate haccepting =>
    exact ⟨s, ⟨hopen, s, List.mem_singleton_self s, .refl⟩, .inl ⟨rfl, state, hstate, haccepting⟩⟩
  | @pass n s t position hopen ht _ ih =>
    obtain ⟨u, ⟨hu, v, hv, hpath⟩, hends⟩ := ih
    obtain rfl := List.mem_singleton.mp hv
    exact ⟨u, ⟨hu, s, List.mem_singleton_self s, hpath.head ⟨hopen, ht⟩⟩, hends⟩
  | @take n s t position c hopen hc ht hn _ =>
    exact ⟨s, ⟨hopen, s, List.mem_singleton_self s, .refl⟩, .inr ⟨c, t, hc, ht, n, hn⟩⟩

/-- Following a set of states that were entered accepts exactly if a run leads from a state that
they were entered from to acceptance. -/
theorem acceptsFrom_enteredAt (rest : List Char) (position : Nat) (start : List Nat)
    (hrest : input.toList.drop position = rest) (hposition : position ≤ input.size) :
    a.acceptsFrom input (a.enteredAt input position start) position rest = true ↔
      ∃ s ∈ start, a.Wins input s position := by
  induction rest generalizing position start with
  | nil =>
    have hend : position = input.size := by
      have hlength := congrArg List.length hrest
      simp at hlength
      omega
    subst hend
    rw [acceptsFrom, List.any_eq_true]
    constructor
    · rintro ⟨t, ht, haccepting⟩
      obtain ⟨hopen, s, hs, hpath⟩ := (mem_enteredAt _ start t).mp ht
      obtain ⟨state, hstate, haccepting⟩ := (Option.any_eq_true ..).mp haccepting
      exact ⟨s, hs, wins_of_path hpath ⟨0, .accept hopen hstate haccepting⟩⟩
    · rintro ⟨s, hs, n, hn⟩
      obtain ⟨t, ⟨hopen, u, hu, hpath⟩, hends⟩ := hn.last_before_input
      obtain rfl := List.mem_singleton.mp hu
      refine ⟨t, (mem_enteredAt _ start t).mpr ⟨hopen, u, hs, hpath⟩, ?_⟩
      rcases hends with ⟨_, state, hstate, haccepting⟩ | ⟨c, _, hc, _⟩
      · simp [hstate, haccepting]
      · simp at hc
  | cons c rest ih =>
    have hlt : position < input.size := by
      have hlength := congrArg List.length hrest
      simp at hlength
      omega
    have hlist := List.drop_eq_getElem_cons (l := input.toList) (by simpa using hlt)
    rw [hrest] at hlist
    obtain ⟨hc, hdrop⟩ := List.cons.inj hlist
    have hchar : input[position]? = some c := by
      rw [Array.getElem?_eq_getElem hlt, hc, Array.getElem_toList]
    have hnext (start : List Nat) := ih (position + 1) start hdrop.symm (by omega)
    have htargets : (∃ t ∈ a.targetsOn c (a.enteredAt input position start),
        a.Wins input t (position + 1)) ↔ ∃ s ∈ start, a.Wins input s position := by
      constructor
      · rintro ⟨t, ht, n, hn⟩
        obtain ⟨u, hu, ht⟩ := mem_targetsOn.mp ht
        obtain ⟨hopen, s, hs, hpath⟩ := (mem_enteredAt position start u).mp hu
        exact ⟨s, hs, wins_of_path hpath ⟨n + 1, .take hopen hchar ht hn⟩⟩
      · rintro ⟨s, hs, n, hn⟩
        obtain ⟨u, ⟨hopen, v, hv, hpath⟩, hends⟩ := hn.last_before_input
        obtain rfl := List.mem_singleton.mp hv
        rcases hends with ⟨hend, _⟩ | ⟨d, t, hd, ht, hwins⟩
        · omega
        · obtain rfl : c = d := Option.some.inj (hchar.symm.trans hd)
          refine ⟨t, mem_targetsOn.mpr ⟨u, ?_, ht⟩, hwins⟩
          exact (mem_enteredAt position start u).mpr ⟨hopen, v, hs, hpath⟩
    rw [acceptsFrom, ← htargets]
    split
    · rename_i hnone
      simp [hnone]
    · exact hnext _

/-- An automaton accepts an input exactly when a run leads from its initial state through all of the
input into an accepting state. -/
theorem accepts_iff (a : Automaton) (input : Array Char) :
    a.accepts input = true ↔ ∃ s, a.initial = some s ∧ a.Wins input s 0 := by
  unfold accepts
  split
  · rename_i s hinitial
    rw [acceptsFrom_enteredAt input.toList 0 [s] rfl (Nat.zero_le _)]
    simp [hinitial]
  · rename_i hinitial
    simp [hinitial]

end RegexEngine.Automaton
