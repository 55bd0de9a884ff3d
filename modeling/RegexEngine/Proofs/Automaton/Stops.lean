import Mathlib.Data.Nat.Find
import RegexEngine.Proofs.Automaton.Determinize

/-!
Runs that end before the input does. A search may end a match anywhere, and the characters after the
end still count for assertions; so a run is taken through the whole input, up to a place in it. The
runs to the end of the input are those that decide acceptance.

A search gives a way up that comes back to a state without having taken input. Nothing is lost by
that: where there is a run, there is a direct one, which never does.
-/

namespace RegexEngine.Automaton

/-- A run of so many steps leads from a state at a place of the input to acceptance at another. -/
inductive LeadsUpTo (a : Automaton) (input : Array Char) (stop : Nat) : Nat → Nat → Nat → Prop
  | accept {s : Nat} {state : State} :
      a.isOpenAt input stop s = true → a.states[s]? = some state → state.accepting = true →
        LeadsUpTo a input stop 0 s stop
  | pass {n s t position : Nat} :
      a.isOpenAt input position s = true → t ∈ a.epsilonTargets s →
        LeadsUpTo a input stop n t position → LeadsUpTo a input stop (n + 1) s position
  | take {n s t position : Nat} {c : Char} :
      a.isOpenAt input position s = true → input[position]? = some c → t ∈ a.targetsOn c [s] →
        LeadsUpTo a input stop n t (position + 1) → LeadsUpTo a input stop (n + 1) s position

/-- A run that enters no state twice without taking input in between, and none of a trail before it
takes any. -/
inductive Direct (a : Automaton) (input : Array Char) (stop : Nat) :
    List Nat → Nat → Nat → Prop
  | accept {trail : List Nat} {s : Nat} {state : State} :
      s ∉ trail → a.isOpenAt input stop s = true → a.states[s]? = some state →
        state.accepting = true → Direct a input stop trail s stop
  | pass {trail : List Nat} {s t position : Nat} :
      s ∉ trail → a.isOpenAt input position s = true → t ∈ a.epsilonTargets s →
        Direct a input stop (s :: trail) t position → Direct a input stop trail s position
  | take {trail : List Nat} {s t position : Nat} {c : Char} :
      s ∉ trail → a.isOpenAt input position s = true → input[position]? = some c →
        t ∈ a.targetsOn c [s] → Direct a input stop [] t (position + 1) →
          Direct a input stop trail s position

variable {a : Automaton} {input : Array Char} {stop : Nat}

theorem mem_epsilonTargets_iff {s t : Nat} {state : State} (hstate : a.states[s]? = some state) :
    t ∈ a.epsilonTargets s ↔ ∃ e ∈ state.transitions, e.isEpsilon = true ∧ e.target = t := by
  simp [epsilonTargets, State.epsilonTargets, hstate, and_assoc]

theorem mem_targetsOn_singleton_iff {s t : Nat} {c : Char} {state : State}
    (hstate : a.states[s]? = some state) :
    t ∈ a.targetsOn c [s] ↔ ∃ e ∈ state.transitions, e.matchesChar c = true ∧ e.target = t := by
  simp [targetsOn, hstate, and_assoc]

theorem LeadsUpTo.le {n s position : Nat} (h : a.LeadsUpTo input stop n s position) : position ≤ stop := by
  induction h with
  | accept => exact Nat.le_refl _
  | pass _ _ _ ih => exact ih
  | take _ _ _ _ ih => exact Nat.le_of_succ_le ih

theorem LeadsUpTo.stop_le {n s position : Nat} (h : a.LeadsUpTo input stop n s position)
    (hposition : position ≤ input.size) : stop ≤ input.size := by
  induction h with
  | accept => exact hposition
  | pass _ _ _ ih => exact ih hposition
  | take _ hc _ _ ih => exact ih (Array.getElem?_eq_some_iff.mp hc).1

theorem leads_iff_leadsUpTo {n s position : Nat} :
    a.Leads input n s position ↔ a.LeadsUpTo input input.size n s position := by
  constructor
  · intro h
    induction h with
    | accept hopen hstate haccepting => exact .accept hopen hstate haccepting
    | pass hopen ht _ ih => exact .pass hopen ht ih
    | take hopen hc ht _ ih => exact .take hopen hc ht ih
  · intro h
    induction h with
    | accept hopen hstate haccepting => exact .accept hopen hstate haccepting
    | pass hopen ht _ ih => exact .pass hopen ht ih
    | take hopen hc ht _ ih => exact .take hopen hc ht ih

theorem Direct.leadsUpTo {trail : List Nat} {s position : Nat}
    (h : a.Direct input stop trail s position) : ∃ n, a.LeadsUpTo input stop n s position := by
  induction h with
  | accept _ hopen hstate haccepting => exact ⟨0, .accept hopen hstate haccepting⟩
  | pass _ hopen ht _ ih =>
    obtain ⟨n, hn⟩ := ih
    exact ⟨n + 1, .pass hopen ht hn⟩
  | take _ hopen hc ht _ ih =>
    obtain ⟨n, hn⟩ := ih
    exact ⟨n + 1, .take hopen hc ht hn⟩

/-- Where no state of a trail has a run that is as short, a shortest run is direct: after its first
step, the state that it comes from has no run that is as short either. -/
theorem LeadsUpTo.direct_of_shorter {n s position : Nat} (h : a.LeadsUpTo input stop n s position)
    {trail : List Nat}
    (htrail : ∀ u ∈ trail, ∀ m ≤ n, ¬ a.LeadsUpTo input stop m u position) :
    a.Direct input stop trail s position := by
  induction n using Nat.strong_induction_on generalizing s position trail with
  | _ n ih =>
    classical
    have hexists : ∃ m, a.LeadsUpTo input stop m s position := ⟨n, h⟩
    have hleast := Nat.find_spec hexists
    have hle : Nat.find hexists ≤ n := Nat.find_min' hexists h
    have hshorter : ∀ m < Nat.find hexists, ¬ a.LeadsUpTo input stop m s position := fun _ hm =>
      Nat.find_min hexists hm
    have hnew : s ∉ trail := fun hs => htrail s hs _ hle hleast
    generalize Nat.find hexists = k at hleast hle hshorter
    cases hleast with
    | accept hopen hstate haccepting => exact .accept hnew hopen hstate haccepting
    | @pass m _ t _ hopen ht hrest =>
      refine .pass hnew hopen ht (ih m hle hrest fun u hu l hl => ?_)
      rcases List.mem_cons.mp hu with rfl | hu
      · exact hshorter l (Nat.lt_succ_of_le hl)
      · exact htrail u hu l (by omega)
    | @take m _ t _ c hopen hc ht hrest =>
      exact .take hnew hopen hc ht (ih m hle hrest fun _ hu => (nomatch hu))

theorem exists_leadsUpTo_iff_direct {s position : Nat} :
    (∃ n, a.LeadsUpTo input stop n s position) ↔ a.Direct input stop [] s position :=
  ⟨fun ⟨_, h⟩ => h.direct_of_shorter fun _ hu => (nomatch hu), Direct.leadsUpTo⟩

/-! Where nothing is asserted, only the part of the input that is taken matters. -/

theorem AllOpen.leadsUpTo_congr (h : a.AllOpen) {input' : Array Char} {stop' n s position : Nat}
    (hrun : a.LeadsUpTo input stop n s position) {position' : Nat}
    (hlength : stop - position = stop' - position') (hle : position' ≤ stop')
    (hsame : ∀ k < stop - position, input'[position' + k]? = input[position + k]?) :
    a.LeadsUpTo input' stop' n s position' := by
  have hopen {p p' u : Nat} (hu : a.isOpenAt input p u = true) : a.isOpenAt input' p' u = true :=
    (h.isOpenAt_iff p' u).mpr ((h.isOpenAt_iff p u).mp hu)
  induction hrun generalizing position' with
  | accept hs hstate haccepting =>
    obtain rfl : position' = stop' := by omega
    exact .accept (hopen hs) hstate haccepting
  | pass hs ht _ ih => exact .pass (hopen hs) ht (ih hlength hle hsame)
  | @take n s t position c hs hc ht hrest ih =>
    have hlt : position + 1 ≤ stop := hrest.le
    have hc' : input'[position']? = some c := by
      rw [← hc]
      exact hsame 0 (by omega)
    refine .take (hopen hs) hc' ht (ih (by omega) (by omega) fun k hk => ?_)
    have hnext := hsame (k + 1) (by omega)
    rwa [← Nat.add_assoc, ← Nat.add_assoc, Nat.add_right_comm position' k,
      Nat.add_right_comm position k] at hnext

/-- A run leads from one place to another exactly if one leads through what stands between them. -/
theorem AllOpen.leadsUpTo_iff_wins (h : a.AllOpen) {s position : Nat} (hposition : position ≤ stop)
    (hstop : stop ≤ input.size) :
    (∃ n, a.LeadsUpTo input stop n s position) ↔ a.Wins (input.extract position stop) s 0 := by
  have hsize : (input.extract position stop).size = stop - position := by
    rw [Array.size_extract, Nat.min_eq_left hstop]
  have hsame : ∀ k < stop - position,
      (input.extract position stop)[0 + k]? = input[position + k]? := by
    intro k hk
    rw [Nat.zero_add, Array.getElem?_extract, if_pos (by omega)]
  refine exists_congr fun n => ?_
  rw [leads_iff_leadsUpTo, hsize]
  constructor
  · exact fun hrun => h.leadsUpTo_congr hrun (Nat.sub_zero _).symm (Nat.zero_le _) hsame
  · refine fun hrun => h.leadsUpTo_congr hrun (Nat.sub_zero _) hposition fun k hk => ?_
    exact (hsame k hk).symm

end RegexEngine.Automaton
