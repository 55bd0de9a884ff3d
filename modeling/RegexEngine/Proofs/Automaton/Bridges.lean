import RegexEngine.Automaton.OfTree
import RegexEngine.Proofs.Automaton.Runs
import RegexEngine.Proofs.Tree.Spans

/-!
Parts of automata, said by the runs that cross them. A bridge leads from some states to another one
when a run that goes on from one of the first comes to the other, with a part of the input in
between that a relation on places allows, and when every allowed part can be crossed. How a run goes
on after the last state does not matter, so bridges can be put together before the rest of the
automaton is there.

A run that crosses a bridge is not longer after it than before. Loops are crossed by induction on
the length of the run, so that it does no harm if they take no input.
-/

namespace RegexEngine.Automaton

variable {a : Automaton} {input : Array Char}

/-- Runs lead from any of some states across to another state, over what a relation allows. -/
structure Bridge (a : Automaton) (input : Array Char) (starts : List Nat) (stop : Nat)
    (L : Nat → Nat → Prop) : Prop where
  sound : ∀ (n s i : Nat), s ∈ starts → a.Leads input n s i →
    ∃ j m, m ≤ n ∧ L i j ∧ a.Leads input m stop j
  complete : ∀ (i j : Nat), L i j → a.Wins input stop j → ∃ s ∈ starts, a.Wins input s i

/-- A transition that takes no input. -/
def passing (source target : Nat) : Transition := ⟨source, target, none, 0⟩

/-- A state that does not accept has these transitions and no others. -/
def HasExits (a : Automaton) (s : Nat) (exits : List Transition) : Prop :=
  ∃ state, a.states[s]? = some state ∧ state.accepting = false ∧ state.transitions = exits

theorem HasExits.mem_epsilonTargets {s t : Nat} {exits : List Transition}
    (h : a.HasExits s exits) :
    t ∈ a.epsilonTargets s ↔ ∃ e ∈ exits, e.label = none ∧ e.target = t := by
  obtain ⟨state, hstate, _, rfl⟩ := h
  simp [epsilonTargets, hstate, State.epsilonTargets, Transition.isEpsilon, and_assoc]

theorem HasExits.mem_targetsOn {s t : Nat} {exits : List Transition} (h : a.HasExits s exits)
    (c : Char) : t ∈ a.targetsOn c [s] ↔ ∃ e ∈ exits, e.matchesChar c = true ∧ e.target = t := by
  obtain ⟨state, hstate, _, rfl⟩ := h
  simp [targetsOn, hstate, and_assoc]

/-- A run from a state that does not accept goes over one of its transitions. -/
theorem HasExits.leads {s n i : Nat} {exits : List Transition} (h : a.HasExits s exits)
    (hn : a.Leads input n s i) : a.isOpenAt input i s = true ∧ ∃ m, n = m + 1 ∧ ∃ e ∈ exits,
      (e.label = none ∧ a.Leads input m e.target i) ∨
        ∃ c, input[i]? = some c ∧ e.matchesChar c = true ∧ a.Leads input m e.target (i + 1) := by
  refine ⟨hn.isOpen, ?_⟩
  cases hn with
  | accept _ hstate haccepting =>
    obtain ⟨state, hstate', hnot, _⟩ := h
    obtain rfl := Option.some.inj (hstate.symm.trans hstate')
    rw [hnot] at haccepting
    cases haccepting
  | @pass m _ t _ _ ht hm =>
    obtain ⟨e, he, hlabel, rfl⟩ := h.mem_epsilonTargets.mp ht
    exact ⟨m, rfl, e, he, .inl ⟨hlabel, hm⟩⟩
  | @take m _ t _ c _ hc ht hm =>
    obtain ⟨e, he, hmatches, rfl⟩ := (h.mem_targetsOn c).mp ht
    exact ⟨m, rfl, e, he, .inr ⟨c, hc, hmatches, hm⟩⟩

theorem Leads.le_size {n s i : Nat} (h : a.Leads input n s i) : i ≤ input.size := by
  induction h with
  | accept => exact Nat.le_refl _
  | pass _ _ _ ih => exact ih
  | take _ hc _ _ ih => omega

theorem matchesChar_eq_false {e : Transition} (h : e.label = none) (c : Char) :
    e.matchesChar c = false := by
  simp [Transition.matchesChar, h]

namespace Bridge

variable {starts others : List Nat} {s t stop : Nat} {L L' : Nat → Nat → Prop}

theorem congr (h : a.Bridge input starts stop L) (hL : ∀ i j, L i j ↔ L' i j) :
    a.Bridge input starts stop L' := by
  have heq : L = L' := by
    funext i j
    exact propext (hL i j)
  exact heq ▸ h

/-- Nothing is taken on the way from a state to itself. -/
theorem refl (a : Automaton) (input : Array Char) (s : Nat) : a.Bridge input [s] s (· = ·) := by
  refine ⟨fun n t i ht hn => ?_, fun i j hij hwins => ?_⟩
  · obtain rfl := List.mem_singleton.mp ht
    exact ⟨i, n, Nat.le_refl n, rfl, hn⟩
  · exact ⟨s, List.mem_singleton_self s, hij ▸ hwins⟩

theorem nothing (a : Automaton) (input : Array Char) (stop : Nat) :
    a.Bridge input [] stop fun _ _ => False :=
  ⟨fun _ _ _ hs => absurd hs List.not_mem_nil, fun _ _ hL => hL.elim⟩

/-- One bridge follows another. -/
theorem trans (h : a.Bridge input starts t L) (h' : a.Bridge input [t] stop L') :
    a.Bridge input starts stop fun i j => ∃ k, L i k ∧ L' k j := by
  refine ⟨fun n s i hs hn => ?_, fun i j hL hwins => ?_⟩
  · obtain ⟨k, m, hm, hik, hlead⟩ := h.sound n s i hs hn
    obtain ⟨j, m', hm', hkj, hlead'⟩ := h'.sound m t k (List.mem_singleton_self t) hlead
    exact ⟨j, m', Nat.le_trans hm' hm, ⟨k, hik, hkj⟩, hlead'⟩
  · obtain ⟨k, hik, hkj⟩ := hL
    obtain ⟨u, hu, hwins⟩ := h'.complete k j hkj hwins
    obtain rfl := List.mem_singleton.mp hu
    exact h.complete i k hik hwins

/-- Bridges from different states lead to the same one. -/
theorem append (h : a.Bridge input starts stop L) (h' : a.Bridge input others stop L') :
    a.Bridge input (starts ++ others) stop fun i j => L i j ∨ L' i j := by
  refine ⟨fun n s i hs hn => ?_, fun i j hL hwins => ?_⟩
  · rcases List.mem_append.mp hs with hs | hs
    · obtain ⟨j, m, hm, hL, hlead⟩ := h.sound n s i hs hn
      exact ⟨j, m, hm, .inl hL, hlead⟩
    · obtain ⟨j, m, hm, hL, hlead⟩ := h'.sound n s i hs hn
      exact ⟨j, m, hm, .inr hL, hlead⟩
  · rcases hL with hL | hL
    · obtain ⟨s, hs, hwins⟩ := h.complete i j hL hwins
      exact ⟨s, List.mem_append_left _ hs, hwins⟩
    · obtain ⟨s, hs, hwins⟩ := h'.complete i j hL hwins
      exact ⟨s, List.mem_append_right _ hs, hwins⟩

theorem perm (h : a.Bridge input starts stop L) (hmem : ∀ s, s ∈ starts ↔ s ∈ others) :
    a.Bridge input others stop L := by
  refine ⟨fun n s i hs hn => h.sound n s i ((hmem s).mpr hs) hn, fun i j hL hwins => ?_⟩
  obtain ⟨s, hs, hwins⟩ := h.complete i j hL hwins
  exact ⟨s, (hmem s).mp hs, hwins⟩

/-- A state is in front of the states that it leads to without input. -/
theorem enter (hexits : a.HasExits s (starts.map (passing s)))
    (h : a.Bridge input starts stop L) :
    a.Bridge input [s] stop fun i j => a.isOpenAt input i s = true ∧ L i j := by
  refine ⟨fun n t i ht hn => ?_, fun i j hL hwins => ?_⟩
  · obtain rfl := List.mem_singleton.mp ht
    obtain ⟨hopen, m, rfl, e, he, hnext⟩ := hexits.leads hn
    obtain ⟨u, hu, rfl⟩ := List.mem_map.mp he
    rcases hnext with ⟨_, hm⟩ | ⟨c, _, hmatches, _⟩
    · obtain ⟨j, m', hm', hL, hlead⟩ := h.sound m u i hu hm
      exact ⟨j, m', by omega, ⟨hopen, hL⟩, hlead⟩
    · rw [matchesChar_eq_false rfl] at hmatches
      cases hmatches
  · obtain ⟨hopen, hL⟩ := hL
    obtain ⟨u, hu, n, hn⟩ := h.complete i j hL hwins
    refine ⟨s, List.mem_singleton_self s, n + 1, .pass hopen ?_ hn⟩
    exact hexits.mem_epsilonTargets.mpr ⟨_, List.mem_map_of_mem hu, rfl, rfl⟩

/-- A label is crossed by a character that it takes. -/
theorem take {label : Label} (hopen : ∀ i, a.isOpenAt input i s = true)
    (hexits : a.HasExits s [⟨s, t, some label, 0⟩]) :
    a.Bridge input [s] t (TakesOne input fun c => label.matcher.matchesChar c = true) := by
  refine ⟨fun n u i hu hn => ?_, fun i j hL hwins => ?_⟩
  · obtain rfl := List.mem_singleton.mp hu
    obtain ⟨_, m, rfl, e, he, hnext⟩ := hexits.leads hn
    obtain rfl := List.mem_singleton.mp he
    rcases hnext with ⟨hlabel, _⟩ | ⟨c, hc, hmatches, hm⟩
    · cases hlabel
    · exact ⟨i + 1, m, Nat.le_succ m, ⟨c, hc, hmatches, rfl⟩, hm⟩
  · obtain ⟨c, hc, hmatches, rfl⟩ := hL
    obtain ⟨n, hn⟩ := hwins
    refine ⟨s, List.mem_singleton_self s, n + 1, .take (hopen i) hc ?_ hn⟩
    exact (hexits.mem_targetsOn c).mpr ⟨_, List.mem_singleton_self _, hmatches, rfl⟩

end Bridge

/-- What leads from the end of a part back to its start or out of it lets the part be crossed once
or more often. -/
theorem Bridge.loop {start stop exit : Nat} {exits : List Nat} {L : Nat → Nat → Prop}
    (h : a.Bridge input [start] stop L) (hexits : a.HasExits stop (exits.map (passing stop)))
    (hmem : ∀ s, s ∈ exits ↔ s ∈ [start, exit])
    (hopen : ∀ i j, L i j → a.isOpenAt input j stop = true) :
    a.Bridge input [start] exit fun i j => ∃ n, Copies L (n + 1) i j := by
  refine ⟨fun n s i hs hn => ?_, fun i j hL hwins => ?_⟩
  · obtain rfl := List.mem_singleton.mp hs
    induction n using Nat.strongRecOn generalizing i with
    | ind n ih =>
      obtain ⟨k, m, hm, hik, hlead⟩ := h.sound n s i (List.mem_singleton_self s) hn
      obtain ⟨_, m, rfl, e, he, hnext⟩ := hexits.leads hlead
      obtain ⟨u, hu, rfl⟩ := List.mem_map.mp he
      rcases hnext with ⟨_, hlead⟩ | ⟨c, _, hmatches, _⟩
      · have hplace : u = s ∨ u = exit := by simpa using (hmem u).mp hu
        rcases hplace with rfl | rfl
        · obtain ⟨j, m', hm', ⟨count, hkj⟩, hlead⟩ := ih m (by omega) k hlead
          exact ⟨j, m', by omega, ⟨count + 1, k, hik, hkj⟩, hlead⟩
        · exact ⟨k, m, by omega, ⟨0, k, hik, rfl⟩, hlead⟩
      · rw [matchesChar_eq_false rfl] at hmatches
        cases hmatches
  · have hstep {k : Nat} (i u : Nat) (hik : L i k) (hu : u ∈ [start, exit])
        (hwins : a.Wins input u k) : a.Wins input start i := by
      obtain ⟨n, hn⟩ := hwins
      have hpass : a.Wins input stop k := by
        refine ⟨n + 1, .pass (hopen i k hik) ?_ hn⟩
        exact hexits.mem_epsilonTargets.mpr ⟨_, List.mem_map_of_mem ((hmem u).mpr hu), rfl, rfl⟩
      obtain ⟨s, hs, hwins⟩ := h.complete i k hik hpass
      exact List.mem_singleton.mp hs ▸ hwins
    obtain ⟨n, hL⟩ := hL
    refine ⟨start, List.mem_singleton_self start, ?_⟩
    induction n generalizing i with
    | zero =>
      obtain ⟨k, hik, rfl⟩ := hL
      exact hstep i exit hik (by simp) hwins
    | succ n ih =>
      obtain ⟨k, hik, hkj⟩ := hL
      exact hstep i start hik (by simp) (ih k hkj)

/-- A relation holds for a fragment in an automaton: it is crossed over what the relation allows,
and then the exit can be left. -/
structure Realizes (a : Automaton) (input : Array Char) (f : Fragment) (L : Nat → Nat → Prop) :
    Prop where
  bridge : a.Bridge input [f.start] f.stop L
  opens : ∀ (i j : Nat), L i j → a.isOpenAt input j f.stop = true

namespace Realizes

variable {L L' : Nat → Nat → Prop}

theorem congr {f : Fragment} (h : a.Realizes input f L) (hL : ∀ i j, L i j ↔ L' i j) :
    a.Realizes input f L' :=
  ⟨h.bridge.congr hL, fun i j hij => h.opens i j ((hL i j).mpr hij)⟩

/-- A single state matches the empty text where it is open. -/
theorem single {s : Nat} {P : Nat → Prop}
    (hsound : ∀ i, i ≤ input.size → a.isOpenAt input i s = true → P i)
    (hcomplete : ∀ i, P i → a.isOpenAt input i s = true) :
    a.Realizes input ⟨s, s⟩ fun i j => i = j ∧ P i := by
  refine ⟨⟨fun n t i ht hn => ?_, fun i j hij hwins => ?_⟩, fun i j hij => ?_⟩
  · obtain rfl := List.mem_singleton.mp ht
    exact ⟨i, n, Nat.le_refl n, ⟨rfl, hsound i hn.le_size hn.isOpen⟩, hn⟩
  · exact ⟨s, List.mem_singleton_self s, hij.1 ▸ hwins⟩
  · exact hij.1 ▸ hcomplete i hij.2

/-- Fragments that are joined match one after the other. -/
theorem join {s t u v : Nat} (h : a.Realizes input ⟨s, t⟩ L)
    (hexits : a.HasExits t [passing t u]) (h' : a.Realizes input ⟨u, v⟩ L') :
    a.Realizes input ⟨s, v⟩ fun i j => ∃ k, L i k ∧ L' k j := by
  have hmapped : a.HasExits t ([u].map (passing t)) := hexits
  have henter := Bridge.enter hmapped h'.bridge
  refine ⟨(h.bridge.trans henter).congr fun i j => ?_, fun i j hL => ?_⟩
  · refine exists_congr fun k => ?_
    exact and_congr_right fun hik => and_iff_right (h.opens i k hik)
  · obtain ⟨k, _, hkj⟩ := hL
    exact h'.opens k j hkj

end Realizes

end RegexEngine.Automaton
