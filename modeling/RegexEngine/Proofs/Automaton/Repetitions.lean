import RegexEngine.Proofs.Automaton.Fragments

/-!
The fragments of repetitions. Copies that have to be there follow one another; those that may be
left out are nested, and all of them lead to one exit; a copy that loops leads back to its own start
or to a state in front of it. However often the expression in it takes nothing, a repetition realizes
so many copies as its bounds allow.
-/

namespace RegexEngine

theorem copies_add (R : Nat → Nat → Prop) (m n i j : Nat) :
    Copies R (m + n) i j ↔ ∃ k, Copies R m i k ∧ Copies R n k j := by
  induction m generalizing i with
  | zero => simp [Copies]
  | succ m ih =>
    rw [Nat.succ_add]
    simp only [Copies, ih]
    constructor
    · rintro ⟨k, hik, l, hkl, hlj⟩
      exact ⟨l, ⟨k, hik, hkl⟩, hlj⟩
    · rintro ⟨l, ⟨k, hik, hkl⟩, hlj⟩
      exact ⟨k, hik, l, hkl, hlj⟩

/-- At most so many copies and one more are none, or one and at most so many. -/
theorem copies_le_succ (R : Nat → Nat → Prop) (n i j : Nat) :
    (∃ count ≤ n + 1, Copies R count i j) ↔
      (∃ k, R i k ∧ ∃ count ≤ n, Copies R count k j) ∨ i = j := by
  constructor
  · rintro ⟨count, hcount, hcopies⟩
    cases count with
    | zero => exact .inr hcopies
    | succ count =>
      obtain ⟨k, hik, hkj⟩ := hcopies
      exact .inl ⟨k, hik, count, by omega, hkj⟩
  · rintro (⟨k, hik, count, hcount, hkj⟩ | hij)
    · exact ⟨count + 1, by omega, k, hik, hkj⟩
    · exact ⟨0, by omega, hij⟩

namespace Blueprint

open Automaton

variable {input : Array Char} {build : Step Fragment} {L : Flags → Nat → Nat → Prop}

/-- Copies are appended to what is there. -/
theorem yields_copies (h : Builds input build L id) (n : Nat) :
    ∀ {p : Blueprint} {start last : Nat} {loose : List (Nat × List Transition)}
      {Known : Automaton → Prop} {K : Nat → Nat → Prop},
      Site p.automaton ((last, []) :: loose) Known →
      (∀ a, Known a → a.Realizes input ⟨start, last⟩ K) →
      Yields (copies build n last) p fun last' p' => p'.flags = p.flags ∧
        Site p'.automaton ((last', []) :: loose) fun a => Known a ∧
          a.Realizes input ⟨start, last'⟩ fun i j => ∃ k, K i k ∧ Copies (L p.flags) n k j := by
  induction n with
  | zero =>
    intro p start last loose Known K hsite hbefore
    refine yields_pure ⟨rfl, hsite.mono fun a hknown => ⟨hknown, ?_⟩⟩
    exact (hbefore a hknown).congr fun i j => by simp [Copies]
  | succ n ih =>
    intro p start last loose Known K hsite hbefore
    refine yields_bind (h p _ _ hsite) fun inner p₁ ⟨hflags₁, hsite₁⟩ => ?_
    refine yields_bind (yields_join [(inner.stop, [])] hsite₁ inner.start)
      fun _ p₂ ⟨hflags₂, hsite₂⟩ => ?_
    have hflags : p₂.flags = p.flags := hflags₂.trans hflags₁
    have hmore : ∀ a, ((Known a ∧ a.Realizes input inner (L p.flags)) ∧
        a.HasExits last [passing last inner.start]) →
          a.Realizes input ⟨start, inner.stop⟩ fun i j => ∃ k, K i k ∧ L p.flags k j :=
      fun a ha => (hbefore a ha.1.1).join ha.2 ha.1.2
    intro last' p₃ hrun
    obtain ⟨hflags₃, hsite₃⟩ := ih (hsite₂.finish [(inner.stop, [])]) hmore last' p₃ hrun
    refine ⟨hflags₃.trans hflags, hsite₃.mono fun a ha => ⟨ha.1.1.1, ha.2.congr fun i j => ?_⟩⟩
    rw [hflags]
    constructor
    · rintro ⟨l, ⟨k, hik, hkl⟩, hlj⟩
      exact ⟨k, hik, l, hkl, hlj⟩
    · rintro ⟨k, hik, l, hkl, hlj⟩
      exact ⟨l, ⟨k, hik, hkl⟩, hlj⟩

/-- Copies that may be left out lead from a state to the exit, once the last of them does. -/
theorem yields_optionalCopies (h : Builds input build L id) (exit : Nat) (greedy : Bool) (n : Nat) :
    ∀ {p : Blueprint} {last : Nat} {loose : List (Nat × List Transition)}
      {Known : Automaton → Prop}, Site p.automaton ((last, []) :: loose) Known →
      Yields (optionalCopies build exit greedy n last) p fun last' p' => p'.flags = p.flags ∧
        Site p'.automaton ((last', []) :: loose) fun a => Known a ∧
          (a.HasExits last' [passing last' exit] →
            a.Bridge input [last] exit fun i j => a.isOpenAt input i last = true ∧
              ∃ count ≤ n, Copies (L p.flags) count i j) := by
  induction n with
  | zero =>
    intro p last loose Known hsite
    refine yields_pure ⟨rfl, hsite.mono fun a hknown => ⟨hknown, fun hexits => ?_⟩⟩
    have hmapped : a.HasExits last ([exit].map (passing last)) := hexits
    refine (Bridge.enter hmapped (.refl a input exit)).congr fun i j => ?_
    simp [Copies]
  | succ n ih =>
    intro p last loose Known hsite
    refine yields_bind (h p _ _ hsite) fun inner p₁ ⟨hflags₁, hsite₁⟩ => ?_
    refine yields_bind (yields_choice [(inner.stop, [])] hsite₁ inner.start exit greedy)
      fun _ p₂ ⟨hflags₂, targets, htargets, hsite₂⟩ => ?_
    have hflags : p₂.flags = p.flags := hflags₂.trans hflags₁
    intro last' p₃ hrun
    obtain ⟨hflags₃, hsite₃⟩ := ih (hsite₂.finish [(inner.stop, [])]) last' p₃ hrun
    refine ⟨hflags₃.trans hflags, hsite₃.mono fun a ha => ⟨ha.1.1.1, fun hexits => ?_⟩⟩
    obtain ⟨⟨⟨_, hinner⟩, hchoice⟩, hrest⟩ := ha
    rw [hflags] at hrest
    have hway := hinner.bridge.trans (hrest hexits)
    have hboth := (hway.append (.refl a input exit)).perm fun t => (htargets t).symm
    refine (Bridge.enter hchoice hboth).congr fun i j => and_congr_right fun _ => ?_
    rw [copies_le_succ]
    refine or_congr_left (exists_congr fun k => and_congr_right fun hik => ?_)
    exact and_iff_right (hinner.opens i k hik)

/-- What a loop takes: its expression any number of times, where the state in front of it leads into
it and out. -/
theorem realizes_loop {a : Automaton} {inner : Fragment} {exit : Nat} {R : Nat → Nat → Prop}
    {targets : List Nat} (hinner : a.Realizes input inner R)
    (hexits : a.HasExits inner.stop (targets.map (passing inner.stop)))
    (htargets : ∀ t, t ∈ targets ↔ t ∈ [inner.start, exit]) (hexit : IsPlain a exit) :
    a.Realizes input ⟨inner.start, exit⟩ fun i j => ∃ n, Copies R (n + 1) i j :=
  ⟨hinner.bridge.loop hexits htargets hinner.opens, fun _ j _ => hexit input j⟩

/-- What a loop takes whose expression leads back to the state in front of it. -/
theorem realizes_star {a : Automaton} {inner : Fragment} {start exit : Nat} {R : Nat → Nat → Prop}
    {targets : List Nat} (hinner : a.Realizes input inner R) (hstart : IsPlain a start)
    (hback : a.HasExits inner.stop [passing inner.stop start])
    (hchoice : a.HasExits start (targets.map (passing start)))
    (htargets : ∀ t, t ∈ targets ↔ t ∈ [inner.start, exit]) (hexit : IsPlain a exit) :
    a.Realizes input ⟨start, exit⟩ fun i j => ∃ n, Copies R n i j := by
  have hround : a.Realizes input ⟨inner.start, start⟩ R :=
    (hinner.join hback (hstart.realizes input)).congr fun i j => by simp
  have hloop := realizes_loop hround hchoice htargets hexit
  have hboth := (hloop.bridge.append (.refl a input exit)).perm fun t => (htargets t).symm
  refine ⟨(Bridge.enter hchoice hboth).congr fun i j => ?_, fun _ j _ => hexit input j⟩
  rw [and_iff_right (hstart input i)]
  constructor
  · rintro (⟨n, hn⟩ | hij)
    · exact ⟨n + 1, hn⟩
    · exact ⟨0, hij⟩
  · rintro ⟨n, hn⟩
    cases n with
    | zero => exact .inr hn
    | succ n => exact .inl ⟨n, hn⟩

/-- A repetition without an upper bound that may be left out. -/
theorem builds_star (h : Builds input build L id) (greedy : Bool) :
    Builds input (repetition build 0 none greedy)
      (fun flags i j => ∃ n, Copies (L flags) n i j) id := by
  intro p loose Known hsite
  refine yields_bind (yields_newState hsite) fun start p₁ ⟨hflags₁, hsite₁⟩ => ?_
  have hnone : Yields (copies build (0 - 1) start) p₁ fun last p' => last = start ∧ p' = p₁ :=
    yields_pure ⟨rfl, rfl⟩
  refine yields_bind hnone fun last p' hlast => ?_
  obtain ⟨rfl, rfl⟩ := hlast
  refine yields_bind (h _ _ _ hsite₁) fun inner p₂ ⟨hflags₂, hsite₂⟩ => ?_
  refine yields_bind (yields_newState hsite₂) fun exit p₃ ⟨hflags₃, hsite₃⟩ => ?_
  rw [if_neg (Nat.lt_irrefl 0)]
  refine yields_bind (yields_choice [(exit, []), (inner.stop, [])] hsite₃ inner.start exit greedy)
    fun _ p₄ ⟨hflags₄, targets, htargets, hsite₄⟩ => ?_
  refine yields_bind (yields_join [(exit, [])] hsite₄ last) fun _ p₅ ⟨hflags₅, hsite₅⟩ => ?_
  refine yields_pure ⟨?_, ((hsite₅.finish [(exit, [])]).finish [(exit, [])]).mono fun a ha => ?_⟩
  · rw [hflags₅, hflags₄, hflags₃, hflags₂, id, hflags₁, id]
  · obtain ⟨⟨⟨⟨⟨hknown, hstart⟩, hinner⟩, hexit⟩, hback⟩, hchoice⟩ := ha
    rw [hflags₁] at hinner
    exact ⟨hknown, realizes_star hinner hstart hback hchoice htargets hexit⟩

/-- A repetition without an upper bound of an expression that has to be there. -/
theorem builds_loop (h : Builds input build L id) {min : Nat} (hmin : 0 < min) (greedy : Bool) :
    Builds input (repetition build min none greedy)
      (fun flags i j => ∃ n, min ≤ n ∧ Copies (L flags) n i j) id := by
  intro p loose Known hsite
  refine yields_bind (yields_newState hsite) fun start p₁ ⟨hflags₁, hsite₁⟩ => ?_
  refine yields_bind (yields_copies h (min - 1) hsite₁ fun a ha => ha.2.realizes input)
    fun last p₂ ⟨hflags₂, hsite₂⟩ => ?_
  refine yields_bind (h _ _ _ hsite₂) fun inner p₃ ⟨hflags₃, hsite₃⟩ => ?_
  refine yields_bind (yields_newState hsite₃) fun exit p₄ ⟨hflags₄, hsite₄⟩ => ?_
  rw [if_pos hmin]
  refine yields_bind (yields_join [(exit, []), (inner.stop, [])] hsite₄ inner.start)
    fun _ p₅ ⟨hflags₅, hsite₅⟩ => ?_
  refine yields_bind (yields_choice [(exit, [])] hsite₅ inner.start exit greedy)
    fun _ p₆ ⟨hflags₆, targets, htargets, hsite₆⟩ => ?_
  refine yields_pure ⟨?_, ((hsite₆.finish [(exit, [])]).finish [(exit, [])]).mono fun a ha => ?_⟩
  · rw [hflags₆, hflags₅, hflags₄, hflags₃, id, hflags₂, hflags₁, id]
  · obtain ⟨⟨⟨⟨⟨⟨hknown, _⟩, hcopies⟩, hinner⟩, hexit⟩, hchoice⟩, hjoin⟩ := ha
    rw [hflags₂, hflags₁] at hinner
    rw [hflags₁] at hcopies
    refine ⟨hknown, (hcopies.join hjoin (realizes_loop hinner hchoice htargets hexit)).congr ?_⟩
    intro i j
    constructor
    · rintro ⟨k, ⟨l, rfl, hcopies⟩, n, hloop⟩
      exact ⟨min - 1 + (n + 1), by omega, (copies_add ..).mpr ⟨k, hcopies, hloop⟩⟩
    · rintro ⟨n, hn, hcopies⟩
      have hcount : n = min - 1 + ((n - min) + 1) := by omega
      rw [hcount, copies_add] at hcopies
      obtain ⟨k, hcopies, hloop⟩ := hcopies
      exact ⟨k, ⟨i, rfl, hcopies⟩, n - min, hloop⟩

/-- A repetition with an upper bound. -/
theorem builds_bounded (h : Builds input build L id) {min max : Nat} (hbounds : min ≤ max)
    (greedy : Bool) :
    Builds input (repetition build min (some max) greedy)
      (fun flags i j => ∃ n, min ≤ n ∧ n ≤ max ∧ Copies (L flags) n i j) id := by
  intro p loose Known hsite
  refine yields_bind (yields_newState hsite) fun start p₁ ⟨hflags₁, hsite₁⟩ => ?_
  refine yields_bind (yields_copies h min hsite₁ fun a ha => ha.2.realizes input)
    fun last p₂ ⟨hflags₂, hsite₂⟩ => ?_
  refine yields_bind (yields_newState hsite₂) fun exit p₃ ⟨hflags₃, hsite₃⟩ => ?_
  have hswapped := hsite₃.perm (List.Perm.swap ..)
  refine yields_bind (yields_optionalCopies h exit greedy (max - min) hswapped)
    fun last' p₄ ⟨hflags₄, hsite₄⟩ => ?_
  refine yields_bind (yields_join [] hsite₄ exit) fun _ p₅ ⟨hflags₅, hsite₅⟩ => ?_
  refine yields_pure ⟨?_, (hsite₅.finish []).mono fun a ha => ?_⟩
  · rw [hflags₅, hflags₄, hflags₃, hflags₂, hflags₁, id]
  · obtain ⟨⟨⟨⟨⟨hknown, _⟩, hcopies⟩, hexit⟩, hoptional⟩, hjoin⟩ := ha
    rw [hflags₃, hflags₂, hflags₁] at hoptional
    rw [hflags₁] at hcopies
    refine ⟨hknown, (hcopies.bridge.trans (hoptional hjoin)).congr fun i j => ?_,
      fun _ j _ => hexit input j⟩
    constructor
    · rintro ⟨k, ⟨l, rfl, hcopies⟩, _, count, hcount, hmore⟩
      exact ⟨min + count, by omega, by omega, (copies_add ..).mpr ⟨k, hcopies, hmore⟩⟩
    · rintro ⟨n, hmin, hmax, hall⟩
      obtain ⟨count, rfl⟩ := Nat.exists_eq_add_of_le hmin
      obtain ⟨k, hfirst, hmore⟩ := (copies_add ..).mp hall
      have hik : ∃ l, i = l ∧ Copies (L p.flags) min l k := ⟨i, rfl, hfirst⟩
      exact ⟨k, hik, hcopies.opens i k hik, count, by omega, hmore⟩

/-- A repetition that is not possessive matches as many copies as its bounds allow. -/
theorem builds_quantified {next : Flags → Flags} (h : Builds input build L next) {q : Quantifier}
    (hpossessive : q.possessive = false) (hbounds : ∀ max, q.max = some max → q.min ≤ max) :
    Builds input (quantified q build)
      (fun flags i j => ∃ n, q.min ≤ n ∧ (∀ max, q.max = some max → n ≤ max) ∧
        Copies (L flags) n i j) id := by
  have hbuild := builds_keepingFlags h
  have hrepetition (greedy : Bool) : Builds input
      (repetition (keepingFlags build) q.min q.max greedy)
      (fun flags i j => ∃ n, q.min ≤ n ∧ (∀ max, q.max = some max → n ≤ max) ∧
        Copies (L flags) n i j) id := by
    cases hmax : q.max with
    | none =>
      by_cases hmin : 0 < q.min
      · simpa using builds_loop hbuild hmin greedy
      · have hzero : q.min = 0 := by omega
        simpa [hzero] using builds_star hbuild greedy
    | some max => simpa using builds_bounded hbuild (hbounds max hmax) greedy
  intro p loose Known hsite
  refine yields_bind (yields_flags? p) fun flags p' hp => ?_
  obtain ⟨rfl, rfl⟩ := hp
  rw [if_neg (hpossessive ▸ Bool.false_ne_true)]
  exact hrepetition _ _ loose Known hsite

end Blueprint

end RegexEngine
