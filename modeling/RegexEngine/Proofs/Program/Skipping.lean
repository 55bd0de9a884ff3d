import RegexEngine.Proofs.Program.Condensed

/-!
Searching without the instructions that do nothing. A way through a program and its image in what is
left stand at the same instruction, or the way stands before it at instructions that do nothing. The
image waits there, so it shadows the way.

It has entered the same instructions, but for those that do nothing. Where the way comes to one of
these for the second time, it has gone on from there before; so the image has entered what follows.
-/

namespace RegexEngine

namespace Program

variable {p q : Program}

/-! A way and its image. -/

/-- What a way and its image have entered, where the way is about to enter an address. -/
structure Entered (p : Program) (place : Nat) (trail trail' : List Nat) : Prop where
  inside : ∀ s ∈ trail, s < p.length
  mem_iff : ∀ s, p.Works s → (s ∈ trail ↔ p.newAddress s ∈ trail')
  onward : ∀ s ∈ trail, p.instrs[s]? = some .nop → s + 1 ∈ trail ∨ s + 1 = place

/-- A round of a counted repetition, where its instructions are moved. -/
def movedRound (p : Program) (c : Counter) : Counter := { c with start := p.newAddress c.start }

/-- The image of a way that has entered something else. -/
def image (p : Program) (path : Path) (trail : List Nat) : Path where
  place := p.newAddress path.place
  position := path.position
  slots := path.slots
  trail := trail
  counters := path.counters.map p.movedRound

/-- A way stands in the program or at its end, and is in rounds of repetitions. -/
structure Sensible (p : Program) (path : Path) : Prop where
  place_le : path.place ≤ p.length
  works : ∀ c ∈ path.counters, p.Works c.start

/-- A way that is about to enter an address, and its image. -/
def Near (p : Program) (path path' : Path) : Prop :=
  ∃ trail, path' = p.image path trail ∧ p.Sensible path ∧ p.Entered path.place path.trail trail

/-- A way that has entered an address where something is done, and its image. It may go on anywhere
from there. -/
def At (p : Program) (path path' : Path) : Prop :=
  ∃ trail, path' = p.image path trail ∧ p.Sensible path ∧ p.Works path.place ∧
    ∀ place, p.Entered place path.trail trail

theorem entered_nil (place : Nat) : p.Entered place [] [] :=
  ⟨List.forall_mem_nil _, fun _ _ => iff_of_false List.not_mem_nil List.not_mem_nil,
    List.forall_mem_nil _⟩

namespace Entered

variable {s : Nat} {trail trail' : List Nat}

/-- Where something is done, both ways enter it. -/
theorem enter (h : p.Entered s trail trail') (hs : p.Works s) (place : Nat) :
    p.Entered place (s :: trail) (p.newAddress s :: trail') := by
  refine ⟨List.forall_mem_cons.mpr ⟨hs.lt, h.inside⟩, fun t ht => ?_, fun t ht hnop => ?_⟩
  · rw [List.mem_cons, List.mem_cons, h.mem_iff t ht]
    exact or_congr_left ⟨congrArg p.newAddress, ht.newAddress_inj hs⟩
  · left
    rcases List.mem_cons.mp ht with rfl | ht
    · obtain ⟨i, hi, hworks⟩ := hs
      exact absurd (Option.some.inj (hi.symm.trans hnop)) hworks
    · rcases h.onward t ht hnop with hmem | heq
      · exact List.mem_cons_of_mem _ hmem
      · exact heq ▸ List.mem_cons_self

/-- Where nothing is done, the way goes on alone. -/
theorem skip (h : p.Entered s trail trail') (hs : p.instrs[s]? = some .nop) :
    p.Entered (s + 1) (s :: trail) trail' := by
  have hlt : s < p.length := (Array.getElem?_eq_some_iff.mp hs).1
  refine ⟨List.forall_mem_cons.mpr ⟨hlt, h.inside⟩, fun t ht => ?_, fun t ht hnop => ?_⟩
  · have hne : t ≠ s := by
      rintro rfl
      obtain ⟨i, hi, hworks⟩ := ht
      exact hworks (Option.some.inj (hi.symm.trans hs))
    rw [← h.mem_iff t ht, List.mem_cons, or_iff_right hne]
  · rcases List.mem_cons.mp ht with rfl | ht
    · exact .inr rfl
    · left
      rcases h.onward t ht hnop with hmem | heq
      · exact List.mem_cons_of_mem _ hmem
      · exact heq ▸ List.mem_cons_self

/-- Where the way was before, its image has been at what follows. -/
theorem mem (h : p.Entered s trail trail') (hs : s ∈ trail) : p.newAddress s ∈ trail' := by
  -- from any entered address on, the way has entered what follows up to something that is done
  have hall : ∀ n t, n = p.length - t → t ∈ trail → s ≤ t → p.newAddress t ∈ trail' := by
    intro n
    induction n with
    | zero =>
      intro t hn ht _
      have hlt := h.inside t ht
      omega
    | succ n ih =>
      intro t hn ht hle
      have hlt : t < p.instrs.size := h.inside t ht
      have hi : p.instrs[t]? = some p.instrs[t] := Array.getElem?_eq_getElem hlt
      by_cases hnop : p.instrs[t] = .nop
      · rw [hnop] at hi
        rcases h.onward t ht hi with hnext | heq
        · rw [← newAddress_succ_of_nop hi]
          exact ih (t + 1) (by omega) hnext (by omega)
        · omega
      · exact (h.mem_iff t ⟨_, hi, hnop⟩).mp ht
  exact hall _ s rfl hs (Nat.le_refl s)

end Entered

/-! Instructions. -/

/-- What the instructions of two programs do. -/
abbrev Moves (p : Program) : Move → Move → Prop := Move.Shadow p.Near p.At

section Execute

variable {path : Path} {trail : List Nat} (input : Array Char)

/-- Both ways go on at an address. -/
theorem near_goTo (hpath : p.Sensible path) (htrail : ∀ place, p.Entered place path.trail trail)
    {place : Nat} (hplace : place ≤ p.length) :
    p.Near { path with place := place } (p.image { path with place := place } trail) :=
  ⟨trail, rfl, ⟨hplace, hpath.works⟩, htrail place⟩

/-- Both ways go on at the next instruction. -/
theorem along_next (hpath : p.Sensible path) (htrail : ∀ place, p.Entered place path.trail trail)
    (hworks : p.Works path.place) :
    p.Moves (proceed path) (proceed (p.image path trail)) := by
  have hnext := near_goTo hpath htrail hworks.lt
  unfold image at hnext
  rw [hworks.newAddress_succ] at hnext
  exact .along _ hnext

/-- Both ways forget what they have entered, and go on at the next instruction. -/
theorem take_moves (hpath : p.Sensible path) (hworks : p.Works path.place) (position : Nat) :
    p.Moves (take path position) (take (p.image path trail) position) := by
  have hsensible : p.Sensible { path with position := position, trail := [] } :=
    ⟨hpath.place_le, hpath.works⟩
  exact along_next hsensible entered_nil hworks

theorem takeIf_moves (hpath : p.Sensible path) (hworks : p.Works path.place) (fits : Char → Bool) :
    p.Moves (takeIf input path fits) (takeIf input (p.image path trail) fits) := by
  unfold takeIf
  change p.Moves _ (if input[path.position]?.any fits then _ else _)
  split
  · exact take_moves hpath hworks _
  · exact .dead _ _

/-- A repetition comes round, or is left. -/
theorem comeRound_moves (hq : p.Condenses q) (hpath : p.Sensible path)
    (htrail : ∀ place, p.Entered place path.trail trail) {start min stop : Nat}
    {max : Option Nat} {greedy : Bool} {move : Move}
    (hstart : p.instrs[start]? = some (.repeatStart min max greedy stop)) (hstop : p.Works stop)
    (hmove : p.comeRound path start = .ok move) :
    ∃ move', q.comeRound (p.image path trail) (p.newAddress start) = .ok move' ∧
      p.Moves move move' := by
  have hworks : p.Works start := ⟨_, hstart, by simp⟩
  have hinstr : p.instr start = .ok (.repeatStart min max greedy stop) := by
    rw [instr, hstart]
  have hinstr' : q.instr (p.newAddress start) =
      .ok (.repeatStart min max greedy (p.newAddress stop)) := by
    rw [instr, hq.instr start _ hstart (by simp)]
    rfl
  obtain ⟨place, position, slots, entered, counters⟩ := path
  unfold comeRound at hmove ⊢
  rw [hinstr] at hmove
  rw [hinstr']
  cases counters with
  | nil => cases hmove
  | cons counter outer =>
    have hinner := List.forall_mem_cons.mp hpath.works
    have hround : p.Sensible ⟨place, position, slots, entered,
        { counter with since := position } :: outer⟩ :=
      ⟨hpath.place_le, List.forall_mem_cons.mpr hinner⟩
    have houter : p.Sensible ⟨place, position, slots, entered, outer⟩ :=
      ⟨hpath.place_le, hinner.2⟩
    have hentering := near_goTo hround htrail hworks.lt
    have hleaving := near_goTo houter htrail hstop.lt
    unfold image at hentering hleaving
    rw [hworks.newAddress_succ] at hentering
    rw [hstop.newAddress_succ] at hleaving
    simp only [bind, Except.bind, pure, Except.pure] at hmove
    simp only [bind, Except.bind, pure, Except.pure, image, List.map_cons, movedRound]
    split at hmove
    · rename_i hrequired
      cases hmove
      rw [if_pos hrequired]
      exact ⟨_, rfl, .along _ hentering⟩
    · rename_i hfree
      rw [if_neg hfree]
      split at hmove
      · rename_i hlast
        cases hmove
        rw [if_pos hlast]
        exact ⟨_, rfl, .along _ hleaving⟩
      · rename_i hchoice
        rw [if_neg hchoice]
        split at hmove
        · rename_i hgreedy
          cases hmove
          rw [if_pos hgreedy]
          exact ⟨_, rfl, .go false (.cons (.follow hentering) (.cons (.follow hleaving) .nil))⟩
        · rename_i hlazy
          cases hmove
          rw [if_neg hlazy]
          exact ⟨_, rfl, .go false (.cons (.follow hleaving) (.cons (.follow hentering) .nil))⟩

/-- A round ends in both programs. -/
theorem endRound_moves (hq : p.Condenses q) (hpath : p.Sensible path)
    (htrail : ∀ place, p.Entered place path.trail trail) {start min stop : Nat}
    {max : Option Nat} {greedy : Bool} {move : Move}
    (hstart : p.instrs[start]? = some (.repeatStart min max greedy stop)) (hstop : p.Works stop)
    (hmove : p.endRound path start = .ok move) :
    ∃ move', q.endRound (p.image path trail) (p.newAddress start) = .ok move' ∧
      p.Moves move move' := by
  have hinstr : p.instr start = .ok (.repeatStart min max greedy stop) := by
    rw [instr, hstart]
  have hinstr' : q.instr (p.newAddress start) =
      .ok (.repeatStart min max greedy (p.newAddress stop)) := by
    rw [instr, hq.instr start _ hstart (by simp)]
    rfl
  obtain ⟨place, position, slots, entered, counters⟩ := path
  unfold endRound at hmove ⊢
  cases counters with
  | nil => cases hmove
  | cons counter outer =>
    have hinner := List.forall_mem_cons.mp hpath.works
    simp only [bind, Except.bind, hinstr] at hmove
    simp only [bind, Except.bind, image, List.map_cons, movedRound, hinstr']
    split at hmove
    · rename_i hown
      rw [if_pos (congrArg p.newAddress hown)]
      have hsensible (trail : List Nat) : p.Sensible ⟨place, position, slots, trail,
          { counter with rounds := counter.rounds + 1 } :: outer⟩ :=
        ⟨hpath.place_le, List.forall_mem_cons.mpr hinner⟩
      -- a round that has to come round forgets what it has entered
      by_cases hrequired : counter.rounds + 1 ≤ min
      · simp only [hrequired, decide_true, if_true] at hmove ⊢
        exact comeRound_moves hq (hsensible []) entered_nil hstart hstop hmove
      · simp only [hrequired, decide_false, Bool.false_eq_true, if_false] at hmove ⊢
        exact comeRound_moves hq (hsensible entered) htrail hstart hstop hmove
    · cases hmove

/-- An instruction that does something does the same in its new place. -/
theorem execute_moves (hvalid : p.validate = .ok ()) (hq : p.Condenses q) (hpath : p.Sensible path)
    (htrail : ∀ place, p.Entered place path.trail trail) {i : Instr}
    (hi : p.instrs[path.place]? = some i) (hne : i ≠ .nop) {move : Move}
    (hmove : p.execute input path i = .ok move) :
    ∃ move', q.execute input (p.image path trail) (i.mapTargets p.newAddress) = .ok move' ∧
      p.Moves move move' := by
  have hworks : p.Works path.place := ⟨i, hi, hne⟩
  obtain ⟨htargets, hoperands⟩ :=
    checkInstr_eq_ok_iff.mp ((validate_eq_ok_iff.mp hvalid).2 path.place i hi)
  have hgo {t : Nat} (ht : t ∈ i.targets) := near_goTo hpath htrail (Nat.le_of_lt (htargets t ht))
  have hslots (slots : Slots) : p.Sensible { path with slots := slots } :=
    ⟨hpath.place_le, hpath.works⟩
  cases i with
  | nop => exact absurd rfl hne
  | char c nocase =>
    cases hmove
    exact ⟨_, rfl, takeIf_moves input hpath hworks _⟩
  | any dotAll =>
    cases hmove
    exact ⟨_, rfl, takeIf_moves input hpath hworks _⟩
  | cls offset length =>
    simp only [execute, Instr.mapTargets, hq.classes_eq] at hmove ⊢
    cases hmatcher : p.classes.matcher? offset length with
    | none =>
      rw [hmatcher] at hmove
      cases hmove
    | some matcher =>
      rw [hmatcher] at hmove
      simp only [image] at hmove ⊢
      cases hmatch : matcher.matchAt? input path.position with
      | none =>
        rw [hmatch] at hmove
        cases hmove
        exact ⟨_, rfl, .dead _ _⟩
      | some position =>
        rw [hmatch] at hmove
        cases hmove
        exact ⟨_, rfl, take_moves hpath hworks position⟩
  | jump target =>
    cases hmove
    exact ⟨_, rfl, .along _ (hgo (by simp [Instr.targets]))⟩
  | split first second =>
    cases hmove
    exact ⟨_, rfl, .go false (.cons (.follow (hgo (by simp [Instr.targets])))
      (.cons (.follow (hgo (by simp [Instr.targets]))) .nil))⟩
  | openGroup group =>
    cases hmove
    exact ⟨_, rfl, along_next (hslots _) htrail hworks⟩
  | closeGroup group =>
    cases hmove
    exact ⟨_, rfl, along_next (hslots _) htrail hworks⟩
  | repeatStart min max greedy stop =>
    obtain ⟨_, _, hstop⟩ := checkOperands_repeatStart_iff.mp hoperands
    have hround : p.Sensible { path with
        counters := ⟨path.place, 0, path.position⟩ :: path.counters } :=
      ⟨hpath.place_le, List.forall_mem_cons.mpr ⟨hworks, hpath.works⟩⟩
    exact comeRound_moves hq hround htrail hi ⟨_, hstop, by simp⟩ hmove
  | repeatEnd start =>
    obtain ⟨min, max, greedy, hstart⟩ := checkOperands_repeatEnd_iff.mp hoperands
    exact endRound_moves hq hpath htrail hstart hworks hmove
  | boundary marks =>
    cases hmove
    refine ⟨_, rfl, ?_⟩
    change p.Moves _ (if marks.holdAt input path.position then _ else _)
    split
    · exact along_next hpath htrail hworks
    · exact .dead _ _
  | backref group nocase =>
    simp only [execute, Instr.mapTargets, image] at hmove ⊢
    cases hback : path.slots.backref? input group nocase path.position with
    | none =>
      rw [hback] at hmove
      cases hmove
      exact ⟨_, rfl, .dead _ _⟩
    | some position =>
      rw [hback] at hmove
      cases hmove
      refine ⟨_, rfl, ?_⟩
      have hsensible (trail : List Nat) :
          p.Sensible { path with position := position, trail := trail } :=
        ⟨hpath.place_le, hpath.works⟩
      unfold State.advance
      by_cases hstays : position = path.position
      · simp only [if_pos hstays]
        exact along_next (hsensible _) htrail hworks
      · simp only [if_neg hstays]
        exact along_next (hsensible _) entered_nil hworks
  | look kind body next =>
    cases hmove
    refine ⟨_, rfl, .ask ⟨rfl, fun tried slots => ?_⟩ ⟨trail, rfl, hpath, hworks, htrail⟩⟩
    have hbody : body ≤ p.length := Nat.le_of_lt (htargets body (by simp [Instr.targets]))
    exact ⟨[], rfl, ⟨hbody, List.forall_mem_nil _⟩, entered_nil body⟩
  | accept =>
    cases hmove
    exact ⟨_, rfl, .finish _ _⟩
  | fail =>
    cases hmove
    exact ⟨_, rfl, .dead _ _⟩

/-- How a way goes on after a lookaround. -/
theorem afterLook_moves (hvalid : p.validate = .ok ()) (hpath : p.Sensible path)
    (htrail : ∀ place, p.Entered place path.trail trail) {i : Instr}
    (hi : p.instrs[path.place]? = some i) (found : Option Found) :
    p.Moves (afterLook path found i)
      (afterLook (p.image path trail) found (i.mapTargets p.newAddress)) := by
  have htargets := (checkInstr_eq_ok_iff.mp ((validate_eq_ok_iff.mp hvalid).2 path.place i hi)).1
  cases i with
  | look kind body next =>
    have hnext : next ≤ p.length := Nat.le_of_lt (htargets next (by simp [Instr.targets]))
    have hslots (slots : Slots) : p.Sensible { path with slots := slots } :=
      ⟨hpath.place_le, hpath.works⟩
    simp only [afterLook, Instr.mapTargets]
    cases found with
    | none =>
      cases hnegative : kind.isNegative with
      | false =>
        simp only [State.looked?, hnegative, Bool.false_eq_true, if_false]
        exact .dead _ _
      | true =>
        simp only [State.looked?, hnegative, if_true]
        exact .along _ (near_goTo hpath htrail hnext)
    | some found =>
      cases hnegative : kind.isNegative with
      | false =>
        simp only [State.looked?, hnegative, Bool.false_eq_true, if_false]
        exact .along _ (near_goTo (hslots found.slots) htrail hnext)
      | true =>
        simp only [State.looked?, hnegative, if_true]
        exact .dead _ _
  | _ => exact .dead _ _

end Execute

/-- What is left of a program shadows it. -/
theorem Condenses.shadows (hq : p.Condenses q) (hvalid : p.validate = .ok ()) :
    p.code.Shadows p.Near p.At q.code where
  groups_eq := hq.groupCount_eq
  near := by
    rintro path path' ⟨trail, rfl, -⟩
    rfl
  at_ := by
    rintro path path' ⟨trail, rfl, -⟩
    exact ⟨rfl, rfl⟩
  repeated := by
    rintro path path' ⟨trail, rfl, -, htrail⟩ hseen
    exact htrail.mem hseen
  enter := by
    rintro input inBody path path' move ⟨trail, rfl, hpath, htrail⟩ hnew hmove
    have hentered : p.Sensible path.entered := ⟨hpath.place_le, hpath.works⟩
    cases hinstr : p.instr path.place with
    | error e =>
      simp only [code, Path.entered, hinstr] at hmove
      cases hmove
    | ok i =>
      have hi := instr_eq_ok hinstr
      simp only [code, Path.entered, hinstr, bind, Except.bind] at hmove
      by_cases hnop : i = .nop
      · left
        subst hnop
        cases hmove
        refine ⟨_, rfl, trail, ?_, ⟨?_, hpath.works⟩, htrail.skip hi⟩
        · simp only [image, newAddress_succ_of_nop hi]
        · exact (Array.getElem?_eq_some_iff.mp hi).1
      · right
        have hworks : p.Works path.place := ⟨i, hi, hnop⟩
        have hplace := hq.instr path.place i hi hnop
        obtain ⟨move', hmove', hmoves⟩ :=
          execute_moves input hvalid hq hentered (htrail.enter hworks) hi hnop hmove
        refine ⟨fun hseen => hnew ((htrail.mem_iff _ hworks).mpr hseen), move', ?_, hmoves⟩
        have hinstr' : q.instr (p.newAddress path.place) = .ok (i.mapTargets p.newAddress) := by
          rw [Program.instr, hplace]
        simp only [code, Path.entered, image, hinstr', bind, Except.bind]
        exact hmove'
  resume := by
    rintro input inBody path path' found move ⟨trail, rfl, hpath, ⟨i, hi, hworks⟩, htrail⟩ hmove
    have hinstr : p.instr path.place = .ok i := by rw [Program.instr, hi]
    have hinstr' : q.instr (p.newAddress path.place) = .ok (i.mapTargets p.newAddress) := by
      rw [Program.instr, hq.instr path.place i hi hworks]
    simp only [code, hinstr, bind, Except.bind, pure, Except.pure] at hmove
    cases hmove
    refine ⟨_, ?_, afterLook_moves hvalid hpath htrail hi found⟩
    simp only [code, image, hinstr', bind, Except.bind, pure, Except.pure]

/-- To remove what does nothing from a program that makes sense leaves nothing of the kind and
changes nothing that is found: what was found within some bounds still is, and so is that there was
nothing to find. What is left makes sense, and there is nothing more to remove from it. -/
theorem removeNops_finds_same (hvalid : p.validate = .ok ()) (hsome : ∃ i ∈ p.instrs, i ≠ .nop) :
    (∀ i ∈ p.removeNops.2.instrs, i ≠ .nop) ∧ p.removeNops.2.validate = .ok () ∧
      p.removeNops.2.removeNops = (0, p.removeNops.2) ∧
      ∀ search : Search, search.bailout = none → ∀ (start : Nat) (t s : Tracker) (A : Attempt),
        (p.attempt search start).run t = (.ok A, s) →
          ∃ s', (p.removeNops.2.attempt search start).run t = (.ok A, s') := by
  by_cases hnops : p.working.size = p.length
  · have hall := ne_nop_of_size_working hnops
    rw [removeNops_eq_self hnops]
    exact ⟨hall, hvalid, removeNops_eq_self hnops, fun search _ start t s A hrun => ⟨s, hrun⟩⟩
  · have hq := condenses_removeNops hvalid hnops hsome
    have hworking := working_eq fun i hi => hq.ne_nop hi
    have hlength : p.length ≠ 0 := (validate_eq_ok_iff.mp hvalid).1
    refine ⟨fun i hi => hq.ne_nop hi, hq.validate hvalid,
      removeNops_eq_self (congrArg Array.size hworking), fun search hbailout start t s A hrun => ?_⟩
    have hinitial (start : Nat) (slots : Slots) :
        p.Near (.start 0 start slots) (.start 0 start slots) :=
      ⟨[], rfl, ⟨Nat.zero_le _, List.forall_mem_nil _⟩, entered_nil 0⟩
    have hrepeats := (hq.shadows hvalid).search_repeats hbailout hinitial start
    unfold attempt at hrun ⊢
    rw [if_neg hlength] at hrun
    rw [if_neg hq.length_ne]
    obtain ⟨B, s', hrun', rfl, -⟩ := hrepeats t.total t t s A (.refl search.clock t) hrun
    exact ⟨s', hrun'⟩

/-- Takes one `a` or more. What does nothing stands where a repetition starts, inside of it, and at
the end, where another instruction refers to it. -/
private def padded : Program :=
  { Program.empty with
    instrs := #[.nop, .repeatStart 1 none true 4, .nop, .char 'a' false, .repeatEnd 1, .nop,
      .split 7 8, .accept, .nop] }

private def throughTwoAs : Search := ⟨#['a', 'a'], true, .backtracking, none, false, .still⟩

theorem removeNops_finds_same_padded :
    (padded.validate = .ok () ∧ (∃ i ∈ padded.instrs, i ≠ .nop)) ∧
      ((padded.attempt throughTwoAs 0).run (.new ⟨9, 0, 0⟩)).1 = .ok ⟨some ⟨2, []⟩, false⟩ ∧
      ((padded.removeNops.2.attempt throughTwoAs 0).run (.new ⟨9, 0, 0⟩)).1 =
        .ok ⟨some ⟨2, []⟩, false⟩ := by
  have hvalid : padded.validate = .ok () := rfl
  have hsome : ∃ i ∈ padded.instrs, i ≠ .nop :=
    ⟨.accept, Array.mem_of_getElem? (i := 7) rfl, by simp⟩
  have hrun : ((padded.attempt throughTwoAs 0).run (.new ⟨9, 0, 0⟩)).1 =
      .ok ⟨some ⟨2, []⟩, false⟩ := by decide +kernel
  have hsame := (removeNops_finds_same hvalid hsome).2.2.2 throughTwoAs rfl 0 (.new ⟨9, 0, 0⟩)
  refine ⟨⟨hvalid, hsome⟩, hrun, ?_⟩
  generalize (padded.attempt throughTwoAs 0).run (.new ⟨9, 0, 0⟩) = ended at hrun hsame
  obtain ⟨answer, s⟩ := ended
  obtain rfl : answer = .ok ⟨some ⟨2, []⟩, false⟩ := hrun
  obtain ⟨s', hrun'⟩ := hsame s _ rfl
  rw [hrun']

end Program

end RegexEngine
