import RegexEngine.Proofs.Automaton.Charts
import RegexEngine.Proofs.Search.Captures
import RegexEngine.Proofs.Search.Ends

/-!
Which of the matches backtracking finds. A route through an automaton is told by the choices made on
it: in each state the index of a transition, or the number of transitions in the state where it
accepts. Backtracking goes through the routes that enter no state twice at the same place, and what
it finds belongs to the one whose choices come first in the order of lists.
-/

namespace RegexEngine

namespace State

/-- Where a way stands after it has entered a state. -/
def marked (s : State) (path : Path) : Path :=
  { path with slots := s.capture path.position path.slots, trail := path.place :: path.trail }

/-- What the choice with an index leads to. To accept comes after all transitions. -/
def branch? (s : State) (input : Array Char) (path : Path) (index : Nat) : Option Frame :=
  if index = s.transitions.length then
    if s.accepting then some (.accept path.position path.slots) else none
  else s.transitions[index]?.bind (over? input path)

theorem filterMap_eq_range {α β : Type} (f : α → Option β) (l : List α) :
    l.filterMap f = (List.range l.length).filterMap fun i => l[i]?.bind f := by
  induction l with
  | nil => rfl
  | cons x rest ih =>
    rw [List.length_cons, List.range_succ_eq_map, List.filterMap_cons, List.filterMap_cons,
      List.filterMap_map, ih]
    rfl

theorem ways_eq_range (s : State) (input : Array Char) (path : Path) :
    s.ways input false path =
      (List.range (s.transitions.length + 1)).filterMap (s.branch? input path) := by
  rw [List.range_succ, List.filterMap_append, ways, filterMap_eq_range]
  congr 1
  · apply List.filterMap_congr
    intro index hindex
    rw [branch?, if_neg (Nat.ne_of_lt (List.mem_range.mp hindex))]
  · cases haccepting : s.accepting <;> simp [branch?, haccepting]

/-! What a group has after a state was entered. -/

variable {s : State} {group : Nat}

/-- True when the state opens a certain group. -/
def opens (s : State) (group : Nat) : Bool := s.groupIndex == some group && s.opensGroup

/-- True when the state closes a certain group. -/
def closes (s : State) (group : Nat) : Bool := s.groupIndex == some group && s.closesGroup

theorem length_capture (position : Nat) (slots : Slots) :
    (s.capture position slots).length = slots.length := by
  unfold capture
  split
  · split <;> split <;> simp [Slots.openAt, Slots.closeAt]
  · rfl

theorem start?_capture (hgroup : 0 < group) {slots : Slots} (hfits : 2 * group ≤ slots.length)
    (position : Nat) : (s.capture position slots).start? group =
      (slots.start? group).or (if s.opens group then some position else none) := by
  by_cases hindex : s.groupIndex = some group
  · obtain ⟨g, rfl⟩ := Nat.exists_eq_succ_of_ne_zero (Nat.ne_of_gt hgroup)
    have hslot : Slots.startSlot (g + 1) < slots.length := by
      unfold Slots.startSlot
      omega
    have hopens : s.opens (g + 1) = s.opensGroup := by simp [opens, hindex]
    have hopened : (if s.opensGroup then slots.openAt (g + 1) position else slots).start? (g + 1) =
        (slots.start? (g + 1)).or (if s.opensGroup then some position else none) := by
      split
      · rw [Slots.start?_openAt, if_pos hslot]
        cases slots.start? (g + 1) <;> rfl
      · rw [Option.or_none]
    rw [hopens, ← hopened, capture, hindex]
    dsimp only
    split
    · exact Slots.start?_closeAt
    · rfl
  · have hsame := sameAt_capture hgroup hindex position slots
    rw [hsame.1, opens, beq_eq_false_iff_ne.mpr hindex, Bool.false_and]
    exact (Option.or_none).symm

theorem stop?_capture (hgroup : 0 < group) {slots : Slots} (hfits : 2 * group ≤ slots.length)
    (position : Nat) : (s.capture position slots).stop? group =
      (if s.closes group then some position else none).or (slots.stop? group) := by
  by_cases hindex : s.groupIndex = some group
  · obtain ⟨g, rfl⟩ := Nat.exists_eq_succ_of_ne_zero (Nat.ne_of_gt hgroup)
    have hcloses : s.closes (g + 1) = s.closesGroup := by simp [closes, hindex]
    rw [hcloses, capture, hindex]
    dsimp only
    split
    · rw [Slots.stop?_closeAt, if_pos]
      · rfl
      · have hlength : (if s.opensGroup then slots.openAt (g + 1) position else slots).length =
            slots.length := by split <;> simp [Slots.openAt]
        rw [hlength, Slots.startSlot]
        omega
    · rw [Option.none_or]
      split
      · exact Slots.stop?_openAt
      · rfl
  · have hsame := sameAt_capture hgroup hindex position slots
    rw [hsame.2.1, closes, beq_eq_false_iff_ne.mpr hindex, Bool.false_and]
    rfl

end State

/-- What the first of some choices comes to, in the order of dictionaries, or nothing if there are
no choices. -/
def Least (offers : List Nat → Found → Prop) : Option Found → Prop
  | none => ∀ choices m, ¬offers choices m
  | some m => ∃ choices, offers choices m ∧
    ∀ others m', offers others m' → choices = others ∨ List.Lex (· < ·) choices others

theorem Least.congr {offers offers' : List Nat → Found → Prop} {found : Option Found}
    (h : Least offers found) (hsame : ∀ choices m, offers choices m ↔ offers' choices m) :
    Least offers' found := by
  have heq : offers = offers' := by
    funext choices m
    exact propext (hsame choices m)
  exact heq ▸ h

namespace Automaton

variable {a : Automaton} {search : Search} {input : Array Char}

/-- A route leads from a state at a place of the input to one that accepts at another place. The
visits are the states that it enters and where it enters them. -/
inductive Route (a : Automaton) (input : Array Char) (stop : Nat) :
    Nat → Nat → List Nat → List (Nat × Nat) → Prop
  | accept {s : Nat} {state : State} :
      a.states[s]? = some state → state.marks.holdAt input stop = true →
        state.accepting = true → Route a input stop s stop [state.transitions.length] [(s, stop)]
  | cross {s position index next : Nat} {state : State} {t : Transition} {choices : List Nat}
      {visits : List (Nat × Nat)} :
      a.states[s]? = some state → state.marks.holdAt input position = true →
        state.transitions[index]? = some t → t.matchAt? input position = some next →
          Route a input stop t.target next choices visits →
            Route a input stop s position (index :: choices) ((s, position) :: visits)

/-- The place where a route first enters a state that opens a group. -/
def firstEntry? (a : Automaton) (group : Nat) (visits : List (Nat × Nat)) : Option Nat :=
  (visits.find? fun visit => a.states[visit.1]?.any (·.opens group)).map (·.2)

/-- The place where a route last enters a state that closes a group. -/
def lastExit? (a : Automaton) (group : Nat) (visits : List (Nat × Nat)) : Option Nat :=
  (visits.findRev? fun visit => a.states[visit.1]?.any (·.closes group)).map (·.2)

/-- The slots of all groups hold their first entries and their last exits. -/
structure Records (a : Automaton) (visits : List (Nat × Nat)) (slots : Slots) : Prop where
  length_eq : slots.length = 2 * a.groupCount
  start?_eq : ∀ group, 0 < group → group ≤ a.groupCount →
    slots.start? group = a.firstEntry? group visits
  stop?_eq : ∀ group, 0 < group → group ≤ a.groupCount →
    slots.stop? group = a.lastExit? group visits

/-! Slots along a route. -/

/-- Enters the states of some visits one after the other. -/
def recorded (a : Automaton) : List (Nat × Nat) → Slots → Slots
  | [], slots => slots
  | visit :: rest, slots =>
    match a.states[visit.1]? with
    | some s => a.recorded rest (s.capture visit.2 slots)
    | none => a.recorded rest slots

theorem recorded_cons {s : Nat} {state : State} (hstate : a.states[s]? = some state)
    (position : Nat) (rest : List (Nat × Nat)) (slots : Slots) :
    a.recorded ((s, position) :: rest) slots =
      a.recorded rest (state.capture position slots) := by
  rw [recorded, hstate]

theorem length_recorded (visits : List (Nat × Nat)) (slots : Slots) :
    (a.recorded visits slots).length = slots.length := by
  induction visits generalizing slots with
  | nil => rfl
  | cons visit rest ih =>
    unfold recorded
    split
    · rw [ih, State.length_capture]
    · exact ih slots

theorem start?_recorded {group : Nat} (hgroup : 0 < group) (visits : List (Nat × Nat)) :
    ∀ slots : Slots, 2 * group ≤ slots.length →
      (a.recorded visits slots).start? group =
        (slots.start? group).or (a.firstEntry? group visits) := by
  induction visits with
  | nil => exact fun slots _ => (Option.or_none).symm
  | cons visit rest ih =>
    intro slots hfits
    unfold recorded firstEntry?
    rw [List.find?_cons]
    cases hstate : a.states[visit.1]? with
    | none => exact ih slots hfits
    | some s =>
      dsimp only
      rw [ih _ (by rwa [State.length_capture]), State.start?_capture hgroup hfits, Option.or_assoc,
        Option.any_some]
      cases s.opens group <;> rfl

theorem stop?_recorded {group : Nat} (hgroup : 0 < group) (visits : List (Nat × Nat)) :
    ∀ slots : Slots, 2 * group ≤ slots.length →
      (a.recorded visits slots).stop? group =
        (a.lastExit? group visits).or (slots.stop? group) := by
  induction visits with
  | nil => exact fun slots _ => rfl
  | cons visit rest ih =>
    intro slots hfits
    have hlast : a.lastExit? group (visit :: rest) = (a.lastExit? group rest).or
        (if a.states[visit.1]?.any (·.closes group) then some visit.2 else none) := by
      unfold lastExit?
      rw [List.findRev?]
      cases hrest : List.findRev? (fun visit => a.states[visit.1]?.any (·.closes group)) rest with
      | some last => rfl
      | none =>
        dsimp only
        split <;> rfl
    unfold recorded
    rw [hlast, Option.or_assoc]
    cases hstate : a.states[visit.1]? with
    | none => exact ih slots hfits
    | some s =>
      dsimp only
      rw [ih _ (by rwa [State.length_capture]), State.stop?_capture hgroup hfits, Option.any_some]

theorem records_recorded (visits : List (Nat × Nat)) :
    a.Records visits (a.recorded visits (.unset a.groupCount)) where
  length_eq := by rw [length_recorded, Slots.unset, List.length_replicate]
  start?_eq group hgroup hle := by
    rw [start?_recorded hgroup visits _ (by simpa [Slots.unset] using Nat.mul_le_mul_left 2 hle),
      Slots.start?_unset]
    rfl
  stop?_eq group hgroup hle := by
    rw [stop?_recorded hgroup visits _ (by simpa [Slots.unset] using Nat.mul_le_mul_left 2 hle),
      Slots.stop?_unset, Option.or_none]

/-! What a waiting way can come to. -/

/-- A route never goes back in the input. -/
theorem Route.le_of_mem {stop s position : Nat} {choices : List Nat} {visits : List (Nat × Nat)}
    (h : a.Route input stop s position choices visits) :
    ∀ visit ∈ visits, position ≤ visit.2 := by
  induction h with
  | accept => exact fun visit hvisit => List.mem_singleton.mp hvisit ▸ Nat.le_refl _
  | cross _ _ _ hmatch _ ih =>
    intro visit hvisit
    rcases List.mem_cons.mp hvisit with rfl | hlater
    · exact Nat.le_refl _
    · exact Nat.le_trans (State.matchAt?_bounds hmatch).1 (ih visit hlater)

theorem Route.mem_self {stop s position : Nat} {choices : List Nat} {visits : List (Nat × Nat)}
    (h : a.Route input stop s position choices visits) : (s, position) ∈ visits := by
  cases h <;> exact List.mem_cons_self

theorem route_iff {stop s position : Nat} {state : State} {choices : List Nat}
    {visits : List (Nat × Nat)} (hstate : a.states[s]? = some state) :
    a.Route input stop s position choices visits ↔
      state.marks.holdAt input position = true ∧
        ((state.accepting = true ∧ position = stop ∧ choices = [state.transitions.length] ∧
            visits = [(s, position)]) ∨
          ∃ index t next rest later, state.transitions[index]? = some t ∧
            t.matchAt? input position = some next ∧ a.Route input stop t.target next rest later ∧
              choices = index :: rest ∧ visits = (s, position) :: later) := by
  constructor
  · intro h
    cases h with
    | accept hstate' hholds haccepting =>
      cases hstate.symm.trans hstate'
      exact ⟨hholds, .inl ⟨haccepting, rfl, rfl, rfl⟩⟩
    | cross hstate' hholds ht hmatch hrest =>
      cases hstate.symm.trans hstate'
      exact ⟨hholds, .inr ⟨_, _, _, _, _, ht, hmatch, hrest, rfl, rfl⟩⟩
  · rintro ⟨hholds, ⟨haccepting, rfl, rfl, rfl⟩ | ⟨index, t, next, rest, later, ht, hmatch, hrest,
      rfl, rfl⟩⟩
    · exact .accept hstate hholds haccepting
    · exact .cross hstate hholds ht hmatch hrest

/-- A route is told by its choices. -/
theorem Route.unique {stop stop' s position : Nat} {choices : List Nat}
    {visits visits' : List (Nat × Nat)} (h : a.Route input stop s position choices visits)
    (h' : a.Route input stop' s position choices visits') : stop = stop' ∧ visits = visits' := by
  induction h generalizing stop' visits' with
  | accept hstate =>
    obtain ⟨_, ⟨_, hstop, _, hvisits⟩ | ⟨index, t, _, _, _, ht, _, _, hchoices, _⟩⟩ :=
      (route_iff hstate).mp h'
    · exact ⟨hstop, hvisits.symm⟩
    · obtain ⟨rfl, _⟩ := List.cons.inj hchoices
      cases (List.getElem?_eq_none (Nat.le_refl _)).symm.trans ht
  | cross hstate _ ht hmatch hrest ih =>
    obtain ⟨_, ⟨_, _, hchoices, _⟩ | ⟨index, t, _, _, _, ht', hmatch', hrest', hchoices, hvisits⟩⟩ :=
      (route_iff hstate).mp h'
    · obtain ⟨rfl, _⟩ := List.cons.inj hchoices
      cases (List.getElem?_eq_none (Nat.le_refl _)).symm.trans ht
    · obtain ⟨rfl, rfl⟩ := List.cons.inj hchoices
      cases ht.symm.trans ht'
      cases hmatch.symm.trans hmatch'
      obtain ⟨hstop, rfl⟩ := ih hrest'
      exact ⟨hstop, hvisits.symm⟩

/-- What a waiting way comes to by certain choices: the end of a route that enters no state twice
without taking input, and none that the way has entered since it took some. -/
def Offers (a : Automaton) (search : Search) : Frame → List Nat → Found → Prop
  | .follow path, choices, m =>
    search.endsAt m.stop = true ∧ ∃ visits,
      a.Route search.input m.stop path.place path.position choices visits ∧ visits.Nodup ∧
        (∀ s ∈ path.trail, (s, path.position) ∉ visits) ∧ m.slots = a.recorded visits path.slots
  | .accept position slots, choices, m =>
    search.endsAt position = true ∧ choices = [] ∧ m = ⟨position, slots⟩

variable {path : Path} {s : State} {choices : List Nat} {m : Found}

theorem Offers.not_mem_trail (h : a.Offers search (.follow path) choices m) :
    path.place ∉ path.trail := by
  obtain ⟨_, visits, hroute, _, htrail, _⟩ := h
  exact fun hseen => htrail _ hseen hroute.mem_self

theorem Offers.of_route {initial start stop : Nat} {slots : Slots} {visits : List (Nat × Nat)}
    (hends : search.endsAt stop = true)
    (hroute : a.Route search.input stop initial start choices visits) (hnodup : visits.Nodup) :
    a.Offers search (.follow (.start initial start slots)) choices
      ⟨stop, a.recorded visits slots⟩ :=
  ⟨hends, visits, hroute, hnodup, fun _ hu => absurd hu List.not_mem_nil, rfl⟩

/-- A way that enters a state comes to what one of its branches comes to. -/
theorem Offers.exists_branch (hstate : a.states[path.place]? = some s)
    (h : a.Offers search (.follow path) choices m) :
    s.marks.holdAt search.input path.position = true ∧ ∃ index rest frame,
      choices = index :: rest ∧ s.branch? search.input (s.marked path) index = some frame ∧
        a.Offers search frame rest m := by
  obtain ⟨stop, slots⟩ := m
  obtain ⟨hends, visits, hroute, hnodup, htrail, hslots⟩ := h
  obtain ⟨hholds, hroute⟩ := (route_iff hstate).mp hroute
  refine ⟨hholds, ?_⟩
  rcases hroute with ⟨haccepting, hstop, rfl, rfl⟩ |
    ⟨index, t, next, rest, later, ht, hmatch, hrest, rfl, rfl⟩
  · refine ⟨s.transitions.length, [], .accept path.position (s.marked path).slots, rfl, ?_, ?_⟩
    · rw [State.branch?, if_pos rfl, if_pos haccepting]
      rfl
    · rw [recorded_cons hstate, recorded] at hslots
      dsimp only at hstop hslots hends
      subst hstop hslots
      exact ⟨hends, rfl, rfl⟩
  · have hindex : index ≠ s.transitions.length :=
      Nat.ne_of_lt (List.getElem?_eq_some_iff.mp ht).1
    obtain ⟨hnew, hnodup⟩ := List.nodup_cons.mp hnodup
    refine ⟨index, rest, .follow { s.marked path with
      place := t.target
      position := next
      trail := if next = path.position then (s.marked path).trail else [] }, rfl, ?_, hends,
      later, hrest, hnodup, ?_, ?_⟩
    · rw [State.branch?, if_neg hindex, ht, Option.bind_some, State.over?]
      exact congrArg _ hmatch
    · intro u hu
      dsimp only at hu ⊢
      split at hu
      · rename_i hstays
        rw [hstays]
        rcases List.mem_cons.mp hu with rfl | hu
        · exact hnew
        · exact fun hmem => htrail u hu (List.mem_cons_of_mem _ hmem)
      · cases hu
    · rw [hslots, recorded_cons hstate]
      rfl

/-- What a branch comes to, the way comes to by it. -/
theorem Offers.of_branch (hnew : path.place ∉ path.trail) (hstate : a.states[path.place]? = some s)
    (hholds : s.marks.holdAt search.input path.position = true) {index : Nat} {frame : Frame}
    (hbranch : s.branch? search.input (s.marked path) index = some frame)
    (h : a.Offers search frame choices m) :
    a.Offers search (.follow path) (index :: choices) m := by
  have hself (u : Nat) (hu : u ∈ path.trail) : (u, path.position) ≠ (path.place, path.position) :=
    fun heq => hnew ((Prod.mk.inj heq).1 ▸ hu)
  unfold State.branch? at hbranch
  split at hbranch
  · rename_i hindex
    split at hbranch
    · rename_i haccepting
      obtain rfl := Option.some.inj hbranch
      obtain ⟨hends, rfl, rfl⟩ := h
      refine ⟨hends, [(path.place, path.position)], ?_, List.nodup_singleton _, ?_, ?_⟩
      · exact (route_iff hstate).mpr ⟨hholds, .inl ⟨haccepting, rfl, hindex ▸ rfl, rfl⟩⟩
      · exact fun u hu hmem => hself u hu (List.mem_singleton.mp hmem)
      · rw [recorded_cons hstate]
        rfl
    · cases hbranch
  · obtain ⟨t, ht, hover⟩ := Option.bind_eq_some_iff.mp hbranch
    obtain ⟨next, hmatch, rfl⟩ := Option.map_eq_some_iff.mp hover
    have hmatch : t.matchAt? search.input path.position = some next := hmatch
    obtain ⟨hends, later, hroute, hnodup, htrail, hslots⟩ := h
    have hlater (u : Nat) (hu : u ∈ path.place :: path.trail) : (u, path.position) ∉ later := by
      by_cases hstays : next = path.position
      · have hu' := htrail u (by rw [if_pos (show next = (s.marked path).position from hstays)]; exact hu)
        rwa [hstays] at hu'
      · intro hmem
        have hle := hroute.le_of_mem _ hmem
        have hge := (State.matchAt?_bounds hmatch).1
        exact hstays (Nat.le_antisymm hle hge)
    refine ⟨hends, (path.place, path.position) :: later, ?_, ?_, ?_, ?_⟩
    · exact (route_iff hstate).mpr
        ⟨hholds, .inr ⟨index, t, next, choices, later, ht, hmatch, hroute, rfl, rfl⟩⟩
    · exact List.nodup_cons.mpr ⟨hlater _ List.mem_cons_self, hnodup⟩
    · intro u hu hmem
      rcases List.mem_cons.mp hmem with heq | hmem
      · exact hself u hu heq
      · exact hlater u (List.mem_cons_of_mem _ hu) hmem
    · rw [hslots, recorded_cons hstate]
      rfl

/-! The order in which ways are tried. -/

/-- The first way that comes to anything comes to this. -/
def Picks (a : Automaton) (search : Search) : List Frame → Option Found → Prop
  | [], found => found = none
  | frame :: rest, found =>
    (found.isSome = true ∧ Least (a.Offers search frame) found) ∨
      (Least (a.Offers search frame) none ∧ a.Picks search rest found)

theorem Picks.append_cases {before after : List Frame} {found : Option Found}
    (h : a.Picks search (before ++ after) found) :
    (found.isSome = true ∧ a.Picks search before found) ∨
      (a.Picks search before none ∧ a.Picks search after found) := by
  induction before with
  | nil => exact .inr ⟨rfl, h⟩
  | cons frame rest ih =>
    rcases h with ⟨hsome, hleast⟩ | ⟨hnone, hrest⟩
    · exact .inl ⟨hsome, .inl ⟨hsome, hleast⟩⟩
    · rcases ih hrest with ⟨hsome, hpicks⟩ | ⟨hpicks, hafter⟩
      · exact .inl ⟨hsome, .inr ⟨hnone, hpicks⟩⟩
      · exact .inr ⟨.inr ⟨hnone, hpicks⟩, hafter⟩

/-- Of ways that stand in the order of their indices, the first that comes to anything makes the
least choices, if the index is the first of them. -/
theorem Picks.least {branch? : Nat → Option Frame} {found : Option Found} (n : Nat) :
    ∀ k : Nat, a.Picks search ((List.range' k n).filterMap branch?) found →
      Least (fun choices m => ∃ index rest frame, choices = index :: rest ∧
        (k ≤ index ∧ index < k + n) ∧ branch? index = some frame ∧ a.Offers search frame rest m)
        found := by
  induction n with
  | zero =>
    intro k h
    obtain rfl : found = none := h
    rintro choices m ⟨index, rest, frame, rfl, hindex, _⟩
    omega
  | succ n ih =>
    intro k h
    rw [List.range'_succ, List.filterMap_cons] at h
    have hlater (hnone : ∀ frame, branch? k = some frame → Least (a.Offers search frame) none)
        (hrest : a.Picks search ((List.range' (k + 1) n).filterMap branch?) found) :
        Least (fun choices m => ∃ index rest frame, choices = index :: rest ∧
          (k ≤ index ∧ index < k + (n + 1)) ∧ branch? index = some frame ∧
            a.Offers search frame rest m) found := by
      refine (ih (k + 1) hrest).congr fun choices m => ?_
      constructor
      · rintro ⟨index, rest, frame, rfl, hindex, hbranch, hoffers⟩
        exact ⟨index, rest, frame, rfl, by omega, hbranch, hoffers⟩
      · rintro ⟨index, rest, frame, rfl, hindex, hbranch, hoffers⟩
        by_cases hk : index = k
        · subst hk
          exact absurd hoffers (hnone frame hbranch rest m)
        · exact ⟨index, rest, frame, rfl, by omega, hbranch, hoffers⟩
    cases hbranch : branch? k with
    | none =>
      rw [hbranch] at h
      exact hlater (fun frame hframe => nomatch hbranch.symm.trans hframe) h
    | some frame =>
      rw [hbranch] at h
      rcases h with ⟨hsome, hleast⟩ | ⟨hnone, hrest⟩
      · obtain ⟨m, rfl⟩ := Option.isSome_iff_exists.mp hsome
        obtain ⟨choices, hoffers, hfirst⟩ := hleast
        refine ⟨k :: choices, ⟨k, choices, frame, rfl, by omega, hbranch, hoffers⟩, ?_⟩
        rintro others m' ⟨index, rest, frame', rfl, hindex, hbranch', hoffers'⟩
        rcases Nat.lt_or_eq_of_le hindex.1 with hlt | rfl
        · exact .inr (.rel hlt)
        · cases hbranch.symm.trans hbranch'
          exact (hfirst rest m' hoffers').imp (congrArg (k :: ·)) .cons
      · refine hlater (fun frame' hframe' => ?_) hrest
        cases hbranch.symm.trans hframe'
        exact hnone

theorem Picks.least_of_expand (hnew : path.place ∉ path.trail)
    (hstate : a.states[path.place]? = some s) {found : Option Found}
    (h : a.Picks search (expand s search path) found) :
    Least (a.Offers search (.follow path)) found := by
  unfold expand at h
  split at h
  · rename_i hholds
    have hways : s.ways search.input false (s.marked path) =
        (List.range' 0 (s.transitions.length + 1)).filterMap
          (s.branch? search.input (s.marked path)) := by
      rw [State.ways_eq_range, List.range_eq_range']
    have hpicks : a.Picks search (s.ways search.input false (s.marked path)) found := h
    rw [hways] at hpicks
    refine (Picks.least _ 0 hpicks).congr fun choices m => ?_
    constructor
    · rintro ⟨index, rest, frame, rfl, _, hbranch, hoffers⟩
      exact .of_branch hnew hstate hholds hbranch hoffers
    · intro hoffers
      obtain ⟨_, index, rest, frame, rfl, hbranch, hoffers⟩ := hoffers.exists_branch hstate
      refine ⟨index, rest, frame, rfl, ⟨Nat.zero_le _, ?_⟩, hbranch, hoffers⟩
      unfold State.branch? at hbranch
      split at hbranch
      · omega
      · obtain ⟨t, ht, _⟩ := Option.bind_eq_some_iff.mp hbranch
        have hlt := (List.getElem?_eq_some_iff.mp ht).1
        omega
  · rename_i hfails
    obtain rfl : found = none := h
    exact fun choices m hoffers => hfails (hoffers.exists_branch hstate).1

/-- Ways are tried in order, and each of them gives what its least choices come to. -/
theorem Answers.picks {frames : List Frame} {found : Option Found}
    (h : a.Answers search frames found) : a.Picks search frames found := by
  induction h with
  | nil => rfl
  | @accepted position slots rest hends =>
    exact .inl ⟨rfl, [], ⟨hends, rfl, rfl⟩, fun others m' hoffers => .inl hoffers.2.1.symm⟩
  | refused hrefuses _ ih =>
    refine .inr ⟨fun choices m hoffers => ?_, ih⟩
    cases hrefuses.symm.trans hoffers.1
  | repeated hseen _ ih =>
    exact .inr ⟨fun choices m hoffers => hoffers.not_mem_trail hseen, ih⟩
  | entered hnew hstate _ ih =>
    rcases ih.append_cases with ⟨hsome, hpicks⟩ | ⟨hpicks, hrest⟩
    · exact .inl ⟨hsome, hpicks.least_of_expand hnew hstate⟩
    · exact .inr ⟨hpicks.least_of_expand hnew hstate, hrest⟩

/-- Backtracking through an automaton without actions finds what the first route comes to that
enters no state twice without taking input, and that ends where a match may end. -/
theorem backtracking_finds_first_route (a : Automaton) (search : Search) (initial start : Nat)
    (hintegrity : a.checkIntegrity = .ok ()) (hinitial : a.initial = some initial)
    (hactions : a.hasActions = false) (hbailout : search.bailout = none) (t : Tracker)
    (hlimit : ¬StoppedAtLimit ((a.code.search search initial start).run t).1) :
    ∃ found : Option Found,
      ((a.code.search search initial start).run t).1 = .ok (.ofFound found) ∧
        (found = none ↔ ∀ stop choices visits, search.endsAt stop = true →
          a.Route search.input stop initial start choices visits → ¬visits.Nodup) ∧
        ∀ m, found = some m → search.endsAt m.stop = true ∧ ∃ choices visits,
          a.Route search.input m.stop initial start choices visits ∧ visits.Nodup ∧
            a.Records visits m.slots ∧
              ∀ stop others visits', search.endsAt stop = true →
                a.Route search.input stop initial start others visits' → visits'.Nodup →
                  choices = others ∨ List.Lex (· < ·) choices others := by
  have hwf := (checkIntegrity_iff a).mp hintegrity
  obtain ⟨attempt, hok, hgives⟩ := (Code.search_ensures hbailout hwf.closedOn
    (hwf.initial_lt initial hinitial) t).resolve_left hlimit
  obtain ⟨hcommitted, hanswers⟩ := tells hactions hgives rfl
  obtain ⟨found, committed⟩ := attempt
  obtain rfl : committed = false := hcommitted
  have hleast : Least (a.Offers search (.follow (.start initial start (.unset a.groupCount))))
      found := by
    rcases hanswers.picks with ⟨_, hleast⟩ | ⟨hnone, rfl⟩
    · exact hleast
    · exact hnone
  refine ⟨found, hok, ?_, ?_⟩
  · constructor
    · rintro rfl stop choices visits hends hroute hnodup
      exact hleast choices _ (.of_route hends hroute hnodup)
    · intro hnone
      cases found with
      | none => rfl
      | some m =>
        obtain ⟨choices, ⟨hends, visits, hroute, hnodup, _⟩, _⟩ := hleast
        exact absurd hnodup (hnone m.stop choices visits hends hroute)
  · rintro m rfl
    obtain ⟨choices, ⟨hends, visits, hroute, hnodup, _, hslots⟩, hfirst⟩ := hleast
    refine ⟨hends, choices, visits, hroute, hnodup, hslots ▸ records_recorded visits, ?_⟩
    intro stop others visits' hends' hroute' hnodup'
    exact hfirst others _ (.of_route hends' hroute' hnodup')

private theorem parse_lettersAB : Matcher.parse ['a', 'b'] = .ok (.literal ['a', 'b'] false) := rfl

private theorem parse_onlyA : Matcher.parse ['a'] = .ok (.literal ['a'] false) := rfl

private def lettersAB : Label := ⟨['a', 'b'], .literal ['a', 'b'] false, parse_lettersAB⟩

private def onlyA : Label := ⟨['a'], .literal ['a'] false, parse_onlyA⟩

private def alternatives : State :=
  { (State.new 0 false).openGroup 1 with
    transitions := [⟨0, 0, none, 0⟩, ⟨0, 1, some onlyA, 0⟩, ⟨0, 1, some lettersAB, 0⟩] }

/-- An automaton with a group for `a` or `ab`, which comes back to its start without input first. -/
private def shortFirst : Automaton :=
  ⟨.nfa, #[alternatives, (State.new 1 true).closeGroup 1], some 0, none, .empty, none⟩

private def toTheEnd : Search := ⟨#['a', 'b'], true, .backtracking, none, false, .still⟩

theorem backtracking_finds_first_route_shortFirst :
    ((shortFirst.code.search toTheEnd 0 0).run (.new ⟨100, 0, 0⟩)).1 =
        .ok (.ofFound (some ⟨2, [some 0, some 2]⟩)) ∧
      ∃ choices visits, shortFirst.Route toTheEnd.input 2 0 0 choices visits ∧ visits.Nodup ∧
        shortFirst.Records visits [some 0, some 2] ∧
          ∀ stop others visits', toTheEnd.endsAt stop = true →
            shortFirst.Route toTheEnd.input stop 0 0 others visits' → visits'.Nodup →
              choices = others ∨ List.Lex (· < ·) choices others := by
  have hrun : ((shortFirst.code.search toTheEnd 0 0).run (.new ⟨100, 0, 0⟩)).1 =
      .ok (.ofFound (some ⟨2, [some 0, some 2]⟩)) := by
    decide +kernel
  have hactions : shortFirst.hasActions = false := by
    simp [hasActions, shortFirst, alternatives, State.new, State.openGroup, State.closeGroup]
  obtain ⟨found, hok, _, hfirst⟩ := backtracking_finds_first_route shortFirst toTheEnd 0 0 rfl rfl
    hactions rfl (.new ⟨100, 0, 0⟩) (StoppedAtLimit.of_isOk (by rw [hrun]; rfl))
  cases hrun.symm.trans hok
  obtain ⟨_, hroute⟩ := hfirst _ rfl
  exact ⟨hrun, hroute⟩

end Automaton

end RegexEngine
