import RegexEngine.Proofs.Search.Agreement
import RegexEngine.Proofs.Search.Bounds
import RegexEngine.Proofs.Search.Stages
import RegexEngine.Proofs.Text

/-!
Matches that are well formed: they lie in the part of the input that was searched, and so do the
places of their groups. What is known of attempts holds of the matches that a context answers with,
first for indices of characters and then for byte offsets.
-/

namespace RegexEngine

open Tracked

/-! What attempts find. -/

/-- What was found from a place on lies in an input, and the groups that are not exempt did not
close before they opened. -/
structure Found.LiesIn (size start : Nat) (exempt : List Nat) (f : Found) : Prop where
  start_le : start ≤ f.stop
  stop_le : f.stop ≤ size
  slots_le : ∀ place, some place ∈ f.slots → place ≤ size
  ordered : ∀ group, 0 < group → group ∉ exempt → f.slots.Ordered group

/-- All that the attempts of a searcher find is well formed. -/
def Searcher.FindsInside (x : Searcher) (exempt : List Nat) : Prop :=
  ∀ (search : Search) (start : Nat), start ≤ search.input.size →
    Grants (x.attempt search start) fun attempt =>
      ∀ f, attempt.found = some f → f.LiesIn search.input.size start exempt

/-! What contexts answer with. -/

namespace Context

/-- The part of the input that searches go through. -/
def searched (ctx : Context) : Array Char := ctx.input.extract 0 ctx.bounds.2

/-- The region has an end after its start, and lies in the input. -/
structure HasRegion (ctx : Context) : Prop where
  start_le : ctx.bounds.1 ≤ ctx.bounds.2
  stop_le : ctx.bounds.2 ≤ ctx.input.size

theorem hasRegion_setInput (ctx : Context) (input : Array Char) : (ctx.setInput input).HasRegion :=
  ⟨Nat.zero_le _, Nat.le_refl _⟩

/-- However a region is asked for, the one that searches are confined to has an end after its
start. -/
theorem HasRegion.setRegion {ctx : Context} (h : ctx.HasRegion) (start stop : Nat) :
    (ctx.setRegion start stop).2.HasRegion := by
  refine ⟨?_, RegionInside.setRegion h.stop_le start stop⟩
  unfold Context.setRegion
  split
  · rename_i first last hfirst hlast
    split
    · rename_i hle
      exact Text.indexOfByte?_mono hle hfirst hlast
    · exact h.start_le
  · exact h.start_le

/-- A match that an operation of a context answers with. -/
inductive Finds (ctx : Context) (x : Searcher) (m : Match) : Prop
  | whole : (ctx.matchWhole x).1 = .ok (some m) → Finds ctx x m
  | next : (ctx.findNext x).1 = .ok (some m) → Finds ctx x m
  | all {most : Nat} {found : List Match} : (ctx.findAll x most).1 = .ok found → m ∈ found →
      Finds ctx x m

variable {ctx c d : Context} {x : Searcher} {exempt : List Nat} {m : Match}

theorem size_searched (h : ctx.HasRegion) : ctx.searched.size = ctx.bounds.2 := by
  have hstop := h.stop_le
  simp only [searched, Array.size_extract]
  omega

/-- What is found at one of several places is found by an attempt at that place. -/
theorem tryAll_grants {search : Search} {places : List Nat} {post : Nat → Found → Prop}
    (h : ∀ place ∈ places, Grants (x.attempt search place) fun attempt =>
      ∀ f, attempt.found = some f → post place f) (anchored : Bool) :
    Grants (tryAll x search anchored places) fun r => ∀ start f, r = some (start, f) →
      start ∈ places ∧ post start f := by
  induction places with
  | nil => exact grants_pure (by simp)
  | cons start rest ih =>
    obtain ⟨hstart, hrest⟩ := List.forall_mem_cons.mp h
    unfold tryAll
    apply grants_bind_any
    intro _
    refine grants_bind hstart fun attempt hattempt => ?_
    cases hfound : attempt.found with
    | some f =>
      apply grants_pure
      intro place f' heq
      cases heq
      exact ⟨List.mem_cons_self, hattempt f hfound⟩
    | none =>
      dsimp only
      split
      · exact grants_pure (by simp)
      · refine grants_mono (ih hrest) fun r hr place f heq => ?_
        obtain ⟨hmem, hpost⟩ := hr place f heq
        exact ⟨List.mem_cons_of_mem _ hmem, hpost⟩

/-- Two contexts search the same part of the same input. -/
structure SameText (c d : Context) : Prop where
  input_eq : d.input = c.input
  region_eq : d.region = c.region

theorem SameText.bounds_eq (h : c.SameText d) : d.bounds = c.bounds := by
  simp only [bounds, h.region_eq, h.input_eq]

theorem SameText.trans {e : Context} (h : c.SameText d) (h' : d.SameText e) : c.SameText e :=
  ⟨h'.input_eq.trans h.input_eq, h'.region_eq.trans h.region_eq⟩

theorem SameText.hasRegion (h : c.SameText d) (hregion : c.HasRegion) : d.HasRegion := by
  constructor
  · rw [h.bounds_eq]
    exact hregion.start_le
  · rw [h.bounds_eq, h.input_eq]
    exact hregion.stop_le

theorem le_of_mem_starts_of_le {stop start place first : Nat} (h : place ∈ starts stop start)
    (hstart : first ≤ start) (hstop : first ≤ stop) : first ≤ place := by
  unfold starts at h
  split at h
  · exact Nat.le_trans hstart (List.mem_range'_1.mp h).1
  · exact List.mem_singleton.mp h ▸ hstop

/-- A match comes of something that an attempt has found in the region of a context. -/
def Gives (c : Context) (x : Searcher) (exempt : List Nat) (m : Match) : Prop :=
  ∃ start f, m = x.toMatch start f ∧ c.bounds.1 ≤ start ∧ f.LiesIn c.bounds.2 start exempt

theorem Gives.sameText (h : d.Gives x exempt m) (hsame : c.SameText d) : c.Gives x exempt m := by
  unfold Gives at h ⊢
  rwa [hsame.bounds_eq] at h

/-- A search leaves the text as it is, and what it finds is in the region. -/
theorem searchFrom_gives (h : x.FindsInside exempt) (hregion : c.HasRegion) {start : Nat}
    (hstart : c.bounds.1 ≤ start) (full anchored : Bool) :
    c.SameText (c.searchFrom x start full anchored).2 ∧
      ∀ m, (c.searchFrom x start full anchored).1 = .ok (some m) → c.Gives x exempt m := by
  have hsize : (c.search x full).input.size = c.bounds.2 := size_searched hregion
  have hplaces : ∀ place ∈ starts c.bounds.2 start, place ≤ (c.search x full).input.size :=
    fun place hplace => hsize ▸ le_of_mem_starts hplace
  have hall := tryAll_grants (fun place hplace => h _ place (hplaces place hplace))
    (anchored || x.flags.contains .anchored)
  unfold searchFrom
  dsimp only
  cases hrun : (tryAll x (c.search x full) (anchored || x.flags.contains .anchored)
      (starts c.bounds.2 start)).run c.tracker with
  | mk found tracker =>
    cases found with
    | error e => exact ⟨⟨rfl, rfl⟩, fun m hm => by cases hm⟩
    | ok found =>
      cases found with
      | none => exact ⟨⟨rfl, rfl⟩, fun m hm => by cases hm⟩
      | some answer =>
        refine ⟨⟨rfl, rfl⟩, fun m hm => ?_⟩
        cases hm
        obtain ⟨hmem, hlies⟩ := hall _ _ _ hrun answer.1 answer.2 rfl
        rw [hsize] at hlies
        exact ⟨_, _, rfl, le_of_mem_starts_of_le hmem hstart hregion.start_le, hlies⟩

/-- To start a search leaves the text as it is. -/
theorem begin_ok (h : c.begin x = .ok d) : c.SameText d := by
  unfold begin at h
  dsimp only at h
  split at h
  · split at h
    · cases h
      exact ⟨rfl, rfl⟩
    · rename_i id limits _ _ _
      cases hregistry : c.registry.registerPattern id limits with
      | error e =>
        rw [hregistry] at h
        cases h
      | ok registry =>
        rw [hregistry] at h
        cases h
        exact ⟨rfl, rfl⟩
  · cases h
    exact ⟨rfl, rfl⟩

/-- What a search answers with that was started. -/
theorem perform_ok {α : Type} {action : Context → Except Error α × Context} {value : α}
    (h : (c.perform x action).1 = .ok value) :
    ∃ d, c.SameText d ∧ (action d).1 = .ok value := by
  unfold perform at h
  cases hbegin : c.begin x with
  | error e =>
    rw [hbegin] at h
    cases h
  | ok d =>
    rw [hbegin] at h
    dsimp only at h
    refine ⟨d, begin_ok hbegin, ?_⟩
    rcases haction : action d with ⟨e | value', d'⟩
    · rw [haction] at h
      cases h
    · rw [haction] at h
      exact h

theorem collect_gives (h : x.FindsInside exempt) (most fuel : Nat) :
    ∀ {d : Context}, c.SameText d → c.HasRegion → ∀ (start : Nat) (found : List Match),
      c.bounds.1 ≤ start → (∀ m ∈ found, c.Gives x exempt m) → ∀ all,
        (collect x most fuel d start found).1 = .ok all → ∀ m ∈ all, c.Gives x exempt m := by
  induction fuel with
  | zero =>
    intro d _ _ start found _ hfound all hall
    cases hall
    exact fun m hm => hfound m (List.mem_reverse.mp hm)
  | succ fuel ih =>
    intro d hd hregion start found hstart hfound all hall
    unfold collect at hall
    dsimp only at hall
    split at hall
    · cases hall
      exact fun m hm => hfound m (List.mem_reverse.mp hm)
    · have hsearch := searchFrom_gives h (hd.hasRegion hregion) (hd.bounds_eq ▸ hstart) false false
      rcases hrun : d.searchFrom x start false false with ⟨e | _ | m, d'⟩
      · rw [hrun] at hall
        cases hall
      · rw [hrun] at hall
        cases hall
        exact fun m hm => hfound m (List.mem_reverse.mp hm)
      · rw [hrun] at hall hsearch
        have hm : c.Gives x exempt m := (hsearch.2 m rfl).sameText hd
        have hfound' : ∀ m' ∈ m :: found, c.Gives x exempt m' :=
          List.forall_mem_cons.mpr ⟨hm, hfound⟩
        dsimp only at hall
        split at hall
        · cases hall
          exact fun m' hm' => hfound' m' (List.mem_reverse.mp hm')
        · refine ih (hd.trans hsearch.1) hregion _ _ ?_ hfound' all hall
          obtain ⟨first, f, rfl, hfirst, hlies⟩ := hm
          have hstop : c.bounds.1 ≤ f.stop := Nat.le_trans hfirst hlies.start_le
          change c.bounds.1 ≤ if _ then f.stop + 1 else f.stop
          split
          · exact Nat.le_succ_of_le hstop
          · exact hstop

/-- All that the operations of a context answer with comes of something that was found. -/
theorem Finds.gives (h : ctx.Finds x m) (hx : x.FindsInside exempt) (hregion : ctx.HasRegion) :
    ctx.Gives x exempt m := by
  cases h with
  | whole hm =>
    obtain ⟨d, hd, hm⟩ := perform_ok hm
    have hgives := searchFrom_gives hx (hd.hasRegion hregion) (Nat.le_refl _) true true
    exact (hgives.2 m hm).sameText hd
  | next hm =>
    unfold findNext at hm
    split at hm
    · cases hm
    · have hm : (ctx.perform x fun ctx => ctx.searchFrom x ctx.nextStart false false).1 =
          .ok (some m) := by
        rcases hrun : ctx.perform x (fun ctx => ctx.searchFrom x ctx.nextStart false false) with
          ⟨e | _ | m', d⟩
        · rw [hrun] at hm
          cases hm
        · rw [hrun] at hm
          cases hm
        · rw [hrun] at hm
          exact hm
      obtain ⟨d, hd, hm⟩ := perform_ok hm
      have hnext : d.bounds.1 ≤ d.nextStart := Nat.le_max_right _ _
      have hgives := searchFrom_gives hx (hd.hasRegion hregion) hnext false false
      exact (hgives.2 m hm).sameText hd
  | @all most found hfound hm =>
    obtain ⟨d, hd, hfound⟩ := perform_ok hfound
    refine collect_gives hx most _ hd hregion d.nextStart [] ?_ (by simp) found hfound m hm
    rw [← hd.bounds_eq]
    exact Nat.le_max_right _ _

end Context

/-! Places as byte offsets. -/

theorem Slots.mem_of_start? {slots : Slots} {group place : Nat}
    (h : slots.start? group = some place) : some place ∈ slots :=
  List.mem_of_getElem? (Option.join_eq_some_iff.mp h)

theorem Slots.mem_of_stop? {slots : Slots} {group place : Nat}
    (h : slots.stop? group = some place) : some place ∈ slots :=
  List.mem_of_getElem? (Option.join_eq_some_iff.mp h)

/-- A byte offset is on a boundary of the text that a context searches. -/
def Context.Reaches (ctx : Context) (offset : Nat) : Prop :=
  Text.IsBoundary ctx.searched offset ∧ offset ≤ Text.byteLength ctx.searched.toList

theorem Context.reaches_byteOffset {ctx : Context} (h : ctx.HasRegion) {place : Nat}
    (hplace : place ≤ ctx.bounds.2) : ctx.Reaches (Text.byteOffset ctx.input place) := by
  rw [← Text.byteOffset_extract ctx.input hplace]
  refine ⟨Text.isBoundary_byteOffset ?_, Text.byteOffset_le _ _⟩
  rw [← Context.size_searched h] at hplace
  exact hplace

/-- A match in byte offsets lies in the region of a context, and its groups in the text that was
searched. A group that has both opened and closed did not close before it opened, unless it is
exempt. -/
structure Match.WellFormed (ctx : Context) (exempt : List Nat) (m : Match) : Prop where
  region_le : Text.byteOffset ctx.input ctx.bounds.1 ≤ m.start
  start_le : m.start ≤ m.stop
  start_reaches : ctx.Reaches m.start
  stop_reaches : ctx.Reaches m.stop
  groups_reach : ∀ g ∈ m.groups, ∀ place, g.start = some place ∨ g.stop = some place →
    ctx.Reaches place
  groups_ordered : ∀ g ∈ m.groups, g.index ∉ exempt → ∀ start stop, g.start = some start →
    g.stop = some stop → start ≤ stop

namespace Context

variable {ctx : Context} {x : Searcher} {exempt : List Nat} {m : Match}

theorem Gives.wellFormed (h : ctx.Gives x exempt m) (hregion : ctx.HasRegion) :
    (m.inBytes ctx.input).WellFormed ctx exempt := by
  obtain ⟨start, f, rfl, hstart, hlies⟩ := h
  have hstop := hlies.stop_le
  have hgroups {g : CaptureGroup} (hg : g ∈ ((x.toMatch start f).inBytes ctx.input).groups) :
      0 < g.index ∧ g.start = (f.slots.start? g.index).map (Text.byteOffset ctx.input) ∧
        g.stop = (f.slots.stop? g.index).map (Text.byteOffset ctx.input) := by
    simp only [Match.inBytes, Searcher.toMatch, List.mem_map] at hg
    obtain ⟨_, ⟨i, _, rfl⟩, rfl⟩ := hg
    exact ⟨Nat.succ_pos i, rfl, rfl⟩
  constructor
  · exact Text.byteOffset_mono _ hstart
  · exact Text.byteOffset_mono _ hlies.start_le
  · exact reaches_byteOffset hregion (Nat.le_trans hlies.start_le hstop)
  · exact reaches_byteOffset hregion hstop
  · intro g hg place hplace
    obtain ⟨_, hstarts, hstops⟩ := hgroups hg
    rcases hplace with h | h
    · rw [hstarts] at h
      obtain ⟨index, hindex, rfl⟩ := Option.map_eq_some_iff.mp h
      exact reaches_byteOffset hregion (hlies.slots_le _ (Slots.mem_of_start? hindex))
    · rw [hstops] at h
      obtain ⟨index, hindex, rfl⟩ := Option.map_eq_some_iff.mp h
      exact reaches_byteOffset hregion (hlies.slots_le _ (Slots.mem_of_stop? hindex))
  · intro g hg hexempt first last hfirst hlast
    obtain ⟨hpos, hstarts, hstops⟩ := hgroups hg
    rw [hstarts] at hfirst
    rw [hstops] at hlast
    obtain ⟨i, hi, rfl⟩ := Option.map_eq_some_iff.mp hfirst
    obtain ⟨j, hj, rfl⟩ := Option.map_eq_some_iff.mp hlast
    exact Text.byteOffset_mono _ (hlies.ordered g.index hpos hexempt i j hi hj)

/-- Where attempts find what is well formed, so are the matches that a context answers with. -/
theorem Finds.wellFormed (h : ctx.Finds x m) (hx : x.FindsInside exempt)
    (hregion : ctx.HasRegion) : (m.inBytes ctx.input).WellFormed ctx exempt :=
  (h.gives hx hregion).wellFormed hregion

end Context

/-! Attempts. -/

open RegexEngine.Path

variable {size start : Nat} {exempt : List Nat} {found : Option Found} {input : Array Char}

theorem Slots.start?_unset (groups group : Nat) : (Slots.unset groups).start? group = none := by
  cases hstart : (Slots.unset groups).start? group with
  | none => rfl
  | some place => cases List.eq_of_mem_replicate (Slots.mem_of_start? hstart)

theorem Slots.stop?_unset (groups group : Nat) : (Slots.unset groups).stop? group = none := by
  cases hstop : (Slots.unset groups).stop? group with
  | none => rfl
  | some place => cases List.eq_of_mem_replicate (Slots.mem_of_stop? hstop)

theorem Slots.ordered_unset (groups group : Nat) : (Slots.unset groups).Ordered group := by
  intro start stop hstart
  rw [start?_unset] at hstart
  cases hstart

/-- Before anything was captured, a search may be anywhere but inside of the group. -/
theorem Stage.holds_unset {z : Stage} (hz : z ≠ .within) (groups group position : Nat) :
    z.Holds group position (.unset groups) := by
  have hordered := Slots.ordered_unset groups group
  have hstart := Slots.start?_unset groups group
  have hstop := Slots.stop?_unset groups group
  cases z with
  | ahead => exact ⟨hstart, hstop⟩
  | outside => exact ⟨hordered, by simp [hstart], fun _ => hstop⟩
  | within => exact absurd rfl hz
  | behind => exact hordered

/-- What comes of a start, along ways that go on inside the input and keep groups in order. -/
theorem Found.liesIn_of_follows {initial groups : Nat} (hstart : start ≤ input.size)
    (hgoes : Found.Follows (GoesOn input) (.start initial start (.unset groups)) found)
    (hcharts : ∀ group, 0 < group → group ∉ exempt → ∃ chart z, z ≠ Stage.within ∧
      z.Next (chart initial) ∧
        Found.Follows (Progresses group chart) (.start initial start (.unset groups)) found) :
    ∀ f, found = some f → f.LiesIn input.size start exempt := by
  intro f hf
  obtain ⟨last, hlast, hstop, hslots⟩ := hgoes f hf
  have hinside : (Path.start initial start (.unset groups)).Inside input.size :=
    ⟨hstart, fun place hplace => by cases List.eq_of_mem_replicate hplace⟩
  have hends := hlast.inside hinside
  refine ⟨hstop ▸ hlast.position_le, hstop ▸ hends.position_le, hslots ▸ hends.slots_le, ?_⟩
  intro group hgroup hexempt
  obtain ⟨chart, z, hz, hnext, hprogresses⟩ := hcharts group hgroup hexempt
  obtain ⟨last', hlast', _, hslots'⟩ := hprogresses f hf
  have hunset := (Stage.holds_unset hz groups group start).next hnext
  rw [← hslots']
  exact (hlast'.holds hunset).ordered

end RegexEngine
