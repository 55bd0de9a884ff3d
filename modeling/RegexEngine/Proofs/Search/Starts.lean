import RegexEngine.Proofs.Search.Agreement
import RegexEngine.Proofs.Search.Ends

/-!
Where matches start. A searcher is described here by the ends that its attempts may find at each
place; then a search finds a match at the first place that has an end, and nothing if none has. So
two searchers that differ in the ends they choose, but not in whether there is one, find matches at
the same places.
-/

namespace RegexEngine

open Tracked

/-- What comes of attempts at some places, one after the other: an end at the first of them that has
one. -/
def Decides (starts : List Nat) (ends : Nat → Nat → Prop) : Option (Nat × Found) → Prop
  | none => ∀ start ∈ starts, ∀ stop, ¬ends start stop
  | some (start, found) => ends start found.stop ∧ ∃ before after,
    starts = before ++ start :: after ∧ ∀ earlier ∈ before, ∀ stop, ¬ends earlier stop

namespace Decides

variable {starts : List Nat} {ends ends' : Nat → Nat → Prop}

theorem skip {first : Nat} (hfirst : ∀ stop, ¬ends first stop) {r : Option (Nat × Found)}
    (h : Decides starts ends r) : Decides (first :: starts) ends r := by
  cases r with
  | none => exact List.forall_mem_cons.mpr ⟨hfirst, h⟩
  | some answer =>
    obtain ⟨hends, before, after, rfl, hbefore⟩ := h
    exact ⟨hends, first :: before, after, rfl, List.forall_mem_cons.mpr ⟨hfirst, hbefore⟩⟩

/-- Of two places that are the first with an end, neither stands before the other. -/
theorem eq_of_first {before before' after after' : List Nat} {start start' : Nat}
    {hasEnd : Nat → Prop} (heq : before ++ start :: after = before' ++ start' :: after')
    (hbefore : ∀ earlier ∈ before, ¬hasEnd earlier)
    (hbefore' : ∀ earlier ∈ before', ¬hasEnd earlier)
    (hstart : hasEnd start) (hstart' : hasEnd start') : start = start' := by
  induction before generalizing before' with
  | nil =>
    cases before' with
    | nil => exact (List.cons.inj heq).1
    | cons first rest =>
      obtain ⟨rfl, _⟩ := List.cons.inj heq
      exact absurd hstart (hbefore' _ List.mem_cons_self)
  | cons first rest ih =>
    cases before' with
    | nil =>
      obtain ⟨rfl, _⟩ := List.cons.inj heq
      exact absurd hstart' (hbefore _ List.mem_cons_self)
    | cons first' rest' =>
      exact ih (List.cons.inj heq).2 (List.forall_mem_cons.mp hbefore).2
        (List.forall_mem_cons.mp hbefore').2

/-- Where the same places have ends, attempts are decided at the same place. -/
theorem start_eq {r r' : Option (Nat × Found)} (h : Decides starts ends r)
    (h' : Decides starts ends' r')
    (hsame : ∀ start, (∃ stop, ends start stop) ↔ ∃ stop, ends' start stop) :
    r.map Prod.fst = r'.map Prod.fst := by
  cases r with
  | none =>
    cases r' with
    | none => rfl
    | some answer =>
      obtain ⟨hends, before, after, rfl, _⟩ := h'
      obtain ⟨stop, hstop⟩ := (hsame _).mpr ⟨_, hends⟩
      exact absurd hstop (h _ (by simp) stop)
  | some answer =>
    obtain ⟨hends, before, after, rfl, hbefore⟩ := h
    cases r' with
    | none =>
      obtain ⟨stop, hstop⟩ := (hsame _).mp ⟨_, hends⟩
      exact absurd hstop (h' _ (by simp) stop)
    | some answer' =>
      obtain ⟨hends', before', after', heq, hbefore'⟩ := h'
      have hnone : ∀ earlier ∈ before, ¬∃ stop, ends earlier stop :=
        fun earlier hmem ⟨stop, hstop⟩ => hbefore earlier hmem stop hstop
      have hnone' : ∀ earlier ∈ before', ¬∃ stop, ends earlier stop := by
        intro earlier hmem hfound
        obtain ⟨stop, hstop⟩ := (hsame earlier).mp hfound
        exact hbefore' earlier hmem stop hstop
      exact congrArg some
        (eq_of_first heq hnone hnone' ⟨_, hends⟩ ((hsame _).mpr ⟨_, hends'⟩))

end Decides

/-- The attempts of a searcher find the ends that are given for each search and each start, and any
bounds that come with the searcher are bounds for patterns. -/
structure Searcher.Finds (x : Searcher) (ends : Search → Nat → Nat → Prop) : Prop where
  attempts : ∀ search : Search, search.bailout = none → ∀ start ≤ search.input.size,
    Ensures (x.attempt search start) fun A => A.Meets (ends search start)
  scope : ∀ limits, x.scaledLimits = some limits → limits.scope = .pattern

namespace Context

variable {c : Context} {x : Searcher} {ends : Search → Nat → Nat → Prop}

/-- The places at which attempts are made. -/
def tried (c : Context) (x : Searcher) (start : Nat) (anchored : Bool) : List Nat :=
  if anchored || x.flags.contains .anchored then (starts c.bounds.2 start).take 1
  else starts c.bounds.2 start

theorem tryAll_decides {search : Search} {places : List Nat} {ends : Nat → Nat → Prop}
    (h : ∀ start ∈ places, Ensures (x.attempt search start) fun A => A.Meets (ends start))
    (anchored : Bool) :
    Ensures (tryAll x search anchored places)
      (Decides (if anchored then places.take 1 else places) ends) := by
  induction places with
  | nil =>
    refine ensures_pure ?_
    cases anchored <;> exact fun _ hstart => (nomatch hstart)
  | cons start rest ih =>
    obtain ⟨hstart, hrest⟩ := List.forall_mem_cons.mp h
    have hmodify : Ensures (modifyThe Tracker (·.beginAttempt)) fun _ => True :=
      fun _ => .inr ⟨PUnit.unit, rfl, trivial⟩
    refine ensures_bind hmodify fun _ _ => ensures_bind hstart fun A hA => ?_
    cases hfound : A.found with
    | some found =>
      refine ensures_pure ?_
      cases anchored with
      | true => exact ⟨hA.sound found hfound, [], [], rfl, fun _ hmem => (nomatch hmem)⟩
      | false => exact ⟨hA.sound found hfound, [], rest, rfl, fun _ hmem => (nomatch hmem)⟩
    | none =>
      have hnone := hA.complete hfound
      rw [hA.committed_eq, Bool.or_false]
      cases anchored with
      | true => exact ensures_pure fun _ hmem => by rw [List.mem_singleton.mp hmem]; exact hnone
      | false => exact ensures_mono (ih hrest) fun r hr => hr.skip hnone

/-- A search from a place finds an end at the first place that has one. -/
theorem searchFrom_decides (h : x.Finds ends) (hbailout : c.bailout = none)
    (hregion : c.RegionInside) (start : Nat) (full anchored : Bool) :
    StoppedAtLimit (c.searchFrom x start full anchored).1 ∨
      ∃ r : Option (Nat × Found), (c.searchFrom x start full anchored).1 =
          .ok (r.map fun answer => x.toMatch answer.1 answer.2) ∧
        Decides (c.tried x start anchored) (ends (c.search x full)) r := by
  have hplaces : ∀ place ∈ starts c.bounds.2 start,
      Ensures (x.attempt (c.search x full) place) fun A => A.Meets (ends (c.search x full) place) := by
    intro place hplace
    have hstop := le_of_mem_starts hplace
    refine h.attempts (c.search x full) hbailout place ?_
    rwa [Context.search, Array.size_extract, Nat.min_eq_left hregion, Nat.sub_zero]
  have hall := tryAll_decides hplaces (anchored || x.flags.contains .anchored)
  have hresult := hall c.tracker
  unfold searchFrom tried
  dsimp only
  generalize (tryAll x _ _ _).run c.tracker = run at hresult ⊢
  obtain ⟨found, tracker⟩ := run
  rcases hresult with hstop | ⟨r, hr, hdecides⟩
  · cases found with
    | error e => exact .inl hstop
    | ok r => exact hstop.elim
  · cases hr
    refine .inr ⟨r, ?_, hdecides⟩
    cases r <;> rfl

/-- Matching the whole region finds an end if there is one at its start. -/
theorem matchWhole_decides (h : x.Finds ends) (hbailout : c.bailout = none)
    (hregion : c.RegionInside) (hlimit : ¬StoppedAtLimit (c.matchWhole x).1) :
    ∃ r : Option (Nat × Found),
      (c.matchWhole x).1 = .ok (r.map fun answer => x.toMatch answer.1 answer.2) ∧
        Decides (c.tried x c.bounds.1 true) (ends (c.search x true)) r := by
  obtain ⟨registry, tracker, hbegin⟩ := c.exists_begin h.scope
  unfold matchWhole at hlimit ⊢
  rw [perform_fst hbegin] at hlimit ⊢
  have hsearch := searchFrom_decides
    (c := { c with registry := registry, tracker := tracker, lastError := none })
    h hbailout hregion c.bounds.1 true true
  exact hsearch.resolve_left hlimit

/-- The next match is at the first place from the cursor on that has an end. -/
theorem findNext_decides (h : x.Finds ends) (hbailout : c.bailout = none)
    (hregion : c.RegionInside) (hexhausted : c.exhausted = false)
    (hlimit : ¬StoppedAtLimit (c.findNext x).1) :
    ∃ r : Option (Nat × Found),
      (c.findNext x).1 = .ok (r.map fun answer => x.toMatch answer.1 answer.2) ∧
        Decides (c.tried x c.nextStart false) (ends (c.search x false)) r := by
  obtain ⟨registry, tracker, hbegin⟩ := c.exists_begin h.scope
  rw [findNext_fst hexhausted, perform_fst hbegin] at hlimit ⊢
  have hsearch := searchFrom_decides
    (c := { c with registry := registry, tracker := tracker, lastError := none })
    h hbailout hregion c.nextStart false false
  exact hsearch.resolve_left hlimit

end Context

end RegexEngine
