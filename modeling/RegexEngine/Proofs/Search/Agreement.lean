import RegexEngine.Proofs.Search.Attempts
import RegexEngine.Search.Context

/-!
Searchers that agree. Two tracked computations agree if they answer alike, whatever each of them has
used up before, unless a bound stops one of them. Where all attempts of two searchers agree, so do
their searches from one place to the next, and in the end the lists of all matches.
-/

namespace RegexEngine

open Tracked

namespace Tracked

variable {α β : Type}

/-- The computations answer alike, unless one of them is stopped at a bound. -/
def Agrees (x y : Tracked α) : Prop :=
  ∀ t t' : Tracker, StoppedAtLimit (x.run t).1 ∨ StoppedAtLimit (y.run t').1 ∨
    ∃ value, (x.run t).1 = .ok value ∧ (y.run t').1 = .ok value

theorem agrees_pure (value : α) : Agrees (pure value) (pure value) :=
  fun _ _ => .inr (.inr ⟨value, rfl, rfl⟩)

/-- Two computations agree if the same single answer is ensured of both. -/
theorem agrees_of_ensures {x y : Tracked α} {post : α → Prop} (hx : Ensures x post)
    (hy : Ensures y post) (hunique : ∀ {v w}, post v → post w → v = w) : Agrees x y := by
  intro t t'
  rcases hx t with hstop | ⟨v, hv, hpost⟩
  · exact .inl hstop
  · rcases hy t' with hstop | ⟨w, hw, hpost'⟩
    · exact .inr (.inl hstop)
    · exact .inr (.inr ⟨v, hv, hunique hpost hpost' ▸ hw⟩)

theorem agrees_bind {x y : Tracked α} {f g : α → Tracked β} (h : Agrees x y)
    (hf : ∀ value, Agrees (f value) (g value)) : Agrees (x >>= f) (y >>= g) := by
  intro t t'
  rw [run_bind, run_bind]
  rcases h t t' with hstop | hstop | ⟨value, hx, hy⟩
  · rcases hrun : x.run t with ⟨e | value, s⟩
    · rw [hrun] at hstop
      exact .inl hstop
    · rw [hrun] at hstop
      exact hstop.elim
  · rcases hrun : y.run t' with ⟨e | value, s⟩
    · rw [hrun] at hstop
      exact .inr (.inl hstop)
    · rw [hrun] at hstop
      exact hstop.elim
  · rcases hrun : x.run t with ⟨e | v, s⟩
    · rw [hrun] at hx
      cases hx
    · rcases hrun' : y.run t' with ⟨e | w, s'⟩
      · rw [hrun'] at hy
        cases hy
      · rw [hrun] at hx
        rw [hrun'] at hy
        cases hx
        cases hy
        exact hf value s s'

/-- Changing what was used up answers nothing. -/
theorem agrees_modify (f g : Tracker → Tracker) :
    Agrees (modifyThe Tracker f) (modifyThe Tracker g) :=
  fun _ _ => .inr (.inr ⟨PUnit.unit, rfl, rfl⟩)

end Tracked

/-- Two searches for the same thing: through the same input and with the same end, without
strategies that could give them up. -/
structure Search.Matches (s s' : Search) : Prop where
  input_eq : s'.input = s.input
  full_eq : s'.full = s.full
  bailout_eq : s.bailout = none
  bailout_eq' : s'.bailout = none

/-- Two searchers whose attempts agree, and that make the same of them. -/
structure Searcher.Agrees (x y : Searcher) : Prop where
  toMatch_eq : x.toMatch = y.toMatch
  anchored_eq : x.flags.contains .anchored = y.flags.contains .anchored
  attempts : ∀ s s' : Search, s.Matches s' → ∀ start ≤ s.input.size,
    Tracked.Agrees (x.attempt s start) (y.attempt s' start)
  /-- Bounds that come with a searcher are bounds for patterns. -/
  scope : ∀ c, x.scaledLimits = some c → c.scope = .pattern
  scope' : ∀ c, y.scaledLimits = some c → c.scope = .pattern

/-- Bounds that come with a pattern are bounds for patterns. -/
theorem Pattern.scope_of_scaledLimits {p : Pattern} {limits : LimitConfig}
    (h : p.searcher.scaledLimits = some limits) : limits.scope = .pattern := by
  simp only [searcher] at h
  split at h <;> cases h
  rfl

/-- Two contexts with the same input, cursor and region, in which no strategy gives up. Their modes,
bounds and clocks may differ, and so may what was done in them before. -/
structure Context.Matches (c c' : Context) : Prop where
  input_eq : c'.input = c.input
  cursor_eq : c'.cursor = c.cursor
  region_eq : c'.region = c.region
  bailout_eq : c.bailout = none
  bailout_eq' : c'.bailout = none

/-- The index of a byte is not beyond the end of the text. -/
theorem Text.le_length_of_indexOfByte? {text : List Char} {offset index : Nat}
    (h : indexOfByte? text offset = some index) : index ≤ text.length := by
  induction text generalizing offset index with
  | nil =>
    cases offset with
    | zero =>
      cases h
      exact Nat.le_refl _
    | succ offset => cases h
  | cons c rest ih =>
    cases offset with
    | zero =>
      cases h
      exact Nat.zero_le _
    | succ offset =>
      unfold indexOfByte? at h
      split at h
      · obtain ⟨before, hbefore, rfl⟩ := Option.map_eq_some_iff.mp h
        exact Nat.succ_le_succ (ih hbefore)
      · cases h

namespace Context

variable {c c' : Context} {x y : Searcher}

/-- Searches are confined to a part of the input. -/
def RegionInside (c : Context) : Prop := c.bounds.2 ≤ c.input.size

theorem regionInside_setInput (c : Context) (input : Array Char) :
    (c.setInput input).RegionInside :=
  Nat.le_refl _

/-- However a region is asked for, the one that searches are confined to stays inside. -/
theorem RegionInside.setRegion (h : c.RegionInside) (start stop : Nat) :
    (c.setRegion start stop).2.RegionInside := by
  unfold Context.setRegion
  split
  · rename_i first last _ hlast
    split
    · have hle := Text.le_length_of_indexOfByte? hlast
      simpa [RegionInside, bounds] using hle
    · exact h
  · exact h

theorem Matches.bounds_eq (h : c.Matches c') : c'.bounds = c.bounds := by
  simp only [bounds, h.region_eq, h.input_eq]

theorem Matches.symm (h : c.Matches c') : c'.Matches c :=
  ⟨h.input_eq.symm, h.cursor_eq.symm, h.region_eq.symm, h.bailout_eq', h.bailout_eq⟩

theorem Matches.trans {c'' : Context} (h : c.Matches c') (h' : c'.Matches c'') : c.Matches c'' :=
  ⟨h'.input_eq.trans h.input_eq, h'.cursor_eq.trans h.cursor_eq,
    h'.region_eq.trans h.region_eq, h.bailout_eq, h'.bailout_eq'⟩

/-- What a search leaves behind besides does not count. -/
theorem matches_left (h : c.bailout = none) (tracker : Tracker) (groups : List CaptureGroup) :
    c.Matches { c with tracker := tracker, groups := groups } :=
  ⟨rfl, rfl, rfl, h, h⟩

theorem Matches.search (h : c.Matches c') (full : Bool) :
    (c.search x full).Matches (c'.search y full) :=
  ⟨by simp only [Context.search, h.input_eq, h.bounds_eq], rfl, h.bailout_eq, h.bailout_eq'⟩

/-- Attempts at one place after the other. -/
theorem tryAll_agrees (h : x.Agrees y) {s s' : Search} (hs : s.Matches s') (anchored : Bool)
    {starts : List Nat} (hstarts : ∀ start ∈ starts, start ≤ s.input.size) :
    Tracked.Agrees (tryAll x s anchored starts) (tryAll y s' anchored starts) := by
  induction starts with
  | nil => exact agrees_pure none
  | cons start rest ih =>
    rw [List.forall_mem_cons] at hstarts
    refine agrees_bind (agrees_modify _ _) fun _ => ?_
    refine agrees_bind (h.attempts s s' hs start hstarts.1) fun attempt => ?_
    cases attempt.found with
    | some found => exact agrees_pure _
    | none =>
      by_cases hstop : (anchored || attempt.committed) = true
      · rw [if_pos hstop, if_pos hstop]
        exact agrees_pure _
      · rw [if_neg hstop, if_neg hstop]
        exact ih hstarts.2

/-- Two operations on contexts like this one come to the same, and leave contexts like it, unless
one of them is stopped at a bound. -/
def Accord {α : Type} (c : Context) (r r' : Except Error α × Context) : Prop :=
  StoppedAtLimit r.1 ∨ StoppedAtLimit r'.1 ∨
    ∃ value, r.1 = .ok value ∧ r'.1 = .ok value ∧ c.Matches r.2 ∧ c.Matches r'.2

theorem le_of_mem_starts {stop start place : Nat} (h : place ∈ starts stop start) :
    place ≤ stop := by
  unfold starts at h
  split at h
  · rename_i hle
    have := (List.mem_range'_1.mp h).2
    omega
  · exact Nat.le_of_eq (List.mem_singleton.mp h)

/-- The first match from a place on is the same. -/
theorem searchFrom_accord (h : x.Agrees y) (hc : c.Matches c')
    (hregion : c.RegionInside) (start : Nat) (full anchored : Bool) :
    Accord c (c.searchFrom x start full anchored) (c'.searchFrom y start full anchored) := by
  have hall : Tracked.Agrees
      (tryAll x (c.search x full) (anchored || x.flags.contains .anchored)
        (starts c.bounds.2 start))
      (tryAll y (c'.search y full) (anchored || y.flags.contains .anchored)
        (starts c'.bounds.2 start)) := by
    rw [h.anchored_eq, hc.bounds_eq]
    refine tryAll_agrees h (hc.search full) _ fun place hplace => ?_
    have hle := Nat.le_trans (le_of_mem_starts hplace) hregion
    have hstop := le_of_mem_starts hplace
    simp only [Context.search, Array.size_extract]
    omega
  have hresult := hall c.tracker c'.tracker
  unfold searchFrom
  dsimp only
  generalize (tryAll x _ _ _).run c.tracker = r at hresult ⊢
  generalize (tryAll y _ _ _).run c'.tracker = r' at hresult ⊢
  obtain ⟨found, t⟩ := r
  obtain ⟨found', t'⟩ := r'
  rcases hresult with hstop | hstop | ⟨value, hfound, hfound'⟩
  · cases found with
    | error e => exact .inl hstop
    | ok value => exact hstop.elim
  · cases found' with
    | error e => exact .inr (.inl hstop)
    | ok value => exact hstop.elim
  · cases hfound
    cases hfound'
    refine .inr (.inr ?_)
    cases value with
    | none =>
      exact ⟨none, rfl, rfl, matches_left hc.bailout_eq _ _,
        hc.trans (matches_left hc.bailout_eq' _ _)⟩
    | some found =>
      exact ⟨some (x.toMatch found.1 found.2), rfl, by rw [h.toMatch_eq],
        matches_left hc.bailout_eq _ _, hc.trans (matches_left hc.bailout_eq' _ _)⟩

/-- All matches from a place on are the same. -/
theorem collect_accord (h : x.Agrees y) (most : Nat) (fuel : Nat) :
    ∀ {c c' : Context}, c.Matches c' → c.RegionInside →
      ∀ (start : Nat) (found : List Match),
        Accord c (collect x most fuel c start found) (collect y most fuel c' start found) := by
  induction fuel with
  | zero =>
    exact fun hc _ _ found => .inr (.inr ⟨found.reverse, rfl, rfl, ⟨rfl, rfl, rfl, hc.bailout_eq,
      hc.bailout_eq⟩, hc⟩)
  | succ fuel ih =>
    intro c c' hc hregion start found
    have hself : c.Matches c := hc.trans hc.symm
    have hfirst := searchFrom_accord h hc hregion start false false
    unfold collect
    rw [hc.bounds_eq]
    dsimp only
    split
    · exact .inr (.inr ⟨found.reverse, rfl, rfl, hself, hc⟩)
    · generalize c.searchFrom x start false false = r at hfirst ⊢
      generalize c'.searchFrom y start false false = r' at hfirst ⊢
      obtain ⟨result, d⟩ := r
      obtain ⟨result', d'⟩ := r'
      rcases hfirst with hstop | hstop | ⟨value, hvalue, hvalue', hd, hd'⟩
      · cases result with
        | error e => exact .inl hstop
        | ok value => exact hstop.elim
      · cases result' with
        | error e => exact .inr (.inl hstop)
        | ok value => exact hstop.elim
      · cases hvalue
        cases hvalue'
        cases value with
        | none => exact .inr (.inr ⟨found.reverse, rfl, rfl, hd, hd'⟩)
        | some m =>
          dsimp only
          split
          · exact .inr (.inr ⟨(m :: found).reverse, rfl, rfl, hd, hd'⟩)
          · have hregion' : d.RegionInside := by
              rw [RegionInside, hd.bounds_eq, hd.input_eq]
              exact hregion
            refine (ih (hd.symm.trans hd') hregion' _ (m :: found)).imp_right fun hrest => ?_
            refine hrest.imp_right fun ⟨found, hfound, hfound', hd₂, hd₂'⟩ => ?_
            exact ⟨found, hfound, hfound', hd.trans hd₂, hd.trans hd₂'⟩

/-- A search always starts. -/
theorem exists_begin (c : Context)
    (hscope : ∀ limits, x.scaledLimits = some limits → limits.scope = .pattern) :
    ∃ registry tracker, c.begin x =
      .ok { c with registry := registry, tracker := tracker, lastError := none } := by
  unfold begin
  cases hid : x.id with
  | none => exact ⟨_, _, rfl⟩
  | some id =>
    cases hlimits : x.scaledLimits with
    | none => exact ⟨_, _, rfl⟩
    | some limits =>
      have hcheck : LimitRegistry.checkScope limits .pattern = .ok () :=
        if_pos (hscope limits hlimits)
      dsimp only [Option.bind_some]
      split
      · exact ⟨_, _, rfl⟩
      · simp only [LimitRegistry.registerPattern, hcheck]
        exact ⟨_, _, rfl⟩

theorem perform_fst {α : Type} {d : Context} (hbegin : c.begin x = .ok d)
    (action : Context → Except Error α × Context) : (c.perform x action).1 = (action d).1 := by
  unfold perform
  rw [hbegin]
  dsimp only
  rcases action d with ⟨e | value, d'⟩ <;> rfl

/-- The answer of a search for the next match, where the input was not used up. -/
theorem findNext_fst (h : c.exhausted = false) :
    (c.findNext x).1 = (c.perform x fun ctx => ctx.searchFrom x ctx.nextStart false false).1 := by
  unfold findNext
  rw [h, if_neg Bool.false_ne_true]
  split <;> simp_all

/-- Both searchers find the same matches, unless a bound stops one of the searches. -/
theorem findAll_eq_of_agrees (h : x.Agrees y) (hc : c.Matches c')
    (hregion : c.RegionInside) (most : Nat)
    (hx : ¬StoppedAtLimit (c.findAll x most).1) (hy : ¬StoppedAtLimit (c'.findAll y most).1) :
    ∃ found, (c.findAll x most).1 = .ok found ∧ (c'.findAll y most).1 = .ok found := by
  obtain ⟨registry, tracker, hbegin⟩ := c.exists_begin h.scope
  obtain ⟨registry', tracker', hbegin'⟩ := c'.exists_begin h.scope'
  unfold findAll at hx hy ⊢
  rw [perform_fst hbegin] at hx ⊢
  rw [perform_fst hbegin'] at hy ⊢
  generalize hd : ({ c with registry := registry, tracker := tracker, lastError := none } :
    Context) = d at hx ⊢
  generalize hd' : ({ c' with registry := registry', tracker := tracker', lastError := none } :
    Context) = d' at hy ⊢
  have hmatches : d.Matches d' := by
    rw [← hd, ← hd']
    exact ⟨hc.input_eq, hc.cursor_eq, hc.region_eq, hc.bailout_eq, hc.bailout_eq'⟩
  have hbounds : d.RegionInside := hd ▸ hregion
  have hnext : d'.nextStart = d.nextStart := by
    simp only [nextStart, hmatches.bounds_eq, hmatches.cursor_eq]
  rw [hnext, hmatches.bounds_eq] at hy ⊢
  rcases collect_accord h most (d.bounds.2 + 2) hmatches hbounds d.nextStart [] with
    hstop | hstop | ⟨found, hfound, hfound', _⟩
  · exact absurd hstop hx
  · exact absurd hstop hy
  · exact ⟨found, hfound, hfound'⟩

end Context

end RegexEngine
