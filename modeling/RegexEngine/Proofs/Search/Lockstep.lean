import Mathlib.Data.List.Basic
import RegexEngine.Automaton.Lockstep
import RegexEngine.Proofs.Automaton.Integrity
import RegexEngine.Proofs.CharClass.Ranges
import RegexEngine.Proofs.Search.Backtracking

/-!
Following all ways at the same time finds what following one way after the other finds.

Both leave out ways. Backtracking leaves out a way that comes back to a state which it has been in
since it last took input; the lockstep search leaves out every way that comes second to a state at a
place of the input. What the second leaves out beyond the first can never be what is found: when a
way comes to a state that was entered before, then either the way itself has been there, or all that
the state leads to was kept or entered earlier, and came before the way in the order of priorities.
So if nothing earlier leads to a match, that way does not either.

`Exhausted` says this of a state that was entered, and `Barren` of all states that were entered
outside of the trail of the way that is being followed. From there the argument goes up: one state
with all it leads to without input, the ways of one place of the input, and the rest of the input.
-/

namespace RegexEngine

open Tracked Automaton

namespace Thread

/-- What a kept way still has to try at its place, as backtracking would have it waiting. -/
def frames (search : Search) (position : Nat) : Thread → List Frame
  | wait t slots =>
    if search.input[position]?.any t.matchesChar then
      [.follow (.start t.target (position + 1) slots)]
    else []
  | accept slots => [.accept position slots]

/-- The state that a kept way waits to enter is there. -/
def InRange (count : Nat) : Thread → Prop
  | wait t _ => t.target < count
  | accept _ => True

end Thread

namespace Errand

/-- What is left to do, as backtracking would have it waiting after the states of a trail. -/
def frames (search : Search) (position : Nat) (trail : List Nat) : Errand → List Frame
  | visit s slots => [.follow ⟨s, position, slots, trail, []⟩]
  | keep thread => thread.frames search position

/-- A state that is to be visited now or later is there. -/
def InRange (count : Nat) : Errand → Prop
  | visit s _ => s < count
  | keep thread => thread.InRange count

end Errand

/-- A state was entered. -/
def Entered (seen : Array Bool) (s : Nat) : Prop := seen[s]? = some true

namespace Automaton

variable {a : Automaton} {search : Search} {position : Nat}

/-- What backtracking finds beyond a transition, for one that takes nothing or one character. -/
theorem over?_eq {t : Transition} (h : t.label.all (·.matcher.isSingle) = true) (slots : Slots)
    (place : Nat) (trail : List Nat) :
    (State.over? search.input ⟨place, position, slots, trail, []⟩ t).toList =
      (if t.isEpsilon then .visit t.target slots else .keep (.wait t slots) : Errand).frames
        search position trail := by
  cases hlabel : t.label with
  | none =>
    simp [State.over?, Transition.matchAt?, Transition.isEpsilon, hlabel, Errand.frames]
  | some label =>
    have hsingle : label.matcher.isSingle = true := by simpa [hlabel] using h
    have hchars : t.matchesChar = label.matcher.matchesChar := by
      funext c
      simp [Transition.matchesChar, hlabel]
    simp only [State.over?, Transition.matchAt?, Transition.isEpsilon, hlabel,
      Matcher.matchAt?_of_isSingle hsingle, Option.isNone_some, Bool.false_eq_true, if_false,
      Errand.frames, Thread.frames, hchars]
    split
    · simp [Path.start]
    · rfl

/-- The transitions of a state are of the kind that can be followed in lockstep. -/
theorem label_isSingle (hsupported : a.supportsLockstep = true) {place : Nat} {s : State}
    (hstate : a.states[place]? = some s) {t : Transition} (ht : t ∈ s.transitions) :
    t.label.all (·.matcher.isSingle) = true := by
  have hmem : t ∈ a.transitions :=
    List.mem_flatMap.mpr ⟨s, (Array.mem_of_getElem? hstate).val, ht⟩
  simp only [supportsLockstep, Bool.and_eq_true, List.all_eq_true] at hsupported
  exact hsupported.2 t hmem

/-- What backtracking does in a state is what the errands of the state ask for. -/
theorem expand_eq (hsupported : a.supportsLockstep = true) {place : Nat} {s : State}
    (hstate : a.states[place]? = some s) (slots : Slots) (trail : List Nat) :
    expand s search ⟨place, position, slots, trail, []⟩ =
      if s.marks.holdAt search.input position then
        (errands s (s.capture position slots)).flatMap
          (Errand.frames search position (place :: trail))
      else [] := by
  unfold expand
  split
  · simp only [State.ways, errands, List.flatMap_append, List.flatMap_map, Bool.not_false,
      Bool.and_true]
    congr 1
    · rw [List.filterMap_eq_flatMap_toList]
      exact List.flatMap_congr fun t ht => over?_eq (label_isSingle hsupported hstate ht) _ _ _
    · split <;> simp [Errand.frames, Thread.frames]
  · rfl

/-- An errand was done, and nothing came of it. -/
def Fruitless (a : Automaton) (search : Search) (position : Nat) (seen : Array Bool) :
    Errand → Prop
  | .visit s _ => Entered seen s
  | .keep thread => a.Answers search (thread.frames search position) none

/-- All that a state asks for was done, and nothing came of it. -/
def Exhausted (a : Automaton) (search : Search) (position : Nat) (seen : Array Bool) (place : Nat) :
    Prop :=
  ∀ s : State, a.states[place]? = some s → s.marks.holdAt search.input position = true →
    ∀ slots : Slots, ∀ errand ∈ errands s slots, a.Fruitless search position seen errand

/-- All states that were entered outside of a trail are exhausted. -/
def Barren (a : Automaton) (search : Search) (position : Nat) (seen : Array Bool)
    (trail : List Nat) : Prop :=
  ∀ place, Entered seen place → place ∉ trail → a.Exhausted search position seen place

theorem answers_flatMap_none {α : Type} {frames : α → List Frame} {items : List α}
    (h : ∀ item ∈ items, a.Answers search (frames item) none) :
    a.Answers search (items.flatMap frames) none := by
  induction items with
  | nil => exact .nil
  | cons item rest ih =>
    rw [List.flatMap_cons]
    exact (h item List.mem_cons_self).append fun _ =>
      ih fun other hother => h other (List.mem_cons_of_mem _ hother)

/-- A way that comes to a state which was entered before leads nowhere. Either it has been there
itself, or it only leads to what was done already. `unused` has the states that the way has not been
in, and has one less with every round. -/
theorem Barren.answers_none (hsupported : a.supportsLockstep = true) {seen : Array Bool}
    (hsize : seen.size = a.stateCount) {trail : List Nat}
    (h : a.Barren search position seen trail) :
    ∀ (bound : Nat) (unused longer : List Nat) (place : Nat) (slots : Slots),
      unused.length ≤ bound → (∀ s < seen.size, s ∈ longer ∨ s ∈ unused) → trail ⊆ longer →
        Entered seen place →
          a.Answers search [.follow ⟨place, position, slots, longer, []⟩] none := by
  intro bound
  induction bound with
  | zero =>
    intro unused longer place slots hbound hcover _ hentered
    have hplace : place < seen.size := (Array.getElem?_eq_some_iff.mp hentered).1
    rcases hcover place hplace with hin | hunused
    · exact .repeated hin .nil
    · rw [List.length_eq_zero_iff.mp (Nat.le_zero.mp hbound)] at hunused
      cases hunused
  | succ bound ih =>
    intro unused longer place slots hbound hcover hsub hentered
    have hplace : place < seen.size := (Array.getElem?_eq_some_iff.mp hentered).1
    rcases hcover place hplace with hin | hunused
    · exact .repeated hin .nil
    by_cases hin : place ∈ longer
    · exact .repeated hin .nil
    have hexhausted := h place hentered fun hmem => hin (hsub hmem)
    have hlt : place < a.states.size := by
      rw [hsize] at hplace
      exact hplace
    have hstate : a.states[place]? = some a.states[place] := Array.getElem?_eq_getElem hlt
    refine .entered hin hstate ?_
    rw [List.append_nil, expand_eq hsupported hstate]
    split
    · rename_i hholds
      refine answers_flatMap_none fun errand herrand => ?_
      have hdone := hexhausted _ hstate hholds _ errand herrand
      cases errand with
      | keep thread => exact hdone
      | visit next slots' =>
        refine ih (unused.erase place) (place :: longer) next slots' ?_ ?_
          (List.subset_cons_of_subset _ hsub) hdone
        · rw [List.length_erase_of_mem hunused]
          omega
        · intro s hs
          rcases hcover s hs with hs | hs
          · exact .inl (List.mem_cons_of_mem _ hs)
          · by_cases heq : s = place
            · exact .inl (heq ▸ List.mem_cons_self)
            · exact .inr ((List.mem_erase_of_ne heq).mpr hs)
    · exact .nil

/-- What was entered stays entered, and nothing else is there to be entered. -/
structure Extends (before after : Array Bool) : Prop where
  size_eq : after.size = before.size
  entered : ∀ s, Entered before s → Entered after s
  count_le : after.count false ≤ before.count false

theorem Extends.refl (seen : Array Bool) : Extends seen seen :=
  ⟨rfl, fun _ h => h, Nat.le_refl _⟩

theorem Extends.trans {first second third : Array Bool} (h : Extends first second)
    (h' : Extends second third) : Extends first third :=
  ⟨h'.size_eq.trans h.size_eq, fun s hs => h'.entered s (h.entered s hs),
    Nat.le_trans h'.count_le h.count_le⟩

theorem entered_set {seen : Array Bool} {s : Nat} (h : s < seen.size) (u : Nat) :
    Entered (seen.set s true) u ↔ u = s ∨ Entered seen u := by
  unfold Entered
  rw [Array.getElem?_set]
  split
  · simp_all
  · rename_i hne
    simp [Ne.symm hne]

theorem extends_set {seen : Array Bool} {s : Nat} (h : s < seen.size) (hs : ¬ seen[s] = true) :
    Extends seen (seen.set s true) :=
  ⟨by simp, fun u hu => (entered_set h u).mpr (.inr hu),
    Nat.le_of_lt (Graph.count_set_lt seen s h hs)⟩

theorem Fruitless.mono {before after : Array Bool} (hext : Extends before after) {errand : Errand}
    (h : a.Fruitless search position before errand) :
    a.Fruitless search position after errand := by
  cases errand with
  | visit s slots => exact hext.entered s h
  | keep thread => exact h

theorem Exhausted.mono {before after : Array Bool} (hext : Extends before after) {place : Nat}
    (h : a.Exhausted search position before place) : a.Exhausted search position after place :=
  fun s hstate hholds slots errand herrand => (h s hstate hholds slots errand herrand).mono hext

/-- Whether an errand is fruitless does not depend on what groups have taken. -/
theorem exhausted_of_errands {seen : Array Bool} {place : Nat} {s : State}
    (hstate : a.states[place]? = some s) {slots : Slots}
    (h : ∀ errand ∈ errands s slots, a.Fruitless search position seen errand) :
    a.Exhausted search position seen place := by
  intro s' hstate' _ slots' errand herrand
  obtain rfl : s = s' := Option.some.inj (hstate.symm.trans hstate')
  simp only [errands, List.mem_append, List.mem_map] at h herrand
  rcases herrand with ⟨t, ht, rfl⟩ | haccept
  · have hdone := h _ (.inl ⟨t, ht, rfl⟩)
    by_cases hepsilon : t.isEpsilon = true
    · simpa [hepsilon, Fruitless] using hdone
    · simp only [hepsilon, Bool.false_eq_true, if_false, Fruitless, Thread.frames] at hdone ⊢
      refine hdone.none_of_bare ?_
      split <;> rfl
  · split at haccept
    · rename_i haccepting
      obtain rfl := List.mem_singleton.mp haccept
      have hdone := h (.keep (.accept slots)) (.inr (by simp [haccepting]))
      exact hdone.none_of_bare rfl
    · cases haccept

theorem Barren.exhaust {seen : Array Bool} {trail : List Nat} {place : Nat}
    (h : a.Barren search position seen (place :: trail))
    (hplace : a.Exhausted search position seen place) : a.Barren search position seen trail := by
  intro other hentered hnot
  by_cases heq : other = place
  · exact heq ▸ hplace
  · exact h other hentered (by simp [heq, hnot])

/-- What spreading over some errands comes to: ways are added after those that are kept already,
and they lead to what backtracking over the errands leads to, if everything that was entered before
is barren. If they lead nowhere, all that is entered now is barren. -/
structure Spreads (a : Automaton) (search : Search) (position : Nat) (seen : Array Bool)
    (threads : List Thread) (trail : List Nat) (errands : List Errand) (front : Front) : Prop where
  extended : Extends seen front.seen
  kept : ∃ kept : List Thread, front.threads = threads.reverse ++ kept ∧
    (∀ thread ∈ kept, thread.InRange a.stateCount) ∧
    (a.Barren search position seen trail → ∀ found : Option Found,
      a.Answers search (kept.flatMap (Thread.frames search position)) found →
        a.Answers search (errands.flatMap (Errand.frames search position trail)) found ∧
          (found = none → (∀ e ∈ errands, a.Fruitless search position front.seen e) ∧
            a.Barren search position front.seen trail))

theorem visit_ensures (hbailout : search.bailout = none) {place : Nat} {s : State}
    (hstate : a.states[place]? = some s) (waiting : Nat) (slots : Slots) :
    Ensures (a.visit search position waiting place slots)
      (· = if s.marks.holdAt search.input position then errands s (s.capture position slots)
        else []) := by
  unfold visit
  refine ensures_bind (Search.checkpoint_ensures hbailout _ _) ?_
  intro admitted hadmitted
  rw [hadmitted, if_pos rfl, hstate]
  dsimp only
  split
  · exact ensures_pure rfl
  · exact ensures_pure rfl

theorem errands_inRange (hinside : a.Inside) {place : Nat} {s : State}
    (hstate : a.states[place]? = some s) (slots : Slots) :
    ∀ errand ∈ errands s slots, errand.InRange a.stateCount := by
  intro errand herrand
  simp only [errands, List.mem_append, List.mem_map] at herrand
  rcases herrand with ⟨t, ht, rfl⟩ | haccept
  · split <;> exact (hinside.fits place s hstate).target_lt t ht
  · split at haccept
    · obtain rfl := List.mem_singleton.mp haccept
      trivial
    · cases haccept

theorem Spreads.nil (seen : Array Bool) (threads : List Thread) (trail : List Nat) :
    a.Spreads search position seen threads trail [] ⟨threads.reverse, seen⟩ := by
  refine ⟨.refl _, [], (List.append_nil _).symm, by simp, fun hbarren found h => ⟨h, fun _ => ?_⟩⟩
  exact ⟨by simp, hbarren⟩

theorem Spreads.keep {seen : Array Bool} {threads : List Thread} {trail : List Nat}
    {thread : Thread} {rest : List Errand} {front : Front} (hthread : thread.InRange a.stateCount)
    (h : a.Spreads search position seen (thread :: threads) trail rest front) :
    a.Spreads search position seen threads trail (.keep thread :: rest) front := by
  obtain ⟨hext, kept, hthreads, hrange, hkept⟩ := h
  refine ⟨hext, thread :: kept, by simpa using hthreads, ?_, ?_⟩
  · intro other hother
    rcases List.mem_cons.mp hother with rfl | hother
    · exact hthread
    · exact hrange other hother
  intro hbarren found hanswers
  rw [List.flatMap_cons] at hanswers ⊢
  rcases hanswers.append_cases rfl with ⟨hsome, hfirst⟩ | ⟨hfirst, hothers⟩
  · obtain ⟨match_, rfl⟩ := Option.isSome_iff_exists.mp hsome
    refine ⟨hfirst.append_found _, ?_⟩
    intro h
    cases h
  · obtain ⟨hrest, hnone⟩ := hkept hbarren found hothers
    refine ⟨hfirst.append fun _ => hrest, fun hfound => ⟨?_, (hnone hfound).2⟩⟩
    intro e he
    rcases List.mem_cons.mp he with rfl | he
    · exact hfirst
    · exact (hnone hfound).1 e he

/-- A state that was entered before is passed over. -/
theorem Spreads.skip (hsupported : a.supportsLockstep = true) {seen : Array Bool}
    (hsize : seen.size = a.stateCount) {threads : List Thread} {trail : List Nat} {s : Nat}
    {slots : Slots} {rest : List Errand} {front : Front} (hentered : Entered seen s)
    (h : a.Spreads search position seen threads trail rest front) :
    a.Spreads search position seen threads trail (.visit s slots :: rest) front := by
  obtain ⟨hext, kept, hthreads, hrange, hkept⟩ := h
  refine ⟨hext, kept, hthreads, hrange, ?_⟩
  intro hbarren found hanswers
  obtain ⟨hrest, hnone⟩ := hkept hbarren found hanswers
  have hfirst : a.Answers search ((Errand.visit s slots).frames search position trail) none :=
    hbarren.answers_none hsupported hsize _ (List.range seen.size) trail s slots (Nat.le_refl _)
      (fun u hu => .inr (List.mem_range.mpr hu)) (List.Subset.refl _) hentered
  rw [List.flatMap_cons]
  refine ⟨hfirst.append fun _ => hrest, fun hfound => ⟨?_, (hnone hfound).2⟩⟩
  intro e he
  rcases List.mem_cons.mp he with rfl | he
  · exact hext.entered s hentered
  · exact (hnone hfound).1 e he

/-- A state that is new is entered, and then all that it asks for is done before the rest. -/
theorem Spreads.enter (hsupported : a.supportsLockstep = true) {seen : Array Bool}
    {threads : List Thread} {trail : List Nat} {place : Nat} {s : State} {slots : Slots}
    {rest : List Errand} {first second : Front} (hlt : place < seen.size)
    (hnew : ¬ seen[place] = true) (htrail : ∀ u ∈ trail, Entered seen u)
    (hstate : a.states[place]? = some s)
    (h : a.Spreads search position (seen.set place true) threads (place :: trail)
      (if s.marks.holdAt search.input position then errands s (s.capture position slots) else [])
      first)
    (h' : a.Spreads search position first.seen first.threads.reverse trail rest second) :
    a.Spreads search position seen threads trail (.visit place slots :: rest) second := by
  obtain ⟨hext, kept, hthreads, hrange, hkept⟩ := h
  obtain ⟨hext', kept', hthreads', hrange', hkept'⟩ := h'
  have hstart : Extends seen (seen.set place true) := extends_set hlt hnew
  have hnotEntered : ¬ Entered seen place := by
    intro hentered
    rw [Entered, Array.getElem?_eq_getElem hlt] at hentered
    exact hnew (Option.some.inj hentered)
  have hnotTrail : place ∉ trail := fun hmem => hnotEntered (htrail place hmem)
  refine ⟨(hstart.trans hext).trans hext', kept ++ kept', by simp [hthreads', hthreads], ?_, ?_⟩
  · intro thread hthread
    rcases List.mem_append.mp hthread with hthread | hthread
    · exact hrange thread hthread
    · exact hrange' thread hthread
  intro hbarren found hanswers
  have hbarrenFirst : a.Barren search position (seen.set place true) (place :: trail) := by
    intro u hu hnot
    rw [List.mem_cons, not_or] at hnot
    rcases (entered_set hlt u).mp hu with rfl | hu
    · exact absurd rfl hnot.1
    · exact (hbarren u hu hnot.2).mono hstart
  have hvisit (result : Option Found)
      (hmore : a.Answers search
        ((if s.marks.holdAt search.input position then errands s (s.capture position slots)
          else []).flatMap (Errand.frames search position (place :: trail))) result) :
      a.Answers search ((Errand.visit place slots).frames search position trail) result := by
    refine .entered hnotTrail hstate ?_
    rw [List.append_nil, expand_eq hsupported hstate]
    split at hmore
    · rename_i hholds
      rwa [if_pos hholds]
    · rename_i hholds
      rwa [if_neg hholds]
  rw [List.flatMap_append] at hanswers
  rw [List.flatMap_cons]
  rcases hanswers.append_cases rfl with ⟨hsome, hfirst⟩ | ⟨hfirst, hothers⟩
  · obtain ⟨match_, rfl⟩ := Option.isSome_iff_exists.mp hsome
    have hmore := (hkept hbarrenFirst _ hfirst).1
    refine ⟨(hvisit _ hmore).append_found _, ?_⟩
    intro h
    cases h
  · obtain ⟨hmore, hnone⟩ := hkept hbarrenFirst none hfirst
    obtain ⟨hfruitless, hbarrenMore⟩ := hnone rfl
    have hexhausted : a.Exhausted search position first.seen place := by
      by_cases hholds : s.marks.holdAt search.input position = true
      · rw [if_pos hholds] at hfruitless
        exact exhausted_of_errands hstate hfruitless
      · intro s' hstate' hholds'
        obtain rfl : s = s' := Option.some.inj (hstate.symm.trans hstate')
        exact absurd hholds' hholds
    obtain ⟨hrest, hnone'⟩ := hkept' (hbarrenMore.exhaust hexhausted) found hothers
    refine ⟨(hvisit _ hmore).append fun _ => hrest, fun hfound => ⟨?_, (hnone' hfound).2⟩⟩
    intro e he
    rcases List.mem_cons.mp he with rfl | he
    · exact hext'.entered _ (hext.entered _ ((entered_set hlt place).mpr (.inl rfl)))
    · exact (hnone' hfound).1 e he

/-- Spreading does what `Spreads` says and then the errands that are left. The outer induction is on
the number of states that were not entered, the inner one on the errands. -/
theorem spread_ensures_append (hsupported : a.supportsLockstep = true) (hinside : a.Inside)
    (hbailout : search.bailout = none) (post : Front → Prop) :
    ∀ (bound : Nat) (seen : Array Bool) (threads : List Thread) (trail : List Nat)
      (errands : List Errand) (rest : List Errand),
      seen.count false < bound → seen.size = a.stateCount → (∀ u ∈ trail, Entered seen u) →
        (∀ e ∈ errands, e.InRange a.stateCount) →
          (∀ front, a.Spreads search position seen threads trail errands front →
            Ensures (a.spread search position front.seen front.threads.reverse rest) post) →
            Ensures (a.spread search position seen threads (errands ++ rest)) post := by
  intro bound
  induction bound with
  | zero => intro seen threads trail errands rest hcount; omega
  | succ bound ihBound =>
    intro seen threads trail errands
    induction errands generalizing threads with
    | nil =>
      intro rest _ _ _ _ hrest
      simpa using hrest _ (Spreads.nil seen threads trail)
    | cons errand errands ih =>
      intro rest hcount hsize htrail hrange hrest
      have hrangeRest : ∀ e ∈ errands, e.InRange a.stateCount :=
        fun e he => hrange e (List.mem_cons_of_mem _ he)
      rw [List.cons_append]
      cases errand with
      | keep thread =>
        rw [spread]
        exact ih _ rest hcount hsize htrail hrangeRest fun front hfront => hrest front
          (hfront.keep (hrange _ List.mem_cons_self))
      | visit place slots =>
        have hlt : place < seen.size := by
          rw [hsize]
          exact hrange _ List.mem_cons_self
        rw [spread, dif_pos hlt]
        by_cases hseen : seen[place] = true
        · rw [dif_pos hseen]
          have hentered : Entered seen place := by
            rw [Entered, Array.getElem?_eq_getElem hlt, hseen]
          exact ih _ rest hcount hsize htrail hrangeRest fun front hfront =>
            hrest front (hfront.skip hsupported hsize hentered)
        · rw [dif_neg hseen]
          have hplace : place < a.states.size := by
            rw [hsize] at hlt
            exact hlt
          have hstate : a.states[place]? = some a.states[place] := Array.getElem?_eq_getElem hplace
          refine ensures_bind (visit_ensures hbailout hstate _ slots) ?_
          rintro more rfl
          have hless := Graph.count_set_lt seen place hlt hseen
          have hstart := extends_set hlt hseen
          refine ihBound _ _ (place :: trail) _ _ (by omega) (hstart.size_eq.trans hsize) ?_ ?_ ?_
          · intro u hu
            rcases List.mem_cons.mp hu with rfl | hu
            · exact (entered_set hlt u).mpr (.inl rfl)
            · exact hstart.entered u (htrail u hu)
          · intro e he
            split at he
            · exact errands_inRange hinside hstate _ e he
            · cases he
          · intro first hfirst
            have hcountFirst := hfirst.extended.count_le
            refine ihBound _ _ trail _ _ (by omega) ?_ ?_ hrangeRest fun second hsecond =>
              hrest second (.enter hsupported hlt hseen htrail hstate hfirst hsecond)
            · exact hfirst.extended.size_eq.trans (hstart.size_eq.trans hsize)
            · exact fun u hu => hfirst.extended.entered u (hstart.entered u (htrail u hu))

/-- The ways that start from a state come after those that are there already. -/
theorem join_ensures (hsupported : a.supportsLockstep = true) (hinside : a.Inside)
    (hbailout : search.bailout = none) {front : Front} (hsize : front.seen.size = a.stateCount)
    {state : Nat} (hstate : state < a.stateCount) (slots : Slots) :
    Ensures (a.join search position front state slots) fun joined =>
      Extends front.seen joined.seen ∧ ∃ kept, joined.threads = front.threads ++ kept ∧
        (∀ thread ∈ kept, thread.InRange a.stateCount) ∧
        (a.Barren search position front.seen [] → ∀ found : Option Found,
          a.Answers search (kept.flatMap (Thread.frames search position)) found →
            a.Answers search [.follow (.start state position slots)] found ∧
              (found = none → a.Barren search position joined.seen [])) := by
  have hspread : Ensures (a.spread search position front.seen [] [.visit state slots])
      (a.Spreads search position front.seen [] [] [.visit state slots]) := by
    refine spread_ensures_append hsupported hinside hbailout _ _ front.seen [] []
      [.visit state slots] [] (Nat.lt_succ_self _) hsize (by simp) ?_ fun result hresult => ?_
    · intro e he
      obtain rfl := List.mem_singleton.mp he
      exact hstate
    · rw [spread]
      refine ensures_pure ?_
      simpa using hresult
  unfold join
  refine ensures_bind hspread ?_
  rintro more ⟨hext, kept, hthreads, hrange, hkept⟩
  refine ensures_pure ⟨hext, kept, by simp [hthreads], hrange, ?_⟩
  intro hbarren found hanswers
  obtain ⟨hvisit, hnone⟩ := hkept hbarren found hanswers
  refine ⟨?_, fun hfound => (hnone hfound).2⟩
  simpa [Errand.frames, Path.start] using hvisit

/-- The ways that are kept, and what is found, when others move over the character at a place.
Together they lead to what backtracking over the ways before the character leads to. -/
structure Advances (a : Automaton) (search : Search) (position : Nat) (seen : Array Bool)
    (threads kept : List Thread) (own : Option Found) : Prop where
  inRange : ∀ thread ∈ kept, thread.InRange a.stateCount
  atEnd : search.input[position]? = none → kept = []
  answers : a.Barren search (position + 1) seen [] → ∀ later : Option Found,
    a.Answers search (kept.flatMap (Thread.frames search (position + 1))) later →
      a.Answers search (threads.flatMap (Thread.frames search position)) (later.or own)

namespace Advances

variable {seen : Array Bool} {rest kept : List Thread} {own : Option Found} {t : Transition}
  {slots : Slots}

theorem nil : a.Advances search position seen [] [] none :=
  ⟨by simp, fun _ => rfl, fun _ later hlater => by simpa using hlater⟩

theorem accept (hends : search.endsAt position = true) :
    a.Advances search position seen (.accept slots :: rest) [] (some ⟨position, slots⟩) := by
  refine ⟨by simp, fun _ => rfl, fun _ later hlater => ?_⟩
  cases hlater
  exact .accepted hends

theorem refuse (hends : ¬search.endsAt position = true)
    (h : a.Advances search position seen rest kept own) :
    a.Advances search position seen (.accept slots :: rest) kept own :=
  ⟨h.inRange, h.atEnd, fun hbarren later hlater =>
    .refused (by simpa using hends) (h.answers hbarren later hlater)⟩

theorem drop (hstays : ¬search.input[position]?.any t.matchesChar = true)
    (h : a.Advances search position seen rest kept own) :
    a.Advances search position seen (.wait t slots :: rest) kept own := by
  refine ⟨h.inRange, h.atEnd, fun hbarren later hlater => ?_⟩
  rw [List.flatMap_cons, Thread.frames, if_neg hstays]
  exact h.answers hbarren later hlater

theorem take (htakes : search.input[position]?.any t.matchesChar = true) {joined : Array Bool}
    {first : List Thread} (hrange : ∀ thread ∈ first, thread.InRange a.stateCount)
    (hfirst : a.Barren search (position + 1) seen [] → ∀ found : Option Found,
      a.Answers search (first.flatMap (Thread.frames search (position + 1))) found →
        a.Answers search [.follow (.start t.target (position + 1) slots)] found ∧
          (found = none → a.Barren search (position + 1) joined []))
    (h : a.Advances search position joined rest kept own) :
    a.Advances search position seen (.wait t slots :: rest) (first ++ kept) own := by
  refine ⟨List.forall_mem_append.mpr ⟨hrange, h.inRange⟩, fun hover => ?_, ?_⟩
  · rw [hover] at htakes
    cases htakes
  · intro hbarren later hlater
    rw [List.flatMap_append] at hlater
    rw [List.flatMap_cons, Thread.frames, if_pos htakes]
    rcases hlater.append_cases rfl with ⟨hsome, hfound⟩ | ⟨hnone, hothers⟩
    · obtain ⟨m, rfl⟩ := Option.isSome_iff_exists.mp hsome
      exact (hfirst hbarren _ hfound).1.append_found _
    · obtain ⟨hway, hbarren'⟩ := hfirst hbarren none hnone
      exact hway.append fun _ => h.answers (hbarren' rfl) later hothers

end Advances

/-- Moving ways over a character keeps ways after those of the front. -/
theorem advanceAll_ensures (hsupported : a.supportsLockstep = true) (hinside : a.Inside)
    (hbailout : search.bailout = none) (threads : List Thread) :
    ∀ (front : Front) (found : Option Found), front.seen.size = a.stateCount →
      (∀ thread ∈ threads, thread.InRange a.stateCount) →
        Ensures (a.advanceAll search position front found threads) fun result =>
          ∃ (kept : List Thread) (own : Option Found), result.1.threads = front.threads ++ kept ∧
            result.2 = own.or found ∧ a.Advances search position front.seen threads kept own := by
  induction threads with
  | nil => exact fun _ _ _ _ => ensures_pure ⟨[], none, (List.append_nil _).symm, rfl, .nil⟩
  | cons thread rest ih =>
    intro front found hsize hrange
    obtain ⟨hfirst, hrest⟩ := List.forall_mem_cons.mp hrange
    cases thread with
    | accept slots =>
      rw [advanceAll]
      split
      · rename_i hends
        exact ensures_pure
          ⟨[], some ⟨position, slots⟩, (List.append_nil _).symm, rfl, .accept hends⟩
      · rename_i hends
        refine ensures_mono (ih front found hsize hrest) ?_
        rintro result ⟨kept, own, hthreads, hfound, hkept⟩
        exact ⟨kept, own, hthreads, hfound, hkept.refuse hends⟩
    | wait t slots =>
      rw [advanceAll]
      split
      · rename_i htakes
        refine ensures_bind (join_ensures hsupported hinside hbailout hsize hfirst slots) ?_
        rintro joined ⟨hext, first, hthreads, hfirstRange, hjoined⟩
        refine ensures_mono (ih joined found (hext.size_eq.trans hsize) hrest) ?_
        rintro result ⟨kept, own, hthreads', hfound, hkept⟩
        exact ⟨first ++ kept, own, by simp [hthreads', hthreads], hfound,
          .take htakes hfirstRange hjoined hkept⟩
      · rename_i hstays
        refine ensures_mono (ih front found hsize hrest) ?_
        rintro result ⟨kept, own, hthreads, hfound, hkept⟩
        exact ⟨kept, own, hthreads, hfound, hkept.drop hstays⟩

theorem barren_noFront (a : Automaton) (search : Search) (position : Nat) :
    a.Barren search position a.noFront.seen [] := by
  intro place hentered
  simp only [noFront, Graph.unseen, Entered, Array.getElem?_replicate] at hentered
  split at hentered <;> simp at hentered

/-- The ways of a place, moved over the rest of the input, find what backtracking over them finds,
or else what was found before. -/
theorem race_ensures (hsupported : a.supportsLockstep = true) (hinside : a.Inside)
    (hbailout : search.bailout = none) (fuel : Nat) :
    ∀ (position : Nat) (threads : List Thread) (found : Option Found),
      fuel + position = search.input.size + 1 → (fuel = 0 → threads = []) →
        (∀ thread ∈ threads, thread.InRange a.stateCount) →
          Ensures (a.race search fuel position threads found) fun result =>
            ∃ own, result = own.or found ∧
              a.Answers search (threads.flatMap (Thread.frames search position)) own := by
  induction fuel with
  | zero =>
    intro position threads found _ hthreads _
    rw [race, hthreads rfl]
    exact ensures_pure ⟨none, rfl, .nil⟩
  | succ fuel ih =>
    intro position threads found hfuel _ hrange
    cases threads with
    | nil =>
      rw [race]
      exact ensures_pure ⟨none, rfl, .nil⟩
    | cons thread rest =>
      rw [race]
      · refine ensures_bind (advanceAll_ensures hsupported hinside hbailout (thread :: rest)
          a.noFront found (by simp [noFront, Graph.unseen]) hrange) ?_
        rintro ⟨front, before⟩ ⟨kept, own, hthreads, hfound, hkeptRange, hover, hkept⟩
        have hthreads : front.threads = kept := by simpa [noFront] using hthreads
        have hfound : before = own.or found := hfound
        dsimp only
        rw [hthreads, hfound]
        have hlast : fuel = 0 → kept = [] := by
          intro hzero
          refine hover (Array.getElem?_eq_none ?_)
          omega
        refine ensures_mono (ih (position + 1) kept _ (by omega) hlast hkeptRange) ?_
        rintro result ⟨later, rfl, hlater⟩
        exact ⟨later.or own, (Option.or_assoc ..).symm,
          hkept (barren_noFront a search (position + 1)) later hlater⟩
      · simp

/-- Following all ways at the same time answers with what the one way that starts there leads to. -/
theorem Inside.lockstep_ensures (hsupported : a.supportsLockstep = true) (hinside : a.Inside)
    (hbailout : search.bailout = none) {initial start : Nat} (hinitial : a.initial = some initial)
    (hstart : start ≤ search.input.size) :
    Ensures (a.lockstep search initial start) fun attempt =>
      ∃ found, attempt = .ofFound found ∧
        a.Answers search [.follow (.start initial start (.unset a.groupCount))] found := by
  unfold lockstep
  refine ensures_bind (join_ensures hsupported hinside hbailout (by simp [noFront, Graph.unseen])
    (hinside.initial_lt initial hinitial) _) ?_
  rintro front ⟨-, kept, hthreads, hrange, hkept⟩
  have hthreads : front.threads = kept := by simpa [noFront] using hthreads
  refine ensures_map ?_
  rw [hthreads]
  refine ensures_mono (race_ensures hsupported hinside hbailout _ start kept none (by omega)
    (by omega) hrange) ?_
  rintro result ⟨found, rfl, hfound⟩
  refine ⟨found, by rw [Option.or_none], ?_⟩
  exact (hkept (barren_noFront a search start) found hfound).1

theorem lockstep_ensures (hsupported : a.supportsLockstep = true) (hwf : a.WellFormed)
    (hbailout : search.bailout = none) {initial start : Nat} (hinitial : a.initial = some initial)
    (hstart : start ≤ search.input.size) :
    Ensures (a.lockstep search initial start) fun attempt =>
      ∃ found, attempt = .ofFound found ∧
        a.Answers search [.follow (.start initial start (.unset a.groupCount))] found :=
  hwf.inside.lockstep_ensures hsupported hbailout hinitial hstart

theorem hasActions_eq_false (hsupported : a.supportsLockstep = true) : a.hasActions = false := by
  simp only [supportsLockstep, Bool.and_eq_true, Bool.not_eq_true'] at hsupported
  exact hsupported.1

/-- The lockstep search and backtracking answer alike on all automata that the lockstep search takes,
at every place of the input, and whether or not a match has to end with the input: with the same end
and the same groups, or both with nothing. -/
theorem lockstep_agrees_with_backtracking (a : Automaton) (search : Search) (initial start : Nat)
    (hinitial : a.initial = some initial) (hintegrity : a.checkIntegrity = .ok ())
    (hsupported : a.supportsLockstep = true) (hbailout : search.bailout = none)
    (hstart : start ≤ search.input.size) (t t' : Tracker)
    (hlockstep : ¬ StoppedAtLimit ((a.lockstep search initial start).run t).1)
    (hbacktracking : ¬ StoppedAtLimit ((a.code.search search initial start).run t').1) :
    ∃ found : Option Found,
      ((a.lockstep search initial start).run t).1 = .ok (.ofFound found) ∧
        ((a.code.search search initial start).run t').1 = .ok (.ofFound found) := by
  have hwf := (checkIntegrity_iff a).mp hintegrity
  rcases lockstep_ensures hsupported hwf hbailout hinitial hstart t with
    hstop | ⟨attempt, hok, found, rfl, hanswers⟩
  · exact absurd hstop hlockstep
  rcases search_ensures (hasActions_eq_false hsupported) hbailout hanswers t' with
    hstop | ⟨attempt, hok', rfl⟩
  · exact absurd hstop hbacktracking
  · exact ⟨found, hok, hok'⟩

private def letterA : Label := ⟨['a'], .literal ['a'] false, rfl⟩

private def loopState : State :=
  { State.new 0 false with
    transitions := [⟨0, 0, none, 0⟩, ⟨0, 1, some letterA, 0⟩, ⟨0, 1, none, 0⟩] }

/-- An automaton whose initial state loops without input, and leads to the other with and without
the letter `a`. -/
private def optionalA : Automaton where
  kind := .nfa
  states := #[loopState, .new 1 true]
  initial := some 0
  current := none
  flags := .empty
  lastError := none

private def anywhere : Search := ⟨#['a'], false, .lockstep, none, false, .still⟩

private theorem run_lockstep_optionalA :
    ((optionalA.lockstep anywhere 0 0).run (.new ⟨100, 0, 0⟩)).1 =
      .ok (.ofFound (some ⟨1, []⟩)) := by
  have hcheck (t : Tracker) (hlimit : t.limits.maxTransitions = 0) (hdeadline : t.deadline = none)
      (depth position : Nat) :
      (anywhere.checkpoint depth position).run t = (.ok true, t.count depth) :=
    Search.run_checkpoint rfl hlimit hdeadline depth position
  have hgroups : optionalA.groupCount = 0 := by decide
  have hfront : optionalA.noFront = ⟨[], #[false, false]⟩ := rfl
  have hloop : optionalA.states[0]? = some loopState := rfl
  have hlast : optionalA.states[1]? = some (.new 1 true) := rfl
  have hloopMarks (position : Nat) : loopState.marks.holdAt #['a'] position = true := rfl
  have hlastMarks (position : Nat) :
      (State.new 1 true).marks.holdAt #['a'] position = true := rfl
  have hloopErrands (slots : Slots) : errands loopState slots =
      [.visit 0 slots, .keep (.wait ⟨0, 1, some letterA, 0⟩ slots), .visit 1 slots] := rfl
  have hlastErrands (slots : Slots) : errands (.new 1 true) slots = [.keep (.accept slots)] := rfl
  have hinput : anywhere.input = #['a'] := rfl
  have htakes : (Transition.mk 0 1 (some letterA) 0).matchesChar 'a' = true := by decide
  have hends (position : Nat) : anywhere.endsAt position = true := rfl
  have hunset : Slots.unset 0 = [] := rfl
  have hloopCapture (position : Nat) (slots : Slots) :
      loopState.capture position slots = slots := rfl
  have hlastCapture (position : Nat) (slots : Slots) :
      (State.new 1 true).capture position slots = slots := rfl
  simp [lockstep, run_bind, join, spread, visit, hfront, race, advanceAll, hcheck, hgroups, hloop,
    hlast, hloopMarks, hlastMarks, hloopErrands, hlastErrands, hloopCapture, hlastCapture, hunset,
    hinput, htakes, hends, Tracker.new, Tracker.count]
  rfl

theorem lockstep_agrees_on_optionalA :
    ∃ found : Option Found,
      ((optionalA.lockstep anywhere 0 0).run (.new ⟨100, 0, 0⟩)).1 = .ok (.ofFound found) ∧
        ((optionalA.code.search anywhere 0 0).run (.new ⟨100, 0, 0⟩)).1 = .ok (.ofFound found) := by
  have hlockstep : ¬ StoppedAtLimit ((optionalA.lockstep anywhere 0 0).run (.new ⟨100, 0, 0⟩)).1 := by
    rw [run_lockstep_optionalA]
    exact id
  have hbacktracking :
      ((optionalA.code.search anywhere 0 0).run (.new ⟨100, 0, 0⟩)).1 =
        .ok (.ofFound (some ⟨1, []⟩)) := by
    decide +kernel
  refine lockstep_agrees_with_backtracking optionalA anywhere 0 0 rfl (by decide)
    (by decide +kernel) rfl (by decide) _ _ hlockstep ?_
  rw [hbacktracking]
  exact id

end Automaton

end RegexEngine
