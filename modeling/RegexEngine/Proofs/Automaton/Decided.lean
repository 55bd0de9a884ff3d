import RegexEngine.Proofs.Automaton.Halting

/-!
Every search has an end, said without the machine that runs it. For the same reasons for which the
machine always stops, each part of a search through a compiled automaton ends in one way, and with
something that comes of where it started. So what can be found does not hang on any bound.
-/

namespace RegexEngine

section

variable {code : Code} {search : Search} {R : Path → Path → Prop} {origin path : Path}

/-- In a search for whatever goal, a way ends with something that comes of a path. -/
def Frame.Ends (code : Code) (search : Search) (R : Path → Path → Prop) (origin : Path)
    (frame : Frame) : Prop :=
  ∀ goal, ∃ A, code.Gives search (.way goal frame) A ∧ Found.Follows R origin A.found

theorem Found.follows_none : Found.Follows R origin none := fun _ h => nomatch h

theorem Found.Follows.after {found : Option Found} (h : Found.Follows R path found)
    (hR : Path.Chains R) (hpath : R origin path) : Found.Follows R origin found :=
  fun f hf => Path.EndsAs.after (h f hf) hR hpath

namespace Code

/-- To finish is an end, whether or not the search may end there. -/
theorem exists_gives_finish {position : Nat} {slots : Slots} (h : origin.EndsAs R position slots)
    (goal : Goal) :
    ∃ A, code.Gives search (.move goal (.finish position slots)) A ∧
      Found.Follows R origin A.found := by
  by_cases hadmits : goal.admits search position = true
  · refine ⟨_, .admitted hadmits, fun f hf => ?_⟩
    cases hf
    exact h
  · exact ⟨_, .refused (Bool.not_eq_true _ ▸ hadmits), Found.follows_none⟩

theorem accept_ends {position : Nat} {slots : Slots} (h : origin.EndsAs R position slots) :
    (Frame.accept position slots).Ends code search R origin := by
  intro goal
  have hends : ∃ A, code.Gives search (.move goal (.finish position slots)) A ∧
      Found.Follows R origin A.found := exists_gives_finish h goal
  obtain ⟨A, hmove, hfound⟩ := hends
  exact ⟨A, .accept hmove, hfound⟩

/-- Several ways end if each of them does. -/
theorem exists_gives_ways {ways : List Frame}
    (h : ∀ frame ∈ ways, frame.Ends code search R origin) (goal : Goal) :
    ∃ A, code.Gives search (.ways goal ways) A ∧ Found.Follows R origin A.found := by
  induction ways with
  | nil => exact ⟨_, .nothing, Found.follows_none⟩
  | cons frame rest ih =>
    obtain ⟨hframe, hrest⟩ := List.forall_mem_cons.mp h
    obtain ⟨A, hway, hfound⟩ := hframe goal
    by_cases hfruitless : A = .fruitless
    · obtain ⟨B, hways, hfound'⟩ := ih hrest
      exact ⟨B, .passed (hfruitless ▸ hway) hways, hfound'⟩
    · exact ⟨A, .decided hway hfruitless, hfound⟩

theorem exists_gives_go {ways : List Frame}
    (h : ∀ frame ∈ ways, frame.Ends code search R origin) (cut : Bool) (goal : Goal) :
    ∃ A, code.Gives search (.move goal (.go ways cut)) A ∧ Found.Follows R origin A.found := by
  obtain ⟨A, hways, hfound⟩ := exists_gives_ways h goal
  cases cut with
  | false => exact ⟨A, .go hways, hfound⟩
  | true => exact ⟨_, .cut hways, hfound⟩

/-- A body is tried from finitely many places, and each time it ends. -/
theorem exists_gives_body {body : Body} (h : ∀ tried, body.TriedFrom path tried →
      (Frame.follow (body.origin path tried)).Ends code search R (body.origin path tried)) :
    ∀ tried, body.TriedFrom path tried → ∃ A last, code.Gives search (.body body path tried) A ∧
      body.TriedFrom path last ∧ Found.Follows R (body.origin path last) A.found := by
  intro tried
  induction tried using Nat.strongRecOn with
  | _ tried ih =>
    intro htried
    obtain ⟨A, hway, hfound⟩ := h tried htried (body.goal path)
    by_cases hback : body.GoesBack tried A.found
    · obtain ⟨B, last, hbody, hlast, hfound'⟩ :=
        ih (tried - 1) (Nat.sub_one_lt_of_lt hback.2.2) (htried.back hback.2.1)
      exact ⟨B, last, .back hway hback hbody, hlast, hfound'⟩
    · exact ⟨A, tried, .answered hway hback, htried, hfound⟩

end Code

theorem Frame.Ends.after {frame : Frame} (h : frame.Ends code search R path)
    (hR : Path.Chains R) (hpath : R origin path) : frame.Ends code search R origin := by
  intro goal
  obtain ⟨A, hway, hfound⟩ := h goal
  exact ⟨A, hway, hfound.after hR hpath⟩

/-- All ways that come of a path end, as far as they keep to some paths. -/
def Path.LeadsToEnds (code : Code) (search : Search) (R : Path → Path → Prop) (P : Path → Prop)
    (path : Path) : Prop :=
  ∀ next, P next → R path next → (Frame.follow next).Ends code search R path

theorem Path.LeadsToEnds.frame_ends {P : Path → Prop} (h : path.LeadsToEnds code search R P)
    {frame : Frame} (hwithin : frame.Within P) (hfollows : frame.Follows R path) :
    frame.Ends code search R path := by
  cases frame with
  | follow next => exact h next hwithin hfollows
  | accept position slots => exact Code.accept_ends hfollows

/-- A way ends if all that comes of it does once its place is entered, and the body that it asks for
there. -/
theorem Frame.follow_ends {P : Path → Prop} (hR : code.Respects search.input R)
    (hclosed : code.ClosedOn P) (hpath : P path)
    (hnext : path.place ∉ path.trail → ∀ next, R path.entered next →
      next.LeadsToEnds code search R P)
    (hbody : path.place ∉ path.trail → ∀ inBody body next,
      code.enter search.input inBody path.entered = .ok (.ask body next) →
        ∀ tried, body.TriedFrom next tried → P (body.origin next tried) →
          (Frame.follow (body.origin next tried)).Ends code search R (body.origin next tried)) :
    (Frame.follow path).Ends code search R path := by
  intro goal
  by_cases hseen : path.place ∈ path.trail
  · exact ⟨_, .repeated hseen, Found.follows_none⟩
  obtain ⟨move, henter, hwithin⟩ := hclosed.enter search.input goal.isBody path hpath
  have hfollows := hR.enter _ _ _ henter
  suffices ∃ A, code.Gives search (.move goal move) A ∧ Found.Follows R path.entered A.found by
    obtain ⟨A, hmove, hfound⟩ := this
    exact ⟨A, .entered hseen henter hmove, hfound.after hR.toChains (hR.entered path)⟩
  cases move with
  | finish position slots => exact Code.exists_gives_finish hfollows goal
  | go ways cut =>
    exact Code.exists_gives_go (fun frame hframe => (hnext hseen _ (hR.refl _)).frame_ends
      (hwithin frame hframe) (hfollows frame hframe)) cut goal
  | ask body next =>
    obtain ⟨B, last, hgives, hlast, hfound⟩ := Code.exists_gives_body
      (fun tried htried => hbody hseen _ body next henter tried htried (hwithin.1 _ _))
      next.position (body.triedFrom_self next)
    obtain ⟨move, hresume, hwithin'⟩ :=
      hclosed.resume search.input goal.isBody next B.found hwithin.2
    obtain ⟨ways, cut, rfl, hways⟩ := hfollows.2 _ _ _ _ hlast hfound hresume
    have hends := hnext hseen next hfollows.1
    obtain ⟨A, hmove, hfound'⟩ := Code.exists_gives_go (fun frame hframe =>
      hends.frame_ends (hwithin' frame hframe) (hways frame hframe)) cut goal
    exact ⟨A, .ask hgives hresume hmove, hfound'.after hR.toChains hfollows.1⟩

end

namespace Automaton

variable {a : Automaton} {level : Nat → Nat}

/-- Every way through an automaton ends, as long as it stands inside the input. -/
theorem Nests.way_ends (h : a.Nests level) (hinside : a.Inside) (search : Search) (path : Path)
    (hplace : path.place < a.stateCount) (hposition : path.position ≤ search.input.size) :
    (Frame.follow path).Ends a.code search (Path.Ahead level search.input) path := by
  have hR := h.respects search.input
  refine Frame.follow_ends hR hinside.closedOn hplace ?_ ?_
  · intro hnew next hnext last hlast hahead
    have hless := (hR.trans hnext hahead).left_lt hnew hplace hposition
    have hinput := (hR.trans hnext hahead).inside hposition
    exact (way_ends h hinside search last hlast hinput).after hR.toChains hahead
  · intro hnew inBody body next henter tried htried hstart
    obtain ⟨s, hstate, hmove⟩ := enter_ok henter
    obtain ⟨hbody, hstays⟩ := State.asks?_of_enter hmove
    have hbelow := (h path.place s hstate).body_lt body hbody
    have htried : tried ≤ path.position := hstays ▸ htried.le
    exact way_ends h hinside search (body.origin next tried) hstart (htried.trans hposition)
termination_by path.left level search.input a.stateCount
decreasing_by
  · exact hless
  · exact Prod.Lex.left _ _ hbelow

/-- An attempt has an end, whatever bounds there are. -/
theorem NestsWithin.exists_gives {most : Nat} (h : a.NestsWithin most) (hinside : a.Inside)
    {i : Nat} (hi : a.initial = some i) (search : Search) {start : Nat} (hstart : start ≤ search.input.size) :
    ∃ A, a.code.Gives search (a.firstWay i start) A := by
  obtain ⟨level, hlevel, _⟩ := h
  obtain ⟨A, hgives, _⟩ :=
    hlevel.way_ends hinside search (.start i start (.unset a.groupCount)) (hinside.initial_lt i hi)
      hstart .whole
  exact ⟨A, hgives⟩

end Automaton

end RegexEngine
