import RegexEngine.Proofs.Search.Along

/-!
What a search may find, whatever ways it drops. `Code.MayFind` follows any of the ways that a place
leads to, takes any answer that a body may have, and also goes on as if a body had none. A manager
may have a search abandon a way wherever it checks its bounds; what is found then is still something
that may be found, by induction on the steps of the run: every way that waits finds no more than the
search that it waits in.
-/

namespace RegexEngine

open Tracked

namespace Code

/-- What some way of a part of a search comes to. -/
inductive MayFind (code : Code) (search : Search) : Quest → Found → Prop
  | among {goal : Goal} {frame : Frame} {frames : List Frame} {f : Found} : frame ∈ frames →
      MayFind code search (.way goal frame) f → MayFind code search (.ways goal frames) f
  | accept {goal : Goal} {position : Nat} {slots : Slots} {f : Found} :
      MayFind code search (.move goal (.finish position slots)) f →
        MayFind code search (.way goal (.accept position slots)) f
  | entered {goal : Goal} {path : Path} {move : Move} {f : Found} : path.place ∉ path.trail →
      code.enter search.input goal.isBody path.entered = .ok move →
        MayFind code search (.move goal move) f → MayFind code search (.way goal (.follow path)) f
  | finish {goal : Goal} {position : Nat} {slots : Slots} :
      goal.admits search position = true →
        MayFind code search (.move goal (.finish position slots)) ⟨position, slots⟩
  | go {goal : Goal} {ways : List Frame} {cut : Bool} {f : Found} :
      MayFind code search (.ways goal ways) f → MayFind code search (.move goal (.go ways cut)) f
  | answered {goal : Goal} {body : Body} {path : Path} {g : Found} {move : Move} {f : Found} :
      MayFind code search (.body body path path.position) g →
        code.resume search.input goal.isBody path (some g) = .ok move →
          MayFind code search (.move goal move) f →
            MayFind code search (.move goal (.ask body path)) f
  | unanswered {goal : Goal} {body : Body} {path : Path} {move : Move} {f : Found} :
      code.resume search.input goal.isBody path none = .ok move →
        MayFind code search (.move goal move) f →
          MayFind code search (.move goal (.ask body path)) f
  | here {body : Body} {path : Path} {tried : Nat} {f : Found} :
      MayFind code search (.way (body.goal path) (body.way path tried)) f →
        MayFind code search (.body body path tried) f
  | back {body : Body} {path : Path} {tried : Nat} {f : Found} : body.behind = true → 0 < tried →
      MayFind code search (.body body path (tried - 1)) f →
        MayFind code search (.body body path tried) f

variable {code : Code} {search : Search}

/-- What a search finds it may find. -/
theorem Gives.mayFind {quest : Quest} {A : Attempt} (h : code.Gives search quest A) {f : Found}
    (hf : A.found = some f) : code.MayFind search quest f := by
  induction h generalizing f with
  | nothing => cases hf
  | decided _ _ ih => exact .among List.mem_cons_self (ih hf)
  | passed _ _ _ ih =>
    cases ih hf with
    | among hframe hway => exact .among (List.mem_cons_of_mem _ hframe) hway
  | accept _ ih => exact .accept (ih hf)
  | repeated _ => cases hf
  | entered hnew henter _ ih => exact .entered hnew henter (ih hf)
  | admitted hadmits =>
    cases hf
    exact .finish hadmits
  | refused _ => cases hf
  | go _ ih => exact .go (ih hf)
  | cut _ ih => exact .go (ih hf)
  | @ask _ _ _ B _ _ _ hresume _ ihbody ihmove =>
    cases hB : B.found with
    | none => exact .unanswered (hB ▸ hresume) (ihmove hf)
    | some g => exact .answered (ihbody hB) (hB ▸ hresume) (ihmove hf)
  | answered _ _ ih => exact .here (ih hf)
  | back _ hback _ _ ih => exact .back hback.2.1 hback.2.2 (ih hf)

/-- What a search may find depends on its input and on where matches may end, and on nothing else.
-/
theorem MayFind.congr_search {free : Search} {quest : Quest} {f : Found}
    (h : code.MayFind search quest f) (hinput : free.input = search.input)
    (hfull : free.full = search.full) : code.MayFind free quest f := by
  have hadmits (goal : Goal) (position : Nat) :
      goal.admits free position = goal.admits search position := by
    cases goal <;> simp only [Goal.admits, Search.endsAt, hinput, hfull]
  induction h with
  | among hframe _ ih => exact .among hframe ih
  | accept _ ih => exact .accept ih
  | entered hnew henter _ ih => exact .entered hnew (by rwa [hinput]) ih
  | finish hends => exact .finish ((hadmits _ _).trans hends)
  | go _ ih => exact .go ih
  | answered _ hresume _ ihbody ihmove => exact .answered ihbody (by rwa [hinput]) ihmove
  | unanswered hresume _ ih => exact .unanswered (by rwa [hinput]) ih
  | here _ ih => exact .here ih
  | back hbehind hpos _ ih => exact .back hbehind hpos ih

/-- All that one part of a search may find, another may. -/
def Covers (code : Code) (search : Search) (wide narrow : Quest) : Prop :=
  ∀ f, code.MayFind search narrow f → code.MayFind search wide f

end Code

/-! Runs. -/

/-- A suspended search whose ways find no more than a part of a search does, and so does the way
that waits, whether the body is found or not. -/
structure Suspended.Covered (code : Code) (search : Search) (wide : Quest) (s : Suspended) :
    Prop where
  frames : ∀ frame ∈ s.stack.frames, code.Covers search wide (.way s.goal frame)
  resumed : ∀ (answer : Option Found) (move : Move),
    (∀ g, answer = some g → code.MayFind search (.body s.body s.path s.tried) g) →
      code.resume search.input s.goal.isBody s.path answer = .ok move →
        code.Covers search wide (.move s.goal move)

namespace Run

/-- The part of a search that the innermost search makes. -/
def quest (first : Path) : List Suspended → Quest
  | [] => .way .whole (.follow first)
  | s :: _ => .way (s.body.goal s.path) (s.body.way s.path s.tried)

/-- No suspended search finds more than it should. -/
def AllCovered (code : Code) (search : Search) (first : Path) : List Suspended → Prop
  | [] => True
  | s :: outer =>
    s.Covered code search (quest first outer) ∧ AllCovered code search first outer

/-- The ways of a run find no more than they should, and neither does its answer. -/
structure Covered (code : Code) (search : Search) (first : Path) (r : Run) : Prop where
  frames : ∀ frame ∈ r.stack.frames,
    code.Covers search (quest first r.outer) (.way r.goal frame)
  path : ∀ path, r.phase = .enter path →
    code.Covers search (quest first r.outer) (.way r.goal (.follow path))
  found : ∀ f, r.phase = .answer (some f) → code.MayFind search (quest first r.outer) f
  outer : AllCovered code search first r.outer

/-- What a step leads to finds no more than it should. -/
def LeavesCovered (code : Code) (search : Search) (first : Path) : Progress → Prop
  | .running r => r.Covered code search first
  | .finished attempt => ∀ f, attempt.found = some f →
    code.MayFind search (.way .whole (.follow first)) f

variable {code : Code} {search : Search} {first : Path} {r : Run}

theorem Covered.pick (h : r.Covered code search first) : r.pick.Covered code search first :=
  ⟨h.frames, by simp [Run.pick], by simp [Run.pick], h.outer⟩

theorem Covered.finish (h : r.Covered code search first) {position : Nat} {slots : Slots}
    (hmove : code.Covers search (quest first r.outer) (.move r.goal (.finish position slots))) :
    (r.finish search position slots).Covered code search first := by
  unfold Run.finish
  split
  · rename_i hadmits
    refine ⟨h.frames, by simp, fun f hphase => ?_, h.outer⟩
    cases hphase
    exact hmove _ (.finish hadmits)
  · exact h.pick

theorem Covered.follow (h : r.Covered code search first) {frame : Frame}
    (hframe : code.Covers search (quest first r.outer) (.way r.goal frame)) :
    (r.follow search frame).Covered code search first := by
  cases frame with
  | follow path =>
    refine ⟨h.frames, fun next hphase => ?_, by simp [Run.follow], h.outer⟩
    cases hphase
    exact hframe
  | accept position slots => exact h.finish fun f hf => hframe f (.accept hf)

/-- A search for a body covers nothing but itself. -/
theorem enterBody_covered (groups : Nat) {s : Suspended}
    (hs : s.Covered code search (quest first r.outer))
    (houter : AllCovered code search first r.outer) :
    Grants (r.enterBody groups s) (·.Covered code search first) := by
  apply grants_enterBody
  intro stack hframes
  refine ⟨fun frame hframe => ?_, by simp, by simp, hs, houter⟩
  simp only [hframes, List.mem_singleton] at hframe
  subst hframe
  exact fun f hf => hf

theorem move_covered (h : r.Covered code search first) (groups : Nat) {next : Move}
    (hnext : code.Covers search (quest first r.outer) (.move r.goal next)) :
    Grants (r.move search groups next) (·.Covered code search first) := by
  cases next with
  | finish position slots => exact grants_pure (h.finish hnext)
  | ask body path =>
    apply enterBody_covered groups _ h.outer
    refine ⟨h.frames, fun answer move hanswer hresume f hf => hnext f ?_⟩
    cases answer with
    | none => exact .unanswered hresume hf
    | some g => exact .answered (hanswer g rfl) hresume hf
  | go ways cut =>
    have hways (frame : Frame) (hframe : frame ∈ ways) :
        code.Covers search (quest first r.outer) (.way r.goal frame) :=
      fun f hf => hnext f (.go (.among hframe hf))
    have hstack : ∀ frame ∈ (if cut then r.stack.reset else r.stack).frames,
        code.Covers search (quest first r.outer) (.way r.goal frame) := by
      intro frame hframe
      split at hframe
      · cases hframe
      · exact h.frames frame hframe
    cases ways with
    | nil => exact grants_pure ⟨hstack, by simp [Run.pick], by simp [Run.pick], h.outer⟩
    | cons way others =>
      refine grants_bind (pushAll_grants others.reverse _) fun stack hpushed => ?_
      have hwaiting : Covered code search first { r with
          stack := stack, committed := r.committed || (cut && !r.goal.isBody) } := by
        refine ⟨fun frame hframe => ?_, h.path, h.found, h.outer⟩
        rcases hpushed frame hframe with hold | hnew
        · exact hstack frame hold
        · exact hways frame (List.mem_cons_of_mem _ (List.mem_reverse.mp hnew))
      exact grants_pure (hwaiting.follow (hways way List.mem_cons_self))

theorem leave_covered (h : r.Covered code search first) {s : Suspended} {outer : List Suspended}
    {found : Option Found} (hphase : r.phase = .answer found) (houter : r.outer = s :: outer) :
    Grants (r.leave code search s outer found) (·.Covered code search first) := by
  obtain ⟨hs, hrest⟩ : s.Covered code search (quest first outer) ∧
      AllCovered code search first outer := by
    have hall := h.outer
    rwa [houter] at hall
  have hfound (g : Found) (hg : found = some g) :
      code.MayFind search (.body s.body s.path s.tried) g := by
    subst hg
    have hanswer := h.found g hphase
    rw [houter] at hanswer
    exact .here hanswer
  unfold leave
  dsimp only
  split
  · rename_i hback
    simp only [Bool.and_eq_true, decide_eq_true_iff] at hback
    obtain ⟨⟨_, hbehind⟩, hpositive⟩ := hback
    apply enterBody_covered code.groups _ hrest
    refine ⟨hs.frames, fun answer move hanswer => hs.resumed answer move fun g hg => ?_⟩
    exact .back hbehind hpositive (hanswer g hg)
  · cases hresume : code.resume search.input s.goal.isBody s.path found with
    | error e => exact grants_throw e
    | ok next =>
      have haround : Covered code search first
          { r with phase := .pick, goal := s.goal, stack := s.stack, outer := outer } :=
        ⟨hs.frames, by simp, by simp, hrest⟩
      exact move_covered haround code.groups (hs.resumed found next hfound hresume)

theorem enter_covered (h : r.Covered code search first) {path : Path}
    (hphase : r.phase = .enter path) :
    Grants (r.enter code search path) (·.Covered code search first) := by
  unfold enter
  split
  · exact grants_pure h.pick
  · rename_i hnew
    apply grants_bind_any
    intro admitted
    split
    · dsimp only
      cases henter : code.enter search.input r.goal.isBody path.entered with
      | error e =>
        rw [Path.entered] at henter
        rw [henter]
        exact grants_throw e
      | ok next =>
        have hnext : code.Covers search (quest first r.outer) (.move r.goal next) := by
          intro f hf
          exact h.path path hphase f (.entered (by simpa using hnew) henter hf)
        rw [Path.entered] at henter
        rw [henter]
        exact move_covered h code.groups hnext
    · exact grants_pure h.pick

/-- Whatever a step drops, the run still finds no more than it should. -/
theorem step_covered (h : r.Covered code search first) :
    Grants (r.step code search) (LeavesCovered code search first) := by
  unfold step
  split
  · rename_i path hphase
    exact grants_map (enter_covered h hphase)
  · cases hframes : r.stack.frames with
    | nil =>
      simp only [Stack.pop?, hframes]
      exact grants_pure ⟨h.frames, by simp, by simp, h.outer⟩
    | cons frame rest =>
      simp only [Stack.pop?, hframes]
      have hall := h.frames
      rw [hframes] at hall
      have hrest : Covered code search first
          { r with stack := { r.stack with frames := rest } } :=
        ⟨fun f hf => hall f (List.mem_cons_of_mem _ hf), h.path, h.found, h.outer⟩
      apply grants_bind_any
      intro admitted
      split
      · exact grants_pure (hrest.follow (hall frame List.mem_cons_self))
      · exact grants_pure hrest.pick
  · rename_i found hphase
    split
    · rename_i houter
      apply grants_pure
      rintro f rfl
      have hanswer := h.found f hphase
      rwa [houter] at hanswer
    · rename_i s outer houter
      exact grants_map (leave_covered h hphase houter)

theorem iterate_covered (fuel : Nat) {r : Run} (h : r.Covered code search first) :
    Grants (iterate code search fuel r) fun attempt => ∀ f, attempt.found = some f →
      code.MayFind search (.way .whole (.follow first)) f := by
  induction fuel generalizing r with
  | zero => exact grants_throw _
  | succ fuel ih =>
    unfold iterate
    refine grants_bind (step_covered h) fun progress hprogress => ?_
    cases progress with
    | finished attempt => exact grants_pure hprogress
    | running next => exact ih hprogress

end Run

/-- Whatever manager a search has, it finds what it may find. -/
theorem Code.search_mayFind (code : Code) (search : Search) (initial start : Nat) :
    Grants (code.search search initial start) fun attempt => ∀ f, attempt.found = some f →
      code.MayFind search (.way .whole (.follow (.start initial start (.unset code.groups)))) f :=
    by
  unfold Code.search
  apply grants_get_bind
  intro t
  dsimp only
  rcases Run.push_cases (Stack.new t.limits.maxDepth code.groups)
      (.follow (.start initial start (.unset code.groups))) with
    ⟨stack, hpush, hframes⟩ | ⟨fault, hpush⟩
  · rw [hpush]
    apply Run.iterate_covered
    refine ⟨fun frame hframe => ?_, by simp [Run.start], by simp [Run.start], trivial⟩
    have hframes : stack.frames = [.follow (.start initial start (.unset code.groups))] := hframes
    simp only [Run.start, hframes, List.mem_singleton] at hframe
    subst hframe
    exact fun f hf => hf
  · rw [hpush]
    exact grants_throw _

/-! What is found comes of the ways. -/

/-- What is found comes of a path, if all the ways of a part of a search do. -/
def Code.Brings (code : Code) (input : Array Char) (R : Path → Path → Prop) (f : Found) :
    Quest → Prop
  | .way _ frame => ∀ path, frame.Follows R path → path.EndsAs R f.stop f.slots
  | .ways _ frames =>
    ∀ path, (∀ frame ∈ frames, frame.Follows R path) → path.EndsAs R f.stop f.slots
  | .move _ move => ∀ path, code.Follows input R path move → path.EndsAs R f.stop f.slots
  | .body body path tried => body.TriedFrom path tried →
    ∃ last, body.TriedFrom path last ∧ (body.origin path last).EndsAs R f.stop f.slots

theorem Code.MayFind.brings {code : Code} {search : Search} {R : Path → Path → Prop}
    {quest : Quest} {f : Found} (h : code.MayFind search quest f)
    (hR : code.Respects search.input R) : code.Brings search.input R f quest := by
  induction h with
  | among hframe _ ih => exact fun path hframes => ih path (hframes _ hframe)
  | accept _ ih => exact ih
  | entered _ henter _ ih =>
    intro path hpath
    have hentered := hR.trans hpath (hR.entered _)
    exact (ih _ (hR.enter _ _ _ henter)).after hR.toChains hentered
  | finish _ => exact fun _ hends => hends
  | go _ ih => exact ih
  | @answered _ body next g _ _ _ hresume _ ihbody ihmove =>
    rintro path ⟨hnext, hawaits⟩
    obtain ⟨tried, htried, hends⟩ := ihbody (body.triedFrom_self next)
    have hfound : Found.Follows R (body.origin next tried) (some g) := by
      rintro f ⟨⟩
      exact hends
    have hleads := hawaits _ tried _ _ htried hfound hresume
    exact (ihmove next hleads.follows).after hR.toChains hnext
  | @unanswered _ body next _ _ hresume _ ihmove =>
    rintro path ⟨hnext, hawaits⟩
    have hfound : Found.Follows R (body.origin next next.position) none := by rintro f ⟨⟩
    have hleads := hawaits _ _ _ _ (body.triedFrom_self next) hfound hresume
    exact (ihmove next hleads.follows).after hR.toChains hnext
  | here _ ih => exact fun htried => ⟨_, htried, ih _ (hR.refl _)⟩
  | back hbehind _ _ ih => exact fun htried => ih (htried.back hbehind)

end RegexEngine
