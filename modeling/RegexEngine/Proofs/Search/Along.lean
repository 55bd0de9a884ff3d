import RegexEngine.Proofs.Search.Backtracking
import RegexEngine.Proofs.Search.Outcomes

/-!
What holds along every way of a search, whatever stops or drops ways. A relation between paths that
can be chained is respected by a code if it leads from each path to all that the code makes of it.
Then it leads from the first path of a search to where the search ends. What a body comes to counts
for the way that waits for it only through this relation, from the path that the body starts with.
-/

namespace RegexEngine

namespace Tracked

variable {α β : Type} {post : β → Prop}

/-- Whenever the computation answers, it answers as `post` says. -/
def Grants (x : Tracked α) (post : α → Prop) : Prop :=
  ∀ (t t' : Tracker) (value : α), x.run t = (.ok value, t') → post value

theorem grants_any (x : Tracked α) : Grants x fun _ => True := fun _ _ _ _ => trivial

/-- What is granted of an answer may be added to what is ensured. -/
theorem Ensures.and_grants {x : Tracked α} {post post' : α → Prop} (h : Ensures x post)
    (h' : Grants x post') : Ensures x fun value => post value ∧ post' value := by
  intro t
  rcases h t with hstop | ⟨value, hok, hpost⟩
  · exact .inl hstop
  · exact .inr ⟨value, hok, hpost, h' t _ value (Prod.ext hok rfl)⟩

/-- What is ensured of answers is granted. -/
theorem Ensures.grants {x : Tracked α} {post : α → Prop} (h : Ensures x post) : Grants x post := by
  intro t t' value hrun
  rcases h t with hstop | ⟨value', hok, hpost⟩
  · rw [hrun] at hstop
    exact hstop.elim
  · rw [hrun] at hok
    cases hok
    exact hpost

theorem grants_pure {value : β} (h : post value) : Grants (pure value) post := by
  intro t t' v hrun
  cases hrun
  exact h

theorem grants_throw (e : Error) : Grants (throw e : Tracked β) post := by
  intro t t' v hrun
  cases hrun

theorem grants_bind {x : Tracked α} {f : α → Tracked β} {mid : α → Prop} (hx : Grants x mid)
    (hf : ∀ value, mid value → Grants (f value) post) : Grants (x >>= f) post := by
  intro t t' v hrun
  rw [run_bind] at hrun
  rcases hcase : x.run t with ⟨e | value, s⟩
  · rw [hcase] at hrun
    cases hrun
  · rw [hcase] at hrun
    exact hf value (hx t s value hcase) s t' v hrun

theorem grants_bind_any {x : Tracked α} {f : α → Tracked β}
    (hf : ∀ value, Grants (f value) post) : Grants (x >>= f) post :=
  grants_bind (grants_any x) fun value _ => hf value

theorem grants_mono {x : Tracked β} {mid : β → Prop} (hx : Grants x mid)
    (h : ∀ value, mid value → post value) : Grants x post :=
  fun t t' v hrun => h v (hx t t' v hrun)

theorem grants_map {x : Tracked α} {f : α → β} (hx : Grants x fun value => post (f value)) :
    Grants (f <$> x) post := by
  rw [map_eq_pure_bind]
  exact grants_bind hx fun _ h => grants_pure h

theorem grants_get_bind {f : Tracker → Tracked β} (hf : ∀ t, Grants (f t) post) :
    Grants (getThe Tracker >>= f) post :=
  fun t => hf t t

end Tracked

open Tracked

/-! Relations along ways. -/

/-- A way that comes of a path ends at a place with certain slots. -/
def Path.EndsAs (R : Path → Path → Prop) (path : Path) (position : Nat) (slots : Slots) : Prop :=
  ∃ last, R path last ∧ last.position = position ∧ last.slots = slots

/-- A waiting way comes of a path. -/
def Frame.Follows (R : Path → Path → Prop) (path : Path) : Frame → Prop
  | follow next => R path next
  | accept position slots => path.EndsAs R position slots

/-- What was found comes of a path. -/
def Found.Follows (R : Path → Path → Prop) (path : Path) (found : Option Found) : Prop :=
  ∀ f, found = some f → path.EndsAs R f.stop f.slots

namespace Body

/-- The path that a body starts with. -/
def origin (body : Body) (path : Path) (tried : Nat) : Path := .start body.start tried path.slots

/-- Where a body is tried: where the way stands, or before that if the body has to end there. -/
structure TriedFrom (body : Body) (path : Path) (tried : Nat) : Prop where
  le : tried ≤ path.position
  eq : body.behind = false → tried = path.position

theorem triedFrom_self (body : Body) (path : Path) : body.TriedFrom path path.position :=
  ⟨Nat.le_refl _, fun _ => rfl⟩

theorem TriedFrom.back {body : Body} {path : Path} {tried : Nat} (h : body.TriedFrom path tried)
    (hbehind : body.behind = true) : body.TriedFrom path (tried - 1) := by
  have hle := h.le
  refine ⟨by omega, fun hahead => ?_⟩
  rw [hbehind] at hahead
  cases hahead

end Body

/-- A relation that can be chained along the ways of a search. -/
structure Path.Chains (R : Path → Path → Prop) : Prop where
  refl : ∀ path, R path path
  trans : ∀ {first second third : Path}, R first second → R second third → R first third
  entered : ∀ path : Path, R path path.entered

/-- A way goes on, and all its ways come of a path. -/
def Move.LeadsOn (R : Path → Path → Prop) (path : Path) (move : Move) : Prop :=
  ∃ ways cut, move = .go ways cut ∧ ∀ frame ∈ ways, frame.Follows R path

namespace Code

/-- Whatever comes of the body, the way that waits for it goes on as the relation allows. -/
def Awaits (code : Code) (input : Array Char) (R : Path → Path → Prop) (body : Body)
    (path : Path) : Prop :=
  ∀ (inBody : Bool) (tried : Nat) (found : Option Found) (move : Move),
    body.TriedFrom path tried → Found.Follows R (body.origin path tried) found →
      code.resume input inBody path found = .ok move → move.LeadsOn R path

/-- All that a move makes of a path comes of it. -/
def Follows (code : Code) (input : Array Char) (R : Path → Path → Prop) (path : Path) :
    Move → Prop
  | .finish position slots => path.EndsAs R position slots
  | .go ways _ => ∀ frame ∈ ways, frame.Follows R path
  | .ask body next => R path next ∧ code.Awaits input R body next

/-- The relation leads from each path to all that the code makes of it. -/
structure Respects (code : Code) (input : Array Char) (R : Path → Path → Prop) : Prop
    extends Path.Chains R where
  enter : ∀ (inBody : Bool) (path : Path) (move : Move),
    code.enter input inBody path = .ok move → code.Follows input R path move

end Code

section

variable {R : Path → Path → Prop} {path next : Path}

theorem Path.EndsAs.after {position : Nat} {slots : Slots} (h : next.EndsAs R position slots)
    (hR : Path.Chains R) (hnext : R path next) : path.EndsAs R position slots := by
  obtain ⟨last, hlast, hends⟩ := h
  exact ⟨last, hR.trans hnext hlast, hends⟩

theorem Frame.Follows.after {frame : Frame} (h : frame.Follows R next) (hR : Path.Chains R)
    (hnext : R path next) : frame.Follows R path := by
  cases frame with
  | follow last => exact hR.trans hnext h
  | accept position slots => exact Path.EndsAs.after h hR hnext

theorem Move.leadsOn_dead : Move.dead.LeadsOn R path :=
  ⟨[], false, rfl, fun _ hframe => nomatch hframe⟩

theorem Move.leadsOn_along (h : R path next) : (Move.along next).LeadsOn R path := by
  refine ⟨_, false, rfl, fun frame hframe => ?_⟩
  rw [List.mem_singleton] at hframe
  rw [hframe]
  exact h

theorem Move.LeadsOn.follows {code : Code} {input : Array Char} {move : Move}
    (h : move.LeadsOn R path) : code.Follows input R path move := by
  obtain ⟨ways, cut, rfl, hways⟩ := h
  exact hways

end

/-! Runs. -/

/-- What the ways of the innermost search come of. -/
def Run.origin (first : Path) : List Suspended → Path
  | [] => first
  | s :: _ => s.body.origin s.path s.tried

/-- A suspended search whose ways come of a path. -/
structure Suspended.Follows (code : Code) (input : Array Char) (R : Path → Path → Prop)
    (path : Path) (s : Suspended) : Prop where
  frames : ∀ frame ∈ s.stack.frames, frame.Follows R path
  path : R path s.path
  awaits : code.Awaits input R s.body s.path
  tried : s.body.TriedFrom s.path s.tried

namespace Run

/-- The ways of all suspended searches come of what they should. -/
def AllFollow (code : Code) (input : Array Char) (R : Path → Path → Prop) (first : Path) :
    List Suspended → Prop
  | [] => True
  | s :: outer => s.Follows code input R (origin first outer) ∧ AllFollow code input R first outer

/-- The ways of a run come of what they should, and so does what it has found. -/
structure Follows (code : Code) (input : Array Char) (R : Path → Path → Prop) (first : Path)
    (r : Run) : Prop where
  frames : ∀ frame ∈ r.stack.frames, frame.Follows R (origin first r.outer)
  path : ∀ path, r.phase = .enter path → R (origin first r.outer) path
  found : ∀ found, r.phase = .answer found → Found.Follows R (origin first r.outer) found
  outer : AllFollow code input R first r.outer

/-- What a step leads to is as it should be. -/
def Leaves (code : Code) (input : Array Char) (R : Path → Path → Prop) (first : Path) :
    Progress → Prop
  | .running r => r.Follows code input R first
  | .finished attempt => Found.Follows R first attempt.found

variable {code : Code} {search : Search} {R : Path → Path → Prop} {first : Path} {r : Run}

theorem Follows.pick (h : r.Follows code search.input R first) :
    r.pick.Follows code search.input R first :=
  ⟨h.frames, fun _ hphase => (nomatch hphase), fun _ hphase => (nomatch hphase), h.outer⟩

theorem Follows.finish (h : r.Follows code search.input R first) {position : Nat} {slots : Slots}
    (hends : (origin first r.outer).EndsAs R position slots) :
    (r.finish search position slots).Follows code search.input R first := by
  unfold Run.finish
  split
  · refine ⟨h.frames, fun _ hphase => (nomatch hphase), fun found hphase => ?_, h.outer⟩
    cases hphase
    intro f hf
    cases hf
    exact hends
  · exact h.pick

theorem Follows.follow (h : r.Follows code search.input R first) {frame : Frame}
    (hframe : frame.Follows R (origin first r.outer)) :
    (r.follow search frame).Follows code search.input R first := by
  cases frame with
  | follow path =>
    refine ⟨h.frames, fun next hphase => ?_, fun _ hphase => (nomatch hphase), h.outer⟩
    cases hphase
    exact hframe
  | accept position slots => exact h.finish hframe

/-- Only what was to be put on a stack is put there. -/
theorem pushAll_grants (ways : List Frame) : ∀ stack : Stack,
    Grants (pushAll search stack ways) fun stack' =>
      ∀ frame ∈ stack'.frames, frame ∈ stack.frames ∨ frame ∈ ways := by
  induction ways with
  | nil => exact fun stack => grants_pure fun frame hframe => .inl hframe
  | cons way rest ih =>
    intro stack
    unfold pushAll
    apply grants_bind_any
    intro admitted
    split
    · have hpush : Grants (pushAll.liftExcept (stack.push way)) fun stack' =>
          ∀ frame ∈ stack'.frames, frame ∈ stack.frames ∨ frame = way := by
        intro t t' stack' hrun
        rcases push_cases stack way with ⟨pushed, hpush, hframes⟩ | ⟨fault, hpush⟩
        · rw [hpush] at hrun
          cases hrun
          intro frame hframe
          rw [hframes] at hframe
          exact (List.mem_cons.mp hframe).symm
        · rw [hpush] at hrun
          cases hrun
      refine grants_bind hpush fun pushed hpushed => ?_
      refine grants_mono (ih pushed) fun stack' hstack' frame hframe => ?_
      rcases hstack' frame hframe with hold | hnew
      · rcases hpushed frame hold with hbefore | rfl
        · exact .inl hbefore
        · exact .inr List.mem_cons_self
      · exact .inr (List.mem_cons_of_mem _ hnew)
    · refine grants_mono (ih stack) fun stack' hstack' frame hframe => ?_
      exact (hstack' frame hframe).imp_right (List.mem_cons_of_mem _)

/-- A search for a body starts with its one way. -/
theorem grants_enterBody {s : Suspended} {post : Run → Prop} (groups : Nat)
    (h : ∀ stack : Stack, stack.frames = [.follow (s.body.origin s.path s.tried)] →
      post ⟨.pick, .body (if s.body.behind then some s.path.position else none), stack,
        s :: r.outer, r.committed⟩) : Grants (r.enterBody groups s) post := by
  unfold enterBody
  apply grants_get_bind
  intro t
  dsimp only
  rcases push_cases (Stack.nested t.limits.maxDepth groups s.stack.depth)
      (.follow (.start s.body.start s.tried s.path.slots)) with
    ⟨stack, hpush, hframes⟩ | ⟨fault, hpush⟩
  · rw [hpush]
    exact grants_pure (h stack hframes)
  · rw [hpush]
    exact grants_throw _

/-- A search for a body starts with a path that comes of nothing but itself. -/
theorem enterBody_grants (hR : code.Respects search.input R) (groups : Nat) {s : Suspended}
    (hs : s.Follows code search.input R (origin first r.outer))
    (houter : AllFollow code search.input R first r.outer) :
    Grants (r.enterBody groups s) (·.Follows code search.input R first) := by
  apply grants_enterBody
  intro stack hframes
  refine ⟨fun frame hframe => ?_, fun _ hphase => (nomatch hphase),
    fun _ hphase => (nomatch hphase), hs, houter⟩
  simp only [hframes, List.mem_singleton] at hframe
  rw [hframe]
  exact hR.refl _

theorem move_grants (hR : code.Respects search.input R) (h : r.Follows code search.input R first)
    (groups : Nat) {path : Path} (hpath : R (origin first r.outer) path) {next : Move}
    (hnext : code.Follows search.input R path next) :
    Grants (r.move search groups next) (·.Follows code search.input R first) := by
  cases next with
  | finish position slots => exact grants_pure (h.finish (hnext.after hR.toChains hpath))
  | ask body asking =>
    exact enterBody_grants hR groups
      ⟨h.frames, hR.trans hpath hnext.1, hnext.2, body.triedFrom_self asking⟩ h.outer
  | go ways cut =>
    have hways (frame : Frame) (hframe : frame ∈ ways) : frame.Follows R (origin first r.outer) :=
      (hnext frame hframe).after hR.toChains hpath
    have hstack : ∀ frame ∈ (if cut then r.stack.reset else r.stack).frames,
        frame.Follows R (origin first r.outer) := by
      intro frame hframe
      split at hframe
      · cases hframe
      · exact h.frames frame hframe
    cases ways with
    | nil =>
      exact grants_pure ⟨hstack, fun _ hphase => (nomatch hphase),
        fun _ hphase => (nomatch hphase), h.outer⟩
    | cons way others =>
      refine grants_bind (pushAll_grants others.reverse _) fun stack hpushed => ?_
      have hwaiting : Follows code search.input R first { r with
          stack := stack, committed := r.committed || (cut && !r.goal.isBody) } := by
        refine ⟨fun frame hframe => ?_, h.path, h.found, h.outer⟩
        rcases hpushed frame hframe with hold | hnew
        · exact hstack frame hold
        · exact hways frame (List.mem_cons_of_mem _ (List.mem_reverse.mp hnew))
      exact grants_pure (hwaiting.follow (hways way List.mem_cons_self))

theorem leave_grants (hR : code.Respects search.input R) (h : r.Follows code search.input R first)
    {s : Suspended} {outer : List Suspended} {found : Option Found}
    (hphase : r.phase = .answer found) (houter : r.outer = s :: outer) :
    Grants (r.leave code search s outer found) (·.Follows code search.input R first) := by
  obtain ⟨hs, hrest⟩ : s.Follows code search.input R (origin first outer) ∧
      AllFollow code search.input R first outer := by
    have hall := h.outer
    rwa [houter] at hall
  have hfound : Found.Follows R (s.body.origin s.path s.tried) found := by
    have hanswer := h.found found hphase
    rwa [houter] at hanswer
  unfold leave
  dsimp only
  split
  · rename_i hback
    simp only [Bool.and_eq_true] at hback
    exact enterBody_grants hR code.groups
      ⟨hs.frames, hs.path, hs.awaits, hs.tried.back hback.1.2⟩ hrest
  · cases hresume : code.resume search.input s.goal.isBody s.path found with
    | error e => exact grants_throw e
    | ok next =>
      obtain ⟨ways, cut, rfl, hways⟩ := hs.awaits _ _ _ _ hs.tried hfound hresume
      have haround : Follows code search.input R first
          { r with phase := .pick, goal := s.goal, stack := s.stack, outer := outer } :=
        ⟨hs.frames, fun _ hphase => (nomatch hphase), fun _ hphase => (nomatch hphase), hrest⟩
      exact move_grants hR haround code.groups hs.path hways

theorem enter_grants (hR : code.Respects search.input R) (h : r.Follows code search.input R first)
    {path : Path} (hphase : r.phase = .enter path) :
    Grants (r.enter code search path) (·.Follows code search.input R first) := by
  have hpath := hR.trans (h.path path hphase) (hR.entered path)
  unfold enter
  split
  · exact grants_pure h.pick
  · apply grants_bind_any
    intro admitted
    split
    · dsimp only
      cases hmove : code.enter search.input r.goal.isBody
          { path with trail := path.place :: path.trail } with
      | error e => exact grants_throw e
      | ok next => exact move_grants hR h code.groups hpath (hR.enter _ _ _ hmove)
    · exact grants_pure h.pick

theorem step_grants (hR : code.Respects search.input R) (h : r.Follows code search.input R first) :
    Grants (r.step code search) (Leaves code search.input R first) := by
  unfold step
  cases hphase : r.phase with
  | enter path => exact grants_map (enter_grants hR h hphase)
  | answer found =>
    cases houter : r.outer with
    | nil =>
      apply grants_pure
      have hanswer := h.found found hphase
      rwa [houter] at hanswer
    | cons s outer => exact grants_map (leave_grants hR h hphase houter)
  | pick =>
    cases hframes : r.stack.frames with
    | nil =>
      simp only [Stack.pop?, hframes]
      apply grants_pure
      refine ⟨h.frames, by simp, fun found hphase => ?_, h.outer⟩
      cases hphase
      exact fun f hf => by cases hf
    | cons frame rest =>
      simp only [Stack.pop?, hframes]
      have hall := h.frames
      rw [hframes] at hall
      have hrest : Follows code search.input R first
          { r with stack := { r.stack with frames := rest } } :=
        ⟨fun f hf => hall f (List.mem_cons_of_mem _ hf), h.path, h.found, h.outer⟩
      apply grants_bind_any
      intro admitted
      split
      · exact grants_pure (hrest.follow (hall frame List.mem_cons_self))
      · exact grants_pure hrest.pick

/-- However many steps a run makes, what it finds comes of its first path. -/
theorem iterate_grants (hR : code.Respects search.input R) (fuel : Nat) {r : Run}
    (h : r.Follows code search.input R first) :
    Grants (iterate code search fuel r) fun attempt => Found.Follows R first attempt.found := by
  induction fuel generalizing r with
  | zero => exact grants_throw _
  | succ fuel ih =>
    unfold iterate
    refine grants_bind (step_grants hR h) fun progress hprogress => ?_
    cases progress with
    | finished attempt => exact grants_pure hprogress
    | running next => exact ih hprogress

end Run

/-- What a search finds comes of its first path. -/
theorem Code.search_grants {code : Code} {search : Search} {R : Path → Path → Prop}
    (hR : code.Respects search.input R) (initial start : Nat) :
    Grants (code.search search initial start) fun attempt =>
      Found.Follows R (.start initial start (.unset code.groups)) attempt.found := by
  unfold Code.search
  apply grants_get_bind
  intro t
  dsimp only
  rcases Run.push_cases (Stack.new t.limits.maxDepth code.groups)
      (.follow (.start initial start (.unset code.groups))) with
    ⟨stack, hpush, hframes⟩ | ⟨fault, hpush⟩
  · rw [hpush]
    apply Run.iterate_grants hR
    refine ⟨fun frame hframe => ?_, fun _ hphase => (nomatch hphase),
      fun _ hphase => (nomatch hphase), trivial⟩
    have hframes : stack.frames = [.follow (.start initial start (.unset code.groups))] := hframes
    simp only [Run.start, hframes, List.mem_singleton] at hframe
    rw [hframe]
    exact hR.refl _
  · rw [hpush]
    exact grants_throw _

end RegexEngine
