import RegexEngine.Proofs.Search.Possible
import RegexEngine.Proofs.Search.Stages

/-!
Searches that find something whenever something may be found. A monotone code goes on only where a
body is found, drops no waiting ways, and reads only groups that no body opens or closes. So the
bodies that it asks for may be found in another way and leave other slots: what the code does then
differs in slots that it never reads. A search that tries the ways in order finds a body where one
may be found, goes on from it with a twin of any other way that goes on from there, and finds
something in the end, by induction on what may be found.
-/

namespace RegexEngine

/-! Ways that differ in slots that are not read. -/

/-- The slots of all groups that are read are the same in both. -/
def Slots.AgreeOn (read : Nat → Prop) (slots slots' : Slots) : Prop :=
  ∀ group, read group → SameAt group slots slots'

variable {read : Nat → Prop}

namespace Slots

theorem AgreeOn.refl (slots : Slots) : slots.AgreeOn read slots := fun group _ => .refl group slots

theorem SameAt.symm {group : Nat} {slots slots' : Slots} (h : SameAt group slots slots') :
    SameAt group slots' slots := ⟨h.1.symm, h.2.1.symm, h.2.2.symm⟩

/-- What differs from slots that agree in slots that are not read agrees too. -/
theorem AgreeOn.trans {first second third : Slots} (h : first.AgreeOn read second)
    (h' : second.AgreeOn read third) : first.AgreeOn read third :=
  fun group hgroup => (h group hgroup).trans (h' group hgroup)

theorem AgreeOn.symm {slots slots' : Slots} (h : slots.AgreeOn read slots') :
    slots'.AgreeOn read slots := fun group hgroup => (h group hgroup).symm

end Slots

/-- The same way with other slots. -/
def Path.withSlots (path : Path) (slots : Slots) : Path := { path with slots := slots }

/-- Two ways that differ in slots that are not read. -/
inductive Path.Twins (read : Nat → Prop) : Path → Path → Prop
  | mk (path : Path) {slots : Slots} : path.slots.AgreeOn read slots →
      Twins read path (path.withSlots slots)

/-- Two waiting ways that differ in slots that are not read, or that end at the same place. -/
inductive Frame.Twins (read : Nat → Prop) : Frame → Frame → Prop
  | follow {path path' : Path} : path.Twins read path' → Twins read (.follow path) (.follow path')
  | accept (position : Nat) (slots slots' : Slots) :
      Twins read (.accept position slots) (.accept position slots')

/-- Every one of some ways has a twin among others. -/
def Frame.HaveTwins (read : Nat → Prop) (frames frames' : List Frame) : Prop :=
  ∀ frame ∈ frames, ∃ frame' ∈ frames', frame.Twins read frame'

/-- Two moves that differ in slots that are not read. Neither drops the ways that wait. -/
inductive Move.Twins (read : Nat → Prop) : Move → Move → Prop
  | finish (position : Nat) (slots slots' : Slots) :
      Twins read (.finish position slots) (.finish position slots')
  | go {ways ways' : List Frame} : Frame.HaveTwins read ways ways' →
      Twins read (.go ways false) (.go ways' false)
  | ask {body : Body} {path path' : Path} : path.Twins read path' →
      Twins read (.ask body path) (.ask body path')

/-- Two parts of searches that differ in slots that are not read. -/
inductive Quest.Twins (read : Nat → Prop) : Quest → Quest → Prop
  | way {goal : Goal} {frame frame' : Frame} : frame.Twins read frame' →
      Twins read (.way goal frame) (.way goal frame')
  | ways {goal : Goal} {frames frames' : List Frame} : Frame.HaveTwins read frames frames' →
      Twins read (.ways goal frames) (.ways goal frames')
  | move {goal : Goal} {next next' : Move} : next.Twins read next' →
      Twins read (.move goal next) (.move goal next')
  | body {body : Body} {path path' : Path} {tried : Nat} : path.Twins read path' →
      Twins read (.body body path tried) (.body body path' tried)

namespace Path

variable {path path' : Path}

theorem Twins.refl (path : Path) : path.Twins read path := .mk path (.refl path.slots)

theorem Twins.entered (h : path.Twins read path') : path.entered.Twins read path'.entered := by
  cases h with
  | mk hslots => exact .mk path.entered hslots

theorem Twins.agreeOn (h : path.Twins read path') : path.slots.AgreeOn read path'.slots := by
  cases h with
  | mk hslots => exact hslots

theorem Twins.position_eq (h : path.Twins read path') : path'.position = path.position := by
  cases h
  rfl

/-- A search for the body of a way, and one for the body of its twin. -/
theorem Twins.body (h : path.Twins read path') (body : Body) (tried : Nat) :
    Quest.Twins read (.way (body.goal path) (body.way path tried))
      (.way (body.goal path') (body.way path' tried)) := by
  cases h with
  | mk hslots => exact .way (.follow (.mk _ hslots))

end Path

namespace Move

theorem twins_dead : dead.Twins read dead := .go fun _ hframe => by cases hframe

/-- A way that goes on, and its twin. -/
theorem twins_along {path path' : Path} (h : path.Twins read path') :
    (along path).Twins read (along path') := by
  apply Twins.go
  intro frame hframe
  obtain rfl := List.mem_singleton.mp hframe
  exact ⟨_, List.mem_singleton_self _, .follow h⟩

end Move

/-- A code that goes on only where bodies are found and drops no ways. It does the same with ways
that differ in slots that are not read, and by the charts of the groups that are read none of them
opens or closes in a body. -/
structure Code.Monotone (code : Code) (input : Array Char) (read : Nat → Prop)
    (chart : Nat → Nat → Stage) : Prop where
  enter : ∀ (inBody : Bool) (path path' : Path) (move : Move), path.Twins read path' →
    code.enter input inBody path = .ok move →
      ∃ move', code.enter input inBody path' = .ok move' ∧ move.Twins read move'
  resume : ∀ (inBody : Bool) (path path' : Path) (f f' : Found) (move : Move),
    path.Twins read path' → f.slots.AgreeOn read f'.slots →
      code.resume input inBody path (some f) = .ok move →
        ∃ move', code.resume input inBody path' (some f') = .ok move' ∧ move.Twins read move'
  refused : ∀ (inBody : Bool) (path : Path) (move : Move),
    code.resume input inBody path none = .ok move → move = .dead
  respects : ∀ group, read group → code.Respects input (Path.Progresses group (chart group))
  apart : ∀ group, read group → ∀ (inBody : Bool) (path next : Path) (body : Body),
    code.enter input inBody path = .ok (.ask body next) → chart group path.place ≠ .ahead →
      chart group body.start = .behind

namespace Code

variable {code : Code} {search : Search} {chart : Nat → Nat → Stage}

/-! Nothing is ruled out. -/

/-- A part of a search that does not start with dropping ways. -/
def Uncut : Quest → Prop
  | .move _ (.go _ cut) => cut = false
  | _ => True

theorem uncut_of_twins {goal : Goal} {move move' : Move} (h : move.Twins read move') :
    Uncut (.move goal move) := by
  cases h <;> trivial

/-- A monotone code never rules out the ways that wait. -/
theorem Monotone.committed_eq_false (h : code.Monotone search.input read chart) {quest : Quest}
    {A : Attempt} (hA : code.Gives search quest A) (hquest : Uncut quest) :
    A.committed = false := by
  induction hA with
  | nothing => rfl
  | decided _ _ ih => exact ih trivial
  | passed _ _ _ ih => exact ih trivial
  | accept _ ih => exact ih trivial
  | repeated _ => rfl
  | entered _ henter _ ih =>
    obtain ⟨_, _, htwins⟩ := h.enter _ _ _ _ (.refl _) henter
    exact ih (uncut_of_twins htwins)
  | admitted _ => rfl
  | refused _ => rfl
  | go _ ih => exact ih trivial
  | cut _ _ => cases hquest
  | @ask _ _ _ B _ _ _ hresume _ _ ih =>
    cases hB : B.found with
    | none =>
      obtain rfl := h.refused _ _ _ (hB ▸ hresume)
      exact ih rfl
    | some g =>
      obtain ⟨_, _, htwins⟩ := h.resume _ _ _ _ _ _ (.refl _) (.refl _) (hB ▸ hresume)
      exact ih (uncut_of_twins htwins)
  | answered _ _ ih => exact ih trivial
  | back _ _ _ _ ih => exact ih trivial

/-- Where a part of a search finds nothing, it was fruitless. -/
theorem Monotone.eq_fruitless (h : code.Monotone search.input read chart) {quest : Quest}
    {A : Attempt} (hA : code.Gives search quest A) (hquest : Uncut quest)
    (hfound : A.found = none) : A = .fruitless := by
  have hcommitted := h.committed_eq_false hA hquest
  cases A
  cases hfound
  cases hcommitted
  rfl

/-- Several ways among which nothing is found are all fruitless. -/
theorem Monotone.gives_each (h : code.Monotone search.input read chart) {goal : Goal}
    {frames : List Frame} {A : Attempt} (hA : code.Gives search (.ways goal frames) A)
    (hfound : A.found = none) :
    ∀ frame ∈ frames, code.Gives search (.way goal frame) .fruitless := by
  induction frames with
  | nil => simp
  | cons first rest ih =>
    cases hA with
    | decided hway hdecides => exact absurd (h.eq_fruitless hway trivial hfound) hdecides
    | passed hway hrest => exact List.forall_mem_cons.mpr ⟨hway, ih hrest⟩

/-! Bodies. -/

end Code

/-- A group that is not ahead of a way stays so. -/
theorem Path.Progresses.ne_ahead {group : Nat} {chart : Nat → Stage} {path next : Path}
    (h : path.Progresses group chart next) (hpath : chart path.place ≠ .ahead) :
    chart next.place ≠ .ahead := by
  intro hnext
  cases hstage : chart path.place with
  | ahead => exact hpath hstage
  | outside => rcases h.level (.inl hstage) with h | h <;> cases h.symm.trans hnext
  | within => rcases h.level (.inr hstage) with h | h <;> cases h.symm.trans hnext
  | behind => cases (h.behind hstage).1.symm.trans hnext

namespace Code

variable {code : Code} {search : Search} {chart : Nat → Nat → Stage}

/-- The ways of a part of a search stand at places where a group is not ahead of them, or behind it
if the part is a body. -/
def Settled (code : Code) (input : Array Char) (group : Nat) (chart : Nat → Stage) :
    Quest → Prop
  | .way _ frame =>
    ∃ origin, chart origin.place ≠ .ahead ∧ frame.Follows (Path.Progresses group chart) origin
  | .ways _ frames => ∃ origin, chart origin.place ≠ .ahead ∧
    ∀ frame ∈ frames, frame.Follows (Path.Progresses group chart) origin
  | .move _ move => (∃ origin, chart origin.place ≠ .ahead ∧
    code.Follows input (Path.Progresses group chart) origin move) ∧
      ∀ body path, move = .ask body path → chart body.start = .behind
  | .body body _ _ => chart body.start = .behind

theorem Settled.of_ways {group : Nat} {chart : Nat → Stage} {input : Array Char} {goal : Goal}
    {frames : List Frame} (h : code.Settled input group chart (.ways goal frames)) {frame : Frame}
    (hframe : frame ∈ frames) : code.Settled input group chart (.way goal frame) := by
  obtain ⟨origin, horigin, hframes⟩ := h
  exact ⟨origin, horigin, hframes frame hframe⟩

variable {group : Nat}

/-- What is asked for where a way enters its place is settled. -/
theorem Monotone.settled_entered (h : code.Monotone search.input read chart) (hgroup : read group)
    {goal : Goal} {path : Path} {move : Move}
    (hsettled : code.Settled search.input group (chart group) (.way goal (.follow path)))
    (henter : code.enter search.input goal.isBody path.entered = .ok move) :
    code.Settled search.input group (chart group) (.move goal move) := by
  obtain ⟨origin, horigin, hpath⟩ := hsettled
  have hpath : origin.Progresses group (chart group) path := hpath
  have hplace : chart group path.entered.place ≠ .ahead := hpath.ne_ahead horigin
  refine ⟨⟨path.entered, hplace, (h.respects group hgroup).enter _ _ _ henter⟩, ?_⟩
  rintro body next rfl
  exact h.apart group hgroup _ _ _ _ henter hplace

/-- What is asked for after a body is settled. -/
theorem Monotone.settled_answered (h : code.Monotone search.input read chart) (hgroup : read group)
    {goal : Goal} {body : Body} {path : Path} {g : Found} {move : Move}
    (hsettled : code.Settled search.input group (chart group) (.move goal (.ask body path)))
    (hg : code.MayFind search (.body body path path.position) g)
    (hresume : code.resume search.input goal.isBody path (some g) = .ok move) :
    code.Settled search.input group (chart group) (.move goal move) := by
  obtain ⟨⟨origin, horigin, hpath, hawaits⟩, _⟩ := hsettled
  obtain ⟨tried, htried, hends⟩ := hg.brings (h.respects group hgroup) (body.triedFrom_self path)
  have hfound : Found.Follows (Path.Progresses group (chart group)) (body.origin path tried)
      (some g) := by
    rintro f ⟨⟩
    exact hends
  have hleads := hawaits _ tried _ _ htried hfound hresume
  refine ⟨⟨path, hpath.ne_ahead horigin, hleads.follows⟩, ?_⟩
  rintro inner next rfl
  obtain ⟨_, _, hgo, _⟩ := hleads
  cases hgo

/-- A body behind all groups that are read leaves their slots alone. -/
theorem Monotone.agreeOn_of_body (h : code.Monotone search.input read chart) {body : Body}
    {path : Path} {tried : Nat} {g : Found} (htried : body.TriedFrom path tried)
    (hbody : ∀ group, read group → chart group body.start = .behind)
    (hg : code.MayFind search (.body body path tried) g) : path.slots.AgreeOn read g.slots := by
  intro group hgroup
  obtain ⟨_, _, last, hlast, _, hslots⟩ := hg.brings (h.respects group hgroup) htried
  rw [← hslots]
  exact (hlast.behind (hbody group hgroup)).2

/-- Neither the body of a way nor that of its twin changes what is read, so what goes on from them
are twins. -/
theorem Monotone.agreeOn_of_twins (h : code.Monotone search.input read chart) {body : Body}
    {path path' : Path} (htwin : path.Twins read path')
    (hbody : ∀ group, read group → chart group body.start = .behind) {g g' : Found}
    (hg : code.MayFind search (.body body path path.position) g)
    (hg' : code.MayFind search (.body body path' path'.position) g') :
    g.slots.AgreeOn read g'.slots := by
  have hfirst := h.agreeOn_of_body (body.triedFrom_self path) hbody hg
  have hsecond := h.agreeOn_of_body (body.triedFrom_self path') hbody hg'
  exact hfirst.symm.trans (htwin.agreeOn.trans hsecond)

/-- A body behind a group starts at a place that is settled. -/
theorem Monotone.settled_here (h : code.Monotone search.input read chart) (hgroup : read group)
    {body : Body} (hbehind : chart group body.start = .behind) (path : Path) (tried : Nat) :
    code.Settled search.input group (chart group)
      (.way (body.goal path) (body.way path tried)) := by
  refine ⟨body.origin path tried, ?_, (h.respects group hgroup).refl _⟩
  exact fun hahead => by cases hbehind.symm.trans hahead

/-! Searches. -/

/-- Where something may be found, a search that tries the ways of a twin in order finds something.
-/
theorem Monotone.found_ne_none (h : code.Monotone search.input read chart) {quest quest' : Quest}
    {f : Found} (hf : code.MayFind search quest f)
    (hsettled : ∀ group, read group → code.Settled search.input group (chart group) quest)
    (htwins : quest.Twins read quest') {A : Attempt} (hA : code.Gives search quest' A) :
    A.found ≠ none := by
  induction hf generalizing quest' A with
  | among hframe hway ih =>
    cases htwins with
    | ways htwins =>
      intro hnone
      obtain ⟨frame', hframe', htwin⟩ := htwins _ hframe
      have hway' := h.gives_each hA hnone frame' hframe'
      exact ih (fun group hgroup => (hsettled group hgroup).of_ways hframe) (.way htwin) hway' rfl
  | accept _ ih =>
    cases htwins with
    | way htwins =>
      cases htwins with
      | accept =>
        cases hA with
        | accept hmove =>
          refine ih (fun group hgroup => ⟨hsettled group hgroup, ?_⟩)
            (.move (.finish ..)) hmove
          rintro body path ⟨⟩
  | entered hnew henter _ ih =>
    cases htwins with
    | way htwins =>
      cases htwins with
      | follow htwin =>
        obtain ⟨move', hmove', htwins⟩ := h.enter _ _ _ _ htwin.entered henter
        cases htwin with
        | mk hslots =>
          cases hA with
          | repeated hseen => exact absurd hseen hnew
          | entered _ henter' hmove =>
            cases hmove'.symm.trans henter'
            exact ih (fun group hgroup => h.settled_entered hgroup (hsettled group hgroup) henter)
              (.move htwins) hmove
  | finish hadmits =>
    cases htwins with
    | move htwins =>
      cases htwins with
      | finish =>
        cases hA with
        | admitted _ => simp
        | refused hrefuses => cases hadmits.symm.trans hrefuses
  | go _ ih =>
    cases htwins with
    | move htwins =>
      cases htwins with
      | go htwins =>
        cases hA with
        | go hways => exact ih (fun group hgroup => (hsettled group hgroup).1) (.ways htwins) hways
  | @answered goal body path g move _ hbody hresume _ ihbody ihmove =>
    have hbehind (group : Nat) (hgroup : read group) : chart group body.start = .behind :=
      (hsettled group hgroup).2 body path rfl
    cases htwins with
    | move htwins =>
      cases htwins with
      | @ask _ _ path' htwin =>
        cases hA with
        | @ask _ _ _ B _ _ hbody' hresume' hmove' =>
          have hsome : B.found ≠ none := by
            rw [htwin.position_eq] at hbody'
            exact ihbody hbehind (.body htwin) hbody'
          obtain ⟨g', hg'⟩ := Option.ne_none_iff_exists'.mp hsome
          rw [hg'] at hresume'
          have hagree := h.agreeOn_of_twins htwin hbehind hbody (hbody'.mayFind hg')
          obtain ⟨move', hmove, htwins⟩ := h.resume _ _ _ _ _ _ htwin hagree hresume
          cases hmove.symm.trans hresume'
          refine ihmove (fun group hgroup => ?_) (.move htwins) hmove'
          exact h.settled_answered hgroup (hsettled group hgroup) hbody hresume
  | unanswered hresume hmove _ =>
    obtain rfl := h.refused _ _ _ hresume
    cases hmove with
    | go hways =>
      cases hways with
      | among hframe _ => cases hframe
  | @here body path tried _ _ ih =>
    have hstart (group : Nat) (hgroup : read group) :=
      h.settled_here hgroup (hsettled group hgroup) path tried
    cases htwins with
    | body htwin =>
      cases hA with
      | answered hway _ => exact ih hstart (htwin.body body tried) hway
      | back hway hback _ => exact absurd hback.1 (ih hstart (htwin.body body tried) hway)
  | back hbehind hpositive _ ih =>
    cases htwins with
    | body htwin =>
      cases hA with
      | answered _ hstays => exact fun hnone => hstays ⟨hnone, hbehind, hpositive⟩
      | back _ _ hbody => exact ih hsettled (.body htwin) hbody

/-- Whatever ways another search drops, a search for a monotone code that tries all of them in order
finds something if the other one does. -/
theorem Monotone.found_of_mayFind (h : code.Monotone search.input read chart) {initial start : Nat}
    (hinitial : ∀ group, read group → chart group initial ≠ .ahead) {f : Found}
    (hf : code.MayFind search
      (.way .whole (.follow (.start initial start (.unset code.groups)))) f) {A : Attempt}
    (hA : code.Gives search
      (.way .whole (.follow (.start initial start (.unset code.groups)))) A) :
    A.found ≠ none := by
  refine h.found_ne_none hf (fun group hgroup => ?_) (.way (.follow (.refl _))) hA
  exact ⟨_, hinitial group hgroup, (h.respects group hgroup).refl _⟩

end Code

end RegexEngine
