import RegexEngine.Search.Backtracking

/-!
What a search finds, for any code, said without the machine that runs it. `Code.Gives` relates the
parts of a search to how they end: a way and several ways in the order in which they are tried, a
move that the code asks for, and a body that is tried from some place on. The first way that finds
something, or that rules out the others, decides; so a part never depends on what waits after it.

An attempt is given the mark of having ruled out other ways inside bodies too. What becomes of the
mark where a body ends is for the machine to say.
-/

namespace RegexEngine

/-- A part of a search. -/
inductive Quest
  | way (goal : Goal) (frame : Frame)
  | ways (goal : Goal) (frames : List Frame)
  | move (goal : Goal) (move : Move)
  /-- A body, tried from a place on, and from the places before it if it has to end where the way
  stands. -/
  | body (body : Body) (path : Path) (tried : Nat)

/-- Nothing was found and nothing was ruled out, so other ways are tried. -/
def Attempt.fruitless : Attempt := ⟨none, false⟩

/-- Where a search for the body of a way has to end. -/
def Body.goal (body : Body) (path : Path) : Goal :=
  .body (if body.behind then some path.position else none)

/-- The one way that a search for a body starts with. -/
def Body.way (body : Body) (path : Path) (tried : Nat) : Frame :=
  .follow (.start body.start tried path.slots)

/-- A body is tried once more, one character further back. -/
def Body.GoesBack (body : Body) (tried : Nat) (found : Option Found) : Prop :=
  found = none ∧ body.behind = true ∧ 0 < tried

/-- A way that has entered its place. -/
def Path.entered (path : Path) : Path := { path with trail := path.place :: path.trail }

namespace Code

/-- How a part of a search ends. -/
inductive Gives (code : Code) (search : Search) : Quest → Attempt → Prop
  | nothing {goal : Goal} : Gives code search (.ways goal []) .fruitless
  | decided {goal : Goal} {frame : Frame} {rest : List Frame} {A : Attempt} :
      Gives code search (.way goal frame) A → A ≠ .fruitless →
        Gives code search (.ways goal (frame :: rest)) A
  | passed {goal : Goal} {frame : Frame} {rest : List Frame} {A : Attempt} :
      Gives code search (.way goal frame) .fruitless → Gives code search (.ways goal rest) A →
        Gives code search (.ways goal (frame :: rest)) A
  | accept {goal : Goal} {position : Nat} {slots : Slots} {A : Attempt} :
      Gives code search (.move goal (.finish position slots)) A →
        Gives code search (.way goal (.accept position slots)) A
  | repeated {goal : Goal} {path : Path} : path.place ∈ path.trail →
      Gives code search (.way goal (.follow path)) .fruitless
  | entered {goal : Goal} {path : Path} {move : Move} {A : Attempt} : path.place ∉ path.trail →
      code.enter search.input goal.isBody path.entered = .ok move →
        Gives code search (.move goal move) A → Gives code search (.way goal (.follow path)) A
  | admitted {goal : Goal} {position : Nat} {slots : Slots} :
      goal.admits search position = true →
        Gives code search (.move goal (.finish position slots)) ⟨some ⟨position, slots⟩, false⟩
  | refused {goal : Goal} {position : Nat} {slots : Slots} : goal.admits search position = false →
      Gives code search (.move goal (.finish position slots)) .fruitless
  | go {goal : Goal} {ways : List Frame} {A : Attempt} : Gives code search (.ways goal ways) A →
      Gives code search (.move goal (.go ways false)) A
  | cut {goal : Goal} {ways : List Frame} {A : Attempt} : Gives code search (.ways goal ways) A →
      Gives code search (.move goal (.go ways true)) ⟨A.found, true⟩
  | ask {goal : Goal} {body : Body} {path : Path} {B : Attempt} {move : Move} {A : Attempt} :
      Gives code search (.body body path path.position) B →
        code.resume search.input goal.isBody path B.found = .ok move →
          Gives code search (.move goal move) A → Gives code search (.move goal (.ask body path)) A
  | answered {body : Body} {path : Path} {tried : Nat} {A : Attempt} :
      Gives code search (.way (body.goal path) (body.way path tried)) A →
        ¬body.GoesBack tried A.found → Gives code search (.body body path tried) A
  | back {body : Body} {path : Path} {tried : Nat} {A B : Attempt} :
      Gives code search (.way (body.goal path) (body.way path tried)) A →
        body.GoesBack tried A.found → Gives code search (.body body path (tried - 1)) B →
          Gives code search (.body body path tried) B

variable {code : Code} {search : Search}

/-- What a search finds depends on its input and on where matches may end, and on nothing else. -/
theorem Gives.congr_search {search' : Search} {quest : Quest} {A : Attempt}
    (h : code.Gives search quest A) (hinput : search'.input = search.input)
    (hfull : search'.full = search.full) : code.Gives search' quest A := by
  have hadmits (goal : Goal) (position : Nat) :
      goal.admits search' position = goal.admits search position := by
    cases goal <;> simp only [Goal.admits, Search.endsAt, hinput, hfull]
  induction h with
  | nothing => exact .nothing
  | decided _ hdecides ih => exact .decided ih hdecides
  | passed _ _ ihway ihrest => exact .passed ihway ihrest
  | accept _ ih => exact .accept ih
  | repeated hseen => exact .repeated hseen
  | entered hnew henter _ ih => exact .entered hnew (by rwa [hinput]) ih
  | admitted hends => exact .admitted ((hadmits _ _).trans hends)
  | refused hends => exact .refused ((hadmits _ _).trans hends)
  | go _ ih => exact .go ih
  | cut _ ih => exact .cut ih
  | ask _ hresume _ ihbody ihmove => exact .ask ihbody (by rwa [hinput]) ihmove
  | answered _ hstays ih => exact .answered ih hstays
  | back _ hback _ ihway ihbody => exact .back ihway hback ihbody

/-- A search ends in one way only. -/
theorem Gives.unique {quest : Quest} {A B : Attempt} (h : code.Gives search quest A)
    (h' : code.Gives search quest B) : A = B := by
  induction h generalizing B with
  | nothing =>
    cases h'
    rfl
  | decided _ hdecides ih =>
    cases h' with
    | decided hway _ => exact ih hway
    | passed hway _ => exact absurd (ih hway) hdecides
  | passed _ _ ihway ihrest =>
    cases h' with
    | decided hway hdecides => exact absurd (ihway hway).symm hdecides
    | passed _ hrest => exact ihrest hrest
  | accept _ ih =>
    cases h' with
    | accept hmove => exact ih hmove
  | repeated hseen =>
    cases h' with
    | repeated _ => rfl
    | entered hnew => exact absurd hseen hnew
  | entered hnew henter _ ih =>
    cases h' with
    | repeated hseen => exact absurd hseen hnew
    | entered _ henter' hmove =>
      cases henter.symm.trans henter'
      exact ih hmove
  | admitted hadmits =>
    cases h' with
    | admitted _ => rfl
    | refused hrefuses => cases hadmits.symm.trans hrefuses
  | refused hrefuses =>
    cases h' with
    | admitted hadmits => cases hadmits.symm.trans hrefuses
    | refused _ => rfl
  | go _ ih =>
    cases h' with
    | go hways => exact ih hways
  | cut _ ih =>
    cases h' with
    | cut hways => rw [ih hways]
  | ask _ hresume _ ihbody ihmove =>
    cases h' with
    | ask hbody hresume' hmove =>
      cases ihbody hbody
      cases hresume.symm.trans hresume'
      exact ihmove hmove
  | answered _ hstays ih =>
    cases h' with
    | answered hway _ => exact ih hway
    | back hway hback _ =>
      cases ih hway
      exact absurd hback hstays
  | back _ hback _ ihway ihback =>
    cases h' with
    | answered hway hstays =>
      cases ihway hway
      exact absurd hback hstays
    | back _ _ hrest => exact ihback hrest

/-- The second part of a search is reached if the first is fruitless. -/
def Sequel (A : Attempt) (next : Attempt → Prop) (B : Attempt) : Prop :=
  A ≠ .fruitless ∧ B = A ∨ A = .fruitless ∧ next B

variable {goal : Goal} {frame : Frame} {rest : List Frame} {B : Attempt}

theorem gives_cons_iff : code.Gives search (.ways goal (frame :: rest)) B ↔ ∃ A,
    code.Gives search (.way goal frame) A ∧ Sequel A (code.Gives search (.ways goal rest)) B := by
  constructor
  · intro h
    cases h with
    | decided hway hdecides => exact ⟨B, hway, .inl ⟨hdecides, rfl⟩⟩
    | passed hway hrest => exact ⟨_, hway, .inr ⟨rfl, hrest⟩⟩
  · rintro ⟨A, hway, ⟨hdecides, rfl⟩ | ⟨rfl, hrest⟩⟩
    · exact .decided hway hdecides
    · exact .passed hway hrest

theorem gives_singleton_iff :
    code.Gives search (.ways goal [frame]) B ↔ code.Gives search (.way goal frame) B := by
  rw [gives_cons_iff]
  constructor
  · rintro ⟨A, hway, ⟨_, rfl⟩ | ⟨rfl, hrest⟩⟩
    · exact hway
    · cases hrest
      exact hway
  · intro hway
    by_cases hB : B = .fruitless
    · exact ⟨B, hway, .inr ⟨hB, hB ▸ .nothing⟩⟩
    · exact ⟨B, hway, .inl ⟨hB, rfl⟩⟩

/-- Some ways and then others are tried as two parts of a search. -/
theorem gives_append_iff {ways : List Frame} :
    code.Gives search (.ways goal (ways ++ rest)) B ↔ ∃ A,
      code.Gives search (.ways goal ways) A ∧
        Sequel A (code.Gives search (.ways goal rest)) B := by
  induction ways generalizing B with
  | nil =>
    constructor
    · exact fun h => ⟨_, .nothing, .inr ⟨rfl, h⟩⟩
    · rintro ⟨A, hnothing, hsequel⟩
      cases hnothing
      rcases hsequel with ⟨hdecides, _⟩ | ⟨_, hrest⟩
      · exact absurd rfl hdecides
      · exact hrest
  | cons first others ih =>
    rw [List.cons_append, gives_cons_iff]
    constructor
    · rintro ⟨A, hway, ⟨hdecides, rfl⟩ | ⟨rfl, hrest⟩⟩
      · exact ⟨B, .decided hway hdecides, .inl ⟨hdecides, rfl⟩⟩
      · obtain ⟨A, hothers, hsequel⟩ := ih.mp hrest
        exact ⟨A, .passed hway hothers, hsequel⟩
    · rintro ⟨A, hways, hsequel⟩
      cases hways with
      | decided hway hdecides =>
        rcases hsequel with ⟨_, rfl⟩ | ⟨hfruitless, _⟩
        · exact ⟨B, hway, .inl ⟨hdecides, rfl⟩⟩
        · exact absurd hfruitless hdecides
      | passed hway hothers => exact ⟨_, hway, .inr ⟨rfl, ih.mpr ⟨A, hothers, hsequel⟩⟩⟩

/-- A move that a way asks for, with other ways waiting. -/
def GivesAfter (code : Code) (search : Search) (goal : Goal) (move : Move) (rest : List Frame)
    (B : Attempt) : Prop :=
  ∃ A, code.Gives search (.move goal move) A ∧ Sequel A (code.Gives search (.ways goal rest)) B

end Code

end RegexEngine
