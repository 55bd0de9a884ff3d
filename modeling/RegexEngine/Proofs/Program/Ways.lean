import RegexEngine.Program.Code
import RegexEngine.Proofs.Automaton.Ways

/-!
How ways go through the instructions of a program, for any relation between paths that can be
chained. An instruction leads to a few addresses, and captures no more than its own group, so all
that is left to show of a relation is that it leads there. What a lookaround leads to depends on
what was found in its body.
-/

namespace RegexEngine

/-- The slots after an instruction. -/
def Instr.capture (position : Nat) (slots : Slots) : Instr → Slots
  | openGroup group => slots.openAt group position
  | closeGroup group => slots.closeAt group position
  | _ => slots

namespace Program

/-- Where a way goes on after an instruction. Bodies are not meant, nor what comes after them. -/
def leadsTo (p : Program) (at_ : Nat) : Instr → List Nat
  | .jump target => [target]
  | .split first second => [first, second]
  | .repeatStart _ _ _ stop => [at_ + 1, stop + 1]
  | .repeatEnd start =>
    match p.instrs[start]? with
    | some (.repeatStart _ _ _ stop) => [start + 1, stop + 1]
    | _ => []
  | .look _ _ _ | .accept | .fail => []
  | _ => [at_ + 1]

/-- A path goes on after an instruction. -/
structure Leads (p : Program) (input : Array Char) (path : Path) (i : Instr) (next : Path) :
    Prop where
  place_mem : next.place ∈ p.leadsTo path.place i
  position_le : path.position ≤ next.position
  inside : path.position ≤ input.size → next.position ≤ input.size
  slots_eq : next.slots = i.capture path.position path.slots

variable {p : Program} {input : Array Char} {R : Path → Path → Prop} {path : Path}

theorem instr_eq_ok {address : Nat} {i : Instr} (h : p.instr address = .ok i) :
    p.instrs[address]? = some i := by
  unfold instr at h
  split at h
  · rename_i hi
    cases h
    exact hi
  · cases h

/-- A repetition comes round, or is left, with the same slots at the same place of the input. -/
theorem comeRound_ways {start : Nat} {move : Move} (h : p.comeRound path start = .ok move) :
    ∃ min max greedy stop, p.instrs[start]? = some (.repeatStart min max greedy stop) ∧
      ∃ ways, move = .go ways false ∧ ∀ frame ∈ ways, ∃ next, frame = .follow next ∧
        next.place ∈ [start + 1, stop + 1] ∧ next.position = path.position ∧
          next.slots = path.slots := by
  unfold comeRound at h
  cases hinstr : p.instr start with
  | error e =>
    rw [hinstr] at h
    cases h
  | ok i =>
    rw [hinstr] at h
    cases i with
    | repeatStart min max greedy stop =>
      cases hcounters : path.counters with
      | nil =>
        rw [hcounters] at h
        cases h
      | cons counter outer =>
        refine ⟨min, max, greedy, stop, instr_eq_ok hinstr, ?_⟩
        rw [hcounters] at h
        change (if _ then _ else if _ then _ else if _ then _ else _ : Except Error Move) = _ at h
        split at h
        · cases h
          exact ⟨_, rfl, by simp⟩
        · split at h
          · cases h
            exact ⟨_, rfl, by simp⟩
          · split at h
            · cases h
              exact ⟨_, rfl, by simp⟩
            · cases h
              exact ⟨_, rfl, by simp⟩
    | _ => cases h

theorem endRound_ways {start : Nat} {move : Move} (h : p.endRound path start = .ok move) :
    ∃ min max greedy stop, p.instrs[start]? = some (.repeatStart min max greedy stop) ∧
      ∃ ways, move = .go ways false ∧ ∀ frame ∈ ways, ∃ next, frame = .follow next ∧
        next.place ∈ [start + 1, stop + 1] ∧ next.position = path.position ∧
          next.slots = path.slots := by
  unfold endRound at h
  cases hcounters : path.counters with
  | nil =>
    rw [hcounters] at h
    cases h
  | cons counter outer =>
    rw [hcounters] at h
    dsimp only at h
    split at h
    · cases hinstr : p.instr start with
      | error e =>
        rw [hinstr] at h
        cases h
      | ok i =>
        rw [hinstr] at h
        have hround : p.comeRound _ start = .ok move := h
        obtain ⟨min, max, greedy, stop, hstart, ways, hmove, hways⟩ := comeRound_ways hround
        exact ⟨min, max, greedy, stop, hstart, ways, hmove, hways⟩
    · cases h

/-- A way that takes a character comes of a path. -/
theorem follows_takeIf (fits : Char → Bool)
    (htake : path.position < input.size →
      R path { path with place := path.place + 1, position := path.position + 1, trail := [] }) :
    p.code.Follows input R path (takeIf input path fits) := by
  unfold takeIf
  cases hc : input[path.position]? with
  | none => exact Move.leadsOn_dead.follows
  | some c =>
    split
    · exact (Move.leadsOn_along (htake (Array.getElem?_eq_some_iff.mp hc).1)).follows
    · exact Move.leadsOn_dead.follows

/-- What an instruction makes of a way comes of it. A lookaround that waits for its body is left
out. -/
theorem execute_follows (hR : Path.Chains R) {i : Instr} (hinstr : p.instrs[path.place]? = some i)
    (hleads : ∀ next, p.Leads input path i next → R path next)
    (hasks : ∀ kind body after, i = .look kind body after →
      p.code.Awaits input R ⟨body, kind.isBehind⟩ path) {move : Move}
    (h : p.execute input path i = .ok move) : p.code.Follows input R path move := by
  have hdead : p.code.Follows input R path .dead := Move.leadsOn_dead.follows
  have halong {next : Path} (hnext : p.Leads input path i next) :
      p.code.Follows input R path (.along next) := (Move.leadsOn_along (hleads next hnext)).follows
  have hstays {next : Path} (hplace : next.place ∈ p.leadsTo path.place i)
      (hposition : next.position = path.position)
      (hslots : next.slots = i.capture path.position path.slots) : p.Leads input path i next :=
    ⟨hplace, Nat.le_of_eq hposition.symm, fun hinside => hposition ▸ hinside, hslots⟩
  have hrounds {start stop : Nat} (hplaces : p.leadsTo path.place i = [start + 1, stop + 1])
      (hslots : i.capture path.position path.slots = path.slots) {ways : List Frame}
      (hways : ∀ frame ∈ ways, ∃ next, frame = .follow next ∧ next.place ∈ [start + 1, stop + 1] ∧
        next.position = path.position ∧ next.slots = path.slots) :
      p.code.Follows input R path (.go ways false) := by
    intro frame hframe
    obtain ⟨next, rfl, hplace, hposition, hsame⟩ := hways frame hframe
    exact hleads next (hstays (hplaces ▸ hplace) hposition (hsame.trans hslots.symm))
  cases i with
  | nop =>
    cases h
    exact halong (hstays (by simp [leadsTo]) rfl rfl)
  | char c nocase =>
    cases h
    apply follows_takeIf
    intro hlt
    exact hleads _ ⟨by simp [leadsTo], Nat.le_succ _, fun _ => hlt, rfl⟩
  | any dotAll =>
    cases h
    apply follows_takeIf
    intro hlt
    exact hleads _ ⟨by simp [leadsTo], Nat.le_succ _, fun _ => hlt, rfl⟩
  | cls offset length =>
    simp only [execute] at h
    split at h
    · cases h
    · split at h
      · rename_i position hmatch
        cases h
        have hbounds := State.matcher_bounds hmatch
        exact halong ⟨by simp [leadsTo], hbounds.1, hbounds.2, rfl⟩
      · cases h
        exact hdead
  | jump target =>
    cases h
    exact halong (hstays (by simp [leadsTo]) rfl rfl)
  | split first second =>
    cases h
    intro frame hframe
    rw [List.mem_cons, List.mem_singleton] at hframe
    rcases hframe with rfl | rfl
    · exact hleads _ (hstays (by simp [leadsTo]) rfl rfl)
    · exact hleads _ (hstays (by simp [leadsTo]) rfl rfl)
  | openGroup group =>
    cases h
    exact halong (hstays (by simp [leadsTo]) rfl rfl)
  | closeGroup group =>
    cases h
    exact halong (hstays (by simp [leadsTo]) rfl rfl)
  | repeatStart min max greedy stop =>
    obtain ⟨_, _, _, _, hstart, ways, rfl, hways⟩ := comeRound_ways h
    cases hinstr.symm.trans hstart
    exact hrounds rfl rfl hways
  | repeatEnd start =>
    obtain ⟨_, _, _, _, hstart, ways, rfl, hways⟩ := endRound_ways h
    exact hrounds (by simp [leadsTo, hstart]) rfl hways
  | boundary marks =>
    cases h
    split
    · exact halong (hstays (by simp [leadsTo]) rfl rfl)
    · exact hdead
  | backref group nocase =>
    simp only [execute] at h
    split at h
    · cases h
      exact hdead
    · rename_i position hbackref
      cases h
      have hbounds := State.backref?_bounds hbackref
      exact halong ⟨by simp [leadsTo, State.advance], hbounds.1, hbounds.2, rfl⟩
  | look kind body after =>
    cases h
    exact ⟨hR.refl path, hasks kind body after rfl⟩
  | accept =>
    cases h
    exact ⟨path, hR.refl path, rfl, rfl⟩
  | fail =>
    cases h
    exact hdead

/-! What the code of a program does is what the instruction at the place of a way does. -/

theorem enter_ok {inBody : Bool} {move : Move}
    (h : p.code.enter input inBody path = .ok move) :
    ∃ i, p.instr path.place = .ok i ∧ p.execute input path i = .ok move := by
  cases hinstr : p.instr path.place with
  | error e =>
    simp only [code, hinstr] at h
    cases h
  | ok i =>
    simp only [code, hinstr] at h
    exact ⟨i, rfl, h⟩

theorem resume_ok {inBody : Bool} {found : Option Found} {move : Move}
    (h : p.code.resume input inBody path found = .ok move) :
    ∃ i, p.instr path.place = .ok i ∧ afterLook path found i = move := by
  cases hinstr : p.instr path.place with
  | error e =>
    simp only [code, hinstr] at h
    cases h
  | ok i =>
    simp only [code, hinstr] at h
    exact ⟨i, rfl, Except.ok.inj h⟩

/-- A relation is respected by a program if each of its instructions leads on, and if lookarounds
do, whatever is found in their bodies. -/
theorem respects_of_instrs (p : Program) (hR : Path.Chains R)
    (hleads : ∀ (path : Path) (i : Instr), p.instrs[path.place]? = some i →
      ∀ next, p.Leads input path i next → R path next)
    (hlooks : ∀ (path : Path) (kind : LookKind) (body after : Nat),
      p.instrs[path.place]? = some (.look kind body after) →
        ∀ (tried : Nat) (found : Option Found),
          (⟨body, kind.isBehind⟩ : Body).TriedFrom path tried →
            Found.Follows R ((⟨body, kind.isBehind⟩ : Body).origin path tried) found →
              ∀ next, State.looked? kind path found = some next →
                R path { next with place := after }) : p.code.Respects input R where
  toChains := hR
  enter inBody path move hmove := by
    obtain ⟨i, hinstr, hexecute⟩ := enter_ok hmove
    have hsome := instr_eq_ok hinstr
    apply execute_follows hR hsome (hleads path i hsome) _ hexecute
    intro kind body after hi inBody' tried found resumed htried hfound hresume
    subst hi
    obtain ⟨i, hi, rfl⟩ := resume_ok hresume
    cases hinstr.symm.trans hi
    unfold afterLook
    dsimp only
    split
    · rename_i next hlooked
      exact Move.leadsOn_along
        (hlooks path kind body after hsome tried found htried hfound _ hlooked)
    · exact Move.leadsOn_dead

end Program

end RegexEngine
