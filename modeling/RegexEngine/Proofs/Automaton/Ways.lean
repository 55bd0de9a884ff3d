import RegexEngine.Automaton.Code
import RegexEngine.Proofs.Search.Along

/-!
How ways go through the states of an automaton, for any relation between paths that can be chained.
What a state does is taken apart once: a way is captured where it enters, then it goes on over the
transitions, at once or after a body was searched for, or it ends. What is left to show of a
relation is that it leads over the transitions from there.
-/

namespace RegexEngine

namespace State

/-- A way with the groups that open and close where it enters a state. -/
def captured (s : State) (path : Path) : Path :=
  { path with slots := s.capture path.position path.slots }

/-- A way leads over the transitions of a state, from where it stands or from further on in the
input, and to the end of the match if the state accepts. As long as it takes nothing it knows what
it has entered. -/
structure Onward (s : State) (input : Array Char) (R : Path → Path → Prop) (path here : Path) :
    Prop where
  across : ∀ t ∈ s.transitions, ∀ (position : Nat) (trail : List Nat), here.position ≤ position →
    (here.position ≤ input.size → position ≤ input.size) →
      (position = here.position → trail = here.trail) →
        R path { here with place := t.target, position := position, trail := trail }
  ends : s.accepting = true → ∀ position, here.position ≤ position →
    (here.position ≤ input.size → position ≤ input.size) → path.EndsAs R position here.slots

/-- What a way becomes after the body of a state was searched for. -/
inductive After (s : State) (path : Path) (found : Option Found) : Path → Prop
  | looked {kind : LookKind} {body : Nat} {next : Path} :
      s.action = some (.look kind body) ∨ s.action = some (.branch (.look kind body)) →
        looked? kind path found = some next → After s path found next
  | refused {kind : LookKind} {body : Nat} : s.action = some (.branch (.look kind body)) →
      looked? kind path found = none → After s path found path
  | atomic {body : Nat} {f : Found} : s.action = some (.atomic body) → found = some f →
      After s path found { advance path f.stop with slots := f.slots }

/-- The body that a state asks for. -/
def asks? (s : State) : Option Body :=
  match s.action with
  | some (.look kind body) | some (.branch (.look kind body)) => some ⟨body, kind.isBehind⟩
  | some (.atomic body) => some ⟨body, false⟩
  | _ => none

/-! What takes input moves forward, and not out of the input. -/

theorem matchRun?_bounds {nocase : Bool} {input : Array Char} {chars : List Char} :
    ∀ {position next : Nat}, Matcher.matchRun? nocase input chars position = some next →
      position ≤ next ∧ (position ≤ input.size → next ≤ input.size) := by
  induction chars with
  | nil =>
    intro position next h
    cases h
    omega
  | cons wanted rest ih =>
    intro position next h
    unfold Matcher.matchRun? at h
    split at h
    · rename_i c hc
      have hlt := (Array.getElem?_eq_some_iff.mp hc).1
      split at h
      · have hrest := ih h
        omega
      · cases h
    · cases h

theorem matcher_bounds {m : Matcher} {input : Array Char} {position next : Nat}
    (h : m.matchAt? input position = some next) :
    position ≤ next ∧ (position ≤ input.size → next ≤ input.size) := by
  unfold Matcher.matchAt? at h
  split at h
  · exact matchRun?_bounds h
  · split at h
    · rename_i c hc
      have hlt := (Array.getElem?_eq_some_iff.mp hc).1
      split at h
      · cases h
        omega
      · cases h
    · cases h

theorem matchAt?_bounds {t : Transition} {input : Array Char} {position next : Nat}
    (h : t.matchAt? input position = some next) :
    position ≤ next ∧ (position ≤ input.size → next ≤ input.size) := by
  unfold Transition.matchAt? at h
  split at h
  · exact matcher_bounds h
  · cases h
    omega

theorem backref?_bounds {slots : Slots} {input : Array Char} {group position next : Nat}
    {nocase : Bool} (h : slots.backref? input group nocase position = some next) :
    position ≤ next ∧ (position ≤ input.size → next ≤ input.size) := by
  unfold Slots.backref? at h
  split at h
  · exact matchRun?_bounds h
  · cases h

variable {s : State} {input : Array Char} {R : Path → Path → Prop} {path here next : Path}

/-- From further on in the input it is no different. -/
theorem Onward.advance (h : s.Onward input R path here) {position : Nat}
    (hle : here.position ≤ position)
    (hinside : here.position ≤ input.size → position ≤ input.size) :
    s.Onward input R path (advance here position) := by
  constructor
  · intro t ht further trail hfurther hstays hkept
    have hfurther : position ≤ further := hfurther
    apply h.across t ht further trail (Nat.le_trans hle hfurther)
    · intro hhere
      exact hstays (hinside hhere)
    · rintro rfl
      have hsame : position = here.position := Nat.le_antisymm hfurther hle
      exact (hkept hsame.symm).trans (if_pos hsame)
  · intro haccepting further hfurther hstays
    apply h.ends haccepting further (Nat.le_trans hle hfurther)
    intro hhere
    exact hstays (hinside hhere)

theorem Onward.ways (h : s.Onward input R path here) (inBody : Bool) :
    ∀ frame ∈ s.ways input inBody here, frame.Follows R path := by
  intro frame hframe
  rcases List.mem_append.mp hframe with hover | haccept
  · obtain ⟨t, ht, hover⟩ := List.mem_filterMap.mp hover
    obtain ⟨position, hmatch, rfl⟩ := Option.map_eq_some_iff.mp hover
    have hbounds := matchAt?_bounds hmatch
    exact h.across t ht position _ hbounds.1 hbounds.2 fun hsame => if_pos hsame
  · split at haccept
    · rename_i haccepting
      rw [List.mem_singleton] at haccept
      subst haccept
      simp only [Bool.and_eq_true] at haccepting
      exact h.ends haccepting.1 here.position (Nat.le_refl _) fun hinside => hinside
    · cases haccept

theorem Onward.choose (h : s.Onward input R path here) (holds : Bool) :
    (s.choose here holds).LeadsOn R path := by
  have hover {t : Transition} (ht : t ∈ s.transitions) :
      R path { here with place := t.target } :=
    h.across t ht here.position here.trail (Nat.le_refl _) (fun hinside => hinside) fun _ => rfl
  unfold State.choose
  dsimp only
  split
  · rename_i t hchosen
    apply Move.leadsOn_along
    apply hover
    split at hchosen
    · exact List.mem_of_head? hchosen
    · rcases Option.or_eq_some_iff.mp hchosen with hsecond | ⟨_, hfirst⟩
      · exact List.mem_of_getElem? hsecond
      · exact List.mem_of_head? hfirst
  · exact Move.leadsOn_dead

theorem Onward.proceed (h : s.Onward input R path here) (inBody : Bool) :
    (s.proceed input inBody here).LeadsOn R path :=
  ⟨_, _, rfl, h.ways inBody⟩

/-- A lookaround takes nothing. -/
theorem position_of_looked {kind : LookKind} {found : Option Found} {path next : Path}
    (h : looked? kind path found = some next) : next.position = path.position := by
  cases found with
  | none =>
    simp only [looked?] at h
    split at h
    · cases h
      rfl
    · cases h
  | some f =>
    simp only [looked?] at h
    split at h
    · cases h
    · cases h
      rfl

/-- After a body, a way goes on as the path that has come of it. -/
theorem resume_leadsOn (inBody : Bool) {found : Option Found}
    (h : ∀ next, s.After path found next → s.Onward input R path next) :
    (s.resume input inBody path found).LeadsOn R path := by
  unfold resume
  split
  · rename_i kind body haction
    split
    · rename_i next hlooked
      exact (h next (.looked (.inl haction) hlooked)).proceed inBody
    · exact Move.leadsOn_dead
  · rename_i kind body haction
    split
    · rename_i next hlooked
      exact (h next (.looked (.inr haction) hlooked)).choose true
    · rename_i hrefused
      exact (h path (.refused haction hrefused)).choose false
  · rename_i body haction
    split
    · exact (h _ (.atomic haction rfl)).proceed inBody
    · exact Move.leadsOn_dead
  · exact Move.leadsOn_dead

/-- What a state makes of a way comes of it, if what it captures does, and what it leads on to. -/
theorem enter_follows {code : Code} (hcaptured : R path (s.captured path))
    (honward : s.asks? = none → s.Onward input R path (s.captured path))
    (hasks : ∀ body, s.asks? = some body → code.Awaits input R body (s.captured path))
    (inBody : Bool) : code.Follows input R path (s.enter input inBody path) := by
  have hends : path.EndsAs R path.position (s.capture path.position path.slots) :=
    ⟨_, hcaptured, rfl, rfl⟩
  have hdead : code.Follows input R path .dead := Move.leadsOn_dead.follows
  unfold enter
  split
  · dsimp only
    split
    · exact hends
    · unfold act
      cases haction : s.action with
      | none =>
        have hgoes := honward (by simp only [asks?, haction])
        exact (hgoes.proceed inBody).follows
      | some action =>
        cases action with
        | fail => exact hdead
        | accept => exact hends
        | commit =>
          have hgoes := honward (by simp only [asks?, haction])
          exact hgoes.ways inBody
        | backref group nocase =>
          have hgoes := honward (by simp only [asks?, haction])
          dsimp only
          split
          · rename_i position hbackref
            have hbounds := backref?_bounds hbackref
            exact ((hgoes.advance hbounds.1 hbounds.2).proceed inBody).follows
          · exact hdead
        | look kind body => exact ⟨hcaptured, hasks _ (by simp only [asks?, haction])⟩
        | atomic body => exact ⟨hcaptured, hasks _ (by simp only [asks?, haction])⟩
        | branch condition =>
          cases condition with
          | group index =>
            have hgoes := honward (by simp only [asks?, haction])
            exact (hgoes.choose _).follows
          | look kind body => exact ⟨hcaptured, hasks _ (by simp only [asks?, haction])⟩
  · exact hdead

end State

namespace Automaton

variable {a : Automaton} {input : Array Char} {R : Path → Path → Prop} {path : Path} {s : State}

/-! What the code of an automaton does is what the state at the place of a way does. -/

theorem code_enter_eq (hstate : a.states[path.place]? = some s) (input : Array Char)
    (inBody : Bool) : a.code.enter input inBody path = .ok (s.enter input inBody path) := by
  simp only [code, state, hstate]
  rfl

theorem code_resume_eq (hstate : a.states[path.place]? = some s) (input : Array Char)
    (inBody : Bool) (found : Option Found) :
    a.code.resume input inBody path found = .ok (s.resume input inBody path found) := by
  simp only [code, state, hstate]
  rfl

theorem enter_ok {inBody : Bool} {move : RegexEngine.Move}
    (h : a.code.enter input inBody path = .ok move) :
    ∃ s, a.states[path.place]? = some s ∧ s.enter input inBody path = move := by
  cases hs : a.states[path.place]? with
  | none =>
    simp only [code, state, hs] at h
    cases h
  | some s => exact ⟨s, rfl, Except.ok.inj ((code_enter_eq hs input inBody).symm.trans h)⟩

theorem resume_ok {inBody : Bool} {found : Option Found} {move : RegexEngine.Move}
    (h : a.code.resume input inBody path found = .ok move) :
    ∃ s, a.states[path.place]? = some s ∧ s.resume input inBody path found = move := by
  cases hs : a.states[path.place]? with
  | none =>
    simp only [code, state, hs] at h
    cases h
  | some s =>
    exact ⟨s, rfl, Except.ok.inj ((code_resume_eq hs input inBody found).symm.trans h)⟩

theorem awaits_of_onward {body : Body} (hstate : a.states[path.place]? = some s)
    (h : ∀ (tried : Nat) (found : Option Found), body.TriedFrom path tried →
      Found.Follows R (body.origin path tried) found →
        ∀ next, s.After path found next → s.Onward input R path next) :
    a.code.Awaits input R body path := by
  intro inBody tried found move htried hfound hmove
  rw [code_resume_eq hstate] at hmove
  cases hmove
  exact State.resume_leadsOn inBody (h tried found htried hfound)

/-- A relation is respected by an automaton if each of its states leads on. -/
theorem respects_of_states (a : Automaton) (hR : Path.Chains R)
    (hcaptured : ∀ (path : Path) (s : State), a.states[path.place]? = some s →
      R path (s.captured path))
    (honward : ∀ (path : Path) (s : State), a.states[path.place]? = some s → s.asks? = none →
      s.Onward input R path (s.captured path))
    (hafter : ∀ (path : Path) (s : State), a.states[path.place]? = some s →
      ∀ body, s.asks? = some body → ∀ (tried : Nat) (found : Option Found),
        body.TriedFrom (s.captured path) tried →
          Found.Follows R (body.origin (s.captured path) tried) found →
            ∀ next, s.After (s.captured path) found next →
              s.Onward input R (s.captured path) next) : a.code.Respects input R where
  toChains := hR
  enter inBody path move hmove := by
    obtain ⟨s, hstate, rfl⟩ := enter_ok hmove
    apply State.enter_follows (hcaptured path s hstate) (honward path s hstate)
    intro body hbody
    exact awaits_of_onward hstate (hafter path s hstate body hbody)

end Automaton

end RegexEngine
