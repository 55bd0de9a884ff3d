import Mathlib.Data.List.Nodup
import Mathlib.Data.List.Perm.Subperm
import RegexEngine.Search.Pool

/-!
What holds of a pool while several calls use it at the same time. A call takes a context, works with
it and gives it back. The first and the last are single steps, and between them anything may happen
to the pool: other calls start and end, and the idle contexts are dropped. Whatever the order of the
steps, no context serves two calls, there are never too many idle ones, and those that are idle have
the settings of the pool. What is lent is like new, but for traces of earlier searches, which are
gone when the next search starts.

A call may give its context another identifier, also that of another context. The contexts to which
that has not happened are told apart by their identifiers, and so are all that are idle: a context
that is given back has the identifier again that it was made with.

The program knows contexts by where they are. To say that two of them are not the same one, contexts
are numbered here in the order in which they are made.
-/

namespace RegexEngine

namespace LimitRegistry

@[simp]
theorem lookup_put (table : List (UInt64 × LimitConfig)) (id : UInt64) (c : LimitConfig) :
    (put table id c).lookup id = some c := by
  simp [put]

/-- The bounds of a search that has bounds of its own do not depend on the pattern. -/
theorem effective_of_overrides {r : LimitRegistry} {id : UInt64} {c : LimitConfig}
    (pattern : Option UInt64) (own : r.search? id = some c) (overrides : c.overrides = true) :
    (r.effective pattern (some id)).limits = c.limits := by
  simp [effective, own, narrow, overrides]

end LimitRegistry

namespace Context

variable (ctx : Context) (tracker : Tracker) (lastError : Option Error) (x : Searcher)

/-- A context with traces of other searches in it: what was counted, and a failure. -/
def withTraces : Context := { ctx with tracker := tracker, lastError := lastError }

/-- A search that starts leaves no traces of those before. -/
theorem begin_withTraces : (ctx.withTraces tracker lastError).begin x = ctx.begin x := rfl

/-- No operation that searches depends on the searches before. -/
theorem searches_withTraces :
    ((ctx.withTraces tracker lastError).matchWhole x).1 = (ctx.matchWhole x).1 ∧
      ((ctx.withTraces tracker lastError).findNext x).1 = (ctx.findNext x).1 ∧
      (∀ most, ((ctx.withTraces tracker lastError).findAll x most).1 = (ctx.findAll x most).1) ∧
      ((ctx.withTraces tracker lastError).split x).1 = (ctx.split x).1 := by
  have begun := begin_withTraces ctx tracker lastError x
  have exhausted : (ctx.withTraces tracker lastError).exhausted = ctx.exhausted := rfl
  cases h : ctx.begin x
  all_goals
    rw [h] at begun
    simp only [matchWhole, findNext, findAll, split, perform, begun, h, refuse, exhausted]
    refine ⟨trivial, ?_, fun _ => trivial, trivial⟩
    split <;> rfl

end Context

namespace Pool

/-- The bounds of the searches of a context: those that the registry has for them, else those for
all searches, with the greatest depth of the pool. -/
def ownLimits (p : Pool) (id : UInt64) : LimitConfig :=
  let known := (p.registry.search? id).getD (.forSearch true p.registry.global.limits)
  { known with limits := { known.limits with maxDepth := p.maxDepth }, overrides := true }

/-- The registry of a context: that of the pool, with the bounds of the context's own searches. -/
def ownRegistry (p : Pool) (id : UInt64) : LimitRegistry :=
  { p.registry with searches := LimitRegistry.put p.registry.searches id (p.ownLimits id) }

/-- A context has the settings of a pool: its registry with the bounds of the context's own searches
added, the mode that is used unless another one is chosen, and no bailout. -/
structure Configured (p : Pool) (ctx : Context) : Prop where
  registry : ctx.registry = p.ownRegistry ctx.id
  mode : ctx.mode = .backtracking
  bailout : ctx.bailout = none
  /-- The bounds in effect, whatever pattern is searched for. -/
  limits : ∀ pattern,
    (ctx.registry.effective pattern (some ctx.id)).limits = (p.ownLimits ctx.id).limits

@[simp]
theorem ownLimits_maxDepth (p : Pool) (id : UInt64) :
    (p.ownLimits id).limits.maxDepth = p.maxDepth := rfl

variable {p : Pool} {ctx ctx' : Context}

/-- What the context was before does not matter, save for its identifier. -/
theorem configured_of_configure (done : p.configure ctx = (.ok (), ctx')) :
    p.Configured ctx' ∧ ctx'.id = ctx.id := by
  simp only [configure, Context.setMaxDepth, Context.changeLimits, LimitRegistry.registerSearch,
    LimitRegistry.checkScope] at done
  split at done
  · obtain rfl : _ = ctx' := (Prod.mk.inj done).2
    refine ⟨⟨rfl, rfl, rfl, fun pattern => ?_⟩, rfl⟩
    exact LimitRegistry.effective_of_overrides pattern (LimitRegistry.lookup_put ..) rfl
  · simp [bind, Except.bind, Context.adopt, Context.refuse] at done

/-- A context is taken back and kept, or it is dropped. -/
theorem giveBack_cases (p : Pool) (id : UInt64) (ctx : Context) :
    (∃ kept, p.Configured kept ∧ kept.id = id ∧ p.idle.length < p.maxIdle ∧
      p.giveBack id ctx = { p with idle := kept :: p.idle }) ∨
    p.giveBack id ctx = p := by
  unfold giveBack
  split
  next kept done =>
    obtain ⟨configured, same⟩ := configured_of_configure done
    split
    next room => exact .inl ⟨kept, configured, same, room, rfl⟩
    next => exact .inr rfl
  next => exact .inr rfl

/-- A context is made under the next identifier, which is used up even if that fails. -/
theorem make_cases (p : Pool) :
    (∃ ctx, p.Configured ctx ∧ ctx.id = p.nextId ∧
      p.make = (.ok ctx, { p with nextId := p.nextId + 1 })) ∨
    (∃ e, p.make = (.error e, { p with nextId := p.nextId + 1 })) := by
  unfold make
  simp only
  split
  next ctx done =>
    obtain ⟨configured, same⟩ := configured_of_configure done
    exact .inl ⟨ctx, configured, same, rfl⟩
  next e _ _ => exact .inr ⟨e, rfl⟩

/-- What a new context of a pool is lent as. -/
def fresh (p : Pool) (id : UInt64) : Context :=
  { Context.new Config.default.limits id with
    input := p.input
    registry := p.ownRegistry id
    clock := p.clock }

theorem Configured.setInput_eq (configured : p.Configured ctx) :
    ctx.setInput p.input =
      { (p.fresh ctx.id).withTraces ctx.tracker ctx.lastError with clock := ctx.clock } := by
  simp only [Context.setInput, Context.withTraces, fresh, Context.new, configured.registry,
    configured.mode, configured.bailout]

/-- A context is taken from the idle ones, or it is new, or it cannot be made. -/
theorem borrow_cases (p : Pool) :
    (∃ ctx rest, p.idle = ctx :: rest ∧
      p.borrow = (.ok (ctx.setInput p.input), { p with idle := rest })) ∨
    (∃ ctx, p.idle = [] ∧ p.Configured ctx ∧ ctx.id = p.nextId ∧
      p.borrow = (.ok (ctx.setInput p.input), { p with nextId := p.nextId + 1 })) ∨
    (∃ e, p.idle = [] ∧ p.borrow = (.error e, { p with nextId := p.nextId + 1 })) := by
  unfold borrow
  split
  next ctx rest found => exact .inl ⟨ctx, rest, found, rfl⟩
  next empty =>
    refine .inr ?_
    obtain ⟨ctx, configured, same, made⟩ | ⟨e, failed⟩ := p.make_cases
    · exact .inl ⟨ctx, empty, configured, same, by rw [made]⟩
    · exact .inr ⟨e, empty, by rw [failed]⟩

/-- The same settings, whatever else is different. -/
theorem Configured.transfer {p' : Pool} (configured : p.Configured ctx)
    (registry : p'.registry = p.registry) (maxDepth : p'.maxDepth = p.maxDepth) :
    p'.Configured ctx := by
  have limits : p'.ownLimits ctx.id = p.ownLimits ctx.id := by
    simp [ownLimits, registry, maxDepth]
  have known : p'.ownRegistry ctx.id = p.ownRegistry ctx.id := by
    simp [ownRegistry, registry, limits]
  exact ⟨known ▸ configured.registry, configured.mode, configured.bailout,
    fun pattern => limits ▸ configured.limits pattern⟩

end Pool

/-- A call that has a context. -/
structure Loan where
  /-- The context is this one of those that were made. -/
  number : Nat
  /-- The identifier that the context was lent under, and is given back under. -/
  id : UInt64
  context : Context

/-- A call may do anything to its context, but not to what it was lent under. -/
def Loan.work (loan : Loan) (action : Context → Context) : Loan :=
  { loan with context := action loan.context }

/-- The context has the identifier that it was lent under. -/
def Loan.keepsId (loan : Loan) : Bool := loan.context.id == loan.id

/-- A pool and the calls that use it. -/
structure Lending where
  pool : Pool
  /-- Which ones of those that were made the idle contexts are. -/
  idle : List Nat
  loans : List Loan
  /-- How many contexts were made. -/
  made : Nat

namespace Lending

/-- A single step of a call, or of whoever owns the pool. Calls are told apart by their places among
those that have a context. -/
inductive Event
  | borrow
  | work (call : Nat) (action : Context → Context)
  | giveBack (call : Nat)
  /-- The call ends without giving its context back. -/
  | abandon (call : Nat)
  | resetAll
  /-- Someone else makes a context. -/
  | make
  /-- The input and the registry are only replaced when no call is under way. -/
  | setInput (input : Array Char)
  | setRegistry (registry : LimitRegistry)

/-- A pool without idle contexts, and no calls. -/
def start (p : Pool) : Lending := ⟨p.resetAll, [], [], 0⟩

/-- A call takes a context. A number is taken for it when it is made, also when that fails. -/
def borrow (s : Lending) : Lending :=
  match s.pool.borrow, s.idle with
  | (.ok ctx, pool), number :: rest => ⟨pool, rest, ⟨number, ctx.id, ctx⟩ :: s.loans, s.made⟩
  | (.ok ctx, pool), [] => ⟨pool, [], ⟨s.made, ctx.id, ctx⟩ :: s.loans, s.made + 1⟩
  | (.error _, pool), idle => ⟨pool, idle, s.loans, s.made + 1⟩

/-- A call gives its context back, which is kept if that makes more idle contexts. -/
def giveBack (s : Lending) (call : Nat) : Lending :=
  match s.loans[call]? with
  | none => s
  | some loan =>
    let pool := s.pool.giveBack loan.id loan.context
    let idle := if s.pool.idle.length < pool.idle.length then loan.number :: s.idle else s.idle
    { s with pool := pool, idle := idle, loans := s.loans.eraseIdx call }

/-- What is left after a step. -/
def step (s : Lending) : Event → Lending
  | .borrow => s.borrow
  | .work call action => { s with loans := s.loans.modify call (·.work action) }
  | .giveBack call => s.giveBack call
  | .abandon call => { s with loans := s.loans.eraseIdx call }
  | .resetAll => { s with pool := s.pool.resetAll, idle := [] }
  | .make => { s with pool := { s.pool with nextId := s.pool.nextId + 1 }, made := s.made + 1 }
  | .setInput input =>
    if s.loans.isEmpty then { s with pool := s.pool.setInput input } else s
  | .setRegistry registry =>
    if s.loans.isEmpty then { s with pool := s.pool.setRegistry registry, idle := [] } else s

/-- What is left after all steps of a run, in the order in which they were made. -/
def run (s : Lending) (events : List Event) : Lending := events.foldl step s

/-- All contexts of a pool, the idle ones and those that are lent. -/
def numbers (s : Lending) : List Nat := s.idle ++ s.loans.map Loan.number

/-- The identifiers that the contexts of a pool are idle with and were lent under. -/
def ids (s : Lending) : List UInt64 := s.pool.idle.map Context.id ++ s.loans.map Loan.id

/-- The identifiers that the contexts of a pool have at the moment. -/
def heldIds (s : Lending) : List UInt64 :=
  s.pool.idle.map Context.id ++ s.loans.map (·.context.id)

/-- Those of them that no call has put in place of another one. -/
def keptIds (s : Lending) : List UInt64 :=
  s.pool.idle.map Context.id ++ (s.loans.filter Loan.keepsId).map (·.context.id)

/-- The identifier of a context by its number. They are given out in order, from a first one on. -/
def idOf (first : UInt64) (number : Nat) : UInt64 := first + .ofNat number

/-- What holds between any two steps. -/
structure Sound (p : Pool) (s : Lending) : Prop where
  bounds : s.pool.maxIdle = p.maxIdle ∧ s.pool.maxDepth = p.maxDepth
  nextId : s.pool.nextId = idOf p.nextId s.made
  /-- A context is in one place only, and it was made. -/
  apart : s.numbers.Subperm (List.range s.made)
  idleIds : s.pool.idle.map Context.id = s.idle.map (idOf p.nextId)
  loanIds : ∀ loan ∈ s.loans, loan.id = idOf p.nextId loan.number
  room : s.pool.idle.length ≤ s.pool.maxIdle
  configured : ∀ ctx ∈ s.pool.idle, s.pool.Configured ctx

variable {p : Pool} {s : Lending}

theorem idOf_succ (first : UInt64) (number : Nat) :
    idOf first (number + 1) = idOf first number + 1 := by
  simp [idOf, UInt64.add_assoc]

/-- Identifiers are told apart until the counter comes round. -/
theorem idOf_inj {first : UInt64} {number number' : Nat} (small : number < UInt64.size)
    (small' : number' < UInt64.size) (same : idOf first number = idOf first number') :
    number = number' := by
  have words : UInt64.ofNat number = UInt64.ofNat number' := by
    simpa [idOf] using same
  have values := congrArg UInt64.toNat words
  simpa [UInt64.toNat_ofNat', Nat.mod_eq_of_lt, small, small'] using values

theorem Sound.count (sound : Sound p s) : s.idle.length = s.pool.idle.length := by
  simpa using (congrArg List.length sound.idleIds).symm

theorem Sound.nodup_numbers (sound : Sound p s) : s.numbers.Nodup := by
  obtain ⟨numbers, same, within⟩ := sound.apart
  exact same.nodup_iff.mp (List.nodup_range.sublist within)

theorem Sound.ids_eq (sound : Sound p s) : s.ids = s.numbers.map (idOf p.nextId) := by
  have lent : s.loans.map Loan.id = s.loans.map (idOf p.nextId ∘ Loan.number) :=
    List.map_congr_left sound.loanIds
  simp [ids, numbers, sound.idleIds, lent]

theorem Sound.nodup_ids (sound : Sound p s) (few : s.made ≤ UInt64.size) : s.ids.Nodup := by
  have small : ∀ number ∈ s.numbers, number < UInt64.size := by
    intro number mem
    have := List.mem_range.mp (sound.apart.subset mem)
    omega
  rw [sound.ids_eq]
  refine sound.nodup_numbers.map_on fun number mem number' mem' same => ?_
  exact idOf_inj (small number mem) (small number' mem') same

theorem keptIds_sublist (s : Lending) : s.keptIds.Sublist s.ids := by
  have same : (s.loans.filter Loan.keepsId).map (·.context.id) =
      (s.loans.filter Loan.keepsId).map Loan.id := by
    apply List.map_congr_left
    intro loan mem
    exact eq_of_beq (List.mem_filter.mp mem).2
  rw [keptIds, same]
  exact (List.Sublist.refl _).append (List.filter_sublist.map Loan.id)

theorem sound_start (p : Pool) : Sound p (start p) where
  bounds := ⟨rfl, rfl⟩
  nextId := by simp [start, Pool.resetAll, idOf]
  apart := List.nil_subperm
  idleIds := by simp [start, Pool.resetAll]
  loanIds := by simp [start]
  room := by simp [start, Pool.resetAll]
  configured := by simp [start, Pool.resetAll]

/-- A step that leaves the pool alone but may end calls. -/
theorem Sound.ofLoans (sound : Sound p s) {loans : List Loan}
    (numbers : (loans.map Loan.number).Sublist (s.loans.map Loan.number))
    (loanIds : ∀ loan ∈ loans, loan.id = idOf p.nextId loan.number) :
    Sound p { s with loans := loans } where
  bounds := sound.bounds
  nextId := sound.nextId
  apart := ((List.Sublist.refl _).append numbers).subperm.trans sound.apart
  idleIds := sound.idleIds
  loanIds := loanIds
  room := sound.room
  configured := sound.configured

theorem Sound.abandon (sound : Sound p s) (call : Nat) :
    Sound p { s with loans := s.loans.eraseIdx call } :=
  sound.ofLoans ((List.eraseIdx_sublist ..).map _)
    fun loan mem => sound.loanIds loan (List.mem_of_mem_eraseIdx mem)

/-- No idle contexts are left. -/
theorem Sound.clear (sound : Sound p s) (registry : LimitRegistry) :
    Sound p { s with pool := { s.pool with registry := registry, idle := [] }, idle := [] } where
  bounds := sound.bounds
  nextId := sound.nextId
  apart := (List.sublist_append_right ..).subperm.trans sound.apart
  idleIds := rfl
  loanIds := sound.loanIds
  room := Nat.zero_le _
  configured := by simp

theorem Sound.make (sound : Sound p s) :
    Sound p { s with
      pool := { s.pool with nextId := s.pool.nextId + 1 }, made := s.made + 1 } where
  bounds := sound.bounds
  nextId := by rw [idOf_succ, ← sound.nextId]
  apart := sound.apart.trans (List.range_sublist.mpr (Nat.le_succ _)).subperm
  idleIds := sound.idleIds
  loanIds := sound.loanIds
  room := sound.room
  configured ctx mem := (sound.configured ctx mem).transfer rfl rfl

theorem Sound.borrow (sound : Sound p s) : Sound p s.borrow := by
  have count := sound.count
  obtain ⟨ctx, rest, found, lent⟩ | ⟨ctx, empty, -, same, lent⟩ | ⟨e, empty, failed⟩ :=
    s.pool.borrow_cases
  · cases known : s.idle with
    | nil => simp [found, known] at count
    | cons number numbers =>
      have ids : ctx.id = idOf p.nextId number ∧
          rest.map Context.id = numbers.map (idOf p.nextId) := by
        simpa [found, known] using sound.idleIds
      have moved : (numbers ++ number :: s.loans.map Loan.number).Perm s.numbers := by
        simp [Lending.numbers, known]
      simp only [Lending.borrow, lent, known]
      exact {
        bounds := sound.bounds
        nextId := sound.nextId
        apart := moved.subperm.trans sound.apart
        idleIds := ids.2
        loanIds := List.forall_mem_cons.mpr ⟨ids.1, sound.loanIds⟩
        room := by have := sound.room; simp [found] at this ⊢; omega
        configured := fun ctx mem =>
          (sound.configured ctx (found ▸ List.mem_cons_of_mem _ mem)).transfer rfl rfl }
  · have known : s.idle = [] := List.length_eq_zero_iff.mp (by simpa [empty] using count)
    simp only [Lending.borrow, lent, known]
    exact {
      bounds := sound.bounds
      nextId := by rw [idOf_succ, ← sound.nextId]
      apart := by
        rw [List.range_succ]
        have apart : (s.loans.map Loan.number).Subperm (List.range s.made) := by
          simpa [Lending.numbers, known] using sound.apart
        exact ((List.subperm_cons s.made).mpr apart).trans
          (List.perm_append_singleton s.made (List.range s.made)).symm.subperm
      idleIds := by simp [empty]
      loanIds := List.forall_mem_cons.mpr ⟨same.trans sound.nextId, sound.loanIds⟩
      room := by simp [empty]
      configured := by simp [empty] }
  · simp only [Lending.borrow, failed]
    exact sound.make

theorem Sound.giveBack (sound : Sound p s) (call : Nat) : Sound p (s.giveBack call) := by
  unfold Lending.giveBack
  split
  next => exact sound
  next loan found =>
    obtain ⟨here, rfl⟩ := List.getElem?_eq_some_iff.mp found
    obtain ⟨kept, configured, same, room, taken⟩ | dropped :=
      s.pool.giveBack_cases s.loans[call].id s.loans[call].context
    · have moved : (s.loans[call].number :: s.idle ++
          (s.loans.eraseIdx call).map Loan.number).Perm s.numbers := by
        have lent := (List.getElem_cons_eraseIdx_perm here).map Loan.number
        exact List.perm_middle.symm.trans (lent.append_left s.idle)
      simp only [taken, List.length_cons, Nat.lt_succ_self, if_true]
      exact {
        bounds := sound.bounds
        nextId := sound.nextId
        apart := moved.subperm.trans sound.apart
        idleIds := by
          simp [sound.idleIds, same, sound.loanIds _ (List.getElem_mem here)]
        loanIds := fun loan mem => sound.loanIds loan (List.mem_of_mem_eraseIdx mem)
        room := room
        configured := List.forall_mem_cons.mpr ⟨configured.transfer rfl rfl,
          fun ctx mem => (sound.configured ctx mem).transfer rfl rfl⟩ }
    · simpa [dropped] using sound.abandon call

/-- Work on a context does not change which one it is. -/
theorem map_number_work (loans : List Loan) (call : Nat) (action : Context → Context) :
    (loans.modify call (·.work action)).map Loan.number = loans.map Loan.number := by
  apply List.ext_getElem?
  intro here
  simp only [List.getElem?_map, List.getElem?_modify]
  split <;> cases loans[here]? <;> rfl

theorem Sound.step (sound : Sound p s) (event : Event) : Sound p (s.step event) := by
  cases event with
  | borrow => exact sound.borrow
  | work call action =>
    refine sound.ofLoans (by rw [map_number_work]) fun loan mem => ?_
    obtain ⟨here, bound, rfl⟩ := List.getElem_of_mem mem
    have inside : here < s.loans.length := by simpa using bound
    have loan := sound.loanIds s.loans[here] (List.getElem_mem inside)
    rw [List.getElem_modify]
    split <;> exact loan
  | giveBack call => exact sound.giveBack call
  | abandon call => exact sound.abandon call
  | resetAll => exact sound.clear s.pool.registry
  | make => exact sound.make
  | setInput input =>
    simp only [Lending.step]
    split
    · exact ⟨sound.bounds, sound.nextId, sound.apart, sound.idleIds, sound.loanIds, sound.room,
        fun ctx mem => (sound.configured ctx mem).transfer rfl rfl⟩
    · exact sound
  | setRegistry registry =>
    simp only [Lending.step]
    split
    · exact sound.clear registry
    · exact sound

theorem Sound.run (sound : Sound p s) (events : List Event) : Sound p (s.run events) := by
  induction events generalizing s with
  | nil => exact sound
  | cons event events ih => exact ih (sound.step event)

/-- A call that nothing happens beside goes through these steps. -/
theorem execute_eq_run {α : Type} (s : Lending) (quiet : s.loans = [])
    (action : Context → Except Error α × Context) :
    (s.pool.execute fun ctx pool => ((action ctx).1, (action ctx).2, pool)).2 =
      (s.run [.borrow, .work 0 fun ctx => (action ctx).2, .giveBack 0]).pool := by
  obtain ⟨pool, idle, loans, made⟩ := s
  obtain rfl : loans = [] := quiet
  simp only [Pool.execute, run, List.foldl, step, Lending.borrow]
  split
  next e pool failed => simp [failed, Lending.giveBack]
  next ctx pool lent =>
    cases idle <;> simp [lent, Lending.giveBack, Loan.work]

/-- Whatever was done to a context before, it is lent like a new one, with nothing but traces of the
searches before in it. -/
theorem Sound.lends_fresh (sound : Sound p s) {ctx : Context} {pool : Pool}
    (lent : s.pool.borrow = (.ok ctx, pool)) :
    ctx = { (s.pool.fresh ctx.id).withTraces ctx.tracker ctx.lastError with
      clock := ctx.clock } := by
  obtain ⟨before, rest, found, took⟩ | ⟨before, -, configured, -, took⟩ | ⟨e, -, failed⟩ :=
    s.pool.borrow_cases
  · obtain ⟨rfl, -⟩ : before.setInput s.pool.input = ctx ∧ _ := by simpa [took] using lent
    exact (sound.configured before (by simp [found])).setInput_eq
  · obtain ⟨rfl, -⟩ : before.setInput s.pool.input = ctx ∧ _ := by simpa [took] using lent
    exact configured.setInput_eq
  · simp [failed] at lent

/-- What whoever uses a pool relies on. -/
structure Safe (p : Pool) (s : Lending) : Prop where
  /-- No context is lent to two calls, and none is both lent and idle. -/
  alone : s.numbers.Nodup
  /-- A context is idle with the identifier that was made for it, and is lent under it. -/
  ids : s.ids = s.numbers.map (idOf p.nextId)
  /-- Contexts are told apart by the identifiers that they have, those left out to which a call has
  given another one, as long as the counter has not come round. -/
  kept : s.made ≤ UInt64.size → s.keptIds.Nodup
  /-- None are left out when it comes to the identifiers that contexts have again in the end. -/
  distinct : s.made ≤ UInt64.size → s.ids.Nodup
  few : s.pool.idleCount ≤ p.maxIdle
  /-- Idle contexts have the settings of the pool, and its greatest depth. -/
  settings : ∀ ctx ∈ s.pool.idle, s.pool.Configured ctx ∧ ∀ pattern,
    (ctx.registry.effective pattern (some ctx.id)).limits.maxDepth = p.maxDepth

theorem Sound.safe (sound : Sound p s) : Safe p s where
  alone := sound.nodup_numbers
  ids := sound.ids_eq
  kept few := (sound.nodup_ids few).sublist s.keptIds_sublist
  distinct := sound.nodup_ids
  few := by
    rw [← sound.bounds.1]
    exact sound.room
  settings ctx mem := by
    have configured := sound.configured ctx mem
    refine ⟨configured, fun pattern => ?_⟩
    rw [configured.limits, Pool.ownLimits_maxDepth, sound.bounds.2]

/-- Whatever the order in which calls take contexts, work with them, give them back or end without
doing so, and in which the idle ones are dropped. -/
theorem lending_safe (p : Pool) (events : List Event) : Safe p ((start p).run events) :=
  ((sound_start p).run events).safe

/-- Two calls at once, of which the second one gives its context the identifier of the first. -/
def sharing : Lending :=
  (start (.new 2 100 7)).run [.borrow, .borrow, .work 0 (·.setId 7)]

theorem calls_share_identifier : sharing.made = 2 ∧ ¬sharing.heldIds.Nodup := by
  decide +kernel

/-- Two calls at once, and room for one idle context: the one that is given back first is kept. -/
example :
    let s := (start (.new 1 100 7)).run [.borrow, .borrow, .resetAll, .giveBack 1, .giveBack 0]
    s.numbers = [0] ∧ s.ids = [7] ∧ s.pool.nextId = 9 := by
  decide +kernel

end Lending
end RegexEngine
