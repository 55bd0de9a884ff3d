import RegexEngine.Search.Context

/-!
A pool of contexts for searches for the same thing in the same input. Whoever searches borrows a
context and gives it back. It has its settings and its identifier again then, but still remembers
what the last search has used up and how it failed. A pool keeps a bounded number of contexts that
nobody uses, and makes new ones when it has none left. Several contexts may be lent at the same
time.
-/

namespace RegexEngine

structure Pool where
  input : Array Char
  /-- The contexts that nobody uses, the last one that was given back first. -/
  idle : List Context
  /-- The greatest number of idle contexts. -/
  maxIdle : Nat
  /-- The greatest depth of the searches. -/
  maxDepth : Nat
  registry : LimitRegistry
  /-- The identifier of the next context that is made. -/
  nextId : UInt64
  clock : Clock

namespace Pool

def new (maxIdle maxDepth : Nat) (firstId : UInt64) : Pool :=
  ⟨#[], [], maxIdle, maxDepth, .default, firstId, .still⟩

/-- Replaces the input of the searches to come. -/
def setInput (p : Pool) (input : Array Char) : Pool := { p with input := input }

def resetAll (p : Pool) : Pool := { p with idle := [] }

/-- Replaces the bounds, and drops the contexts that were made with the old ones. -/
def setRegistry (p : Pool) (registry : LimitRegistry) : Pool :=
  { p with registry := registry, idle := [] }

def idleCount (p : Pool) : Nat := p.idle.length

/-- Gives a context the settings that every context of the pool starts with. -/
def configure (p : Pool) (ctx : Context) : Except Error Unit × Context :=
  { ctx with registry := p.registry, mode := .backtracking, bailout := none }.setMaxDepth p.maxDepth

def make (p : Pool) : Except Error Context × Pool :=
  let ctx := { Context.new Config.default.limits p.nextId with clock := p.clock }
  let p' := { p with nextId := p.nextId + 1 }
  match p.configure ctx with
  | (.ok _, ctx) => (.ok ctx, p')
  | (.error e, _) => (.error e, p')

/-- Lends a context, at the beginning of the input. -/
def borrow (p : Pool) : Except Error Context × Pool :=
  match p.idle with
  | ctx :: rest => (.ok (ctx.setInput p.input), { p with idle := rest })
  | [] =>
    match p.make with
    | (.ok ctx, p) => (.ok (ctx.setInput p.input), p)
    | failed => failed

/-- Takes back a context that was lent under an identifier. It is kept if there is room. -/
def giveBack (p : Pool) (id : UInt64) (ctx : Context) : Pool :=
  match p.configure (ctx.setId id) with
  | (.ok _, ctx) => if p.idle.length < p.maxIdle then { p with idle := ctx :: p.idle } else p
  | (.error _, _) => p

/-- Lends a context for the time of an action, which may use the pool itself. -/
def execute {α : Type} (p : Pool) (action : Context → Pool → Except Error α × Context × Pool) :
    Except Error α × Pool :=
  match p.borrow with
  | (.error e, p) => (.error e, p)
  | (.ok ctx, p) =>
    let (answer, ctx', p) := action ctx p
    (answer, p.giveBack ctx.id ctx')

end Pool

end RegexEngine
