import RegexEngine.Search.Searcher

/-!
A context holds an input and what goes on in it: a cursor, a region that searches are confined to,
the groups of the last match, the bounds, and what the last search has used up. It finds one match,
the next match or all of them.

The cursor and the region are kept as indices of characters. From outside they are byte offsets, and
an offset inside a character is refused. Searches see the input before the region, but not what
comes after it. All operations answer with the context that they leave behind, and a failure is
remembered there.
-/

namespace RegexEngine

structure Context where
  input : Array Char
  cursor : Nat
  region : Option (Nat × Nat)
  groups : List CaptureGroup
  mode : SearchMode
  registry : LimitRegistry
  /-- What the bounds of single searches are looked up by. -/
  id : UInt64
  bailout : Option Bailout
  tracker : Tracker
  lastError : Option Error
  /-- The empty match at the end was found, and the cursor was not put anywhere since. To advance it
  by one character does not count. -/
  exhausted : Bool
  clock : Clock

namespace Context

def new (limits : SearchLimits) (id : UInt64) : Context where
  input := #[]
  cursor := 0
  region := none
  groups := []
  mode := .backtracking
  registry := .ofLimits limits
  id := id
  bailout := none
  tracker := .empty
  lastError := none
  exhausted := false
  clock := .still

/-- Replaces the input, and starts over at its beginning. -/
def setInput (ctx : Context) (input : Array Char) : Context :=
  { ctx with input := input, cursor := 0, region := none, groups := [], exhausted := false }

/-- Fails, and remembers why. -/
def refuse {α : Type} (ctx : Context) (e : Error) : Except Error α × Context :=
  (.error e, { ctx with lastError := some e })

def indexOf? (ctx : Context) (offset : Nat) : Option Nat :=
  Text.indexOfByte? ctx.input.toList offset

def position (ctx : Context) : Nat := Text.byteOffset ctx.input ctx.cursor

def setPosition (ctx : Context) (offset : Nat) : Except Error Unit × Context :=
  match ctx.indexOf? offset with
  | some index => (.ok (), { ctx with cursor := index, exhausted := false })
  | none => ctx.refuse (CallFault.notABoundary offset).error

def current? (ctx : Context) : Option Char := ctx.input[ctx.cursor]?

def advance (ctx : Context) : Except Error Char × Context :=
  match ctx.current? with
  | some c => (.ok c, { ctx with cursor := ctx.cursor + 1 })
  | none => ctx.refuse CallFault.atEndOfInput.error

/-- What searches are confined to. -/
def bounds (ctx : Context) : Nat × Nat := ctx.region.getD (0, ctx.input.size)

/-- True when the cursor is at the end of the region, or after it. -/
def isAtEnd (ctx : Context) : Bool := ctx.bounds.2 ≤ ctx.cursor

/-- Confines searches to what stands between two byte offsets, and moves the cursor there. -/
def setRegion (ctx : Context) (start stop : Nat) : Except Error Unit × Context :=
  match ctx.indexOf? start, ctx.indexOf? stop with
  | some first, some last =>
    if start ≤ stop then
      (.ok (), { ctx with region := some (first, last), cursor := first, exhausted := false })
    else ctx.refuse (CallFault.badRegion start stop (Text.byteLength ctx.input.toList)).error
  | _, _ => ctx.refuse (CallFault.badRegion start stop (Text.byteLength ctx.input.toList)).error

def clearRegion (ctx : Context) : Context := { ctx with region := none }

def regionInBytes (ctx : Context) : Option (Nat × Nat) :=
  ctx.region.map fun (start, stop) =>
    (Text.byteOffset ctx.input start, Text.byteOffset ctx.input stop)

/-- Replaces the registry if that has not failed. -/
def adopt (ctx : Context) : Except Error LimitRegistry → Except Error Unit × Context
  | .ok registry => (.ok (), { ctx with registry := registry })
  | .error e => ctx.refuse e

def setLimits (ctx : Context) (c : LimitConfig) : Except Error Unit × Context :=
  ctx.adopt (ctx.registry.setGlobal c)

def changeLimits (ctx : Context) (change : SearchLimits → SearchLimits) :
    Except Error Unit × Context :=
  let own := (ctx.registry.search? ctx.id).getD (.forSearch true ctx.registry.global.limits)
  let changed := { own with limits := change own.limits, overrides := true }
  ctx.adopt (ctx.registry.registerSearch ctx.id changed)

def setMaxDepth (ctx : Context) (most : Nat) : Except Error Unit × Context :=
  ctx.changeLimits ({ · with maxDepth := most })

def setTimeout (ctx : Context) (mostMs : Nat) : Except Error Unit × Context :=
  ctx.changeLimits ({ · with maxDurationMs := mostMs })

/-- Changes the greatest number of transitions of an attempt. -/
def setMaxTransitions (ctx : Context) (most : Nat) : Except Error Unit × Context :=
  ctx.changeLimits ({ · with maxTransitions := most })

/-- Changes what the bounds of single searches are looked up by. Nothing asks whether another context
has the same identifier. -/
def setId (ctx : Context) (id : UInt64) : Context := { ctx with id := id }

/-- Starts a search: looks up its bounds and resets the counts. -/
def begin (ctx : Context) (x : Searcher) : Except Error Context := do
  let known := (x.id.bind ctx.registry.pattern?).isSome
  let registry ← match x.id, x.scaledLimits with
    | some id, some scaled =>
      if known then pure ctx.registry else ctx.registry.registerPattern id scaled
    | _, _ => pure ctx.registry
  let limits := (registry.effective x.id (some ctx.id)).limits
  pure { ctx with
    registry := registry
    tracker := (ctx.tracker.setLimits limits).start
    lastError := none }

def search (ctx : Context) (x : Searcher) (full : Bool) : Search where
  input := ctx.input.extract 0 ctx.bounds.2
  full := full
  mode := ctx.mode
  bailout := ctx.bailout
  raw := x.raw
  clock := ctx.clock

/-- Where a match may start. From beyond the end there is still the end. -/
def starts (stop start : Nat) : List Nat :=
  if start ≤ stop then List.range' start (stop - start + 1) else [stop]

/-- Makes attempts at one place after the other, up to the first that finds a match. Only one is
made if the search is anchored, and none after one that ruled out later starts. -/
def tryAll (x : Searcher) (search : Search) (anchored : Bool) :
    List Nat → Tracked (Option (Nat × Found))
  | [] => pure none
  | start :: rest => do
    modifyThe Tracker (·.beginAttempt)
    let attempt ← x.attempt search start
    match attempt.found with
    | some found => pure (some (start, found))
    | none =>
      if anchored || attempt.committed then pure none else tryAll x search anchored rest

/-- Finds the first match that starts at a place or after it, and keeps its groups. -/
def searchFrom (ctx : Context) (x : Searcher) (start : Nat) (full anchored : Bool) :
    Except Error (Option Match) × Context :=
  let search := ctx.search x full
  let anchored := anchored || x.flags.contains .anchored
  let (found, tracker) := (tryAll x search anchored (starts ctx.bounds.2 start)).run ctx.tracker
  let ctx := { ctx with tracker := tracker }
  match found with
  | .error e => (.error e, ctx)
  | .ok none => (.ok none, ctx)
  | .ok (some (start, found)) =>
    let m := x.toMatch start found
    (.ok (some m), { ctx with groups := m.groups })

/-- Starts a search, makes it, and remembers a failure. -/
def perform {α : Type} (ctx : Context) (x : Searcher)
    (action : Context → Except Error α × Context) : Except Error α × Context :=
  match ctx.begin x with
  | .error e => ctx.refuse e
  | .ok ctx =>
    match action ctx with
    | (.error e, ctx) => ctx.refuse e
    | done => done

/-- Matches the whole region. -/
def matchWhole (ctx : Context) (x : Searcher) : Except Error (Option Match) × Context :=
  ctx.perform x fun ctx => ctx.searchFrom x ctx.bounds.1 true true

def nextStart (ctx : Context) : Nat := max ctx.cursor ctx.bounds.1

/-- Moves the cursor to the end of a match, and one character further after an empty one. -/
def advancePast (ctx : Context) (m : Match) : Context :=
  let stop := ctx.bounds.2
  if !m.isEmpty then { ctx with cursor := m.stop }
  else if m.stop < stop then { ctx with cursor := m.stop + 1 }
  else { ctx with cursor := stop, exhausted := true }

/-- Finds the next match, and moves the cursor past it. -/
def findNext (ctx : Context) (x : Searcher) : Except Error (Option Match) × Context :=
  if ctx.exhausted then (.ok none, ctx)
  else
    match ctx.perform x fun ctx => ctx.searchFrom x ctx.nextStart false false with
    | (.ok (some m), ctx) => (.ok (some m), ctx.advancePast m)
    | other => other

/-- Finds matches from a place on, at most as many as `most` says, or all of them if that is zero.
Each search starts after the one before, so the fuel is the number of places that are left. -/
def collect (x : Searcher) (most : Nat) :
    Nat → Context → Nat → List Match → Except Error (List Match) × Context
  | 0, ctx, _, found => (.ok found.reverse, ctx)
  | fuel + 1, ctx, start, found =>
    let stop := ctx.bounds.2
    if stop < start then (.ok found.reverse, ctx)
    else
      match ctx.searchFrom x start false false with
      | (.error e, ctx) => (.error e, ctx)
      | (.ok none, ctx) => (.ok found.reverse, ctx)
      | (.ok (some m), ctx) =>
        let found := m :: found
        if most ≠ 0 ∧ most ≤ found.length then (.ok found.reverse, ctx)
        else collect x most fuel ctx (if m.isEmpty then m.stop + 1 else m.stop) found

/-- Finds all matches from the cursor on, or as many as `most` says. The cursor stays. -/
def findAll (ctx : Context) (x : Searcher) (most : Nat) : Except Error (List Match) × Context :=
  ctx.perform x fun ctx => collect x most (ctx.bounds.2 + 2) ctx ctx.nextStart []

def slice (ctx : Context) (start stop : Nat) : String :=
  String.ofList (ctx.input.extract start stop).toList

/-- The pieces of the input between matches, up to a place. Empty matches at the ends of a piece do
not split it. -/
def pieces (ctx : Context) (stop : Nat) : Nat → List Match → List String
  | last, [] => [ctx.slice last stop]
  | last, m :: rest =>
    if m.isEmpty && (m.start == last || m.start == stop) then ctx.pieces stop last rest
    else ctx.slice last m.start :: ctx.pieces stop m.stop rest

/-- Splits the region at every match after the cursor. -/
def split (ctx : Context) (x : Searcher) : Except Error (List String) × Context :=
  match ctx.findAll x 0 with
  | (.error e, ctx) => (.error e, ctx)
  | (.ok found, ctx) => (.ok (ctx.pieces ctx.bounds.2 ctx.bounds.1 found), ctx)

end Context

end RegexEngine
