import RegexEngine.Search.Attempt
import RegexEngine.Search.Stack

/-!
Searches that follow one way until it ends, and then the last one that was left waiting. The ways of
a place are tried in order, so the first match that is found is the one with the highest priority.

What is searched for is given by its `Code`, which says what happens where a way enters a place.
Some places ask whether a body matches before the way goes on: lookarounds, atomic groups and
conditions. The body is searched for by a search of its own, while the one around it waits; so a run
is a machine with a stack of suspended searches, and makes one step at a time. A lookbehind tries
its body from every place before its own, the nearest first.
-/

namespace RegexEngine

/-- A body, and whether it has to end where the way stands. -/
structure Body where
  start : Nat
  behind : Bool
deriving DecidableEq, Repr

/-- What happens where a way enters a place. -/
inductive Move
  /-- The way is at its end, if it may end here. -/
  | finish (position : Nat) (slots : Slots)
  /-- The way goes on in one of several ways. `cut` drops those that have been waiting. -/
  | go (ways : List Frame) (cut : Bool)
  /-- The way waits for the answer of a body. -/
  | ask (body : Body) (path : Path)
deriving Repr

/-- A way that ends here without a match. -/
def Move.dead : Move := .go [] false

def Move.along (path : Path) : Move := .go [.follow path] false

/-- What a search runs. Both functions are told the input and whether the search is for a body. -/
structure Code where
  groups : Nat
  /-- What happens where a way enters its place. -/
  enter : Array Char → Bool → Path → Except Error Move
  /-- How a way goes on after it asked for a body. -/
  resume : Array Char → Bool → Path → Option Found → Except Error Move

inductive Goal
  /-- At the end of a match. -/
  | whole
  /-- At the end of a body, at this place if one is given. -/
  | body (stop : Option Nat)
deriving DecidableEq, Repr

def Goal.isBody : Goal → Bool
  | whole => false
  | body _ => true

def Goal.admits (search : Search) (position : Nat) : Goal → Bool
  | whole => search.endsAt position
  | body stop => stop.all (· == position)

inductive Phase
  /-- Takes the last of the waiting ways. -/
  | pick
  /-- Enters the place of a way. -/
  | enter (path : Path)
  /-- Hands over what it has found. -/
  | answer (found : Option Found)
deriving DecidableEq, Repr

/-- A search that waits for the answer of a body. -/
structure Suspended where
  path : Path
  body : Body
  goal : Goal
  stack : Stack
  /-- Where the body is being tried. -/
  tried : Nat
deriving DecidableEq, Repr

/-- A run of searches inside each other. -/
structure Run where
  phase : Phase
  goal : Goal
  stack : Stack
  outer : List Suspended
  committed : Bool
deriving DecidableEq, Repr

inductive Progress
  | running (run : Run)
  | finished (attempt : Attempt)
deriving DecidableEq, Repr

namespace Run

def pick (r : Run) : Run := { r with phase := .pick }

/-- Ends a way at a place: the search has its answer, if it may end there. -/
def finish (r : Run) (search : Search) (position : Nat) (slots : Slots) : Run :=
  if r.goal.admits search position then { r with phase := .answer (some ⟨position, slots⟩) }
  else r.pick

def follow (r : Run) (search : Search) : Frame → Run
  | .follow path => { r with phase := .enter path }
  | .accept position slots => r.finish search position slots

/-- Puts ways on the stack, each if it is admitted. -/
def pushAll (search : Search) : Stack → List Frame → Tracked Stack
  | stack, [] => pure stack
  | stack, frame :: rest => do
    if ← search.checkPush stack.depth frame.position then
      pushAll search (← liftExcept (stack.push frame)) rest
    else pushAll search stack rest
where
  /-- A failure that counts nothing. -/
  liftExcept {α : Type} (x : Except Error α) : Tracked α := ExceptT.mk (pure x)

/-- Starts a search for the body that the last of the suspended searches waits for. -/
def enterBody (r : Run) (groups : Nat) (s : Suspended) : Tracked Run := do
  let maxDepth := (← getThe Tracker).limits.maxDepth
  let empty := Stack.nested maxDepth groups s.stack.depth
  match empty.push (.follow (.start s.body.start s.tried s.path.slots)) with
  | .error e => throw e
  | .ok stack =>
    pure { r with
      phase := .pick
      goal := .body (if s.body.behind then some s.path.position else none)
      stack := stack
      outer := s :: r.outer }

/-- Does what a place asks for. The first of several ways is followed and the others wait. -/
def move (r : Run) (search : Search) (groups : Nat) : Move → Tracked Run
  | .finish position slots => pure (r.finish search position slots)
  | .ask body path => r.enterBody groups ⟨path, body, r.goal, r.stack, path.position⟩
  | .go ways cut => do
    let stack := if cut then r.stack.reset else r.stack
    let r := { r with stack := stack, committed := r.committed || (cut && !r.goal.isBody) }
    match ways with
    | [] => pure r.pick
    | first :: others =>
      let stack ← pushAll search stack others.reverse
      pure ({ r with stack := stack }.follow search first)

/-- Leaves a search with its answer. A lookbehind that has failed is tried one character further
back. -/
def leave (r : Run) (code : Code) (search : Search) (s : Suspended) (outer : List Suspended)
    (found : Option Found) : Tracked Run :=
  let around := { r with phase := .pick, goal := s.goal, stack := s.stack, outer := outer }
  if found.isNone && s.body.behind && 0 < s.tried then
    around.enterBody code.groups { s with tried := s.tried - 1 }
  else
    match code.resume search.input s.goal.isBody s.path found with
    | .ok next => around.move search code.groups next
    | .error e => throw e

/-- Enters the place of a way, unless the way has been there since it last took input. -/
def enter (r : Run) (code : Code) (search : Search) (path : Path) : Tracked Run := do
  if path.trail.contains path.place then pure r.pick
  else if ← search.checkpoint r.stack.depth path.position then
    let path := { path with trail := path.place :: path.trail }
    match code.enter search.input r.goal.isBody path with
    | .ok next => r.move search code.groups next
    | .error e => throw e
  else pure r.pick

def step (code : Code) (search : Search) (r : Run) : Tracked Progress :=
  match r.phase with
  | .enter path => .running <$> r.enter code search path
  | .pick =>
    match r.stack.pop? with
    | none => pure (.running { r with phase := .answer none })
    | some (frame, stack) => do
      let r := { r with stack := stack }
      if ← search.checkpoint stack.depth frame.position then
        pure (.running (r.follow search frame))
      else pure (.running r.pick)
  | .answer found =>
    match r.outer with
    | [] => pure (.finished ⟨found, r.committed⟩)
    | s :: outer => .running <$> r.leave code search s outer found

/-- No run makes more steps than a word can count. -/
def maxSteps : Nat := 0x7FFFFFFFFFFFFFFF

/-- Makes steps until the run ends, at most as many as the fuel allows. -/
def iterate (code : Code) (search : Search) : Nat → Run → Tracked Attempt
  | 0, _ => throw (LimitFault.transitions maxSteps).error
  | fuel + 1, r => do
    match ← r.step code search with
    | .finished attempt => pure attempt
    | .running r => iterate code search fuel r

def start (stack : Stack) : Run := ⟨.pick, .whole, stack, [], false⟩

end Run

/-- Searches for a match that starts at one place of the input, from a place of the code on. -/
def Code.search (code : Code) (search : Search) (initial start : Nat) : Tracked Attempt := do
  let maxDepth := (← getThe Tracker).limits.maxDepth
  let first := Path.start initial start (.unset code.groups)
  match (Stack.new maxDepth code.groups).push (.follow first) with
  | .error e => throw e
  | .ok stack => Run.iterate code search Run.maxSteps (.start stack)

end RegexEngine
