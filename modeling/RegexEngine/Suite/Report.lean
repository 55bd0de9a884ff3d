import RegexEngine.Search.Context
import RegexEngine.Suite.Parser
import RegexEngine.Text.Quoted

/-!
What comes of the test cases of a suite. The patterns are compiled first, and one that cannot be
compiled fails all of its test cases with the reason. Each test case is a search of its own: it
passes when the pattern matches somewhere in the input as expected, and the groups of the first
match have taken what they should.
-/

namespace RegexEngine

def LocatedError.toError (e : LocatedError) : Error :=
  ⟨.custom .grammar e.message, some e.error.span.start⟩

structure TestResult where
  /-- The name of the pattern. -/
  pattern : String
  test : TestCase
  /-- What the groups of the first match have taken, or nothing if there is no match. -/
  outcome : Except Error (Option (List String))

namespace TestResult

/-- The reason for which a test case could not be run. -/
def failure (r : TestResult) : Option Error :=
  match r.outcome with
  | .error e => some e
  | .ok _ => none

def hasMatch (r : TestResult) : Bool :=
  match r.outcome with
  | .ok found => found.isSome
  | .error _ => false

/-- What the groups have taken. A group that took no part in the match has taken the empty text. -/
def groups (r : TestResult) : List String :=
  match r.outcome with
  | .ok (some groups) => groups
  | _ => []

/-- True when the test case was run and came out as expected. -/
def passed (r : TestResult) : Bool :=
  match r.outcome with
  | .error _ => false
  | .ok none => !r.test.expectMatch
  | .ok (some groups) => r.test.expectMatch && (r.test.groups.isEmpty || r.test.groups == groups)

def mark (r : TestResult) : String :=
  if r.failure.isSome then "ERROR" else if r.passed then "PASS" else "FAIL"

def matchText (found : Bool) : String := if found then "a match" else "no match"

def explanation (r : TestResult) : Option String :=
  match r.failure with
  | some e => some e.text
  | none =>
    if r.passed then none
    else if r.test.expectMatch != r.hasMatch then
      some ("expected " ++ matchText r.test.expectMatch ++ ", got " ++ matchText r.hasMatch)
    else
      some ("expected groups " ++ Text.quoteList r.test.groups ++ ", got "
        ++ Text.quoteList r.groups)

def text (r : TestResult) : String :=
  "[ " ++ r.mark ++ " ] " ++ r.pattern ++ ": " ++ Text.quote r.test.input ++
    ((r.explanation.map ("\n    " ++ ·)).getD "")

end TestResult

namespace Suite

def flagsOf (names : List String) : Except Error Flags :=
  names.foldlM (fun flags name =>
    match Flags.ofName? name with
    | some flag => .ok (flags.union flag)
    | none => .error (CallFault.unknownFlag name).error) Flags.empty

def compileOne (config : Config) (d : Declaration) : Fresh (Except Error Pattern) :=
  match flagsOf d.flags with
  | .ok flags => Pattern.ofText d.source flags config
  | .error e => pure (.error e)

/-- Compiles the patterns of a suite, each by itself. -/
def compile (s : Suite) (config : Config) : Fresh (List (Except Error Pattern)) :=
  s.patterns.mapM (compileOne config)

/-- Searches an input for a pattern, and tells what the groups of the first match have taken. -/
def firstGroups (p : Pattern) (input : String) : Except Error (Option (List String)) :=
  let ctx := (Context.new Config.default.limits 1).setInput input.toList.toArray
  (ctx.findNext p.searcher).1.map fun found =>
    found.map fun m => m.groups.map fun g => (g.text? ctx.input).getD ""

def runCase (s : Suite) (compiled : List (Except Error Pattern)) (c : TestCase) : TestResult where
  pattern := ((s.patterns[c.pattern]?).map (·.name)).getD ""
  test := c
  outcome :=
    match compiled[c.pattern]? with
    | some found => found.bind fun p => firstGroups p c.input
    | none => .error (.of (.custom .internal "test case without pattern"))

end Suite

structure Report where
  results : List TestResult

namespace Report

def total (r : Report) : Nat := r.results.length

def passed (r : Report) : Nat := r.results.countP (·.passed)

def failed (r : Report) : Nat := r.total - r.passed

def allPassed (r : Report) : Bool := r.results.all (·.passed)

/-- The results one below the other, and a summary. Those that passed are shown only if asked for.
-/
def text (r : Report) (verbose : Bool) : String :=
  let shown := r.results.filter fun x => verbose || !x.passed
  String.join (shown.map fun x => x.text ++ "\n") ++
    toString r.total ++ " test(s), " ++ toString r.passed ++ " passed, " ++ toString r.failed
    ++ " failed."

end Report

namespace Suite

def run (s : Suite) (compiled : List (Except Error Pattern)) : Report :=
  ⟨s.cases.map (s.runCase compiled)⟩

end Suite

end RegexEngine
