import RegexEngine.Pattern.Stored
import RegexEngine.Program.Code
import RegexEngine.Program.OfAutomaton
import RegexEngine.Program.Stored

/-!
The forms in which a pattern can be searched for: as it is, as one of the automata that can be made
of it, or as a program. The stored forms are written as bytes and read back first.
-/

namespace RegexEngine

/-- A form in which a pattern can be searched for. -/
inductive Engine
  | pattern
  /-- The automaton alone, without the names and bounds of the pattern. -/
  | automaton
  | deterministic
  /-- The deterministic automaton with its states joined. -/
  | minimal
  | simplified
  /-- A pattern that was made of the automaton. -/
  | automatonPattern
  | storedPattern
  | program
  /-- The program that is made of the tree, even where the automaton has become another. -/
  | treeProgram
  | automatonProgram
  | storedProgram
deriving DecidableEq, Repr

namespace Engine

def named : List (String × Engine) :=
  [("pattern", pattern), ("automaton", automaton), ("dfa", deterministic), ("min", minimal),
   ("opt", simplified), ("from_automaton", automatonPattern), ("restored", storedPattern),
   ("program", program), ("program_ast", treeProgram), ("program_automaton", automatonProgram),
   ("program_restored", storedProgram)]

def ofName? (name : String) : Option Engine := named.lookup name

/-- Writes a program as bytes and reads it back. -/
def restore (p : Program) : Except Error Program := do
  Program.deserialize (← p.serialize .little) Config.default.maxCaptureGroups

/-- Brings a pattern into a form. There is none where wrapping the automaton breaks off. -/
def searcher? (engine : Engine) (p : Pattern) : OptionT Fresh (Except Error Searcher) := do
  let a := p.automaton
  match engine with
  | pattern => pure (.ok p.searcher)
  | automaton => pure (.ok a.searcher)
  | deterministic => return (← a.toDfa).map Automaton.searcher
  | minimal => return (← Pattern.bindFresh a.toDfa Automaton.minimize).map Automaton.searcher
  | simplified =>
    let (done, a) ← a.optimize
    return done.map fun _ => a.searcher
  | automatonPattern => return (← OptionT.mk (pure (Pattern.ofAutomaton? a))).map (·.searcher)
  | storedPattern => return (Pattern.deserialize p.serialize).map (·.searcher)
  | program => return (Program.ofPattern p).map (·.searcher)
  | treeProgram => return ((p.tree.map Program.ofTree).getD (Program.ofPattern p)).map (·.searcher)
  | automatonProgram => return (Program.ofAutomaton a).map (·.searcher)
  | storedProgram => return ((Program.ofPattern p).bind restore).map (·.searcher)

end Engine

end RegexEngine
