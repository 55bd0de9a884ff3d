import RegexEngine.Program.Basic
import RegexEngine.Text.Quoted

/-!
Listings of programs: one line for each instruction, with its address, its name and its operands.
-/

namespace RegexEngine

def wordIf (holds : Bool) (word : String) : String := if holds then " " ++ word else ""

def ClassPool.referenceText (offset length : Nat) : String :=
  "MatchClass" ++ Action.fields [("offset", toString offset), ("len", toString length)]

namespace Instr

def countText (min : Nat) (max : Option Nat) : String :=
  "\x7b" ++ toString min ++ "," ++ (max.map toString).getD "" ++ "\x7d"

def operandText (classes : ClassPool) : Instr → String
  | nop | accept | fail => ""
  | char c nocase => " " ++ Text.quoteChar c ++ wordIf nocase "nocase"
  | cls offset length =>
    match classes.get? offset length with
    | some spec => " " ++ String.ofList spec
    | none => " <" ++ toString offset ++ "+" ++ toString length ++ ">"
  | any dotAll => wordIf dotAll "dotall"
  | jump target => " " ++ ProgramFault.address target
  | split first second => " " ++ ProgramFault.address first ++ ", " ++ ProgramFault.address second
  | openGroup group | closeGroup group => " " ++ toString group
  | repeatStart min max greedy stop =>
    " " ++ countText min max ++ wordIf (!greedy) "lazy" ++ " " ++ ProgramFault.address stop
  | repeatEnd start => " " ++ ProgramFault.address start
  | boundary marks => " " ++ Text.joinWith "|" marks.names
  | backref group nocase => " " ++ toString group ++ wordIf nocase "nocase"
  | look kind body next =>
    " " ++ ProgramFault.address body ++ ", " ++ ProgramFault.address next
      ++ wordIf kind.isBehind "behind"

def listing (classes : ClassPool) (address : Nat) (i : Instr) : String :=
  ProgramFault.address address ++ ": " ++ i.name ++ i.operandText classes ++ "\n"

end Instr

def Program.listing (p : Program) : String :=
  String.join (p.instrs.toList.zipIdx.map fun (i, address) => i.listing p.classes address)

end RegexEngine
