import RegexEngine.Proofs.Automaton.Monotone
import RegexEngine.Proofs.Program.Charts
import RegexEngine.Proofs.Program.Contents

/-!
Programs that never profit from a failure. Their lookarounds have to find their bodies, and they
refer to groups that no body opens or closes. So their code is monotone: which instruction comes
next, which counters a way carries and what it takes does not depend on other groups.
-/

namespace RegexEngine.Program

variable {read : Nat → Prop} {counts : Prop} {p : Program} {input : Array Char}
  {path path' : Path} {i : Instr} {move : Move}

variable {chart : Nat → Nat → Stage}

/-- A program that never profits from a failure, never fails, and is entered where none of the
groups that it reads was passed. -/
structure IsMonotone (read : Nat → Prop) (p : Program) : Prop where
  stems : ∃ counts, ∀ i ∈ p.instrs, i.Stems (Action.IsMonotone read) counts p.classes
  starts : ∀ group, read group → p.StartsAt group .outside
  nested : p.length ≠ 0 → ∃ nest, p.Nested nest ∧ nest 0 = some []

end RegexEngine.Program
