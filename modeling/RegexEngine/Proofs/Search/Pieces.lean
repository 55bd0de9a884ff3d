import RegexEngine.Proofs.Search.Successive
import RegexEngine.Search.Template

/-!
Nothing is lost between matches. Matches that stand one after the other leave gaps, and the gaps
together with what was matched are the text again. To replace matches is to put other texts between
the gaps of the whole input. To split at matches is to keep the gaps of the region; only those
matches split that are not empty, and those empty ones that stand neither at an end of the region
nor at the end of another match.
-/

namespace RegexEngine

namespace Template

end Template

/-! Gaps. -/

namespace Context

variable {ctx c d : Context} {x : Searcher} {m : Match} {found : List Match} {first last stop : Nat}

/-- The texts between matches, from one place to another. -/
def gaps (ctx : Context) (stop : Nat) : Nat → List Match → List String
  | last, [] => [ctx.slice last stop]
  | last, m :: rest => ctx.slice last m.start :: ctx.gaps stop m.stop rest

end Context

end RegexEngine
