import RegexEngine.Proofs.Program.Monotone
import RegexEngine.Proofs.Search.Captures
import RegexEngine.Proofs.Search.Ends
import RegexEngine.Proofs.Search.Fronts

/-!
Giving up invents no match. A search with a manager may abandon a way at any checkpoint, and keep
any way from waiting. What it finds is something that may be found, and then a search that abandons
nothing finds something too, if the code is monotone. The two need not find the same, and they need
not follow the ways in the same manner.
-/

namespace RegexEngine

open Tracked

/-- Two searches for the same thing, of which the second has no manager. -/
structure Search.Freed (search free : Search) : Prop where
  input_eq : free.input = search.input
  full_eq : free.full = search.full
  bailout_eq : free.bailout = none

variable {search free : Search} {read : Nat → Prop}

/-- A search for a monotone code finds something only where one does that tries all ways. -/
theorem Code.Monotone.search_grants {code : Code} {chart : Nat → Nat → Stage}
    (h : code.Monotone search.input read chart) (hfreed : search.Freed free) {initial : Nat}
    (hinitial : ∀ group, read group → chart group initial ≠ .ahead) (start : Nat) :
    Grants (code.search search initial start) fun A => A.found ≠ none → ∀ B,
      code.Gives free (.way .whole (.follow (.start initial start (.unset code.groups)))) B →
        B.found ≠ none := by
  refine grants_mono (code.search_mayFind search initial start) fun A hA hfound B hB => ?_
  obtain ⟨f, hf⟩ := Option.ne_none_iff_exists'.mp hfound
  have hmay := (hA f hf).congr_search hfreed.input_eq hfreed.full_eq
  rw [← hfreed.input_eq] at h
  exact h.found_of_mayFind hinitial hmay hB

namespace Automaton

variable {a : Automaton} {initial start : Nat}

/-! Deterministic automata. -/

end Automaton

/-! Programs. -/

namespace Context

variable {c d : Context} {x : Searcher}

end Context

end RegexEngine
