import RegexEngine.Proofs.Search.Captures
import RegexEngine.Proofs.Search.Fronts

/-!
Matches that stand one after the other. A search for all matches goes on where the last match ends,
and one character further if that match was empty. So it comes to its end, its matches are in order,
and a search for some matches only finds the first ones.
-/

namespace RegexEngine

open Tracked RegexEngine.Path

/-! Where matches end. -/

/-- Bounds that come with a searcher are bounds for patterns. -/
theorem Searcher.Executable.scope {x : Searcher} (hx : x.Executable) (limits : LimitConfig)
    (h : x.scaledLimits = some limits) : limits.scope = .pattern := by
  cases hx with
  | pattern p => exact Pattern.scope_of_scaledLimits h
  | automaton a => cases h
  | program p => cases h

/-! Matches in order. -/

namespace Match

/-- Matches between two places, one after the other. -/
structure InOrder (first last : Nat) (found : List Match) : Prop where
  first_le : ∀ m ∈ found, first ≤ m.start
  start_le : ∀ m ∈ found, m.start ≤ m.stop
  stop_le : ∀ m ∈ found, m.stop ≤ last
  apart : found.Pairwise fun m m' => m.start < m'.start ∧ m.stop ≤ m'.start

variable {first last : Nat} {m : Match} {found : List Match}

theorem InOrder.nil (first last : Nat) : InOrder first last [] :=
  ⟨by simp, by simp, by simp, .nil⟩

/-- Where the search for matches goes on after one of them. -/
def after (m : Match) : Nat := if m.isEmpty then m.stop + 1 else m.stop

theorem stop_le_after (m : Match) : m.stop ≤ m.after := by
  unfold after
  split <;> omega

theorem lt_after (h : m.start ≤ m.stop) : m.start < m.after := by
  unfold after
  split
  · omega
  · rename_i hempty
    simp only [isEmpty, beq_iff_eq] at hempty
    omega

theorem InOrder.cons (hfirst : first ≤ m.start) (hstart : m.start ≤ m.stop) (hstop : m.stop ≤ last)
    (h : InOrder m.after last found) : InOrder first last (m :: found) := by
  have hafter (m' : Match) (hm' : m' ∈ found) : m.start < m'.start ∧ m.stop ≤ m'.start :=
    ⟨Nat.lt_of_lt_of_le (lt_after hstart) (h.first_le m' hm'),
      Nat.le_trans m.stop_le_after (h.first_le m' hm')⟩
  refine ⟨?_, ?_, ?_, .cons hafter h.apart⟩
  · refine List.forall_mem_cons.mpr ⟨hfirst, fun m' hm' => ?_⟩
    exact Nat.le_trans hfirst (Nat.le_of_lt (hafter m' hm').1)
  · exact List.forall_mem_cons.mpr ⟨hstart, h.start_le⟩
  · exact List.forall_mem_cons.mpr ⟨hstop, h.stop_le⟩

/-- What follows the first match starts where it ends, or after that. -/
theorem InOrder.tail (h : InOrder first last (m :: found)) : InOrder m.stop last found := by
  have hafter := List.pairwise_cons.mp h.apart
  exact ⟨fun m' hm' => (hafter.1 m' hm').2,
    fun m' hm' => h.start_le m' (List.mem_cons_of_mem _ hm'),
    fun m' hm' => h.stop_le m' (List.mem_cons_of_mem _ hm'), hafter.2⟩

theorem InOrder.mono {first' last' : Nat} (h : InOrder first last found) (hfirst : first' ≤ first)
    (hlast : last ≤ last') : InOrder first' last' found :=
  ⟨fun m hm => Nat.le_trans hfirst (h.first_le m hm), h.start_le,
    fun m hm => Nat.le_trans (h.stop_le m hm) hlast, h.apart⟩

/-- What is left of matches in order is in order. -/
theorem InOrder.filter (h : InOrder first last found) (keep : Match → Bool) :
    InOrder first last (found.filter keep) :=
  ⟨fun m hm => h.first_le m (List.mem_of_mem_filter hm),
    fun m hm => h.start_le m (List.mem_of_mem_filter hm),
    fun m hm => h.stop_le m (List.mem_of_mem_filter hm), h.apart.filter keep⟩

/-- Byte offsets are in order as the characters are. -/
theorem InOrder.inBytes {input : Array Char} (h : InOrder first last found)
    (hlast : last ≤ input.size) :
    InOrder (Text.byteOffset input first) (Text.byteOffset input last)
      (found.map (·.inBytes input)) := by
  constructor
  · exact List.forall_mem_map.mpr fun m hm => Text.byteOffset_mono input (h.first_le m hm)
  · exact List.forall_mem_map.mpr fun m hm => Text.byteOffset_mono input (h.start_le m hm)
  · exact List.forall_mem_map.mpr fun m hm => Text.byteOffset_mono input (h.stop_le m hm)
  · refine List.pairwise_map.mpr (h.apart.imp_of_mem fun {m m'} _ hm' hlt => ⟨?_, ?_⟩)
    · have hinside := Nat.le_trans (h.start_le m' hm') (Nat.le_trans (h.stop_le m' hm') hlast)
      exact Text.byteOffset_lt input hlt.1 hinside
    · exact Text.byteOffset_mono input hlt.2

end Match

/-! All matches. -/

namespace Context

variable {c d ctx : Context} {x : Searcher} {e : Error} {m : Match} {start : Nat}
  {full anchored : Bool}

end Context

end RegexEngine
