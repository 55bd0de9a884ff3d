import RegexEngine.Automaton.Matcher
import RegexEngine.Proofs.CharClass.Spec
import RegexEngine.Proofs.Steps

/-!
The strict reading of classes refuses some texts, and reads all others as the usual reading does. So
a class that passed the check of a strict pattern means the same as the text of a label.
-/

namespace RegexEngine

open Text (Cursor)

theorem readEscape_of_strict {cur : Cursor} {found : Escaped × Cursor}
    (h : readEscape true cur = .ok found) : readEscape false cur = .ok found := by
  unfold readEscape at h ⊢
  split at h
  · cases h
  · rename_i c rest _
    by_cases hneedless : (true && !isMeta c) = true
    · rw [if_pos hneedless] at h
      split at h
      · exact h
      · exact h
      · split at h
        · rw [if_pos ‹_›]
          exact h
        · rw [if_neg ‹_›]
          split at h
          · rw [if_pos ‹_›]
            exact h
          · split at h
            · cases h
            · cases h
    · rw [if_neg hneedless] at h
      rw [Bool.false_and, if_neg Bool.false_ne_true]
      exact h

namespace CharClass

theorem readBackslash_of_strict {cur : Cursor} {found : Escaped × Cursor}
    (h : readBackslash true cur = .ok found) : readBackslash false cur = .ok found := by
  unfold readBackslash at h ⊢
  split at h
  · rename_i hescape
    rw [readEscape_of_strict hescape]
    exact h
  · cases h

theorem readAtom_of_strict {cur : Cursor} {c : Char} {found : Escaped × Cursor}
    (h : readAtom true cur c = .ok found) : readAtom false cur c = .ok found := by
  unfold readAtom at h ⊢
  split at h
  · rw [if_pos ‹_›]
    exact h
  · rw [if_neg ‹_›]
    split at h
    · rw [if_pos ‹_›]
      exact readBackslash_of_strict h
    · rw [if_neg ‹_›]
      exact h

theorem readRangeEnd_of_strict {dash : Cursor} {c : Char} {found : Char × Cursor}
    (h : readRangeEnd true dash c = .ok found) : readRangeEnd false dash c = .ok found := by
  unfold readRangeEnd at h ⊢
  dsimp only at h ⊢
  split at h
  · rw [if_pos ‹_›]
    exact h
  · rw [if_neg ‹_›]
    obtain ⟨atom, hatom, hread⟩ := bind_eq_ok.mp h
    exact bind_eq_ok.mpr ⟨atom, readAtom_of_strict hatom, hread⟩

theorem readItem_of_strict {cur : Cursor} {c : Char} {found : ClassItem × Cursor}
    (h : readItem true cur c = .ok found) : readItem false cur c = .ok found := by
  unfold readItem at h ⊢
  obtain ⟨⟨atom, after⟩, hatom, hread⟩ := bind_eq_ok.mp h
  refine bind_eq_ok.mpr ⟨(atom, after), readAtom_of_strict hatom, ?_⟩
  dsimp only at hread ⊢
  split at hread
  · split at hread
    · exact hread
    · obtain ⟨⟨last, rest⟩, hlast, hread⟩ := bind_eq_ok.mp hread
      exact bind_eq_ok.mpr ⟨(last, rest), readRangeEnd_of_strict hlast, hread⟩
  · exact hread

theorem readItems_of_strict {opened fuel : Nat} {cur : Cursor} {found : List ClassItem × Cursor}
    (h : readItems true opened fuel cur = .ok found) :
    readItems false opened fuel cur = .ok found := by
  induction fuel generalizing cur found with
  | zero => exact h
  | succ fuel ih =>
    unfold readItems at h ⊢
    split at h
    · exact h
    · exact h
    · obtain ⟨⟨item, after⟩, hitem, h⟩ := bind_eq_ok.mp h
      obtain ⟨⟨items, rest⟩, hitems, h⟩ := bind_eq_ok.mp h
      exact bind_eq_ok.mpr ⟨_, readItem_of_strict hitem, bind_eq_ok.mpr ⟨_, ih hitems, h⟩⟩

theorem read_of_strict {cur : Cursor} {found : CharClass × Cursor}
    (h : read true cur = .ok found) : read false cur = .ok found := by
  unfold read at h ⊢
  split at h
  · unfold readBracket at h ⊢
    split at h
    · obtain ⟨⟨items, after⟩, hitems, h⟩ := bind_eq_ok.mp h
      exact bind_eq_ok.mpr ⟨_, readItems_of_strict hitems, h⟩
    · exact h
  · obtain ⟨⟨escaped, after⟩, hescaped, h⟩ := bind_eq_ok.mp h
    exact bind_eq_ok.mpr ⟨_, readBackslash_of_strict hescaped, h⟩
  · exact h

/-- What the strict reading of a class allows, the other reading reads in the same way. -/
theorem parseWith_of_strict {strict : Bool} {spec : List Char} {cls : CharClass}
    (h : parseWith strict spec = .ok cls) : parseWith false spec = .ok cls := by
  cases strict with
  | false => exact h
  | true =>
    unfold parseWith at h ⊢
    obtain ⟨⟨found, after⟩, hread, h⟩ := bind_eq_ok.mp h
    exact bind_eq_ok.mpr ⟨_, read_of_strict hread, h⟩

end CharClass

namespace Matcher

/-- A text that is a class as a whole begins with a bracket, or is one escape. -/
theorem parseWith_cases {spec : List Char} {set : CharClass}
    (h : CharClass.parseWith false spec = .ok set) :
    (∃ rest, spec = '[' :: rest) ∨
      ∃ rest part after, spec = '\\' :: rest ∧
        readEscape false ((Cursor.start spec).drop 1) = .ok (.item part, after) ∧
          after.atEnd = true := by
  unfold CharClass.parseWith at h
  obtain ⟨⟨cls, after⟩, hread, h⟩ := bind_eq_ok.mp h
  have hend : after.atEnd = true := by
    dsimp only at h
    split at h
    · assumption
    · cases h
  unfold CharClass.read at hread
  split at hread
  · exact .inl ⟨_, ‹_›⟩
  · obtain ⟨⟨escaped, next⟩, hescape, hread⟩ := bind_eq_ok.mp hread
    unfold CharClass.readBackslash at hescape
    split at hescape
    · cases hescape
      cases escaped with
      | char c => cases hread
      | item part =>
        cases hread
        exact .inr ⟨_, part, _, ‹_›, ‹_›, hend⟩
    · cases hescape
  · cases hread

/-- The label of a class. -/
theorem parse_cls (nocase : Bool) {spec : List Char} {set : CharClass}
    (h : CharClass.parseWith false spec = .ok set) :
    parse ((if nocase then nocaseMark else []) ++ spec) = .ok (.cls set nocase) := by
  rcases parseWith_cases h with ⟨rest, rfl⟩ | ⟨rest, part, after, rfl, hescape, hend⟩
  · have hstrip := stripMarks_marked nocase ('[' :: rest) (by simp)
    unfold parse
    rw [hstrip]
    dsimp only
    rw [h]
    rfl
  · have hstrip := stripMarks_marked nocase ('\\' :: rest) (by simp)
    have hchars : readChars nocase ('\\' :: rest) true ((rest.length + 1) + 1)
        (.start ('\\' :: rest)) = .ok (.cls set nocase) := by
      rw [readChars]
      simp only [Cursor.start] at hescape ⊢
      rw [hescape]
      simp only [hend, h]
      rfl
    unfold parse
    rw [hstrip]
    exact hchars

end Matcher

end RegexEngine
