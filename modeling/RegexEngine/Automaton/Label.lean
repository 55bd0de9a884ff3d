import RegexEngine.Automaton.Matcher

/-!
Labels of transitions. A label is a text together with the matcher that it spells, so that a text
that spells none cannot stand on a transition, and a matcher never has to be made twice.
-/

namespace RegexEngine

structure Label where
  text : List Char
  matcher : Matcher
  valid : Matcher.parse text = .ok matcher

namespace Label

def ofChars (text : List Char) : Except Error Label :=
  match h : Matcher.parse text with
  | .ok matcher => .ok ⟨text, matcher, h⟩
  | .error e => .error e

def ofText (text : String) : Except Error Label := ofChars text.toList

theorem eq_of_text {a b : Label} (h : a.text = b.text) : a = b := by
  obtain ⟨text, matcher, valid⟩ := a
  obtain ⟨text', matcher', valid'⟩ := b
  cases h
  cases valid.symm.trans valid'
  rfl

instance : DecidableEq Label := fun a b =>
  if h : a.text = b.text then .isTrue (eq_of_text h) else .isFalse fun e => h (e ▸ rfl)

def toString (label : Label) : String := String.ofList label.text

end Label

end RegexEngine
