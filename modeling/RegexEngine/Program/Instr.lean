import RegexEngine.Automaton.State

/-!
Instructions of programs. An instruction refers to others by their addresses, which count from the
start of the program. Operands are words of 32 bits wherever they are stored, and the greatest word
stands for a repetition without an upper bound.
-/

namespace RegexEngine

inductive Instr
  /-- Does nothing. -/
  | nop
  /-- Takes a character. -/
  | char (c : Char) (nocase : Bool)
  /-- Takes a character of the class that stands at a place of the pool. -/
  | cls (offset length : Nat)
  /-- Takes any character, a line end only if `dotAll` says so. -/
  | any (dotAll : Bool)
  /-- Goes on elsewhere. -/
  | jump (target : Nat)
  /-- Goes on at the first address, and if that fails at the second. -/
  | split (first second : Nat)
  /-- Opens a capture group. -/
  | openGroup (group : Nat)
  /-- Closes a capture group. -/
  | closeGroup (group : Nat)
  /-- Starts a counted repetition of what stands between here and its end. -/
  | repeatStart (min : Nat) (max : Option Nat) (greedy : Bool) (stop : Nat)
  /-- Ends a round of the repetition that starts at an address. -/
  | repeatEnd (start : Nat)
  /-- Goes on if all assertions hold. -/
  | boundary (marks : Marks)
  /-- Takes the text of a group once more. -/
  | backref (group : Nat) (nocase : Bool)
  /-- Goes on at `next` if a lookaround holds, whose body ends at an `accept`. -/
  | look (kind : LookKind) (body next : Nat)
  /-- Ends the match, or the body. -/
  | accept
  /-- Gives up the current way. -/
  | fail
deriving DecidableEq, Repr

namespace Instr

def opcode : Instr → Nat
  | nop => 0x00
  | char _ _ => 0x01
  | cls _ _ => 0x02
  | any _ => 0x03
  | jump _ => 0x04
  | split _ _ => 0x05
  | openGroup _ => 0x06
  | closeGroup _ => 0x07
  | repeatStart _ _ _ _ => 0x08
  | repeatEnd _ => 0x09
  | boundary _ => 0x0A
  | backref _ _ => 0x0B
  | look kind _ _ => if kind.isNegative then 0x0D else 0x0C
  | accept => 0x0E
  | fail => 0x0F

def name : Instr → String
  | nop => "NOP"
  | char _ _ => "MATCH_CHAR"
  | cls _ _ => "MATCH_CLASS"
  | any _ => "MATCH_ANY"
  | jump _ => "JUMP"
  | split _ _ => "SPLIT"
  | openGroup _ => "SAVE_START"
  | closeGroup _ => "SAVE_END"
  | repeatStart _ _ _ _ => "REPEAT_START"
  | repeatEnd _ => "REPEAT_END"
  | boundary _ => "BOUNDARY"
  | backref _ _ => "BACKREF"
  | look kind _ _ => if kind.isNegative then "NEG_LOOKAHEAD" else "LOOKAHEAD"
  | accept => "ACCEPT"
  | fail => "FAIL"

/-- The upper bound that a repetition has: the greatest word is none. -/
def bound (max : Option Nat) : Option Nat := max.filter (· < Text.maxWord32)

def targets : Instr → List Nat
  | jump target => [target]
  | split first second => [first, second]
  | look _ body next => [body, next]
  | repeatStart _ _ _ stop => [stop]
  | repeatEnd start => [start]
  | _ => []

def mapTargets (move : Nat → Nat) : Instr → Instr
  | jump target => jump (move target)
  | split first second => split (move first) (move second)
  | look kind body next => look kind (move body) (move next)
  | repeatStart min max greedy stop => repeatStart min max greedy (move stop)
  | repeatEnd start => repeatEnd (move start)
  | other => other

def group? : Instr → Option Nat
  | openGroup group | closeGroup group | backref group _ => some group
  | _ => none

def lookKind (negative behind : Bool) : LookKind :=
  match negative, behind with
  | false, false => .ahead
  | true, false => .notAhead
  | false, true => .behind
  | true, true => .notBehind

end Instr

end RegexEngine
