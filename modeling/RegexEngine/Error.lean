import RegexEngine.Text.Basic

/-!
Errors of the engine. An error is a cause, and the byte offset of the pattern where it was noticed,
if there is one. What went wrong is a constructor; its kind and its wording are functions of it, so
that each text stands in one place. Messages are bounded: what exceeds `maxMessageBytes` is cut at
the last character that still fits.
-/

namespace RegexEngine

/-- The kinds of errors, each with a stable code. -/
inductive ErrorKind
  | noError | memory | parameter | internal | grammar | escape | bufferOverflow
  | unsupportedFeature | limit | timeout | automaton | bytecode | conversion | unexpectedToken
  | allocation | unsupportedOperation
deriving DecidableEq, Repr

namespace ErrorKind

def all : List ErrorKind :=
  [noError, memory, parameter, internal, grammar, escape, bufferOverflow, unsupportedFeature,
   limit, timeout, automaton, bytecode, conversion, unexpectedToken, allocation,
   unsupportedOperation]

def code (kind : ErrorKind) : Nat := all.idxOf kind

def ofCode? (code : Nat) : Option ErrorKind := all[code]?

def name : ErrorKind → String
  | noError => "NONE"
  | memory => "MEMORY"
  | parameter => "INVALID_PARAMETER"
  | internal => "INTERNAL"
  | grammar => "SYNTAX"
  | escape => "INVALID_ESCAPE"
  | bufferOverflow => "BUFFER_OVERFLOW"
  | unsupportedFeature => "UNSUPPORTED_FEATURE"
  | limit => "LIMIT_EXCEEDED"
  | timeout => "TIMEOUT"
  | automaton => "INVALID_AUTOMATON"
  | bytecode => "INVALID_BYTECODE"
  | conversion => "CONVERSION_FAILED"
  | unexpectedToken => "UNEXPECTED_TOKEN"
  | allocation => "MEMORY_ALLOCATION"
  | unsupportedOperation => "UNSUPPORTED_OPERATION"

end ErrorKind

/-- A coarser classification of errors, for hosts. -/
inductive Status
  | success | allocation | parameter | internal | bufferOverflow | limit | timeout | grammar
  | unsupported | invalidData | unknown
deriving DecidableEq, Repr

namespace Status

def name : Status → String
  | success => "Ok"
  | allocation => "MemoryAllocation"
  | parameter => "InvalidParameter"
  | internal => "Internal"
  | bufferOverflow => "BufferOverflow"
  | limit => "LimitExceeded"
  | timeout => "Timeout"
  | grammar => "Syntax"
  | unsupported => "Unsupported"
  | invalidData => "InvalidData"
  | unknown => "Unknown"

/-- What a command line program exits with: 0 for success, 2 for bad arguments, 3 for a pattern
that does not compile, 1 for all else. -/
def exitCode : Status → Nat
  | success => 0
  | parameter => 2
  | grammar | unsupported => 3
  | _ => 1

def ofKind : ErrorKind → Status
  | .noError => success
  | .memory | .allocation => allocation
  | .parameter => parameter
  | .internal => internal
  | .bufferOverflow => bufferOverflow
  | .limit => limit
  | .timeout => timeout
  | .grammar | .escape | .unexpectedToken => grammar
  | .unsupportedFeature | .unsupportedOperation => unsupported
  | .automaton | .bytecode | .conversion => invalidData

def kind : Status → ErrorKind
  | success => .noError
  | allocation => .memory
  | parameter => .parameter
  | bufferOverflow => .bufferOverflow
  | limit => .limit
  | timeout => .timeout
  | grammar => .grammar
  | unsupported => .unsupportedFeature
  | invalidData => .bytecode
  | internal | unknown => .internal

end Status

inductive NameFault
  | emptyName | leadingDigit | badCharacter
deriving DecidableEq, Repr

def NameFault.message : NameFault → String
  | emptyName => "empty name"
  | leadingDigit => "names can't start with a digit"
  | badCharacter => "only letters, digits and `_` are allowed"

/-- What can be wrong with a pattern or with a piece of one. -/
inductive PatternFault
  | trailingAfterClass | escapeIsNoClass | classExpected | bracketExpected | unclosedClass
  | unmatchedDash | reversedClassRange | emptyClass | unclosedPosix | unknownPosix (name : String)
  | danglingBackslash | unclosedProperty | badProperty | unclosedHex | shortHex | badCodePoint
  | unknownEscape (c : Char) | needlessEscape (c : Char) | namelessBackref
  | unknownProperty (name : String) | rawNeedsFlag | rawDisabled | unknownVerb (name : String)
  | mismatchedQuotes (opened closed : Char) | unterminatedRaw
  | unclosedComment | unclosedGroupName | unclosedBackref | unclosedGroup | unclosedCondition
  | emptyCondition | badModifier (c : Char) | unclosedCount | countTooLarge | reversedCount
  | strayParenthesis | missingParenthesis | nothingToRepeat | nestedQuantifier | tooManyBranches
  | duplicateGroup (name : String) | unknownOption (c : Char)
  | badBackref (number groups : Nat) | undefinedBackref (name : String)
  | conditionOnGroup (number : Nat) | conditionOnName (name : String)
  | quantifiedAssertion | reversedRepetition | badGroupName (name : String) (fault : NameFault)
  | undefinedGroup (number : Nat) | undefinedName (name : String)
deriving DecidableEq, Repr

namespace PatternFault

def kind : PatternFault → ErrorKind
  | danglingBackslash | unclosedProperty | badProperty | unclosedHex | shortHex | badCodePoint
  | unknownEscape _ | needlessEscape _ | namelessBackref => .escape
  | unknownProperty _ | rawNeedsFlag | rawDisabled | unknownVerb _ => .unsupportedFeature
  | _ => .grammar

def message : PatternFault → String
  | trailingAfterClass => "unexpected characters after character class"
  | escapeIsNoClass => "escape sequence is not a character class"
  | classExpected => "expecting a character class"
  | bracketExpected => "expecting '['"
  | unclosedClass => "unclosed character class"
  | unmatchedDash => "unmatched '-' in character class"
  | reversedClassRange => "invalid range in character class"
  | emptyClass => "empty character class"
  | unclosedPosix => "unclosed POSIX character class"
  | unknownPosix name => "unknown POSIX class name `" ++ name ++ "`"
  | danglingBackslash => "pattern ends with a backslash"
  | unclosedProperty => "unclosed Unicode property"
  | badProperty => "invalid Unicode property escape"
  | unclosedHex => "unclosed hex escape"
  | shortHex => "hex escape needs two digits"
  | badCodePoint => "invalid code point in hex escape"
  | unknownEscape c => "unknown escape sequence `\\" ++ c.toString ++ "`"
  | needlessEscape c => "unnecessary escape `\\" ++ c.toString ++ "`"
  | namelessBackref => "`\\k` must be followed by a group name"
  | unknownProperty name => "unknown Unicode property `" ++ name ++ "`"
  | rawNeedsFlag => "raw literal patterns require the RIFT_SYNTAX flag"
  | rawDisabled => "raw literal patterns are disabled"
  | unknownVerb name => "unknown backtracking verb `(*" ++ name ++ ")`"
  | mismatchedQuotes opened closed =>
    "raw literal opened with " ++ opened.toString ++ " can't be closed with " ++ closed.toString
  | unterminatedRaw => "unterminated raw literal"
  | unclosedComment => "unclosed comment"
  | unclosedGroupName => "unclosed group name"
  | unclosedBackref => "unclosed backreference"
  | unclosedGroup => "unclosed group"
  | unclosedCondition => "unclosed condition"
  | emptyCondition => "empty condition"
  | badModifier c => "unexpected `" ++ c.toString ++ "` in group modifiers"
  | unclosedCount => "unclosed counted repetition"
  | countTooLarge => "repetition count is too large"
  | reversedCount => "invalid range in counted repetition"
  | strayParenthesis => "unbalanced parenthesis, unexpected ')'"
  | missingParenthesis => "unbalanced parenthesis, missing ')'"
  | nothingToRepeat => "nothing to repeat"
  | nestedQuantifier => "nested quantifier, use a group to repeat a repetition"
  | tooManyBranches => "conditional group with more than two branches"
  | duplicateGroup name => "duplicate group name `" ++ name ++ "`"
  | unknownOption c => "unknown option flag `" ++ c.toString ++ "`"
  | badBackref number groups =>
    "invalid backreference \\" ++ toString number ++ ", the pattern has " ++ toString groups
      ++ " groups"
  | undefinedBackref name => "backreference to undefined group `" ++ name ++ "`"
  | conditionOnGroup number => "condition refers to undefined group " ++ toString number
  | conditionOnName name => "condition refers to undefined group `" ++ name ++ "`"
  | quantifiedAssertion => "quantifier applied to an assertion"
  | reversedRepetition => "numbers out of order in repetition"
  | badGroupName name fault => "invalid group name `" ++ name ++ "`: " ++ fault.message
  | undefinedGroup number => "reference to undefined group " ++ toString number
  | undefinedName name => "reference to undefined group `" ++ name ++ "`"

end PatternFault

inductive LimitFault
  | groupNesting (limit : Nat) | treeNesting (depth limit : Nat) | patternBytes (length limit : Nat)
  | captureGroups (count limit : Nat) | states (limit : Nat) | pendingDepth (limit : Nat)
  | transitions (limit : Nat) | bailedOut | instructions | poolBytes | classBytes
  | groupOperand | programBytes | deadline
deriving DecidableEq, Repr

namespace LimitFault

def kind : LimitFault → ErrorKind
  | deadline => .timeout
  | _ => .limit

def message : LimitFault → String
  | groupNesting limit => "groups nested more than " ++ toString limit ++ " levels deep"
  | treeNesting depth limit =>
    "pattern nested " ++ toString depth ++ " levels deep, the maximum is " ++ toString limit
  | patternBytes length limit =>
    "pattern is " ++ toString length ++ " bytes long, the maximum is " ++ toString limit
  | captureGroups count limit =>
    "pattern has " ++ toString count ++ " capture groups, the maximum is " ++ toString limit
  | states limit => "pattern needs more than " ++ toString limit ++ " states"
  | pendingDepth limit => "backtracking depth limit (" ++ toString limit ++ ") reached"
  | transitions limit => "more than " ++ toString limit ++ " transitions"
  | bailedOut => "match aborted by bailout strategy"
  | instructions => "too many instructions"
  | poolBytes => "class pool too large"
  | classBytes => "class spec too large"
  | groupOperand => "too many capture groups"
  | programBytes => "program too large to serialize"
  | deadline => "match timed out"

end LimitFault

/-- What can be wrong with an automaton, or not be done to it. -/
inductive AutomatonFault
  | initialOutside | currentOutside | duplicateId | endpointOutside | bodyOutside
  | epsilonInDfa | noInitial | withoutInitial | tooManySubsets (limit : Nat)
  | notConvertible | multiCharacter | notDeterministic | capturesInDfa | missingState (index : Nat)
deriving DecidableEq, Repr

namespace AutomatonFault

def kind : AutomatonFault → ErrorKind
  | initialOutside | currentOutside | duplicateId | endpointOutside | bodyOutside
  | missingState _ => .internal
  | epsilonInDfa | noInitial | withoutInitial | tooManySubsets _ => .automaton
  | notConvertible | multiCharacter | notDeterministic | capturesInDfa => .unsupportedOperation

def message : AutomatonFault → String
  | initialOutside => "initial state not in state list"
  | currentOutside => "current state not in state list"
  | duplicateId => "duplicate state identifier"
  | endpointOutside => "transition endpoint not in state list"
  | bodyOutside => "action body not in state list"
  | epsilonInDfa => "DFA with epsilon transitions"
  | noInitial => "automaton has no initial state"
  | withoutInitial => "automaton without initial state"
  | tooManySubsets limit => "subset construction exceeded " ++ toString limit ++ " states"
  | notConvertible =>
    "automata with assertions, lookarounds or backreferences can't be converted into a DFA"
  | multiCharacter => "multi-character transitions can't be converted into a DFA"
  | notDeterministic => "only deterministic automata can be minimized"
  | capturesInDfa => "patterns with capture groups can't be converted into a DFA"
  | missingState index => "state " ++ toString index ++ " not in automaton"

end AutomatonFault

/-- What can be wrong with a program, or not be expressed as one. -/
inductive ProgramFault
  | noInstructions | badTarget (name : String) (at_ target : Nat)
  | badGroup (name : String) (at_ group groups : Nat) | badClass (at_ : Nat)
  | malformedRepeat (at_ : Nat) | unmatchedRepeatStart (at_ : Nat) | unmatchedRepeatEnd (at_ : Nat)
  | badAssertions (at_ : Nat) | emptyClassReference | classOutside (offset length : Nat)
  | classRefused (reason : String) | truncatedHeader | notAProgram | badByteOrder
  | unknownVersion (version : Nat) | unknownFlags | tooManyGroups (count limit : Nat)
  | truncatedInstructions | unendedPattern | patternEncoding | unusedGroups (count used : Nat)
  | poolEncoding | trailingBytes | badBoolean (value opcode : Nat) | badCharacter (value : Nat)
  | unknownAssertions | unknownOpcode (opcode : Nat) | truncated
  | outside (at_ : Nat) | badClassReference | repeatOutside (at_ : Nat) | noRepeatStart (at_ : Nat)
  | noCounter | notLowered (state : Nat)
  | atomicGroup | conditional | commitVerb | possessiveRepetition
deriving DecidableEq, Repr

namespace ProgramFault

def address (n : Nat) : String := Text.hexPadded 5 n

/-- A number as two hexadecimal digits after the usual mark. -/
def hexByte (n : Nat) : String := "0x" ++ Text.hexPadded 2 n

def kind : ProgramFault → ErrorKind
  | noCounter | notLowered _ => .internal
  | atomicGroup | conditional | commitVerb | possessiveRepetition => .unsupportedOperation
  | _ => .bytecode

def message : ProgramFault → String
  | noInstructions => "program has no instructions"
  | badTarget name at_ target =>
    name ++ " at " ++ address at_ ++ " targets " ++ address target ++ ", outside the program"
  | badGroup name at_ group groups =>
    name ++ " at " ++ address at_ ++ " refers to group " ++ toString group ++ ", the program has "
      ++ toString groups
  | badClass at_ => "MATCH_CLASS at " ++ address at_ ++ " has an invalid class reference"
  | malformedRepeat at_ => "malformed REPEAT_START at " ++ address at_
  | unmatchedRepeatStart at_ => "REPEAT_START at " ++ address at_ ++ " without matching REPEAT_END"
  | unmatchedRepeatEnd at_ => "REPEAT_END at " ++ address at_ ++ " without matching REPEAT_START"
  | badAssertions at_ => "BOUNDARY at " ++ address at_ ++ " has invalid assertions"
  | emptyClassReference => "empty class reference"
  | classOutside offset length =>
    "class reference " ++ toString offset ++ "+" ++ toString length ++ " out of pool bounds"
  | classRefused reason => reason
  | truncatedHeader => "truncated header"
  | notAProgram => "not a bytecode program"
  | badByteOrder => "invalid endianness marker"
  | unknownVersion version => "unsupported bytecode version " ++ toString version
  | unknownFlags => "unknown flags"
  | tooManyGroups count limit =>
    "program declares " ++ toString count ++ " capture groups, the maximum is " ++ toString limit
  | truncatedInstructions => "truncated instructions"
  | unendedPattern => "pattern is not nul-terminated"
  | patternEncoding => "pattern is not valid UTF-8"
  | unusedGroups count used =>
    "program declares " ++ toString count ++ " capture groups but uses " ++ toString used
  | poolEncoding => "class pool is not valid UTF-8"
  | trailingBytes => "trailing bytes after program"
  | badBoolean value opcode =>
    "invalid boolean operand " ++ toString value ++ " for opcode " ++ hexByte opcode
  | badCharacter value => "invalid character 0x" ++ Text.hex value
  | unknownAssertions => "unknown assertion flags"
  | unknownOpcode opcode => "unknown opcode " ++ hexByte opcode
  | truncated => "truncated program"
  | outside at_ => "instruction " ++ address at_ ++ " out of program"
  | badClassReference => "invalid class reference"
  | repeatOutside at_ => "REPEAT_END at " ++ address at_ ++ " outside its repetition"
  | noRepeatStart at_ => "no REPEAT_START at " ++ address at_
  | noCounter => "repetition without counter"
  | notLowered state => "state " ++ toString state ++ " not lowered to bytecode"
  | atomicGroup => "atomic groups can't be compiled to bytecode"
  | conditional => "conditionals can't be compiled to bytecode"
  | commitVerb => "(*COMMIT) can't be compiled to bytecode"
  | possessiveRepetition => "possessive repetitions can't be compiled to bytecode"

end ProgramFault

inductive CallFault
  | emptyLabel | mixedLabel | stateIndex (index count : Nat) | transitionIndex (index : Nat)
  | slotCount (wanted found : Nat) | scope (wanted found : String) | notABoundary (position : Nat)
  | atEndOfInput | badRegion (start stop length : Nat) | unknownLexeme (number : Nat)
  | nothingToCombine | nothingToSequence | unknownFlag (name : String) | badSettings
deriving DecidableEq, Repr

def CallFault.message : CallFault → String
  | emptyLabel => "transition pattern can't be empty"
  | mixedLabel => "a transition pattern can't mix classes and literals"
  | stateIndex index count =>
    "state index " ++ toString index ++ " out of bounds (" ++ toString count ++ " states)"
  | transitionIndex index => "transition index " ++ toString index ++ " out of bounds"
  | slotCount wanted found =>
    "expecting " ++ toString wanted ++ " capture slots, got " ++ toString found
  | scope wanted found => "expecting a config with " ++ wanted ++ " scope, got " ++ found
  | notABoundary position =>
    "position " ++ toString position ++ " is not a character boundary of the input"
  | atEndOfInput => "already at the end of the input"
  | badRegion start stop length =>
    "invalid region " ++ toString start ++ ".." ++ toString stop ++ " for input of length "
      ++ toString length
  | unknownLexeme number => "unknown baseline pattern " ++ toString number
  | nothingToCombine => "no baseline patterns to combine"
  | nothingToSequence => "no baseline patterns to sequence"
  | unknownFlag name => "unknown flag `" ++ name ++ "`"
  | badSettings => "malformed settings"

inductive ConversionFault
  | notAPattern | malformed
deriving DecidableEq, Repr

def ConversionFault.message : ConversionFault → String
  | notAPattern => "not a serialized pattern"
  | malformed => "malformed serialized pattern"

/-- Why an operation failed. -/
inductive Cause
  | pattern (fault : PatternFault)
  | limit (fault : LimitFault)
  | automaton (fault : AutomatonFault)
  | program (fault : ProgramFault)
  | call (fault : CallFault)
  | conversion (fault : ConversionFault)
  | custom (kind : ErrorKind) (message : String)
deriving DecidableEq, Repr

namespace Cause

def kind : Cause → ErrorKind
  | pattern fault => fault.kind
  | limit fault => fault.kind
  | automaton fault => fault.kind
  | program fault => fault.kind
  | call _ => .parameter
  | conversion _ => .conversion
  | custom kind _ => kind

def wording : Cause → String
  | pattern fault => fault.message
  | limit fault => fault.message
  | automaton fault => fault.message
  | program fault => fault.message
  | call fault => fault.message
  | conversion fault => fault.message
  | custom _ message => message

end Cause

def maxMessageBytes : Nat := 256

/-- A failure of the engine: its cause, and the byte offset of the pattern where it was noticed. -/
structure Error where
  cause : Cause
  position : Option Nat
deriving DecidableEq, Repr

namespace Error

def kind (e : Error) : ErrorKind := e.cause.kind

/-- The message of an error, cut to its greatest length. -/
def message (e : Error) : String :=
  String.ofList (Text.takeBytes e.cause.wording.toList maxMessageBytes)

/-- The message, and the offset if there is one. -/
def text (e : Error) : String :=
  match e.position with
  | some position => e.message ++ " at offset " ++ toString position
  | none => e.message

/-- An error without a place. -/
def of (cause : Cause) : Error := ⟨cause, none⟩

def at_ (e : Error) (position : Nat) : Error := { e with position := some position }

/-- The same error in a text that stands `n` bytes further on. -/
def shift (e : Error) (n : Nat) : Error := { e with position := some (e.position.getD 0 + n) }

end Error

def PatternFault.errorAt (fault : PatternFault) (position : Nat) : Error :=
  ⟨.pattern fault, some position⟩

/-- A fault of a pattern that has no place of its own. -/
def PatternFault.error (fault : PatternFault) : Error := .of (.pattern fault)

def LimitFault.error (fault : LimitFault) : Error := .of (.limit fault)

def AutomatonFault.error (fault : AutomatonFault) : Error := .of (.automaton fault)

def ProgramFault.error (fault : ProgramFault) : Error := .of (.program fault)

def CallFault.error (fault : CallFault) : Error := .of (.call fault)

end RegexEngine
