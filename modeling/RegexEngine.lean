import RegexEngine.Automaton.Basic
import RegexEngine.Automaton.Code
import RegexEngine.Automaton.Determinize
import RegexEngine.Automaton.Intervals
import RegexEngine.Automaton.Label
import RegexEngine.Automaton.Listing
import RegexEngine.Automaton.Lockstep
import RegexEngine.Automaton.Longest
import RegexEngine.Automaton.Matcher
import RegexEngine.Automaton.Minimal
import RegexEngine.Automaton.OfTree
import RegexEngine.Automaton.Simplify
import RegexEngine.Automaton.State
import RegexEngine.Bytes.Codec
import RegexEngine.Bytes.Hex
import RegexEngine.CharClass.Basic
import RegexEngine.CharClass.Parser
import RegexEngine.CharRanges
import RegexEngine.Config.Basic
import RegexEngine.Config.Document
import RegexEngine.Engine
import RegexEngine.Error
import RegexEngine.Flags
import RegexEngine.Graph
import RegexEngine.Lexeme
import RegexEngine.LookKind
import RegexEngine.Pattern.Basic
import RegexEngine.Pattern.Digest
import RegexEngine.Pattern.Fingerprint
import RegexEngine.Pattern.Stored
import RegexEngine.Program.Basic
import RegexEngine.Program.ClassPool
import RegexEngine.Program.Code
import RegexEngine.Program.Instr
import RegexEngine.Program.Listing
import RegexEngine.Program.OfAutomaton
import RegexEngine.Program.OfTree
import RegexEngine.Program.Stored
import RegexEngine.Proofs.Automaton.Actions
import RegexEngine.Proofs.Automaton.Bare
import RegexEngine.Proofs.Automaton.Bridges
import RegexEngine.Proofs.Automaton.Charts
import RegexEngine.Proofs.Automaton.Compiled
import RegexEngine.Proofs.Automaton.Crossings
import RegexEngine.Proofs.Automaton.Determines
import RegexEngine.Proofs.Automaton.Determinize
import RegexEngine.Proofs.Automaton.Fragments
import RegexEngine.Proofs.Automaton.Halting
import RegexEngine.Proofs.Automaton.Independence
import RegexEngine.Proofs.Automaton.Integrity
import RegexEngine.Proofs.Automaton.Intervals
import RegexEngine.Proofs.Automaton.Language
import RegexEngine.Proofs.Automaton.Layout
import RegexEngine.Proofs.Automaton.Levels
import RegexEngine.Proofs.Automaton.Looks
import RegexEngine.Proofs.Automaton.Minimal
import RegexEngine.Proofs.Automaton.Monotone
import RegexEngine.Proofs.Automaton.MoveTable
import RegexEngine.Proofs.Automaton.OfTree
import RegexEngine.Proofs.Automaton.Partition
import RegexEngine.Proofs.Automaton.Plans
import RegexEngine.Proofs.Automaton.Quotient
import RegexEngine.Proofs.Automaton.Repetitions
import RegexEngine.Proofs.Automaton.Retain
import RegexEngine.Proofs.Automaton.Rounds
import RegexEngine.Proofs.Automaton.Runs
import RegexEngine.Proofs.Automaton.Secluded
import RegexEngine.Proofs.Automaton.Settles
import RegexEngine.Proofs.Automaton.Shortcuts
import RegexEngine.Proofs.Automaton.Sites
import RegexEngine.Proofs.Automaton.Stops
import RegexEngine.Proofs.Automaton.Subsets
import RegexEngine.Proofs.Automaton.Trim
import RegexEngine.Proofs.Automaton.Ways
import RegexEngine.Proofs.Automaton.Words
import RegexEngine.Proofs.CharClass.Escape
import RegexEngine.Proofs.CharClass.Extent
import RegexEngine.Proofs.CharClass.Ranges
import RegexEngine.Proofs.CharClass.Spec
import RegexEngine.Proofs.CharClass.Strict
import RegexEngine.Proofs.CharRanges.Algebra
import RegexEngine.Proofs.CharRanges.Normal
import RegexEngine.Proofs.Flags.Apart
import RegexEngine.Proofs.Graph
import RegexEngine.Proofs.Pattern.Abandoned
import RegexEngine.Proofs.Pattern.Accepted
import RegexEngine.Proofs.Pattern.Captures
import RegexEngine.Proofs.Pattern.Deterministic
import RegexEngine.Proofs.Pattern.Optimized
import RegexEngine.Proofs.Program.Blocks
import RegexEngine.Proofs.Program.Charts
import RegexEngine.Proofs.Program.Condensed
import RegexEngine.Proofs.Program.Contents
import RegexEngine.Proofs.Program.Counters
import RegexEngine.Proofs.Program.Monotone
import RegexEngine.Proofs.Program.Room
import RegexEngine.Proofs.Program.Skipping
import RegexEngine.Proofs.Program.Stored
import RegexEngine.Proofs.Program.Ways
import RegexEngine.Proofs.Search.Abandoned
import RegexEngine.Proofs.Search.Agreement
import RegexEngine.Proofs.Search.Along
import RegexEngine.Proofs.Search.Backtracking
import RegexEngine.Proofs.Search.Attempts
import RegexEngine.Proofs.Search.Bodies
import RegexEngine.Proofs.Search.Bounds
import RegexEngine.Proofs.Search.Captures
import RegexEngine.Proofs.Search.Contraction
import RegexEngine.Proofs.Search.Depth
import RegexEngine.Proofs.Search.Ends
import RegexEngine.Proofs.Search.Fronts
import RegexEngine.Proofs.Search.Halting
import RegexEngine.Proofs.Search.Lending
import RegexEngine.Proofs.Search.Lockstep
import RegexEngine.Proofs.Search.Longest
import RegexEngine.Proofs.Search.Lookarounds
import RegexEngine.Proofs.Search.Machine
import RegexEngine.Proofs.Search.Outcomes
import RegexEngine.Proofs.Search.Possible
import RegexEngine.Proofs.Search.Priority
import RegexEngine.Proofs.Search.Reaching
import RegexEngine.Proofs.Search.Recognizers
import RegexEngine.Proofs.Search.Shadows
import RegexEngine.Proofs.Search.Stages
import RegexEngine.Proofs.Search.Starts
import RegexEngine.Proofs.Search.Tracked
import RegexEngine.Proofs.Search.Twins
import RegexEngine.Proofs.Steps
import RegexEngine.Proofs.Text
import RegexEngine.Proofs.Tree.Alternatives
import RegexEngine.Proofs.Tree.Checked
import RegexEngine.Proofs.Tree.Numbers
import RegexEngine.Proofs.Tree.Parsed
import RegexEngine.Proofs.Tree.Spans
import RegexEngine.Proofs.Tree.Visits
import RegexEngine.RawLiteral
import RegexEngine.Search.Attempt
import RegexEngine.Search.Backtracking
import RegexEngine.Search.Bailout
import RegexEngine.Search.Context
import RegexEngine.Search.Limits
import RegexEngine.Search.Match
import RegexEngine.Search.Pool
import RegexEngine.Search.Searcher
import RegexEngine.Search.Slots
import RegexEngine.Search.Stack
import RegexEngine.Search.Template
import RegexEngine.Search.Tracker
import RegexEngine.Suite.Basic
import RegexEngine.Suite.Parser
import RegexEngine.Suite.Quoted
import RegexEngine.Suite.Report
import RegexEngine.Suite.Token
import RegexEngine.SyntaxTree.Basic
import RegexEngine.SyntaxTree.Parser
import RegexEngine.SyntaxTree.Validator
import RegexEngine.Text.Basic
import RegexEngine.Text.Case
import RegexEngine.Text.Cursor
import RegexEngine.Text.Hundredths
import RegexEngine.Text.Letter
import RegexEngine.Text.Numeral
import RegexEngine.Text.Printable
import RegexEngine.Text.Quoted
import RegexEngine.Text.Unicode
import RegexEngine.Token.Basic
import RegexEngine.Token.Lexer
import RegexEngine.Toml.Basic
import RegexEngine.Toml.Reader
import RegexEngine.Toml.Scalar
import RegexEngine.Tree.Basic
import RegexEngine.Tree.Groups
import RegexEngine.Tree.Printer
import RegexEngine.Proofs.Search.Wider
import RegexEngine.Proofs.Search.Pieces
import RegexEngine.Proofs.Automaton.Decided
import RegexEngine.Proofs.Automaton.LeadingOptions
import RegexEngine.Proofs.Pattern.LeadingOptions
import RegexEngine.Proofs.Token.Tiling
import RegexEngine.Proofs.Tree.RawLiterals
import RegexEngine.Proofs.Tree.Recovery
import RegexEngine.Proofs.Program.WellFormed
import RegexEngine.Proofs.Automaton.Family
import RegexEngine.Proofs.Automaton.Sessions
import RegexEngine.Proofs.Pattern.Wrapped
import RegexEngine.Proofs.Suite.Directives
import RegexEngine.Proofs.Suite.Strings
