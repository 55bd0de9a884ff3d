import RegexEngine.Search.Context

/-!
Templates for what takes the place of matches. A template refers to groups by number, as in `$1` or
`$` and the number in braces, or by name in braces. Two dollar signs are one, and a dollar sign that
begins none of these is itself. Groups that have taken nothing give no text.
-/

namespace RegexEngine

inductive Piece
  | char (c : Char)
  | group (index : Nat)
  | named (name : String)
deriving DecidableEq, Repr

abbrev Template := List Piece

namespace Template

/-- The group that a number in a template refers to. A number that is too large refers to none. -/
def numbered (digits : List Char) : Piece :=
  .group ((Text.readNat? 10 Text.maxWord64 digits).getD Text.maxWord64)

/-- The group that a reference in braces refers to, by its number or by its name. -/
def braced (reference : List Char) : Piece :=
  match Text.readNat? 10 Text.maxWord64 reference with
  | some index => .group index
  | none => .named (String.ofList reference)

def readReference (rest : List Char) : Piece × List Char :=
  match rest with
  | '$' :: rest => (.char '$', rest)
  | '{' :: inner =>
    match Text.splitAtChar? '}' inner with
    | some (c :: reference, after) => (braced (c :: reference), after)
    | _ => (.char '$', rest)
  | _ =>
    match rest.takeWhile Text.isDigit with
    | [] => (.char '$', rest)
    | digits => (numbered digits, rest.dropWhile Text.isDigit)

def read : Nat → List Char → Template
  | 0, _ | _, [] => []
  | fuel + 1, '$' :: rest =>
    let (piece, rest) := readReference rest
    piece :: read fuel rest
  | fuel + 1, c :: rest => .char c :: read fuel rest

def ofText (text : List Char) : Template := read text.length text

def expandPiece (input : Array Char) (m : Match) : Piece → String
  | .char c => c.toString
  | .group index => ((m.group? index).bind (·.text? input)).getD ""
  | .named name => ((m.named? name).bind (·.text? input)).getD ""

def expand (t : Template) (input : Array Char) (m : Match) : String :=
  String.join (t.map (expandPiece input m))

end Template

namespace Context

/-- The input from a place on, with a template in place of the matches. -/
def substitute (ctx : Context) (t : Template) : Nat → List Match → String
  | last, [] => ctx.slice last ctx.input.size
  | last, m :: rest =>
    ctx.slice last m.start ++ t.expand ctx.input m ++ ctx.substitute t m.stop rest

/-- Replaces every match after the cursor. -/
def replace (ctx : Context) (x : Searcher) (t : Template) : Except Error String × Context :=
  match ctx.findAll x 0 with
  | (.error e, ctx) => (.error e, ctx)
  | (.ok found, ctx) => (.ok (ctx.substitute t 0 found), ctx)

end Context

end RegexEngine
