import RegexEngine.Toml.Scalar

/-!
Reading TOML documents. A document is read line by line; then the lines are put together. Arrays may
go over several lines, tables inside braces may not. Values and keys are nested to a bounded depth.
-/

namespace RegexEngine.Toml

/-- The deepest nesting of values, and the greatest length of a path. -/
def maxNesting : Nat := 79

def isKeyChar (c : Char) : Bool := Text.isAsciiAlphanumeric c || c == '_' || c == '-'

def simpleKey : Read String :=
  lineText <|> do
    let first ← Read.one isKeyChar
    pure (String.ofList (first :: (← Read.span isKeyChar)))

def keyPart : Read String := blanks *> simpleKey <* blanks

/-- Takes a key of one part or more with points between them. -/
def key : Read (List String) := do
  let first ← keyPart
  let rest ← Read.many (Read.exactly "." *> keyPart)
  if rest.length < maxNesting then pure (first :: rest) else failure

def comment : Read Unit := do
  Read.exactly "#"
  discard (Read.span isShown)

/-- Takes whatever may stand between the items of an array. -/
def filler : Read Unit :=
  discard (Read.many (discard (Read.one isBlank) <|> lineEnd <|> (comment <* lineEnd)))

/-- Takes the items of an array and its last bracket. There may be a comma after the last item. The
fuel exceeds the number of characters. -/
def items (item : Read Node) : Nat → Read (List Node)
  | 0 => failure
  | fuel + 1 => do
    filler
    match ← Read.maybe (Read.exactly "]") with
    | some _ => pure []
    | none =>
      let first ← item
      filler
      match ← Read.maybe (Read.exactly ",") with
      | some _ => pure (first :: (← items item fuel))
      | none =>
        Read.exactly "]"
        pure [first]

/-- Takes an array after its bracket. -/
def array (item : Read Node) : Read (List Node) := do
  items item ((← get).length + 1)

def entry (value : Read Node) : Read (List String × Node) := do
  let path ← key
  Read.exactly "="
  blanks
  pure (path, ← value)

def inlineTable (value : Read Node) : Read Fields := do
  let first ← Read.maybe (entry value <* blanks)
  let entries ← match first with
    | none => blanks *> pure []
    | some first => do
      let rest ← Read.many (Read.exactly "," *> entry value <* blanks)
      pure (first :: rest)
  Read.exactly "\x7d"
  liftM (entries.foldlM (fun fields (path, node) => Fields.put? node path fields) [])

/-- Takes a value that is nested no deeper than a bound. -/
def value : Nat → Read Node
  | 0 => scalar
  | depth + 1 =>
    (Read.exactly "[" *> (.array <$> array (value depth)))
      <|> (Read.exactly "\x7b" *> (.inline <$> inlineTable (value depth)))
      <|> scalar

/-- Takes the rest of a line, which says nothing more. -/
def trailing : Read Unit := do
  blanks
  discard (Read.maybe comment)
  if (← get).isEmpty then pure () else lineEnd

def header (opening closing : String) : Read (List String) :=
  Read.exactly opening *> key <* Read.exactly closing

/-- Takes what a line says, if it says anything. -/
def line : Read (Option Line) := do
  blanks
  let said ← match (← get) with
    | '[' :: '[' :: _ => some <$> .item <$> header "[[" "]]"
    | '[' :: _ => some <$> .header <$> header "[" "]"
    | [] | '#' :: _ | '\n' :: _ | '\r' :: _ => pure none
    | _ => do
      let (path, node) ← entry (value maxNesting)
      pure (some (.entry path node))
  trailing
  pure said

def lines : Nat → List Char → Option (List Line)
  | _, [] => some []
  | 0, _ => none
  | fuel + 1, cs => do
    let (said, rest) ← line cs
    pure (said.toList ++ (← lines fuel rest))

/-- Reads a document. A byte order mark may stand before it. -/
def read? (source : List Char) : Option Fields := do
  let cs := (Text.strip? ['\uFEFF'] source).getD source
  Document.ofLines? (← lines cs.length cs)

end RegexEngine.Toml
