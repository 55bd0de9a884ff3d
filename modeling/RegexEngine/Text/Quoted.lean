import RegexEngine.Text.Basic
import RegexEngine.Text.Unicode

/-!
Quoted characters, texts and lists of texts, as listings and reports show them. Tabs, line ends, nul
and backslashes have escapes of one letter. The quote is escaped only inside its own kind of quotes.
A character that would not show is written as `\u` and its code point in braces.
-/

namespace RegexEngine.Text

/-- Writes one character inside quotes of the given kind. -/
def quotedChar (quote c : Char) : List Char :=
  match c with
  | '\x00' => ['\\', '0']
  | '\t' => ['\\', 't']
  | '\r' => ['\\', 'r']
  | '\n' => ['\\', 'n']
  | '\\' => ['\\', '\\']
  | c =>
    if c == quote then ['\\', c]
    else if isPrintable c then [c]
    else "\\u\x7b".toList ++ Nat.toDigits 16 c.toNat ++ ['}']

def quoteChar (c : Char) : String :=
  String.ofList ('\'' :: quotedChar '\'' c ++ ['\''])

def quote (text : String) : String :=
  String.ofList ('"' :: text.toList.flatMap (quotedChar '"') ++ ['"'])

def quoteList (texts : List String) : String :=
  "[" ++ joinWith ", " (texts.map quote) ++ "]"

end RegexEngine.Text
