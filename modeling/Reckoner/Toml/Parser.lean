import Reckoner.Toml.Scalar

/-!
# Reading TOML

A parser takes a value from the start of a text and leaves what follows it.  What
repeats is read by `many`, which stops as soon as nothing more is taken.  Arrays and
inline tables may be nested only so deep.
-/

namespace Reckoner
namespace Toml

abbrev Parser (α : Type) := List Char -> Option (α × List Char)

namespace Parser

variable {α : Type}

/-- Takes values until there are no more of them, and never fails. -/
def many (item : Parser α) (text : List Char) : List α × List Char :=
  match item text with
  | none => ([], text)
  | some (value, rest) =>
      if rest.length < text.length then
        let (values, rest) := many item rest
        (value :: values, rest)
      else
        ([], text)
termination_by text.length

/-!
# Blanks and comments
-/

def isBlank (c : Char) : Bool :=
  c = ' ' || c = '\t'

def skipBlanks (text : List Char) : List Char :=
  text.dropWhile isBlank

def isShown (c : Char) : Bool :=
  c = '\t' || (0x20 ≤ c.toNat && c.toNat ≠ 0x7f)

def newline? : List Char -> Option (List Char)
  | '\n' :: rest => some rest
  | '\r' :: '\n' :: rest => some rest
  | _ => none

def skipComment (text : List Char) : List Char :=
  match text with
  | '#' :: rest => rest.dropWhile isShown
  | _ => text

def skipLines (text : List Char) : List Char :=
  let line : Parser Unit := fun text => do
    let rest ← newline? (skipComment (skipBlanks text))
    return ((), rest)
  skipBlanks (many line text).2

/-- Skips blanks, comments and line ends inside an array, where a comment must end its line. -/
def skipSpace? (text : List Char) : Option (List Char) :=
  let rest := skipLines text
  if rest.head? = some '#' then none else some rest

/-!
# Strings
-/

def codePoint? (count : Nat) (text : List Char) : Option (Char × List Char) := do
  let digits := text.take count
  if digits.length < count then
    none
  else
    let n ← Decimal.hexRunValue? digits
    if h : n.isValidChar then
      some (Char.ofNatAux n h, text.drop count)
    else
      none

def escape? : Parser Char
  | 'b' :: rest => some ('\x08', rest)
  | 't' :: rest => some ('\t', rest)
  | 'n' :: rest => some ('\n', rest)
  | 'f' :: rest => some ('\x0c', rest)
  | 'r' :: rest => some ('\r', rest)
  | '"' :: rest => some ('"', rest)
  | '\\' :: rest => some ('\\', rest)
  | 'u' :: rest => codePoint? 4 rest
  | 'U' :: rest => codePoint? 8 rest
  | _ => none

def basicChar : Parser Char
  | '\\' :: rest => escape? rest
  | c :: rest => if isShown c && c ≠ '"' then some (c, rest) else none
  | [] => none

def literalChar : Parser Char
  | c :: rest => if isShown c && c ≠ '\'' then some (c, rest) else none
  | [] => none

def lineString (quote : Char) (char : Parser Char) : Parser String := fun text => do
  let (chars, rest) := many char text
  return (String.ofList chars, ← expect? quote rest)

/-- The text after a backslash at the end of a line, and after all blanks and lines that follow. -/
def joinLines? (text : List Char) : Option (List Char) := do
  let rest ← newline? (skipBlanks text)
  let blankLine : Parser Unit := fun text => do
    let rest ← newline? (skipBlanks text)
    return ((), rest)
  return skipBlanks (many blankLine rest).2

def longPiece (quote : Char) (char : Parser Char) : Parser (List Char) := fun text =>
  match newline? text with
  | some rest => some (['\n'], rest)
  | none =>
      match text with
      | '\\' :: after =>
          match if quote = '"' then joinLines? after else none with
          | some rest => some ([], rest)
          | none => (char text).map fun (c, rest) => ([c], rest)
      | c :: rest =>
          if c = quote then
            if (rest.take 2).all (· = quote) && 2 ≤ rest.length then none else some ([c], rest)
          else
            (char text).map fun (c, rest) => ([c], rest)
      | [] => none

/-- A string over many lines, of which the three opening quotes have been read. Up to two quotes
may stand before the three closing ones. -/
def longString (quote : Char) (char : Parser Char) : Parser String := fun text => do
  let start := (newline? text).getD text
  let (pieces, rest) := many (longPiece quote char) start
  let quotes := rest.takeWhile (· = quote)
  let closing := min quotes.length 5
  if closing < 3 then
    none
  else
    let inside := List.replicate (closing - 3) quote
    some (String.ofList (pieces.flatten ++ inside), rest.drop closing)

def string : Parser String
  | '"' :: '"' :: '"' :: rest => longString '"' basicChar rest
  | '\'' :: '\'' :: '\'' :: rest => longString '\'' literalChar rest
  | '"' :: rest => lineString '"' basicChar rest
  | '\'' :: rest => lineString '\'' literalChar rest
  | _ => none

/-!
# Keys
-/

def isBare (c : Char) : Bool :=
  c.isAlphanum || c = '_' || c = '-'

def simpleKey : Parser String
  | '"' :: rest => lineString '"' basicChar rest
  | '\'' :: rest => lineString '\'' literalChar rest
  | text =>
      let chars := text.takeWhile isBare
      if chars.isEmpty then none else some (String.ofList chars, text.dropWhile isBare)

/-- The greatest number of values inside each other, and of parts of a key. -/
def maxNesting : Nat := 79

def key : Parser (List String) := fun text => do
  let (first, rest) ← simpleKey (skipBlanks text)
  let next : Parser String := fun text => do
    simpleKey (skipBlanks (← expect? '.' (skipBlanks text)))
  let (others, rest) := many next rest
  if maxNesting < others.length + 1 then
    none
  else
    some (first :: others, skipBlanks rest)

/-!
# Values
-/

def isWordChar (c : Char) : Bool :=
  c.isAlphanum || c = '_' || c = '-' || c = '+' || c = '.' || c = ':'

def word : Parser Value := fun text => do
  let chars := text.takeWhile isWordChar
  let rest := text.dropWhile isWordChar
  match date? chars, rest with
  | some [], ' ' :: after =>
      let time := after.takeWhile isWordChar
      if (time? time).isSome then
        return (← word? (chars ++ ' ' :: time), after.dropWhile isWordChar)
      else
        return (.moment, rest)
  | _, _ => return (← word? chars, rest)

def scalar : Parser Value := fun text =>
  match text with
  | '"' :: _ | '\'' :: _ => (string text).map fun (s, rest) => (.str s, rest)
  | _ => word text

def item (inner : Parser Value) : Parser (Value × Bool) := fun text => do
  let (value, rest) ← inner (← skipSpace? text)
  let rest ← skipSpace? rest
  match expect? ',' rest with
  | some rest => return ((value, true), rest)
  | none => return ((value, false), rest)

/-- Values with commas between them and maybe after the last one, in brackets of which the first
has been read. -/
def array (inner : Parser Value) : Parser Value := fun text => do
  let (items, rest) := many (item inner) text
  let rest ← expect? ']' (← skipSpace? rest)
  if items.dropLast.all Prod.snd then
    return (.array (items.map Prod.fst), rest)
  else
    none

def entry (item : Parser Value) : Parser (List String × Value) := fun text => do
  let (key, rest) ← key text
  let (value, rest) ← item (skipBlanks (← expect? '=' rest))
  return ((key, value), skipBlanks rest)

def inline (item : Parser Value) : Parser Value := fun text => do
  match expect? '\x7d' (skipBlanks text) with
  | some rest => return (← inlineTable [], rest)
  | none => do
      let (first, rest) ← entry item text
      let next : Parser (List String × Value) := fun text => do entry item (← expect? ',' text)
      let (others, rest) := many next rest
      return (← inlineTable (first :: others), ← expect? '\x7d' rest)

/-- A value inside which so many arrays and inline tables may be nested. -/
def value : (levels : Nat) -> Parser Value
  | 0, text => scalar text
  | levels + 1, text =>
      match text with
      | '[' :: rest => array (value levels) rest
      | '\x7b' :: rest => inline (value levels) rest
      | _ => scalar text

/-!
# Documents
-/

def line : Parser Line := fun text =>
  match text with
  | '[' :: '[' :: rest => do
      let (key, rest) ← key rest
      return (.row key, ← expect? ']' (← expect? ']' rest))
  | '[' :: rest => do
      let (key, rest) ← key rest
      return (.table key, ← expect? ']' rest)
  | _ => do
      let ((key, value), rest) ← entry (value maxNesting) text
      return (.entry key value, rest)

/-- A line that says something, with its end and all lines before it that say nothing. -/
def fullLine : Parser Line := fun text => do
  let (said, rest) ← line (skipLines text)
  let rest := skipComment (skipBlanks rest)
  if rest.isEmpty then
    return (said, [])
  else
    return (said, ← newline? rest)

end Parser

def parse (text : String) : Option (List (String × Value)) := do
  let chars :=
    match text.toList with
    | '\ufeff' :: rest => rest
    | chars => chars
  let (lines, rest) := Parser.many Parser.fullLine chars
  if (Parser.skipComment (Parser.skipLines rest)).isEmpty then
    let root ← build [] { origin := .header, entries := [] } lines
    return root.entries
  else
    none

end Toml
end Reckoner
