import WireSchema.Document.Json

/-!
# Documents as YAML

Block style, indented by two blanks a level, after a line of three dashes. The first line of an item
stands behind its dash. A text is quoted if it could be taken for something else.
-/

namespace WireSchema.Document

namespace Yaml

/-! ## Texts -/

/-- Drops a sign. -/
def unsigned : List Char → List Char
  | '+' :: rest => rest
  | '-' :: rest => rest
  | cs => cs

/-- Whether nothing follows, or an exponent with at least one digit. -/
def isExponent : List Char → Bool
  | [] => true
  | c :: rest =>
    (c = 'e' || c = 'E') && !(unsigned rest).isEmpty && (unsigned rest).all Char.isDigit

/-- Whether a text without a sign is a decimal number: digits on one side of a point at least, and
an exponent or none. -/
def isDecimal (cs : List Char) : Bool :=
  let whole := cs.takeWhile Char.isDigit
  match cs.dropWhile Char.isDigit with
  | '.' :: rest =>
    let fraction := rest.takeWhile Char.isDigit
    !(whole.isEmpty && fraction.isEmpty) && isExponent (rest.dropWhile Char.isDigit)
  | rest => !whole.isEmpty && isExponent rest

/-- Whether a text reads as a number. -/
def isNumeric (cs : List Char) : Bool :=
  isDecimal (unsigned cs) ||
    (unsigned cs).map Char.toLower ∈
      ["inf".toList, "infinity".toList, "nan".toList]

/-- The words that stand for truth values and null. -/
def reserved : List String :=
  ["yes", "Yes", "YES", "no", "No", "NO", "True", "TRUE", "true", "False", "FALSE", "false", "on",
    "On", "ON", "off", "Off", "OFF", "null", "Null", "NULL", "~"]

/-- Whether a text with this character has to be quoted. -/
def isSpecial (c : Char) : Bool :=
  c ∈ [':', '\x7b', '\x7d', '[', ']', ',', '#', '\x60', '"', '\'', '\\', '\t', '\n', '\r'] ||
    c.toNat ≤ 0x06 || (0x0E ≤ c.toNat && c.toNat ≤ 0x1A) || (0x1C ≤ c.toNat && c.toNat ≤ 0x1F)

/-- Whether a text that starts with this character has to be quoted. -/
def isIndicator (c : Char) : Bool :=
  c ∈ ['&', '*', '?', '|', '-', '<', '>', '=', '!', '%', '@', '.']

def needsQuotes (text : String) : Bool :=
  let cs := text.toList
  match cs with
  | [] => true
  | first :: rest =>
    first = ' ' || cs.getLast? = some ' ' || isIndicator first ||
      (first = '0' && rest.head? = some 'x') || cs.any isSpecial || text ∈ reserved || isNumeric cs

/-- How a character is written in a quoted text. -/
def escapeChar (c : Char) : List Char :=
  if c = '\x7f' then ['\\', 'u', '0', '0', '7', 'f'] else Json.escapeChar c

def quote (text : String) : String :=
  "\"" ++ String.ofList (text.toList.flatMap escapeChar) ++ "\""

/-- A text, quoted if need be. -/
def scalar (text : String) : String :=
  if needsQuotes text then quote text else text

/-! ## Blocks -/

/-- A document that fits behind a key or a dash. -/
def inline? : Document → Option String
  | null => some "~"
  | bool true => some "true"
  | bool false => some "false"
  | number n => some (toString n)
  | text t => some (scalar t)
  | list [] => some "[]"
  | object [] => some "\x7b\x7d"
  | list _ | object _ => none

/-- Indents lines by one level. -/
def deeper (lines : List String) : List String :=
  lines.map ("  " ++ ·)

/-- Puts a dash before the first of the lines of an item. -/
def dashed : List String → List String
  | [] => []
  | first :: rest => ("- " ++ first) :: deeper rest

mutual

/-- The lines of a document that does not fit behind a key. -/
def block : Document → List String
  | list items => blockItems items
  | object entries => blockEntries entries
  | d => (inline? d).toList

def blockItems : List Document → List String
  | [] => []
  | d :: rest =>
    let lines := match inline? d with
      | some line => [line]
      | none => block d
    dashed lines ++ blockItems rest

def blockEntries : List (String × Document) → List String
  | [] => []
  | (key, d) :: rest =>
    let lines := match inline? d with
      | some line => [scalar key ++ ": " ++ line]
      | none => (scalar key ++ ":") :: deeper (block d)
    lines ++ blockEntries rest

end

end Yaml

/-- A document as YAML. -/
def yaml (d : Document) : String :=
  String.join (("---" :: Yaml.block d).map (· ++ "\n"))

end WireSchema.Document
