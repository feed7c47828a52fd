import WireSchema.Document

/-!
# Documents as JSON

One entry or item a line, indented by two blanks a level; an empty list or object is written on the
spot. Only quotes, backslashes and control characters are escaped.
-/

namespace WireSchema.Document

namespace Json

/-- The two low hexadecimal digits of a number. -/
def hexPair (n : Nat) : List Char :=
  [Nat.digitChar (n / 16 % 16), Nat.digitChar (n % 16)]

/-- How a character is written in a string. -/
def escapeChar (c : Char) : List Char :=
  match c with
  | '"' => ['\\', '"']
  | '\\' => ['\\', '\\']
  | '\x08' => ['\\', 'b']
  | '\x0c' => ['\\', 'f']
  | '\n' => ['\\', 'n']
  | '\r' => ['\\', 'r']
  | '\t' => ['\\', 't']
  | c => if c.toNat < 0x20 then ['\\', 'u', '0', '0'] ++ hexPair c.toNat else [c]

/-- A string in quotes. -/
def quote (text : String) : String :=
  "\"" ++ String.ofList (text.toList.flatMap escapeChar) ++ "\""

/-- The blanks at the start of a line. -/
def indent (level : Nat) : String :=
  String.ofList (List.replicate (2 * level) ' ')

mutual

/-- A value that starts on a line of the given level. -/
def value (level : Nat) : Document → String
  | null => "null"
  | bool true => "true"
  | bool false => "false"
  | number n => toString n
  | text t => quote t
  | list [] => "[]"
  | list (item :: rest) =>
    "[\n" ++ items (level + 1) (item :: rest) ++ "\n" ++ indent level ++ "]"
  | object [] => "\x7b\x7d"
  | object (entry :: rest) =>
    "\x7b\n" ++ members (level + 1) (entry :: rest) ++ "\n" ++ indent level ++ "\x7d"

/-- The items of a list, each on its own line. -/
def items (level : Nat) : List Document → String
  | [] => ""
  | [d] => indent level ++ value level d
  | d :: rest => indent level ++ value level d ++ ",\n" ++ items level rest

/-- The entries of an object, each on its own line. -/
def members (level : Nat) : List (String × Document) → String
  | [] => ""
  | [(key, d)] => indent level ++ quote key ++ ": " ++ value level d
  | (key, d) :: rest =>
    indent level ++ quote key ++ ": " ++ value level d ++ ",\n" ++ members level rest

end

end Json

/-- A document as JSON. -/
def json (d : Document) : String :=
  Json.value 0 d

end WireSchema.Document
