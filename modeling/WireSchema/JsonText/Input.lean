import WireSchema.Text.Quoted

/-!
# JSON text with places

Text that is read from the front, with the line and column of the next character, and the faults
that reading can find. Columns are counted in bytes from 0.
-/

namespace WireSchema.JsonText

/-- What is left of a text, and where it starts. -/
structure Input where
  rest : List Char
  line : Nat
  column : Nat
  deriving DecidableEq, Repr

namespace Input

def ofString (text : String) : Input :=
  ⟨text.toList, 1, 0⟩

/-- The input after one more character, which is given. -/
def past (i : Input) (c : Char) (rest : List Char) : Input :=
  if c = '\n' then ⟨rest, i.line + 1, 0⟩ else ⟨rest, i.line, i.column + c.utf8Size⟩

/-- Passes the next character. -/
def advance (i : Input) : Input :=
  match i.rest with
  | [] => i
  | c :: rest => i.past c rest

/-- Passes so many characters. -/
def advanceBy : Nat → Input → Input
  | 0, i => i
  | n + 1, i => advanceBy n i.advance

/-- The blanks of JSON. -/
def isBlank (c : Char) : Bool :=
  c = ' ' || c = '\n' || c = '\t' || c = '\r'

/-- Passes blanks. -/
def skipBlanks (i : Input) : Input :=
  advanceBy (i.rest.takeWhile isBlank).length i

end Input

/-- What a value turned out to be, in place of what was wanted. -/
inductive Found where
  | null
  | bool (value : Bool)
  | integer (text : String)
  | float (text : String)
  | string (text : String)
  | list
  | object
  deriving DecidableEq, Repr

/-- What a value was wanted to be. -/
inductive Wanted where
  | map
  | entry
  | string
  | bool
  | list
  deriving DecidableEq, Repr

/-- Why a text cannot be read. -/
inductive Cause where
  | endInList | endInObject | endInString | endInValue
  | colonMissing | listSeparatorMissing | objectSeparatorMissing | wordMissing | valueMissing
  | badEscape | badNumber | numberTooLarge | controlCharacter | keyNotString | loneSurrogate
  | halfSurrogate | trailingComma | trailingCharacters
  | wrongType (found : Found) (wanted : Wanted)
  | emptyEntry
  | duplicateMember (name : String)
  | missingMember (name : String)
  deriving DecidableEq, Repr

def Found.describe : Found → String
  | null => "null"
  | bool true => "boolean `true`"
  | bool false => "boolean `false`"
  | integer text => "integer `" ++ text ++ "`"
  | float text => "floating point `" ++ text ++ "`"
  | string text => "string " ++ Text.quoted text
  | list => "sequence"
  | object => "map"

def Wanted.describe : Wanted → String
  | map => "a map"
  | entry => "struct TypemapEntry"
  | string => "a string"
  | bool => "a boolean"
  | list => "a sequence"

def Cause.message : Cause → String
  | endInList => "EOF while parsing a list"
  | endInObject => "EOF while parsing an object"
  | endInString => "EOF while parsing a string"
  | endInValue => "EOF while parsing a value"
  | colonMissing => "expected `:`"
  | listSeparatorMissing => "expected `,` or `]`"
  | objectSeparatorMissing => "expected `,` or `\x7d`"
  | wordMissing => "expected ident"
  | valueMissing => "expected value"
  | badEscape => "invalid escape"
  | badNumber => "invalid number"
  | numberTooLarge => "number out of range"
  | controlCharacter => "control character (\\u0000-\\u001F) found while parsing a string"
  | keyNotString => "key must be a string"
  | loneSurrogate => "lone leading surrogate in hex escape"
  | halfSurrogate => "unexpected end of hex escape"
  | trailingComma => "trailing comma"
  | trailingCharacters => "trailing characters"
  | wrongType found wanted =>
    "invalid type: " ++ found.describe ++ ", expected " ++ wanted.describe
  | emptyEntry => "invalid length 0, expected struct TypemapEntry with 3 elements"
  | duplicateMember name => "duplicate field `" ++ name ++ "`"
  | missingMember name => "missing field `" ++ name ++ "`"

/-- A cause and the place where reading stopped. -/
structure Fault where
  cause : Cause
  line : Nat
  column : Nat
  deriving DecidableEq, Repr

def Fault.message (f : Fault) : String :=
  f.cause.message ++ " at line " ++ toString f.line ++ " column " ++ toString f.column

/-- A fault before the next character. -/
def Input.faultHere (i : Input) (cause : Cause) : Fault :=
  ⟨cause, i.line, i.column⟩

/-- A fault at the next character. -/
def Input.faultNext (i : Input) (cause : Cause) : Fault :=
  match i.rest with
  | [] => i.faultHere cause
  | '\n' :: _ => ⟨cause, i.line + 1, 0⟩
  | _ :: _ => ⟨cause, i.line, i.column + 1⟩

end WireSchema.JsonText
