/-!
# Tokens

A token is a symbol of the schema language with the line it starts on. Symbols are the nine
keywords, the punctuation marks, and five sorts that carry text.
-/

namespace WireSchema

/-- The reserved words. -/
inductive Keyword where
  | importWord | moduleWord | structWord | interfaceWord | enumWord | constWord
  | trueWord | falseWord | defaultWord
  deriving DecidableEq, Repr

namespace Keyword

def all : List Keyword :=
  [importWord, moduleWord, structWord, interfaceWord, enumWord, constWord, trueWord, falseWord,
    defaultWord]

/-- How a keyword is spelled. -/
def text : Keyword → String
  | importWord => "import"
  | moduleWord => "module"
  | structWord => "struct"
  | interfaceWord => "interface"
  | enumWord => "enum"
  | constWord => "const"
  | trueWord => "true"
  | falseWord => "false"
  | defaultWord => "default"

/-- The keyword a word spells, if it is one. -/
def ofText? (word : String) : Option Keyword :=
  all.find? (·.text = word)

end Keyword

/-- The punctuation marks. -/
inductive Punct where
  | lbrace | rbrace | lbracket | rbracket | lparen | rparen | langle | rangle
  | semicolon | comma | assign | amp | dot | arrow | minus | plus
  deriving DecidableEq, Repr

namespace Punct

/-- How a mark is written. -/
def text : Punct → String
  | lbrace => "\x7b"
  | rbrace => "\x7d"
  | lbracket => "["
  | rbracket => "]"
  | lparen => "("
  | rparen => ")"
  | langle => "<"
  | rangle => ">"
  | semicolon => ";"
  | comma => ","
  | assign => "="
  | amp => "&"
  | dot => "."
  | arrow => "=>"
  | minus => "-"
  | plus => "+"

end Punct

/-- A symbol of the schema language. String literals keep their text as written between the
quotes, and ordinals hold the digits after the `@`. -/
inductive Symbol where
  | identifier (name : String)
  | integer (text : String)
  | float (text : String)
  | string (text : String)
  | ordinal (digits : String)
  | keyword (word : Keyword)
  | punct (mark : Punct)
  deriving DecidableEq, Repr

namespace Symbol

/-- How messages name a symbol. -/
def describe : Symbol → String
  | identifier t => "identifier " ++ t
  | integer t => "integer literal " ++ t
  | float t => "float literal " ++ t
  | string t => "literal \"" ++ t ++ "\""
  | ordinal t => "ordinal @" ++ t
  | keyword k => k.text
  | punct p => p.text

/-- Whether two symbols are of one sort, whatever text they carry. -/
def sameSort : Symbol → Symbol → Bool
  | identifier _, identifier _ | integer _, integer _ | float _, float _
  | string _, string _ | ordinal _, ordinal _ => true
  | keyword k, keyword k' => k = k'
  | punct p, punct p' => p = p'
  | _, _ => false

theorem sameSort_self (s : Symbol) : s.sameSort s = true := by
  cases s <;> simp [sameSort]

end Symbol

/-- A symbol and the line it starts on, counted from 1 in 32 bits. -/
structure Token where
  line : UInt32
  symbol : Symbol
  deriving DecidableEq, Repr

/-- How a token is shown: its line, then its symbol. -/
def Token.describe (t : Token) : String :=
  "L" ++ toString t.line.toNat ++ ": " ++ t.symbol.describe

end WireSchema
