/-!
# Values as written

The right hand side of a default, a constant or an enum value, and the values of attributes.
-/

namespace WireSchema

/-- A written value. Numbers keep their text with a minus sign if they have one, strings the text
between the quotes. -/
inductive ValueExpr where
  | integer (text : String)
  | float (text : String)
  | string (text : String)
  | bool (value : Bool)
  | default
  | name (dotted : String)
  deriving DecidableEq, Repr

/-- The value of an attribute; `default` is none. -/
inductive AttributeValue where
  | name (dotted : String)
  | string (text : String)
  | integer (text : String)
  | float (text : String)
  | bool (value : Bool)
  deriving DecidableEq, Repr

namespace AttributeValue

/-- How a truth value is written. -/
def boolText : Bool → String
  | true => "true"
  | false => "false"

/-- An attribute's value as text. -/
def text : AttributeValue → String
  | name t | string t | integer t | float t => t
  | bool b => boolText b

/-- The attribute value a written value stands for. -/
def ofExpr? : ValueExpr → Option AttributeValue
  | .name n => some (name n)
  | .string s => some (string s)
  | .integer i => some (integer i)
  | .float f => some (float f)
  | .bool b => some (bool b)
  | .default => none

end AttributeValue

end WireSchema
