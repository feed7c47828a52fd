import WireSchema.Grammar.Type
import WireSchema.Tree

/-!
# Rules for values and attributes
-/

namespace WireSchema.Grammar

open Rule

/-- A number after a sign, which is kept as `written`. -/
def signedNumber (sign : Token) (written : String) : Rule ValueExpr := do
  match (← next).map Token.symbol with
  | some (.integer text) => return .integer (written ++ text)
  | some (.float text) => return .float (written ++ text)
  | _ => fail sign.line (.valueMissingAfter sign.symbol)

/-- A value of a single symbol. -/
def literal? : Symbol → Option ValueExpr
  | .integer text => some (.integer text)
  | .float text => some (.float text)
  | .string text => some (.string text)
  | .keyword .trueWord => some (.bool true)
  | .keyword .falseWord => some (.bool false)
  | .keyword .defaultWord => some .default
  | _ => none

/-- A value: a literal, a signed number or a dotted name. A plus sign leaves no trace. -/
def value : Rule (Option ValueExpr) := do
  match ← mark? .minus with
  | some sign => return some (← signedNumber sign "-")
  | none =>
    match ← mark? .plus with
    | some sign => return some (← signedNumber sign "")
    | none =>
      match (← peek).bind literal? with
      | some v =>
        let _ ← next
        return some v
      | none =>
        match ← dottedName with
        | some name => return some (.name name)
        | none => return none

/-- A value that has to follow the sign of equality on the given line. -/
def assignedValue (line : UInt32) : Rule ValueExpr := do
  match ← value with
  | some v => return v
  | none => fail line (.valueMissingAfter (.punct .assign))

/-- A value after an equals sign, if there is one. -/
def optionalValue : Rule (Option ValueExpr) := do
  match ← mark? .assign with
  | some assign => return some (← assignedValue assign.line)
  | none => return none

/-- The value of the attribute `key`; an attribute without one is true. -/
def attributeValue (key : String) (line : UInt32) : Rule AttributeValue := do
  match ← mark? .assign with
  | none => return .bool true
  | some _ =>
    match (← value).bind AttributeValue.ofExpr? with
    | some v => return v
    | none => fail line (.attributeValueMissing key)

def attributeTurn : Rule (Turn Tree.Attribute) := do
  match ← identifier? with
  | none => return .stop
  | some (key, line) =>
    let value ← attributeValue key line
    afterComma ⟨line, key, value⟩

/-- An attribute list in brackets, if there is one. -/
def attributes? : Rule (Option (List Tree.Attribute)) := do
  match ← mark? .lbracket with
  | none => return none
  | some _ =>
    let attributes ← collect attributeTurn
    let _ ← mark .rbracket
    return some attributes

end WireSchema.Grammar
