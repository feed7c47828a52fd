import WireSchema.Text.Numeral
import WireSchema.Token

/-!
# Faults of the grammar

What a list of tokens can do wrong, with the line that is blamed for it.
-/

namespace WireSchema

/-- Why tokens do not form a schema file. -/
inductive GrammarCause where
  | stuck (found : Option Symbol)
  | expected (wanted : List Symbol) (found : Option Symbol)
  | importPathMissing
  | moduleNameMissing
  | outsideModule (name : String)
  | identifierMissingAfter (symbol : Symbol)
  | nameMissingAfterType (written : String)
  | typeMissing
  | valueMissingAfter (symbol : Symbol)
  | unknownHandleType (name : String)
  | ordinalOutOfRange (text : String)
  | attributeValueMissing (key : String)
  deriving DecidableEq, Repr

namespace GrammarCause

/-- How messages name what was found. -/
def describeFound : Option Symbol → String
  | some s => s.describe
  | none => "EOF"

def message : GrammarCause → String
  | stuck found => "Parser cannot advance past " ++ describeFound found
  | expected wanted found =>
    "Expected " ++ String.intercalate " or " (wanted.map Symbol.describe) ++ ", but found " ++
      describeFound found
  | importPathMissing => "Expected a file path after import"
  | moduleNameMissing => "Identifier expected after module keyword"
  | outsideModule name => name ++ " is declared outside of the module declaration"
  | identifierMissingAfter s => "Expected identifier after " ++ s.describe
  | nameMissingAfterType written => "Expected a name after " ++ written
  | typeMissing => "Expected a type"
  | valueMissingAfter s => "Expected a value after " ++ s.describe
  | unknownHandleType name => "Invalid handle type '" ++ name ++ "'"
  | ordinalOutOfRange text =>
    "Ordinal value " ++ text ++ " is out of range (maximum is " ++ toString Text.maxOrdinal ++ ")"
  | attributeValueMissing key => "Expected a value for attribute " ++ key

end GrammarCause

/-- A cause and the line blamed for it. -/
structure GrammarFault where
  line : UInt32
  cause : GrammarCause
  deriving DecidableEq, Repr

def GrammarFault.message (f : GrammarFault) : String :=
  "L" ++ toString f.line.toNat ++ ": " ++ f.cause.message

end WireSchema
