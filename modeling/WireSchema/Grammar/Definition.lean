import WireSchema.Grammar.Value

/-!
# Rules for definitions

Structs, interfaces, enums and constants, with their members. Each rule takes the attributes that
were read before it.
-/

namespace WireSchema.Grammar

open Rule

/-- The name after a keyword. -/
def nameAfter (word : Token) : Rule String := do
  match ← identifier? with
  | some (name, _) => return name
  | none => fail word.line (.identifierMissingAfter word.symbol)

/-- The name after a type; the given line is blamed if there is none. -/
def nameAfterType (line : UInt32) (type : TypeExpr) : Rule String := do
  match ← identifier? with
  | some (name, _) => return name
  | none => fail line (.nameMissingAfterType type.text)

/-! ## Enums and constants -/

def enumValueTurn : Rule (Turn Tree.EnumValue) := do
  match ← identifier? with
  | none => return .stop
  | some (name, line) =>
    let value ← optionalValue
    afterComma ⟨line, name, value⟩

def enumeration (attributes : List Tree.Attribute) : Rule (Option Tree.Enum) := do
  match ← keyword? .enumWord with
  | none => return none
  | some word =>
    let name ← nameAfter word
    let _ ← mark .lbrace
    let values ← collect enumValueTurn
    let _ ← mark .rbrace
    let _ ← mark? .semicolon
    return some ⟨word.line, name, attributes, values⟩

def constant (attributes : List Tree.Attribute) : Rule (Option Tree.Constant) := do
  match ← keyword? .constWord with
  | none => return none
  | some word =>
    match ← typeExpr with
    | none => fail word.line .typeMissing
    | some type =>
      let name ← nameAfterType word.line type
      let assign ← mark .assign
      let value ← assignedValue assign.line
      let _ ← mark .semicolon
      return some ⟨word.line, type, name, value, attributes⟩

/-! ## Structs -/

def structField (attributes : List Tree.Attribute) : Rule (Option Tree.Field) := do
  let line ← line
  match ← typeExpr with
  | none => return none
  | some type =>
    let name ← nameAfterType line type
    let ordinal ← ordinal
    let default ← optionalValue
    let _ ← mark .semicolon
    return some ⟨line, type, name, ordinal, default, attributes⟩

/-- A member of a struct. Attributes have to be followed by one. -/
def structMember : Rule (Option Tree.StructMember) := do
  let attributes? ← attributes?
  let attributes := attributes?.getD []
  match ← enumeration attributes with
  | some e => return some (.enum e)
  | none =>
    match ← constant attributes with
    | some c => return some (.constant c)
    | none =>
      match ← structField attributes with
      | some f => return some (.field f)
      | none =>
        if attributes?.isSome then fail (← line) .typeMissing else return none

def struct (attributes : List Tree.Attribute) : Rule (Option Tree.Struct) := do
  match ← keyword? .structWord with
  | none => return none
  | some word =>
    let name ← nameAfter word
    let _ ← mark .lbrace
    let body ← many structMember
    let _ ← mark .rbrace
    let _ ← mark? .semicolon
    return some ⟨word.line, name, attributes, body⟩

/-! ## Interfaces -/

def parameter : Rule Tree.Parameter := do
  let attributes := (← attributes?).getD []
  let line ← line
  match ← typeExpr with
  | none => fail line .typeMissing
  | some type =>
    let name ← nameAfterType line type
    let ordinal ← ordinal
    return ⟨line, type, name, ordinal, attributes⟩

/-- A parameter list in parentheses. -/
def parameters : Rule (List Tree.Parameter) := do
  let _ ← mark .lparen
  match ← mark? .rparen with
  | some _ => return []
  | none =>
    let list ← collect do afterComma (← parameter)
    let _ ← mark .rparen
    return list

def response : Rule (Option (List Tree.Parameter)) := do
  match ← mark? .arrow with
  | some _ => return some (← parameters)
  | none => return none

def method (attributes : List Tree.Attribute) : Rule (Option Tree.Method) := do
  match ← identifier? with
  | none => return none
  | some (name, line) =>
    let ordinal ← ordinal
    let parameters ← parameters
    let response ← response
    let _ ← mark .semicolon
    return some ⟨line, name, ordinal, parameters, response, attributes⟩

/-- A member of an interface. Attributes have to be followed by one. -/
def interfaceMember : Rule (Option Tree.InterfaceMember) := do
  let attributes? ← attributes?
  let attributes := attributes?.getD []
  match ← enumeration attributes with
  | some e => return some (.enum e)
  | none =>
    match ← constant attributes with
    | some c => return some (.constant c)
    | none =>
      match ← method attributes with
      | some m => return some (.method m)
      | none =>
        if attributes?.isSome then
          fail (← line) (.expected [.identifier ""] (← peek))
        else return none

def interface (attributes : List Tree.Attribute) : Rule (Option Tree.Interface) := do
  match ← keyword? .interfaceWord with
  | none => return none
  | some word =>
    let name ← nameAfter word
    let _ ← mark .lbrace
    let body ← many interfaceMember
    let _ ← mark .rbrace
    let _ ← mark? .semicolon
    return some ⟨word.line, name, attributes, body⟩

/-! ## Any definition -/

def definition (attributes : List Tree.Attribute) : Rule (Option Tree.Definition) := do
  match ← struct attributes with
  | some s => return some (.struct s)
  | none =>
    match ← interface attributes with
    | some i => return some (.interface i)
    | none =>
      match ← enumeration attributes with
      | some e => return some (.enum e)
      | none =>
        match ← constant attributes with
        | some c => return some (.constant c)
        | none => return none

/-- A definition inside a module. Attributes have to be followed by one. -/
def attributedDefinition : Rule (Option Tree.Definition) := do
  let attributes? ← attributes?
  match ← definition (attributes?.getD []) with
  | some d => return some d
  | none =>
    if attributes?.isSome then
      let words := [Keyword.structWord, .interfaceWord, .enumWord, .constWord]
      fail (← line) (.expected (words.map .keyword) (← peek))
    else return none

end WireSchema.Grammar
