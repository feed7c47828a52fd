import WireSchema.Grammar.Rule
import WireSchema.Tree.Type

/-!
# Rules for names, ordinals and types

A type is a dotted name, a handle or an `array<T>`, followed by any number of `[]` and `&`.
-/

namespace WireSchema.Grammar

open Rule

/-- A name part after a dot. -/
def dottedPart : Rule (Option String) := do
  match ← mark? .dot with
  | none => return none
  | some dot =>
    match ← identifier? with
    | some (part, _) => return some part
    | none => fail dot.line (.identifierMissingAfter (.punct .dot))

/-- Identifiers joined by dots. -/
def dottedName : Rule (Option String) := do
  match ← identifier? with
  | none => return none
  | some (first, _) =>
    let parts ← many dottedPart
    return some (String.intercalate "." (first :: parts))

/-- An ordinal `@n`. -/
def ordinal : Rule (Option UInt32) := do
  match ← nextIf (.ordinal "") with
  | some ⟨line, .ordinal digits⟩ =>
    match Text.readOrdinal? digits with
    | some n => return some n
    | none => fail line (.ordinalOutOfRange ("@" ++ digits))
  | _ => return none

/-- The qualifier of a handle in angle brackets; `line` is the line of the handle. -/
def handleSort (line : UInt32) : Rule HandleSort := do
  let _ ← mark .langle
  match ← identifier? with
  | none => fail line (.identifierMissingAfter (.punct .langle))
  | some (name, nameLine) =>
    match HandleSort.ofText? name with
    | none => fail nameLine (.unknownHandleType name)
    | some sort =>
      let _ ← mark .rangle
      return sort

/-- Whether the next token is the identifier `name`. -/
def atIdentifier (name : String) (c : Cursor) : Bool :=
  c.peek.map Token.symbol = some (.identifier name)

/-- Whether an array written `array<T>` starts here. -/
def atArray (c : Cursor) : Bool :=
  atIdentifier "array" c && (c.peekAt 1).map Token.symbol = some (.punct .langle)

/-- The start of an array written `array<T>`; gives the line of the word. -/
def arrayOpening : Rule (Option UInt32) := do
  if ← look atArray then
    let line ← line
    let _ ← next
    let _ ← next
    return some line
  else return none

/-- A type without arrays or requests: a handle or a dotted name. -/
def plainType : Rule (Option TypeExpr) := do
  if ← look (atIdentifier "handle") then
    let line ← line
    let _ ← next
    if (← peek) = some (.punct .langle) then
      return some (.handle (some (← handleSort line)))
    else return some (.handle none)
  else
    match ← dottedName with
    | some name => return some (.named name)
    | none => return none

/-- What may follow a type: `[]` makes an array of it, `&` a request for it. -/
inductive TypeSuffix where
  | array
  | request
  deriving DecidableEq, Repr

def TypeSuffix.apply (t : TypeExpr) : TypeSuffix → TypeExpr
  | array => .array t
  | request => .request t

def typeSuffix : Rule (Option TypeSuffix) := do
  match ← nextIfAll [.punct .lbracket, .punct .rbracket] with
  | some _ => return some .array
  | none =>
    match ← mark? .amp with
    | some _ => return some .request
    | none => return none

/-- The type `t` with the suffixes that follow it. -/
def suffixed (t : TypeExpr) : Rule TypeExpr := do
  return (← many typeSuffix).foldl TypeSuffix.apply t

/-- Closes `n` arrays around the type `t`, innermost first. -/
def closeArrays : Nat → TypeExpr → Rule TypeExpr
  | 0, t => pure t
  | n + 1, t => do
    let _ ← mark .rangle
    closeArrays n (← suffixed (.array t))

/-- A type. Arrays written `array<T>` open one inside the other before the innermost type. -/
def typeExpr : Rule (Option TypeExpr) := do
  let openings ← many arrayOpening
  match ← plainType with
  | some t => return some (← closeArrays openings.length (← suffixed t))
  | none =>
    match openings.getLast? with
    | some line => fail line .typeMissing
    | none => return none

end WireSchema.Grammar
