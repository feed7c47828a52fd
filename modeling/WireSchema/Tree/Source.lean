import WireSchema.Fault
import WireSchema.Grammar.File
import WireSchema.Token.Scan

/-!
# From text to trees and records
-/

namespace WireSchema

/-- Reads the tree of a schema file from its text. -/
def Tree.ofSource (file text : String) : Except SchemaFault Tree :=
  match (Token.scan text).toExcept with
  | .error f => .error (.scan (.atLine file text f.cause.message f.line))
  | .ok tokens =>
    match Tree.ofTokens tokens with
    | .error f => .error (.grammar (.atLine file text f.cause.message f.line))
    | .ok tree => .ok tree

/-- Reads the record of a schema file from its text. -/
def Record.ofSource (file text : String) : Except SchemaFault Record := do
  let tree ← Tree.ofSource file text
  match Record.ofTree file tree with
  | .error cause => throw (.record file cause)
  | .ok record => return record

end WireSchema
