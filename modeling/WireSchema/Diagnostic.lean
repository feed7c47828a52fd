import WireSchema.Text.Line

/-!
# Diagnostics

A message about a place in a source file, shown with the text of the line it blames.
-/

namespace WireSchema

/-- A message about a source file. -/
structure Diagnostic where
  file : String
  text : String
  line : Option UInt32
  snippet : Option String
  deriving DecidableEq, Repr

namespace Diagnostic

/-- A message about a line of a file with the given contents. -/
def atLine (file source text : String) (line : UInt32) : Diagnostic :=
  ⟨file, text, some line, Text.snippet? source line⟩

/-- The file, the line and the message, and below them the line's text. -/
def message (d : Diagnostic) : String :=
  let place := match d.line with
    | some line => d.file ++ ":" ++ toString line.toNat
    | none => d.file
  let shown := match d.snippet with
    | some snippet => "\n  " ++ snippet
    | none => ""
  place ++ ": Error: " ++ d.text ++ shown

end Diagnostic

end WireSchema
