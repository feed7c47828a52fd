import WireSchema.Document.Json
import WireSchema.Document.Module
import WireSchema.Document.Yaml
import WireSchema.Text.Blank

/-!
# Generators

A generator turns a built module into output. Two of them write the module's document as a file; any
other is an emitter, a script that is handed the document.
-/

namespace WireSchema

/-- What produces output from a module. -/
inductive Generator where
  | json
  | yaml
  | external (script : String)
  deriving DecidableEq, Repr

namespace Generator

/-- The endings of the names of emitters. -/
def emitterEndings : List String :=
  [".py", ".sh"]

/-- The generator of a given name. -/
def ofName? (name : String) : Option Generator :=
  if name = "json" then some json
  else if name = "yaml" then some yaml
  else if emitterEndings.any fun ending => ending.toList.isSuffixOf name.toList then
    some (external name)
  else none

/-- The message for a name that is no generator's. -/
def unknownMessage (name : String) : String :=
  "Unknown generator " ++ name ++ " (expected json, yaml or a .py or .sh emitter)"

/-- The parts of a text between commas. -/
def splitCommas : List Char → List (List Char)
  | [] => [[]]
  | ',' :: rest => [] :: splitCommas rest
  | c :: rest =>
    match splitCommas rest with
    | part :: parts => (c :: part) :: parts
    | [] => [[c]]

/-- The names in a list separated by commas, without the blanks around them. Empty names are left
out. -/
def listNames (list : String) : List String :=
  ((splitCommas list.toList).map fun part => Text.trim (String.ofList part)).filter (· ≠ "")

/-- Reads a list of generators. The error is the first name that is no generator's. -/
def parseList (list : String) : Except String (List Generator) :=
  (listNames list).mapM fun name =>
    match ofName? name with
    | some g => .ok g
    | none => .error name

end Generator

/-- The formats in which a module's document is written to a file. -/
inductive OutputFormat where
  | json
  | yaml
  deriving DecidableEq, Repr

namespace OutputFormat

/-- The ending of the files of a format. -/
def ending : OutputFormat → String
  | json => "json"
  | yaml => "yaml"

/-- Writes a document. -/
def render : OutputFormat → Document → String
  | json => Document.json
  | yaml => Document.yaml

end OutputFormat

/-- The name of a module's output file below the output directory, from the path by which the module
is shown. Slashes at the start are dropped, so that the name is relative. -/
def outputName (modulePath : String) (format : OutputFormat) : String :=
  String.ofList (modulePath.toList.dropWhile (· = '/')) ++ "." ++ format.ending

end WireSchema
