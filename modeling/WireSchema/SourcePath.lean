/-!
# Paths

A path is a list of steps separated by slashes, from the root or from some other place. Repeated
slashes count once. `SourcePath.ofString` keeps every step `.` and reads a slash at the end as one
more, since a path that ends so names a directory; `components` leaves out those that say nothing.
`normalize` folds `..` steps lexically. `relativeTo` is the form in which paths are shown.
-/

namespace WireSchema

/-- A step of a path. -/
inductive Step where
  | here
  | up
  | down (name : String)
  deriving DecidableEq, Repr

/-- The step a part between slashes stands for. -/
def Step.ofPart : String → Step
  | "." => here
  | ".." => up
  | part => down part

def Step.text : Step → String
  | here => "."
  | up => ".."
  | down name => name

/-- A path from the root or from some other place. -/
structure SourcePath where
  absolute : Bool
  steps : List Step
  deriving DecidableEq, Repr

namespace SourcePath

/-- The parts of a text between slashes. -/
def splitSlashes : List Char → List (List Char)
  | [] => [[]]
  | '/' :: rest => [] :: splitSlashes rest
  | c :: rest =>
    match splitSlashes rest with
    | part :: parts => (c :: part) :: parts
    | [] => [[c]]

/-- The steps of the parts of a path. An empty part says nothing, except at the end. -/
def stepsOfParts : List (List Char) → List Step
  | [] => []
  | [[]] => [.here]
  | [] :: parts => stepsOfParts parts
  | part :: parts => Step.ofPart (String.ofList part) :: stepsOfParts parts

/-- Reads a path. -/
def ofString (text : String) : SourcePath :=
  match text.toList with
  | [] => ⟨false, []⟩
  | '/' :: rest => ⟨true, stepsOfParts (splitSlashes rest)⟩
  | cs => ⟨false, stepsOfParts (splitSlashes cs)⟩

/-- Drops the steps `.` that say nothing: all but one at the start of a relative path. -/
def components (p : SourcePath) : SourcePath :=
  match p with
  | ⟨false, .here :: rest⟩ => ⟨false, .here :: rest.filter (· ≠ .here)⟩
  | ⟨absolute, steps⟩ => ⟨absolute, steps.filter (· ≠ .here)⟩

/-- Joins steps with slashes. -/
def stepsText (steps : List Step) : String :=
  String.intercalate "/" (steps.map Step.text)

/-- The text of a path. -/
def text (p : SourcePath) : String :=
  if p.absolute then "/" ++ stepsText p.steps else stepsText p.steps

/-- The path `q` as seen from `p`. -/
def join (p q : SourcePath) : SourcePath :=
  if q.absolute then q else ⟨p.absolute, p.steps ++ q.steps⟩

/-- The last step if it is a name. -/
def fileName? (p : SourcePath) : Option String :=
  match p.components.steps.getLast? with
  | some (.down name) => some name
  | _ => none

/-- The path without its last step; a path without steps has no parent. -/
def parent? (p : SourcePath) : Option SourcePath :=
  match p.components.steps with
  | [] => none
  | steps => some ⟨p.absolute, steps.dropLast⟩

/-! ## Normal forms -/

/-- Takes a step from a place whose steps are given latest first. A step up undoes a step down, does
nothing at the root, and is kept otherwise. -/
def takeStep (absolute : Bool) (trail : List Step) : Step → List Step
  | .here => trail
  | .down name => .down name :: trail
  | .up =>
    match trail with
    | .down _ :: before => before
    | _ => if absolute && trail.isEmpty then trail else .up :: trail

/-- The lexical normal form: no `.` steps, and `..` only at the start of a relative path. -/
def normalize (p : SourcePath) : SourcePath :=
  ⟨p.absolute, (p.steps.foldl (takeStep p.absolute) []).reverse⟩

/-! ## Paths as they are shown -/

/-- What remains of the steps after those of another path. -/
def stripSteps : List Step → List Step → Option (List Step)
  | [], steps => some steps
  | s :: rest, t :: steps => if s = t then stripSteps rest steps else none
  | _ :: _, [] => none

/-- The rest of a path that lies below `root`. -/
def below? (p root : SourcePath) : Option SourcePath :=
  if root.components.absolute = p.components.absolute then
    (stripSteps root.components.steps p.components.steps).map fun steps => ⟨false, steps⟩
  else if root.components = ⟨false, []⟩ then some p.components
  else none

/-- A path as it is shown: relative to `root` if it lies below it, and in full otherwise. -/
def relativeTo (p root : SourcePath) : String :=
  let shown := (p.below? root).getD p.components
  let parts := (shown.steps.filter (· ≠ .here)).map Step.text
  String.intercalate "/" (if shown.absolute then "" :: parts else parts)

end SourcePath

end WireSchema
