import WireSchema.SourcePath

/-!
# Source files

Source files are kept by canonical path, so that two paths that lead to one file lead to one entry.
Files kept in memory are addressed lexically: the canonical path is the normal form of the path.
Files of a directory tree are addressed by walking: every step has to lead from an existing
directory.
-/

namespace WireSchema

/-- The contents of a file: text, or bytes that are no text. -/
inductive FileText where
  | text (contents : String)
  | binary
  deriving DecidableEq, Repr

/-- How a path leads to a file. -/
inductive Addressing where
  /-- By its normal form. -/
  | lexical
  /-- Step by step from a working directory, through existing directories. Directories are given by
  the names on the way from the root. -/
  | walked (cwd : List String) (directories : List (List String))
  deriving DecidableEq, Repr

/-- Source files by canonical path. -/
structure Sources where
  files : List (SourcePath × FileText) := []
  addressing : Addressing := .lexical
  deriving DecidableEq, Repr

/-- The canonical path of the names on the way from the root. -/
def SourcePath.ofNames (names : List String) : SourcePath :=
  ⟨true, names.map .down⟩

namespace Sources

/-- Walks steps from a directory, given by the names on the way to it; `none` if a step does not
start at a directory. What it leads to need not exist. -/
def walk (directories : List (List String)) : List String → List Step → Option (List String)
  | place, [] => some place
  | place, step :: rest =>
    if place ∈ directories then
      match step with
      | .here => walk directories place rest
      | .up => walk directories place.dropLast rest
      | .down name => walk directories (place ++ [name]) rest
    else none

/-- The canonical path of the file at a path. -/
def resolve? (s : Sources) (path : SourcePath) : Option SourcePath :=
  match s.addressing with
  | .lexical => if (s.files.lookup path.normalize).isSome then some path.normalize else none
  | .walked cwd directories =>
    match walk directories (if path.absolute then [] else cwd) path.steps with
    | some names =>
      if (s.files.lookup (.ofNames names)).isSome then some (.ofNames names) else none
    | none => none

/-- Adds a file at the normal form of a path, or replaces the one there. -/
def add (s : Sources) (written text : String) : Sources :=
  let path := (SourcePath.ofString written).normalize
  { s with files := (path, .text text) :: s.files.filter (·.1 ≠ path) }

/-- The text of the file at a path, or the reason why there is none. -/
def read (s : Sources) (written : String) : Except String String :=
  match s.files.lookup (SourcePath.ofString written).normalize with
  | some (.text text) => .ok text
  | _ => .error (written ++ " does not exist")

end Sources

end WireSchema
