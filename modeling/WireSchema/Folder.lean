import WireSchema.Workspace.Sources

/-!
# File trees

A file tree with a working directory. Files and directories are known by the names on the way from
the root. A path is walked step by step, and every step has to start at a directory.
-/

namespace WireSchema

/-- Why a file or directory cannot be used. -/
inductive AccessFault where
  | notFound
  | alreadyThere
  | notDirectory
  | isDirectory
  | notText
  | brokenPipe
  deriving DecidableEq, Repr

def AccessFault.message : AccessFault → String
  | notFound => "No such file or directory (os error 2)"
  | alreadyThere => "File exists (os error 17)"
  | notDirectory => "Not a directory (os error 20)"
  | isDirectory => "Is a directory (os error 21)"
  | notText => "stream did not contain valid UTF-8"
  | brokenPipe => "Broken pipe (os error 32)"

/-- Files and directories, and the directory from which relative paths start. -/
structure Folder where
  cwd : List String
  files : List (List String × FileText)
  directories : List (List String)
  deriving DecidableEq, Repr

namespace Folder

/-- A tree that is empty but for its working directory and the directories around it. -/
def empty (cwd : List String) : Folder where
  cwd := cwd
  files := []
  directories := (List.range (cwd.length + 1)).map fun n => cwd.take n

def isDirectory (f : Folder) (names : List String) : Bool :=
  f.directories.contains names

/-- The contents of a file. -/
def get? (f : Folder) (names : List String) : Option FileText :=
  f.files.lookup names

/-- Puts a file in place of any that is there. -/
def put (f : Folder) (names : List String) (contents : FileText) : Folder :=
  { f with files := (names, contents) :: f.files.filter (·.1 ≠ names) }

/-- Puts a file and the directories around it. -/
def putDeep (f : Folder) (names : List String) (contents : FileText) : Folder :=
  let around := (List.range names.length).map fun n => names.take n
  { f.put names contents with
    directories := f.directories ++ around.filter fun d => !f.directories.contains d }

/-- Walks steps from a place. What they lead to need not exist. -/
def walk (f : Folder) : List String → List Step → Except AccessFault (List String)
  | place, [] => .ok place
  | place, step :: rest =>
    if f.isDirectory place then
      match step with
      | .here => walk f place rest
      | .up => walk f place.dropLast rest
      | .down name => walk f (place ++ [name]) rest
    else if (f.get? place).isSome then .error .notDirectory
    else .error .notFound

/-- Where a path leads if all directories on the way exist. -/
def place (f : Folder) (path : SourcePath) : List String :=
  let start : SourcePath := if path.absolute then ⟨true, []⟩ else .ofNames f.cwd
  (start.join path).normalize.steps.map Step.text

/-- Where a path leads. The empty path leads nowhere. -/
def locate (f : Folder) (path : SourcePath) : Except AccessFault (List String) :=
  if path = ⟨false, []⟩ then .error .notFound
  else f.walk (if path.absolute then [] else f.cwd) path.steps

/-- The canonical path of an existing file or directory. -/
def canonical (f : Folder) (path : SourcePath) : Except AccessFault SourcePath := do
  let names ← f.locate path
  if f.isDirectory names || (f.get? names).isSome then return .ofNames names
  else throw .notFound

/-- The text of a file. -/
def readText (f : Folder) (path : SourcePath) : Except AccessFault String := do
  let names ← f.locate path
  if f.isDirectory names then throw .isDirectory
  match f.get? names with
  | some (.text text) => return text
  | some .binary => throw .notText
  | none => throw .notFound

/-- Writes a file in an existing directory. -/
def writeText (f : Folder) (path : SourcePath) (text : String) : Except AccessFault Folder := do
  let names ← f.locate path
  if f.isDirectory names then throw .isDirectory
  else return f.put names (.text text)

/-- Makes a directory in an existing one. -/
def makeDirectory (f : Folder) (path : SourcePath) : Except AccessFault Folder := do
  let names ← f.locate path
  if f.isDirectory names || (f.get? names).isSome then throw .alreadyThere
  else return { f with directories := names :: f.directories }

/-- Whether a path leads to a directory. -/
def leadsToDirectory (f : Folder) (path : SourcePath) : Bool :=
  match f.locate path with
  | .ok names => f.isDirectory names
  | .error _ => false

/-- Makes a directory, and first those around it that are missing. The steps are given last
first. -/
def makeDirectories (f : Folder) (absolute : Bool) : List Step → Except AccessFault Folder
  | [] => .ok f
  | step :: before =>
    let path : SourcePath := ⟨absolute, (step :: before).reverse⟩
    let settle (f : Folder) : Except AccessFault Folder :=
      match f.makeDirectory path with
      | .ok f => .ok f
      | .error e => if f.leadsToDirectory path then .ok f else .error e
    match f.makeDirectory path with
    | .error .notFound =>
      match makeDirectories f absolute before with
      | .ok f => settle f
      | .error e => .error e
    | _ => settle f

/-- Writes a file below a directory, and makes the directories that are missing. -/
def writeBelow (f : Folder) (dir : SourcePath) (name text : String) :
    Except AccessFault Folder := do
  let path := dir.join (.ofString name)
  let f ← match path.parent? with
    | some parent => f.makeDirectories parent.absolute parent.steps.reverse
    | none => pure f
  f.writeText path text

/-- The source files of the tree. -/
def sources (f : Folder) : Sources where
  files := f.files.map fun (names, contents) => (.ofNames names, contents)
  addressing := .walked f.cwd f.directories

/-- The files that another tree does not have, or has with other contents. -/
def newFiles (f before : Folder) : List (List String × FileText) :=
  f.files.filter fun (names, contents) => before.get? names ≠ some contents

/-- The directories that another tree does not have. -/
def newDirectories (f before : Folder) : List (List String) :=
  f.directories.filter fun names => !before.isDirectory names

end Folder

end WireSchema
