import WireSchema.Invocation

/-!
# The program

Takes a picture of the file tree, runs, and brings the tree and the streams up to date. External
emitters cannot be started from here.
-/

namespace WireSchema

/-- The text of a path given by the names on the way from the root. -/
def placeText (names : List String) : String :=
  (SourcePath.ofNames names).text

/-- Adds what is at a place of the disk to a tree, with all that is below it. Links to directories
are not followed. -/
partial def addPlace (f : Folder) (names : List String) : IO Folder := do
  if f.isDirectory names && names ≠ f.cwd then return f
  try
    let place ← IO.FS.realPath (placeText names)
    if ← place.isDir then
      if place.toString ≠ placeText names then return f
      let f := { f with directories := names :: f.directories }
      (← place.readDir).foldlM (fun f entry => addPlace f (names ++ [entry.fileName])) f
    else if ← place.pathExists then
      match String.fromUTF8? (← IO.FS.readBinFile place) with
      | some text => return f.putDeep names (.text text)
      | none => return f.putDeep names .binary
    else return f
  catch _ => return f

/-- The places outside the working directory that a command line names. -/
def namedPlaces (f : Folder) (args : List String) : List (List String) :=
  match CommandLine.parse args with
  | .error _ => []
  | .ok settings =>
    let files := settings.files ++ settings.typemaps
    let around := files.filterMap fun file => (SourcePath.ofString file).parent?
    let dirs := (settings.depth :: settings.importDirs).map SourcePath.ofString
    let places := (around ++ dirs).map f.place
    places.filter fun names => names.take f.cwd.length ≠ f.cwd

/-- Writes what a run has changed. -/
def bringUpToDate (f before : Folder) : IO Unit := do
  for names in f.newDirectories before do
    IO.FS.createDirAll (placeText names)
  for (names, contents) in f.newFiles before do
    match contents with
    | .text text => IO.FS.writeFile (placeText names) text
    | .binary => pure ()

/-- The host of this program, which starts no other programs. -/
def startsNothing : Host :=
  fun _ _ _ c => (.error .notFound, c)

end WireSchema

open WireSchema

def main (args : List String) : IO UInt32 := do
  let cwd := (Folder.empty []).place (.ofString (← IO.currentDir).toString)
  let start ← addPlace (Folder.empty cwd) cwd
  let folder ← (namedPlaces start args).foldlM addPlace start
  let outcome := Invocation.run startsNothing folder args
  bringUpToDate outcome.console.folder folder
  IO.print outcome.console.output
  IO.eprint outcome.console.errors
  return UInt32.ofNat outcome.code
