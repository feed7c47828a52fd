import WireSchema.Layout.Bytes
import WireSchema.Module.Build
import WireSchema.Tree.Source
import WireSchema.Workspace.Sources

/-!
# Workspaces

A workspace holds the source files, the places where imports are searched, and the modules built so
far. `Workspace.compile` builds the module of a file after the modules it imports, each at most
once. An import of a file that is still being built is circular. A failure carries the files whose
builds were in progress.
-/

namespace WireSchema

/-- Source files, where to look for imports, and the modules built so far by the canonical paths of
their files. -/
structure Workspace where
  sources : Sources
  searchDirs : List SourcePath := []
  /-- Paths are shown relative to this directory. -/
  sourceRoot : Option SourcePath := none
  built : List (SourcePath × Module) := []

/-- A fault and the files whose builds were in progress, latest first. -/
structure Workspace.Halt where
  fault : SchemaFault
  stack : List SourcePath
  deriving DecidableEq, Repr

/-- A failed compilation: the fault, and the files in progress as they are shown, outermost
first. -/
structure CompileFault where
  fault : SchemaFault
  stack : List String
  deriving DecidableEq, Repr

/-- The message of the fault and, unless it lists them itself, the imports that led to it. -/
def CompileFault.message (f : CompileFault) : String :=
  match f.fault with
  | .circular _ => f.fault.message
  | _ => f.fault.message ++ importLines f.stack

namespace Workspace

/-- A path as it is shown. -/
def displayPath (ws : Workspace) (path : SourcePath) : String :=
  match ws.sourceRoot with
  | some root => path.relativeTo root.normalize
  | none => path.relativeTo ⟨false, []⟩

/-- The places where an import may be, in the order in which they are tried: next to the importing
file, then in the search directories. -/
def importPlaces (ws : Workspace) (importer : SourcePath) (written : String) : List SourcePath :=
  (importer.parent?.toList ++ ws.searchDirs).map fun dir => dir.join (.ofString written)

/-- The file that an import names. -/
def findImport? (ws : Workspace) (importer : SourcePath) (written : String) : Option SourcePath :=
  (ws.importPlaces importer written).findSome? ws.sources.resolve?

/-- Lays out structs, and checks each layout byte by byte. -/
def checkLayouts : List Module.Struct → Except LayoutFault Unit
  | [] => .ok ()
  | s :: rest => do
    let layout ← Layout.ofStruct s
    let _ ← layout.bytes
    checkLayouts rest

/-- Builds a module from its record and its imports, and checks its layouts. -/
def buildModule (file : String) (record : Record) (imports : List (Module.Import Module)) :
    Except SchemaFault Module :=
  match Module.ofRecord record file imports with
  | .error fault => .error (.build file fault)
  | .ok m =>
    match checkLayouts m.layoutStructs with
    | .error fault => .error (.layout fault)
    | .ok () => .ok m

/-- The record of a file that is read. -/
def readRecord (ws : Workspace) (path : SourcePath) : FileText → Except SchemaFault Record
  | .text text => Record.ofSource (ws.displayPath path) text
  | .binary => .error (.unreadable path.text "stream did not contain valid UTF-8")

/-- The modules built so far, by canonical path. -/
abbrev Built := List (SourcePath × Module)

/-- Builds the modules that the file `importer` imports, in order, each by `load`. -/
def loadEach (ws : Workspace) (load : Built → SourcePath → Except Halt Module × Built)
    (stack : List SourcePath) (built : Built) (importer : SourcePath)
    (imports : List Record.Import) : Except Halt (List (Module.Import Module)) × Built :=
  match imports with
  | [] => (.ok [], built)
  | i :: rest =>
    match ws.findImport? importer i.filename with
    | none =>
      let fault := BuildFault.resolution i.line (.importNotFound i.filename)
      (.error ⟨.build (ws.displayPath importer) fault, stack⟩, built)
    | some path =>
      match load built path with
      | (.error halt, built) => (.error halt, built)
      | (.ok m, built) =>
        match loadEach ws load stack built importer rest with
        | (.error halt, built) => (.error halt, built)
        | (.ok others, built) => (.ok (⟨i.filename, m.space, path, m⟩ :: others), built)

/-- Builds the module of a canonical path, unless it is built already. `stack` holds the files in
progress, latest first. -/
def load (ws : Workspace) (stack : List SourcePath) (built : Built) (path : SourcePath) :
    Except Halt Module × Built :=
  if _ : path ∈ stack then
    (.error ⟨.circular ((path :: stack).reverse.map ws.displayPath), stack⟩, built)
  else
    match built.lookup path with
    | some m => (.ok m, built)
    | none =>
      match _ : ws.sources.files.lookup path with
      | none =>
        let fault := SchemaFault.unreadable path.text (path.text ++ " does not exist")
        (.error ⟨fault, path :: stack⟩, built)
      | some contents =>
        match ws.readRecord path contents with
        | .error fault => (.error ⟨fault, path :: stack⟩, built)
        | .ok record =>
          match ws.loadEach (fun built target => load ws (path :: stack) built target)
            (path :: stack) built path record.imports with
          | (.error halt, built) => (.error halt, built)
          | (.ok imports, built) =>
            match buildModule (ws.displayPath path) record imports with
            | .error fault => (.error ⟨fault, path :: stack⟩, built)
            | .ok m => (.ok m, (path, m) :: built)
termination_by remaining (ws.sources.files.map Prod.fst) stack
decreasing_by
  exact remaining_cons_lt (mem_keys_of_lookup ‹_›) ‹_›

/-- Builds the module of the file at a path, and first everything it imports. -/
def compile (ws : Workspace) (written : String) : Except CompileFault Module × Workspace :=
  match ws.sources.resolve? (.ofString written) with
  | none => (.error ⟨.unreadable written "No such file", []⟩, ws)
  | some path =>
    match ws.load [] ws.built path with
    | (.ok m, built) => (.ok m, { ws with built })
    | (.error halt, built) =>
      (.error ⟨halt.fault, halt.stack.reverse.map ws.displayPath⟩, { ws with built })

/-- Adds a source file, or replaces the one at the same place. Modules that are built stay. -/
def addSource (ws : Workspace) (written text : String) : Workspace :=
  { ws with sources := ws.sources.add written text }

end Workspace

end WireSchema
