import WireSchema.CommandLine
import WireSchema.Folder
import WireSchema.Typemap.Reader
import WireSchema.Workspace

/-!
# A run of the program

A run reads the typemaps, compiles every file, prints what `--emit` asks for and runs the generators
over the modules. Nothing is printed or written before all files have compiled. What an external
emitter does is up to the host: that is a parameter of the run.
-/

namespace WireSchema

/-- How a command ends: by itself with a status, or by a signal. -/
inductive Ending where
  | exited (status : Nat)
  | stopped (signal : String)
  deriving DecidableEq, Repr

def Ending.description : Ending → String
  | exited status => "exit status: " ++ toString status
  | stopped signal => "signal: " ++ signal

/-- Why a run fails. -/
inductive RunFault where
  | usage (fault : UsageFault)
  | typemapUnreadable (path : String) (fault : AccessFault)
  | typemapInvalid (path : String) (fault : JsonText.Fault)
  | rootUnusable (depth : String) (fault : AccessFault)
  | compile (fault : CompileFault)
  | source (fault : SchemaFault)
  | layout (fault : LayoutFault)
  | unusable (path : String) (fault : AccessFault)
  | emitterFailed (script : String) (ending : Ending)
  deriving DecidableEq, Repr

def RunFault.message : RunFault → String
  | usage fault => fault.message
  | typemapUnreadable path fault =>
    path ++ ": Error: Unable to read typemap: " ++ fault.message
  | typemapInvalid path fault => path ++ ": Error: Invalid typemap: " ++ fault.message
  | rootUnusable depth fault => depth ++ ": " ++ fault.message
  | compile fault => fault.message
  | source fault => fault.message
  | layout fault => fault.message
  | unusable path fault => path ++ ": " ++ fault.message
  | emitterFailed script ending => "Emitter " ++ script ++ " failed: " ++ ending.description

/-- A file tree and what has been printed. -/
structure Console where
  folder : Folder
  output : String := ""
  errors : String := ""
  deriving DecidableEq, Repr

/-- What a host makes of a command: given the program, its arguments and the text on its input, how
it ends, unless it cannot be run, and what it leaves. -/
abbrev Host :=
  String → List String → String → Console → Except AccessFault Ending × Console

/-- How a run ends. -/
structure RunOutcome where
  code : Nat
  console : Console
  deriving DecidableEq, Repr

namespace Invocation

/-- Reads and merges typemaps in order. -/
def loadTypemaps (f : Folder) (t : Typemap) : List String → Except RunFault Typemap
  | [] => .ok t
  | path :: rest =>
    match f.readText (.ofString path) with
    | .error fault => .error (.typemapUnreadable path fault)
    | .ok text =>
      match Typemap.parse text with
      | .error fault => .error (.typemapInvalid path fault)
      | .ok other => loadTypemaps f (t.merge other) rest

/-- Compiles files in order, each with the path under which it was given. -/
def compileAll (ws : Workspace) : List String → Except RunFault (List (String × Module))
  | [] => .ok []
  | file :: rest =>
    match ws.compile file with
    | (.error fault, _) => .error (.compile fault)
    | (.ok m, ws) => do return (file, m) :: (← compileAll ws rest)

/-- The text that is printed for a file. -/
def emitted (f : Folder) (file : String) (m : Module) : Emit → Except RunFault String
  | .record =>
    match f.readText (.ofString file) with
    | .error fault => .error (.unusable file fault)
    | .ok text =>
      match Record.ofSource m.name text with
      | .error fault => .error (.source fault)
      | .ok record => .ok record.document.json
  | .ir =>
    match m.emitterDocument ∅ with
    | .error fault => .error (.layout fault)
    | .ok document => .ok document.json
  | .layout =>
    match m.layouts with
    | .error fault => .error (.layout fault)
    | .ok layouts => .ok (Document.each Layout.document layouts).json

/-- Prints what is asked for each file. What is printed before a fault stays. -/
def printAll (emit : Emit) (c : Console) : List (String × Module) → Except RunFault Unit × Console
  | [] => (.ok (), c)
  | (file, m) :: rest =>
    match emitted c.folder file m emit with
    | .error fault => (.error fault, c)
    | .ok text => printAll emit { c with output := c.output ++ text ++ "\n" } rest

/-- The interpreter of an emitter. -/
def interpreter (script : String) : String :=
  match (SourcePath.ofString script).fileName? with
  | some name => if name ≠ ".py" && ".py".toList.isSuffixOf name.toList then "python3" else "sh"
  | none => "sh"

/-- Runs an emitter on a document. -/
def runEmitter (host : Host) (script outputDir document : String) (c : Console) :
    Except RunFault Unit × Console :=
  match host (interpreter script) [script, "--output-dir", outputDir] document c with
  | (.ok (.exited 0), c) => (.ok (), c)
  | (.ok ending, c) => (.error (.emitterFailed script ending), c)
  | (.error fault, c) => (.error (.unusable script fault), c)

/-- Writes a module's document to its output file. -/
def writeDocument (format : OutputFormat) (modulePath outputDir : String) (document : Document)
    (c : Console) : Except RunFault Unit × Console :=
  match c.folder.writeBelow (.ofString outputDir) (outputName modulePath format)
      (format.render document) with
  | .error fault => (.error (.unusable outputDir fault), c)
  | .ok folder => (.ok (), { c with folder })

/-- Runs a generator over a module. -/
def generate (host : Host) (g : Generator) (typemap : Typemap) (outputDir : String)
    (m : Module) (c : Console) : Except RunFault Unit × Console :=
  match m.emitterDocument typemap with
  | .error fault => (.error (.layout fault), c)
  | .ok document =>
    match g with
    | .json => writeDocument .json m.path outputDir document c
    | .yaml => writeDocument .yaml m.path outputDir document c
    | .external script => runEmitter host script outputDir document.json c

/-- Runs generators over modules, given as pairs, until one fails. -/
def generateAll (host : Host) (typemap : Typemap) (outputDir : String) (c : Console) :
    List (Module × Generator) → Except RunFault Unit × Console
  | [] => (.ok (), c)
  | (m, g) :: rest =>
    match generate host g typemap outputDir m c with
    | (.error fault, c) => (.error fault, c)
    | (.ok (), c) => generateAll host typemap outputDir c rest

/-- The modules of the files, and the typemap, of a command line. -/
def prepare (f : Folder) (settings : CommandLine) :
    Except RunFault (Typemap × List (String × Module)) := do
  let typemap ← loadTypemaps f ∅ settings.typemaps
  let root ← match f.canonical (.ofString settings.depth) with
    | .ok root => pure root
    | .error fault => throw (.rootUnusable settings.depth fault)
  let ws : Workspace :=
    { sources := f.sources
      searchDirs := settings.importDirs.map .ofString
      sourceRoot := some root }
  return (typemap, ← compileAll ws settings.files)

/-- Compiles the files of a command line, prints what is asked for, and runs the generators. -/
def perform (host : Host) (f : Folder) (settings : CommandLine) :
    Except RunFault Unit × Console :=
  match prepare f settings with
  | .error fault => (.error fault, { folder := f })
  | .ok (typemap, modules) =>
    let printed := match settings.emit with
      | some emit => printAll emit { folder := f } modules
      | none => (.ok (), { folder := f })
    match printed with
    | (.error fault, c) => (.error fault, c)
    | (.ok (), c) =>
      let jobs := modules.flatMap fun (_, m) => settings.generators.map fun g => (m, g)
      generateAll host typemap settings.outputDir c jobs

/-- Runs the program in a file tree with the arguments after its name. -/
def run (host : Host) (f : Folder) (args : List String) : RunOutcome :=
  match CommandLine.parse args with
  | .error fault =>
    match fault with
    | .helpWanted | .versionWanted => ⟨0, { folder := f, output := fault.message ++ "\n" }⟩
    | _ => ⟨1, { folder := f, errors := "error: " ++ fault.message ++ "\n" }⟩
  | .ok settings =>
    match perform host f settings with
    | (.ok (), c) => ⟨0, c⟩
    | (.error fault, c) => ⟨1, { c with errors := c.errors ++ "error: " ++ fault.message ++ "\n" }⟩

end Invocation

end WireSchema
