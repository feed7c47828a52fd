import WireSchema.Generator

/-!
# The command line

The arguments are global options, the command `generate`, and its options and files, which mix
freely. An option has its value in the next argument or in its own: `--depth src`, `--depth=src`,
`-d src`, `-dsrc`, `-d=src`. After `--` every argument is a file.
-/

namespace WireSchema

/-- What is printed for each file. -/
inductive Emit where
  | record
  | ir
  | layout
  deriving DecidableEq, Repr

def Emit.ofName? : String → Option Emit
  | "record" => some record
  | "ir" => some ir
  | "layout" => some layout
  | _ => none

/-- Which messages are logged. -/
inductive LogLevel where
  | error
  | warn
  | info
  | debug
  | trace
  deriving DecidableEq, Repr

/-- The level of a given name; `off` names none. -/
def LogLevel.ofName? : String → Option LogLevel
  | "error" => some error
  | "warn" => some warn
  | "info" => some info
  | "debug" => some debug
  | "trace" => some trace
  | _ => none

/-- The settings of a run. -/
structure CommandLine where
  files : List String
  depth : String
  outputDir : String
  generators : List Generator
  importDirs : List String
  typemaps : List String
  emit : Option Emit
  logLevel : Option LogLevel
  deriving DecidableEq, Repr

/-- Why arguments give no settings, or that they ask for something else. -/
inductive UsageFault where
  | commandMissing
  | commandUnknown (name : String)
  | helpUnknown
  | argumentUnknown
  | valueInvalid
  | valueMissing
  | optionRepeated
  | fileMissing
  | generatorUnknown (name : String)
  | helpWanted
  | versionWanted
  deriving DecidableEq, Repr

namespace UsageFault

def message : UsageFault → String
  | commandMissing => "a command is required"
  | commandUnknown name => "there is no command " ++ name
  | helpUnknown => "there is no help for this command"
  | argumentUnknown => "an argument was not expected"
  | valueInvalid => "an option has a value that is not allowed"
  | valueMissing => "an option has no value"
  | optionRepeated => "an option is given more than once"
  | fileMissing => "no schema file is given"
  | generatorUnknown name => Generator.unknownMessage name
  | helpWanted => "idlc generate [options] FILE..."
  | versionWanted => "idlc 0.1.0"

end UsageFault

namespace CommandLine

/-- The options. -/
inductive Opt where
  | logLevel
  | depth
  | outputDir
  | generators
  | importDir
  | typemap
  | emit
  deriving DecidableEq, Repr

namespace Opt

def all : List Opt :=
  [logLevel, depth, outputDir, generators, importDir, typemap, emit]

/-- The name after two dashes. -/
def long : Opt → String
  | logLevel => "log-level"
  | depth => "depth"
  | outputDir => "output-dir"
  | generators => "generators"
  | importDir => "import-dir"
  | typemap => "typemap"
  | emit => "emit"

/-- The letter after one dash. -/
def short? : Opt → Option Char
  | depth => some 'd'
  | outputDir => some 'o'
  | generators => some 'g'
  | importDir => some 'I'
  | logLevel | typemap | emit => none

/-- Whether an option may be given more than once. -/
def repeats : Opt → Bool
  | importDir | typemap => true
  | logLevel | depth | outputDir | generators | emit => false

/-- Whether an option may have a value. -/
def allows : Opt → String → Bool
  | logLevel, value => ["off", "error", "warn", "info", "debug", "trace"].contains value
  | emit, value => ["record", "ir", "layout"].contains value
  | depth, _ | outputDir, _ | generators, _ | importDir, _ | typemap, _ => true

end Opt

/-- What may be given at a place: options, commands, and files or not. -/
structure Scope where
  options : List Opt
  commands : List String
  takesFiles : Bool

/-- Before the command. -/
def outerScope : Scope where
  options := [.logLevel]
  commands := ["generate", "help"]
  takesFiles := false

/-- After the command `generate`. -/
def generateScope : Scope where
  options := Opt.all
  commands := []
  takesFiles := true

/-- The arguments read so far. An option may have been used without a value, and the last one may
still be waiting for its own. -/
structure Reading where
  uses : List Opt := []
  values : List (Opt × String) := []
  files : List String := []
  waiting : Option Opt := none
  filesOnly : Bool := false

namespace Reading

/-- The values given to an option. -/
def valuesOf (r : Reading) (o : Opt) : List String :=
  (r.values.filter (·.1 = o)).map Prod.snd

/-- Counts a use of an option, with its value or waiting for it. -/
def addUse (r : Reading) (o : Opt) (value : Option String) : Reading :=
  { r with
    uses := r.uses ++ [o]
    values := r.values ++ (value.map fun v => (o, v)).toList
    waiting := if value.isSome then none else some o }

/-- Gives the option that waits its value. -/
def addValue (r : Reading) (o : Opt) (value : String) : Reading :=
  { r with values := r.values ++ [(o, value)], waiting := none }

end Reading

/-- Whether an argument starts with a dash, and is not just that. -/
def isOption (arg : String) : Bool :=
  arg.toList.head? = some '-' && arg ≠ "-"

/-- A value without the equals signs that may stand before it. -/
def trimEquals (cs : List Char) : String :=
  String.ofList (cs.dropWhile (· = '='))

/-- Reads an option by its name. -/
def readLong (scope : Scope) (r : Reading) (cs : List Char) : Except UsageFault Reading :=
  let name := String.ofList (cs.takeWhile (· ≠ '='))
  match scope.options.find? (·.long = name) with
  | some o =>
    match cs.dropWhile (· ≠ '=') with
    | [] => .ok (r.addUse o none)
    | _ :: value => .ok (r.addUse o (some (trimEquals value)))
  | none =>
    if name = "help" then .error .helpWanted
    else if name = "version" then .error .versionWanted
    else .error .argumentUnknown

/-- Reads an option by its letter. -/
def readShort (scope : Scope) (r : Reading) (cs : List Char) : Except UsageFault Reading :=
  match cs with
  | [] => .error .argumentUnknown
  | c :: value =>
    match scope.options.find? (·.short? = some c) with
    | some o => .ok (r.addUse o (if value.isEmpty then none else some (trimEquals value)))
    | none =>
      if c = 'h' then .error .helpWanted
      else if c = 'V' then .error .versionWanted
      else .error .argumentUnknown

/-- Reads an argument that starts with a dash. -/
def readOption (scope : Scope) (r : Reading) (arg : String) : Except UsageFault Reading :=
  let cs := arg.toList.dropWhile (· = '-')
  if arg.toList.take 2 = ['-', '-'] then readLong scope r cs else readShort scope r cs

/-- Reads an argument that is no option. -/
def readFile (scope : Scope) (r : Reading) (arg : String) : Except UsageFault Reading :=
  if scope.takesFiles then .ok { r with files := r.files ++ [arg] }
  else .error (.commandUnknown arg)

/-- Reads arguments up to a command, which is returned with the arguments after it. -/
def readArguments (scope : Scope) (r : Reading) :
    List String → Except UsageFault (Reading × Option (String × List String))
  | [] => .ok (r, none)
  | arg :: rest =>
    if r.filesOnly then do readArguments scope (← readFile scope r arg) rest
    else if arg = "--" then readArguments scope { r with filesOnly := true } rest
    else if r.waiting.isNone && scope.commands.contains arg then .ok (r, some (arg, rest))
    else if isOption arg then do readArguments scope (← readOption scope r arg) rest
    else
      match r.waiting with
      | some o => readArguments scope (r.addValue o arg) rest
      | none => do readArguments scope (← readFile scope r arg) rest

/-- Checks the uses of an option. -/
def checkOption (r : Reading) (o : Opt) : Except UsageFault Unit :=
  let values := r.valuesOf o
  if r.uses.contains o && values.isEmpty then .error .valueMissing
  else if values.any fun v => !o.allows v then .error .valueInvalid
  else if r.uses.count o > 1 && !o.repeats then .error .optionRepeated
  else .ok ()

/-- Checks the uses of all options. -/
def checkOptions (r : Reading) : List Opt → Except UsageFault Unit
  | [] => .ok ()
  | o :: rest => do
    checkOption r o
    checkOptions r rest

/-- Checks the arguments after the command `generate`. -/
def checkGenerate (r : Reading) : Except UsageFault Unit := do
  if r.files.isEmpty then throw .fileMissing
  match r.waiting with
  | some o => if (r.valuesOf o).isEmpty then throw .valueMissing
  | none => pure ()
  checkOptions r Opt.all

/-- What `help` says of the commands named after it. -/
def helpFault : List String → UsageFault
  | [] => .helpWanted
  | [command] => if outerScope.commands.contains command then .helpWanted else .helpUnknown
  | _ :: _ :: _ => .helpUnknown

/-- The settings that checked arguments give. Of the values of `--log-level`, one after the command
counts more than one before it. -/
def ofReadings (outer inner : Reading) : Except UsageFault CommandLine := do
  let generators ← match Generator.parseList ((inner.valuesOf .generators).headD "") with
    | .ok generators => pure generators
    | .error name => throw (.generatorUnknown name)
  return {
    files := inner.files
    depth := (inner.valuesOf .depth).headD "."
    outputDir := (inner.valuesOf .outputDir).headD "."
    generators
    importDirs := inner.valuesOf .importDir
    typemaps := inner.valuesOf .typemap
    emit := (inner.valuesOf .emit).head?.bind Emit.ofName?
    logLevel :=
      (inner.valuesOf .logLevel ++ outer.valuesOf .logLevel).head?.bind LogLevel.ofName? }

/-- Reads the arguments after the program's name. -/
def parse (args : List String) : Except UsageFault CommandLine := do
  match ← readArguments outerScope {} args with
  | (_, none) => throw .commandMissing
  | (outer, some (command, rest)) =>
    if command = "help" then throw (helpFault rest)
    let (inner, _) ← readArguments generateScope {} rest
    checkGenerate inner
    checkOptions outer outerScope.options
    ofReadings outer inner

end CommandLine

end WireSchema
