import WireSchema.Module.Names

/-!
# From records to modules

`Module.ofRecord` resolves a record against the modules it imports. Enums come first, since
constants, fields and parameters may use their values.
-/

namespace WireSchema.Module

/-- Fails on the first name that is already in `seen` or comes a second time. -/
def checkUnique (seen : List String) : List (String × UInt32) → Except BuildFault Unit
  | [] => .ok ()
  | (name, line) :: rest =>
    if name ∈ seen then .error (.validation line (.duplicateName name))
    else checkUnique (name :: seen) rest

/-! ## Enums -/

/-- Finds the integers of an enum's fields in order, and makes them known. -/
def buildEnumFields (decl : DeclRef) :
    Names → List Record.EnumField → Except BuildFault (List EnumField × Names)
  | names, [] => .ok ([], names)
  | names, f :: rest => do
    let key := decl.qualified ++ "." ++ f.name
    let value ← names.integerAt [] (.field key) f.name f.line
    let (fields, names) ← buildEnumFields decl (names.addMember ⟨decl, f.name, value⟩) rest
    return (⟨f.name, value⟩ :: fields, names)

/-- Builds an enum and makes its values known. -/
def buildEnum (parent : Option String) (names : Names) (e : Record.Enum) :
    Except BuildFault (Enum × Names) := do
  checkUnique [] (e.fields.map fun f => (f.name, f.line))
  let (fields, names) ← buildEnumFields ⟨names.space, nestedName parent e.name⟩ names e.fields
  return (⟨e.name, names.space, parent, fields, e.attributes⟩, names)

/-- Builds enums in order. -/
def buildEnums (parent : Option String) :
    Names → List Record.Enum → Except BuildFault (List Enum × Names)
  | names, [] => .ok ([], names)
  | names, e :: rest => do
    let (enum, names) ← buildEnum parent names e
    let (enums, names) ← buildEnums parent names rest
    return (enum :: enums, names)

/-- Builds the enums nested in declarations, each given by its name. -/
def buildNestedEnums :
    Names → List (String × List Record.Enum) → Except BuildFault (List (List Enum) × Names)
  | names, [] => .ok ([], names)
  | names, (parent, records) :: rest => do
    let (enums, names) ← buildEnums (some parent) names records
    let (others, names) ← buildNestedEnums names rest
    return (enums :: others, names)

/-! ## Constants and structs -/

def buildConstant (names : Names) (scope : List String) (c : Record.Constant) :
    Resolving Constant := do
  let kind ← names.resolveKind scope c.line c.kind
  let value ← names.resolveValue scope c.line c.value
  return ⟨c.name, kind, value, c.attributes⟩

def buildField (names : Names) (scope : List String) (f : Record.Field) : Resolving Field := do
  let kind ← names.resolveKind scope f.line f.kind
  let default ← Resolving.lift (f.default.mapM (names.resolveValue scope f.line))
  return ⟨f.name, kind, f.ordinal, default, f.attributes⟩

/-- Names and lines of the enums and constants nested in a declaration. -/
def nestedNames (enums : List Record.Enum) (constants : List Record.Constant) :
    List (String × UInt32) :=
  enums.map (fun e => (e.name, e.line)) ++ constants.map fun c => (c.name, c.line)

def buildStruct (names : Names) (s : Record.Struct) (enums : List Enum) : Resolving Struct := do
  checkUnique [] (s.fields.map (fun f => (f.name, f.line)) ++ nestedNames s.enums s.constants)
  let constants ← s.constants.mapM (buildConstant names [s.name])
  let fields ← s.fields.mapM (buildField names [s.name])
  return ⟨s.name, names.space, s.attributes, fields, enums, constants⟩

/-! ## Interfaces -/

/-- The interface that the attribute `Client` names. -/
def buildClient (names : Names) (i : Record.Interface) : Resolving (Option DeclRef) :=
  match i.attributes.get? "Client" with
  | none => return none
  | some (.name name) | some (.string name) => do
    match ← names.resolveKind [i.name] i.line ("x:" ++ name) with
    | .interface decl => return some decl
    | _ => .fail (.resolution i.line (.notAnInterface name))
  | some other => .fail (.resolution i.line (.notAnInterface other.text))

def buildParameter (names : Names) (scope : List String) (p : Record.Parameter) :
    Resolving Parameter := do
  let kind ← names.resolveKind scope p.line p.kind
  return ⟨p.name, kind, p.ordinal, p.attributes⟩

def buildParameters (names : Names) (scope : List String) (parameters : List Record.Parameter) :
    Resolving (List Parameter) := do
  checkUnique [] (parameters.map fun p => (p.name, p.line))
  parameters.mapM (buildParameter names scope)

/-- Builds methods in order. `next` is the ordinal of a method that has none written, and `used`
holds the ordinals of the methods before with their names. -/
def buildMethods (names : Names) (interface : String) (next : Option UInt32)
    (used : List (UInt32 × String)) : List Record.Method → Resolving (List Method)
  | [] => return []
  | m :: rest =>
    match Ordinal.choose? m.ordinal next with
    | none => .fail (.validation m.line (.methodOrdinalOverflow interface m.name))
    | some ordinal =>
      match used.lookup ordinal with
      | some first =>
        .fail (.validation m.line (.duplicateMethodOrdinal interface ordinal first m.name))
      | none => do
        let parameters ← buildParameters names [interface] m.parameters
        let response ← m.response.mapM (buildParameters names [interface])
        let methods ←
          buildMethods names interface (Ordinal.succ? ordinal) ((ordinal, m.name) :: used) rest
        return ⟨m.name, ordinal, parameters, response, m.attributes⟩ :: methods

def buildInterface (names : Names) (i : Record.Interface) (enums : List Enum) :
    Resolving Interface := do
  checkUnique [] (i.methods.map (fun m => (m.name, m.line)) ++ nestedNames i.enums i.constants)
  let client ← buildClient names i
  let constants ← i.constants.mapM (buildConstant names [i.name])
  let methods ← buildMethods names i.name (some 0) [] i.methods
  return ⟨i.name, names.space, client, methods, enums, constants, i.attributes⟩

/-! ## Modules -/

/-- Names and lines of the declarations at the top of a module. -/
def topLevelNames (r : Record) : List (String × UInt32) :=
  r.structs.map (fun s => (s.name, s.line)) ++ r.interfaces.map (fun i => (i.name, i.line)) ++
    r.enums.map (fun e => (e.name, e.line)) ++ r.constants.map fun c => (c.name, c.line)

/-- Builds the constants, structs and interfaces of a module. The enums nested in structs and
interfaces are built already. -/
def buildDeclarations (names : Names) (r : Record) (structEnums interfaceEnums : List (List Enum)) :
    Resolving (List Constant × List Struct × List Interface) := do
  let constants ← r.constants.mapM (buildConstant names [])
  let structs ← (r.structs.zip structEnums).mapM fun (s, enums) => buildStruct names s enums
  let interfaces ←
    (r.interfaces.zip interfaceEnums).mapM fun (i, enums) => buildInterface names i enums
  return (constants, structs, interfaces)

/-- The module of a record, whose imports are built already. Its kinds are those noted while its
declarations are resolved. -/
def ofRecord (r : Record) (path : String) (imports : List (Import Module)) :
    Except BuildFault Module := do
  checkUnique [] (topLevelNames r)
  let names := Names.ofRecord r (imports.map Import.target)
  let (enums, names) ← buildEnums none names r.enums
  let (structEnums, names) ← buildNestedEnums names (r.structs.map fun s => (s.name, s.enums))
  let (interfaceEnums, names) ←
    buildNestedEnums names (r.interfaces.map fun i => (i.name, i.enums))
  let ((constants, structs, interfaces), kinds) ←
    (buildDeclarations names r structEnums interfaceEnums).run ∅
  return {
    name := r.name
    space := r.space
    path := path
    attributes := r.attributes
    imports := imports
    structs := structs
    interfaces := interfaces
    enums := enums
    constants := constants
    kinds := kinds }

end WireSchema.Module
