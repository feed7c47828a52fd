import WireSchema.Module.Resolving
import WireSchema.Remaining
import WireSchema.Text.Quoted

/-!
# Names in scope

The names a module can use: its own declarations and those of the modules it imports directly. A
name is looked up in the scopes around it, innermost first, and in each scope the module's own
declarations hide imported ones. Enum values are integers; `Names.integerAt` finds them by following
names from declaration to declaration.
-/

namespace WireSchema.Module

/-- A field of an enum of the module itself, before its integer is known. -/
structure LocalField where
  name : String
  line : UInt32
  written : Option ValueExpr
  /-- Key, name and line of the field before it. -/
  previous : Option (String × String × UInt32)
  scope : List String
  deriving DecidableEq, Repr

/-- A constant: an imported one has its value, one of the module itself is still an expression. -/
inductive ConstantEntry where
  | imported (decl : DeclRef) (value : Value)
  | declared (decl : DeclRef) (value : ValueExpr) (scope : List String)
  deriving DecidableEq, Repr

def ConstantEntry.decl : ConstantEntry → DeclRef
  | imported decl _ | declared decl _ _ => decl

/-- Everything that names can mean, by qualified name. The latest entry for a name counts. -/
structure Names where
  space : String
  kinds : List (String × Kind) := []
  /-- Enum values whose integers are known. -/
  members : List (String × EnumMember) := []
  /-- Enum fields of the module itself. -/
  fields : List (String × LocalField) := []
  constants : List (String × ConstantEntry) := []
  deriving DecidableEq, Repr

namespace Names

/-! ## Filling in -/

/-- Makes a kind known under the name of a declaration. -/
def addKindAs (names : Names) (decl : DeclRef) (kind : Kind) : Names :=
  { names with kinds := (decl.qualified, kind) :: names.kinds }

def addKind (names : Names) (decl : DeclRef) (kind : DeclRef → Kind) : Names :=
  names.addKindAs decl (kind decl)

def addMember (names : Names) (m : EnumMember) : Names :=
  { names with members := (m.enum.qualified ++ "." ++ m.name, m) :: names.members }

def addConstant (names : Names) (entry : ConstantEntry) : Names :=
  { names with constants := (entry.decl.qualified, entry) :: names.constants }

/-- Adds the constants of an imported module, or those nested in one of its declarations. -/
def addImportedConstants (space : String) (parent : Option String) (constants : List Constant)
    (names : Names) : Names :=
  constants.foldl
    (fun names c => names.addConstant (.imported ⟨space, nestedName parent c.name⟩ c.value)) names

/-- Adds an imported enum and its values. -/
def addImportedEnum (names : Names) (e : Enum) : Names :=
  let names := e.fields.foldl (fun names f => names.addMember ⟨e.decl, f.name, f.value⟩) names
  names.addKind e.decl .enum

/-- Adds the declarations of an imported module. Structs, interfaces and constants are found in the
namespace of the module, enums in their own. -/
def addImport (names : Names) (m : Module) : Names :=
  let names := m.structs.foldl (fun names s =>
    (names.addKindAs ⟨m.space, s.name⟩ (.struct s.decl)).addImportedConstants
      m.space (some s.name) s.constants) names
  let names := m.interfaces.foldl (fun names i =>
    (names.addKindAs ⟨m.space, i.name⟩ (.interface i.decl)).addImportedConstants
      m.space (some i.name) i.constants) names
  let names := m.allEnums.foldl addImportedEnum names
  names.addImportedConstants m.space none m.constants

/-- Adds the fields of an enum of the module itself, given the field before them. A field hides an
imported value of the same name. -/
def addFields (enum : DeclRef) (scope : List String) :
    Option (String × String × UInt32) → List Record.EnumField → Names → Names
  | _, [], names => names
  | previous, f :: rest, names =>
    let key := enum.qualified ++ "." ++ f.name
    addFields enum scope (some (key, f.name, f.line)) rest
      { names with
        members := names.members.filter (·.1 ≠ key)
        fields := (key, ⟨f.name, f.line, f.value, previous, scope⟩) :: names.fields }

/-- Adds an enum of the module itself. -/
def addEnum (parent : Option String) (names : Names) (e : Record.Enum) : Names :=
  let decl : DeclRef := ⟨names.space, nestedName parent e.name⟩
  addFields decl (parent.toList ++ [e.name]) none e.fields (names.addKind decl .enum)

/-- Adds a constant of the module itself. -/
def addDeclaredConstant (parent : Option String) (names : Names) (c : Record.Constant) : Names :=
  names.addConstant (.declared ⟨names.space, nestedName parent c.name⟩ c.value parent.toList)

/-- Adds what is nested in a struct or interface. -/
def addNested (names : Names) (parent : String) (enums : List Record.Enum)
    (constants : List Record.Constant) : Names :=
  constants.foldl (addDeclaredConstant (some parent)) (enums.foldl (addEnum (some parent)) names)

/-- Adds the declarations of the module itself. -/
def addRecord (names : Names) (r : Record) : Names :=
  let names := r.structs.foldl (fun names s =>
    (names.addKind ⟨names.space, s.name⟩ .struct).addNested s.name s.enums s.constants) names
  let names := r.interfaces.foldl (fun names i =>
    (names.addKind ⟨names.space, i.name⟩ .interface).addNested i.name i.enums i.constants) names
  let names := r.enums.foldl (addEnum none) names
  r.constants.foldl (addDeclaredConstant none) names

/-- The names of a record with the given imported modules. -/
def ofRecord (r : Record) (imports : List Module) : Names :=
  (imports.foldl addImport { space := r.space }).addRecord r

/-! ## Looking up -/

/-- A scope and the scopes around it, innermost first. -/
def enclosing : List String → List (List String)
  | [] => [[]]
  | s :: rest => (enclosing rest).map (s :: ·) ++ [[]]

/-- The qualified names that a name used in a scope can stand for, in the order in which they are
tried. -/
def candidates (names : Names) (scope : List String) (name : String) : List String :=
  if names.space = "" then
    (enclosing scope).map fun outer => String.intercalate "." (outer ++ [name])
  else
    (enclosing scope).map (fun outer => String.intercalate "." (names.space :: outer ++ [name])) ++
      [name]

/-- The kind a name stands for. -/
def kind? (names : Names) (scope : List String) (name : String) : Option Kind :=
  (names.candidates scope name).findSome? fun key => names.kinds.lookup key

/-- The kind with a given spec. It is noted after the kinds it is made of, which are resolved in the
same way. -/
def resolveSpec (names : Names) (scope : List String) (line : UInt32) (spec : List Char) :
    Resolving Kind :=
  match BasicKind.ofSpec? (String.ofList spec) with
  | some k => .note (.basic k)
  | none =>
    match spec with
    | 'a' :: ':' :: element => do
      let k ← resolveSpec names scope line element
      .note (.array k)
    | 'r' :: ':' :: inner => do
      match ← resolveSpec names scope line inner with
      | .interface decl => .note (.request (.interface decl))
      | other => .fail (.resolution line (.notAnInterface other.spec))
    | 'x' :: ':' :: name =>
      match names.kind? scope (String.ofList name) with
      | some k => .note k
      | none => .fail (.resolution line (.unknownKind (String.ofList name)))
    | other => .fail (.resolution line (.unknownKind (String.ofList other)))

/-- The kind of a declaration whose record has the given spec. -/
def resolveKind (names : Names) (scope : List String) (line : UInt32) (spec : String) :
    Resolving Kind :=
  names.resolveSpec scope line spec.toList

/-- The value of an expression. -/
def resolveValue (names : Names) (scope : List String) (line : UInt32) :
    ValueExpr → Except BuildFault Value
  | .integer text => .ok (.literal (.integer text))
  | .float text => .ok (.literal (.float text))
  | .string text => .ok (.literal (.string text))
  | .bool value => .ok (.literal (.bool value))
  | .default => .ok (.literal .default)
  | .name name =>
    let candidates := names.candidates scope name
    match candidates.findSome? (fun key => names.members.lookup key) with
    | some m => .ok (.member m)
    | none =>
      match candidates.findSome? (fun key => names.constants.lookup key) with
      | some entry => .ok (.constant entry.decl)
      | none => .error (.resolution line (.unknownValue name))

/-! ## Integers -/

/-- A declaration that may have an integer, by its key. -/
inductive Target where
  | field (key : String)
  | constant (key : String)
  deriving DecidableEq, Repr

/-- What a declaration says about its integer: it is known, or it is so much more than that of
another declaration, which is blamed by name and line. -/
inductive Lead where
  | integer (value : Int)
  | follow (target : Target) (name : String) (line : UInt32) (more : Int)
  deriving DecidableEq, Repr

/-- Whether a key belongs to an enum field. -/
def isField (names : Names) (key : String) : Bool :=
  (names.members.lookup key).isSome || (names.fields.lookup key).isSome

/-- The declaration whose integer a name stands for. Enum fields come before constants. -/
def target? (names : Names) (scope : List String) (name : String) : Option Target :=
  let candidates := names.candidates scope name
  match candidates.find? names.isField with
  | some key => some (.field key)
  | none => (candidates.find? fun key => (names.constants.lookup key).isSome).map .constant

/-- How messages show a value that is no integer. -/
def describeValue : ValueExpr → String
  | .integer text => text
  | .float text => "Float(" ++ Text.quoted text ++ ")"
  | .string text => "String(" ++ Text.quoted text ++ ")"
  | .bool value => "Bool(" ++ AttributeValue.boolText value ++ ")"
  | .default => "Default"
  | .name name => name

/-- The lead of an expression. -/
def exprLead (names : Names) (scope : List String) (line : UInt32) (expr : ValueExpr) :
    Except BuildFault Lead :=
  match expr with
  | .integer text =>
    match Text.readInteger? text with
    | some n => .ok (.integer n)
    | none => .error (.resolution line (.notAnInteger text))
  | .name name =>
    match names.target? scope name with
    | some target => .ok (.follow target name line 0)
    | none => .error (.resolution line (.unknownValue name))
  | other => .error (.resolution line (.notAnInteger (describeValue other)))

/-- The lead of an enum field: the value written for it, or one more than the field before it. -/
def fieldLead (names : Names) (f : LocalField) : Except BuildFault Lead :=
  match f.written, f.previous with
  | some expr, _ => names.exprLead f.scope f.line expr
  | none, none => .ok (.integer 0)
  | none, some (key, name, line) => .ok (.follow (.field key) name line 1)

/-- The lead of a constant, which is blamed by name and line. -/
def constantLead (names : Names) (name : String) (line : UInt32) :
    ConstantEntry → Except BuildFault Lead
  | .imported _ (.member m) => .ok (.integer m.value)
  | .imported _ (.constant decl) => .ok (.follow (.constant decl.qualified) name line 0)
  | .imported _ (.literal (.integer text)) =>
    match Text.readInteger? text with
    | some n => .ok (.integer n)
    | none => .error (.resolution line (.notAnInteger name))
  | .imported _ (.literal _) => .error (.resolution line (.notAnInteger name))
  | .declared _ expr scope => names.exprLead scope line expr

/-- Enum values are 32 bit integers with a sign. -/
def checkRange (f : LocalField) (value : Int) : Except BuildFault Int :=
  if -2147483648 ≤ value ∧ value ≤ 2147483647 then .ok value
  else .error (.resolution f.line (.enumValueOutOfRange f.name value))

/-- The keys of all declarations that may have an integer. -/
def keys (names : Names) : List String :=
  names.fields.map Prod.fst ++ names.constants.map Prod.fst

theorem mem_keys_of_field {names : Names} {key : String} {f : LocalField}
    (h : names.fields.lookup key = some f) : key ∈ names.keys :=
  List.mem_append_left _ (mem_keys_of_lookup h)

theorem mem_keys_of_constant {names : Names} {key : String} {entry : ConstantEntry}
    (h : names.constants.lookup key = some entry) : key ∈ names.keys :=
  List.mem_append_right _ (mem_keys_of_lookup h)

/-- The integer of a declaration, found by following leads. `visiting` holds the keys passed on the
way: a lead back to one of them has no integer. The name and line are those blamed for a failure. -/
def integerAt (names : Names) (visiting : List String) (target : Target) (name : String)
    (line : UInt32) : Except BuildFault Int :=
  match target with
  | .field key =>
    match names.members.lookup key with
    | some m => .ok m.value
    | none =>
      match _ : names.fields.lookup key with
      | none => .error (.resolution line (.unknownValue name))
      | some f =>
        if _ : key ∈ visiting then .error (.resolution line (.notAnInteger name))
        else
          match names.fieldLead f with
          | .error e => .error e
          | .ok (.integer n) => checkRange f n
          | .ok (.follow target name line more) =>
            match integerAt names (key :: visiting) target name line with
            | .error e => .error e
            | .ok n => checkRange f (n + more)
  | .constant key =>
    if _ : key ∈ visiting then .error (.resolution line (.notAnInteger name))
    else
      match _ : names.constants.lookup key with
      | none => .error (.resolution line (.unknownValue name))
      | some entry =>
        match names.constantLead name line entry with
        | .error e => .error e
        | .ok (.integer n) => .ok n
        | .ok (.follow target name line more) =>
          match integerAt names (key :: visiting) target name line with
          | .error e => .error e
          | .ok n => .ok (n + more)
termination_by remaining names.keys visiting
decreasing_by
  · exact remaining_cons_lt (mem_keys_of_field ‹_›) ‹_›
  · exact remaining_cons_lt (mem_keys_of_constant ‹_›) ‹_›

end Names

end WireSchema.Module
