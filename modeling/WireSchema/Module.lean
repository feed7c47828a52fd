import WireSchema.Record

/-!
# Modules

A module is what a schema file means: every kind is resolved to a declaration, every value to a
literal, a constant or an enum value, and every method has its ordinal. A module holds the modules
it imports.
-/

namespace WireSchema

/-- A value that stands for itself. Numbers keep their text. -/
inductive Literal where
  | integer (text : String)
  | float (text : String)
  | string (text : String)
  | bool (value : Bool)
  | default
  deriving DecidableEq, Repr

/-- A field of an enum with its integer. -/
structure EnumMember where
  enum : DeclRef
  name : String
  value : Int
  deriving DecidableEq, Repr

/-- A resolved value. -/
inductive Value where
  | literal (l : Literal)
  | member (m : EnumMember)
  | constant (decl : DeclRef)
  deriving DecidableEq, Repr

namespace Module

structure EnumField where
  name : String
  value : Int
  deriving DecidableEq, Repr

/-- An enum; `parent` is the struct or interface that holds it. -/
structure Enum where
  name : String
  space : String
  parent : Option String
  fields : List EnumField
  attributes : Attributes
  deriving DecidableEq, Repr

/-- The name of a declaration nested in `parent`. -/
def nestedName (parent : Option String) (name : String) : String :=
  match parent with
  | some p => p ++ "." ++ name
  | none => name

def Enum.decl (e : Enum) : DeclRef :=
  ⟨e.space, nestedName e.parent e.name⟩

structure Constant where
  name : String
  kind : Kind
  value : Value
  attributes : Attributes
  deriving DecidableEq, Repr

structure Field where
  name : String
  kind : Kind
  ordinal : Option UInt32
  default : Option Value
  attributes : Attributes
  deriving DecidableEq, Repr

structure Struct where
  name : String
  space : String
  attributes : Attributes
  fields : List Field
  enums : List Enum
  constants : List Constant
  deriving DecidableEq, Repr

def Struct.decl (s : Struct) : DeclRef :=
  ⟨s.space, s.name⟩

structure Parameter where
  name : String
  kind : Kind
  ordinal : Option UInt32
  attributes : Attributes
  deriving DecidableEq, Repr

/-- The field that carries a parameter. -/
def Parameter.field (p : Parameter) : Field :=
  ⟨p.name, p.kind, p.ordinal, none, p.attributes⟩

/-- A method. It replies if it has a response list, even an empty one. -/
structure Method where
  name : String
  ordinal : UInt32
  parameters : List Parameter
  response : Option (List Parameter)
  attributes : Attributes
  deriving DecidableEq, Repr

/-- An interface; `client` is the interface on the other end. -/
structure Interface where
  name : String
  space : String
  client : Option DeclRef
  methods : List Method
  enums : List Enum
  constants : List Constant
  attributes : Attributes
  deriving DecidableEq, Repr

namespace Interface

def decl (i : Interface) : DeclRef :=
  ⟨i.space, i.name⟩

/-- A struct that carries parameters. -/
def parameterStruct (i : Interface) (name : String) (parameters : List Parameter) : Struct :=
  ⟨name, i.space, ∅, parameters.map Parameter.field, [], []⟩

/-- The structs that carry the parameters of a method, and its response if it has one. -/
def methodStructs (i : Interface) (m : Method) : List Struct :=
  i.parameterStruct (i.name ++ "_" ++ m.name ++ "_Params") m.parameters ::
    (m.response.map (i.parameterStruct (i.name ++ "_" ++ m.name ++ "_ResponseParams"))).toList

end Interface

/-- An import: the path as written, the namespace of the imported module, the canonical path of its
file, and the module itself. -/
structure Import (μ : Type) where
  filename : String
  space : String
  source : SourcePath
  target : μ

end Module

/-- What a schema file means. -/
structure Module where
  /-- The name of the file. -/
  name : String
  /-- The namespace of the declarations. -/
  space : String
  /-- The path of the file as it is shown. -/
  path : String
  attributes : Attributes
  imports : List (Module.Import Module)
  structs : List Module.Struct
  interfaces : List Module.Interface
  enums : List Module.Enum
  constants : List Module.Constant
  /-- Every kind in use, by its spec. -/
  kinds : SortedMap Kind

namespace Module

/-- The enums of a module, those of its structs and interfaces last. -/
def allEnums (m : Module) : List Enum :=
  m.enums ++ m.structs.flatMap Struct.enums ++ m.interfaces.flatMap Interface.enums

/-- The structs that are laid out: the declared ones, then those of the methods. -/
def layoutStructs (m : Module) : List Struct :=
  m.structs ++ m.interfaces.flatMap fun i => i.methods.flatMap i.methodStructs

end Module

end WireSchema
