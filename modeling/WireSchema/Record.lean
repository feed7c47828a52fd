import WireSchema.Kind
import WireSchema.SortedMap
import WireSchema.SourcePath
import WireSchema.Tree

/-!
# Module records

A record is the flat form of a schema file: the definitions of its only module by sort, types as
specs, attribute lists as maps. Names are still unresolved.
-/

namespace WireSchema

/-- Attributes by name; of a repeated attribute the last value counts. -/
abbrev Attributes := SortedMap AttributeValue

namespace Record

structure Import where
  line : UInt32
  filename : String
  deriving DecidableEq, Repr

structure EnumField where
  line : UInt32
  name : String
  value : Option ValueExpr
  deriving DecidableEq, Repr

structure Enum where
  line : UInt32
  name : String
  attributes : Attributes
  fields : List EnumField
  deriving DecidableEq, Repr

structure Constant where
  line : UInt32
  name : String
  kind : String
  value : ValueExpr
  attributes : Attributes
  deriving DecidableEq, Repr

structure Field where
  line : UInt32
  name : String
  kind : String
  ordinal : Option UInt32
  default : Option ValueExpr
  attributes : Attributes
  deriving DecidableEq, Repr

structure Struct where
  line : UInt32
  name : String
  attributes : Attributes
  fields : List Field
  enums : List Enum
  constants : List Constant
  deriving DecidableEq, Repr

structure Parameter where
  line : UInt32
  name : String
  kind : String
  ordinal : Option UInt32
  attributes : Attributes
  deriving DecidableEq, Repr

structure Method where
  line : UInt32
  name : String
  ordinal : Option UInt32
  parameters : List Parameter
  response : Option (List Parameter)
  attributes : Attributes
  deriving DecidableEq, Repr

structure Interface where
  line : UInt32
  name : String
  attributes : Attributes
  methods : List Method
  enums : List Enum
  constants : List Constant
  deriving DecidableEq, Repr

end Record

/-- The flat form of a schema file. -/
structure Record where
  name : String
  space : String
  attributes : Attributes
  imports : List Record.Import
  structs : List Record.Struct
  interfaces : List Record.Interface
  enums : List Record.Enum
  constants : List Record.Constant
  deriving DecidableEq, Repr

/-- Why a tree has no record. -/
inductive RecordCause where
  | noModule
  | manyModules (count : Nat)
  deriving DecidableEq, Repr

def RecordCause.message : RecordCause → String
  | noModule => "File does not declare a module or any definitions"
  | manyModules count => "Expected exactly one module declaration, found " ++ toString count

namespace Record

/-- An attribute list as a map. -/
def attributeMap (attributes : List Tree.Attribute) : Attributes :=
  .ofList (attributes.map fun a => (a.key, a.value))

def Enum.ofTree (e : Tree.Enum) : Enum where
  line := e.line
  name := e.name
  attributes := attributeMap e.attributes
  fields := e.values.map fun v => ⟨v.line, v.name, v.value⟩

def Constant.ofTree (c : Tree.Constant) : Constant where
  line := c.line
  name := c.name
  kind := c.type.spec
  value := c.value
  attributes := attributeMap c.attributes

def Field.ofTree (f : Tree.Field) : Field where
  line := f.line
  name := f.name
  kind := f.type.spec
  ordinal := f.ordinal
  default := f.default
  attributes := attributeMap f.attributes

def Parameter.ofTree (p : Tree.Parameter) : Parameter where
  line := p.line
  name := p.name
  kind := p.type.spec
  ordinal := p.ordinal
  attributes := attributeMap p.attributes

def Method.ofTree (m : Tree.Method) : Method where
  line := m.line
  name := m.name
  ordinal := m.ordinal
  parameters := m.parameters.map Parameter.ofTree
  response := m.response.map (·.map Parameter.ofTree)
  attributes := attributeMap m.attributes

def Struct.ofTree (s : Tree.Struct) : Struct where
  line := s.line
  name := s.name
  attributes := attributeMap s.attributes
  fields := s.body.filterMap fun
    | .field f => some (.ofTree f)
    | _ => none
  enums := s.body.filterMap fun
    | .enum e => some (.ofTree e)
    | _ => none
  constants := s.body.filterMap fun
    | .constant c => some (.ofTree c)
    | _ => none

def Interface.ofTree (i : Tree.Interface) : Interface where
  line := i.line
  name := i.name
  attributes := attributeMap i.attributes
  methods := i.body.filterMap fun
    | .method m => some (.ofTree m)
    | _ => none
  enums := i.body.filterMap fun
    | .enum e => some (.ofTree e)
    | _ => none
  constants := i.body.filterMap fun
    | .constant c => some (.ofTree c)
    | _ => none

/-- The record of a module in the given file. The record is named by the last part of the file's
path, and a module without a name has the empty namespace. -/
def ofModule (file : String) (imports : List Tree.Import) (m : Tree.Module) : Record where
  name := ((SourcePath.ofString file).fileName?).getD file
  space := m.name.getD ""
  attributes := attributeMap m.attributes
  imports := imports.map fun i => ⟨i.line, i.path⟩
  structs := m.definitions.filterMap fun
    | .struct s => some (.ofTree s)
    | _ => none
  interfaces := m.definitions.filterMap fun
    | .interface i => some (.ofTree i)
    | _ => none
  enums := m.definitions.filterMap fun
    | .enum e => some (.ofTree e)
    | _ => none
  constants := m.definitions.filterMap fun
    | .constant c => some (.ofTree c)
    | _ => none

/-- The record of a file with exactly one module. -/
def ofTree (file : String) (tree : Tree) : Except RecordCause Record :=
  match tree.modules with
  | [m] => .ok (ofModule file tree.imports m)
  | [] => .error .noModule
  | many => .error (.manyModules many.length)

end Record

end WireSchema
