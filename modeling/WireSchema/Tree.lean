import WireSchema.Tree.Type
import WireSchema.Tree.Value

/-!
# The tree of a schema file

A file holds imports and modules. It follows the text closely: names are unresolved, ordinals are
as written, and every node knows the line on which it starts.
-/

namespace WireSchema

namespace Tree

structure Import where
  line : UInt32
  path : String
  deriving DecidableEq, Repr

structure Attribute where
  line : UInt32
  key : String
  value : AttributeValue
  deriving DecidableEq, Repr

structure EnumValue where
  line : UInt32
  name : String
  value : Option ValueExpr
  deriving DecidableEq, Repr

structure Enum where
  line : UInt32
  name : String
  attributes : List Attribute
  values : List EnumValue
  deriving DecidableEq, Repr

structure Constant where
  line : UInt32
  type : TypeExpr
  name : String
  value : ValueExpr
  attributes : List Attribute
  deriving DecidableEq, Repr

structure Field where
  line : UInt32
  type : TypeExpr
  name : String
  ordinal : Option UInt32
  default : Option ValueExpr
  attributes : List Attribute
  deriving DecidableEq, Repr

inductive StructMember where
  | field (f : Field)
  | enum (e : Enum)
  | constant (c : Constant)
  deriving DecidableEq, Repr

structure Struct where
  line : UInt32
  name : String
  attributes : List Attribute
  body : List StructMember
  deriving DecidableEq, Repr

structure Parameter where
  line : UInt32
  type : TypeExpr
  name : String
  ordinal : Option UInt32
  attributes : List Attribute
  deriving DecidableEq, Repr

/-- A method. It replies if it has a response list, even an empty one. -/
structure Method where
  line : UInt32
  name : String
  ordinal : Option UInt32
  parameters : List Parameter
  response : Option (List Parameter)
  attributes : List Attribute
  deriving DecidableEq, Repr

inductive InterfaceMember where
  | method (m : Method)
  | enum (e : Enum)
  | constant (c : Constant)
  deriving DecidableEq, Repr

structure Interface where
  line : UInt32
  name : String
  attributes : List Attribute
  body : List InterfaceMember
  deriving DecidableEq, Repr

inductive Definition where
  | struct (s : Struct)
  | interface (i : Interface)
  | enum (e : Enum)
  | constant (c : Constant)
  deriving DecidableEq, Repr

/-- The name a definition declares. -/
def Definition.name : Definition → String
  | struct s => s.name
  | interface i => i.name
  | enum e => e.name
  | constant c => c.name

/-- A module; the one that stands for a file without module declarations has no name. -/
structure Module where
  line : UInt32
  name : Option String
  attributes : List Attribute
  definitions : List Definition
  deriving DecidableEq, Repr

end Tree

/-- The tree of a schema file. -/
structure Tree where
  imports : List Tree.Import
  modules : List Tree.Module
  deriving DecidableEq, Repr

end WireSchema
