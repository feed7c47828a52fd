import WireSchema.Tree.Type

/-!
# Kinds

The kind of a field, parameter or constant once every name is resolved. A kind has a spec, the short
text by which documents name it, and a size, the number of bytes a field of that kind takes. Data of
variable size is stored elsewhere and takes an 8 byte pointer.
-/

namespace WireSchema

/-- Names a declaration: the namespace of its module, and its name there. A nested declaration is
named through its parent, as in `Struct.Enum`. -/
structure DeclRef where
  space : String
  name : String
  deriving DecidableEq, Repr

/-- The qualified name; there is no dot after an empty namespace. -/
def DeclRef.qualified (d : DeclRef) : String :=
  if d.space = "" then d.name else d.space ++ "." ++ d.name

/-- The kinds that need no declaration. -/
inductive BasicKind where
  | bool | int8 | uint8 | int16 | uint16 | int32 | uint32 | int64 | uint64 | float | double
  | string | handle | dataPipeConsumer | dataPipeProducer | messagePipe | sharedBuffer
  deriving DecidableEq, Repr

namespace BasicKind

def all : List BasicKind :=
  [bool, int8, uint8, int16, uint16, int32, uint32, int64, uint64, float, double, string, handle,
    dataPipeConsumer, dataPipeProducer, messagePipe, sharedBuffer]

def spec : BasicKind → String
  | bool => "b"
  | int8 => "i8"
  | uint8 => "u8"
  | int16 => "i16"
  | uint16 => "u16"
  | int32 => "i32"
  | uint32 => "u32"
  | int64 => "i64"
  | uint64 => "u64"
  | float => "f"
  | double => "d"
  | string => "s"
  | handle => "h"
  | dataPipeConsumer => "h:d:c"
  | dataPipeProducer => "h:d:p"
  | messagePipe => "h:m"
  | sharedBuffer => "h:s"

/-- The kind with a given spec. -/
def ofSpec? (spec : String) : Option BasicKind :=
  all.find? (·.spec = spec)

def size : BasicKind → Nat
  | bool | int8 | uint8 => 1
  | int16 | uint16 => 2
  | int32 | uint32 | float => 4
  | handle | dataPipeConsumer | dataPipeProducer | messagePipe | sharedBuffer => 4
  | int64 | uint64 | double | string => 8

theorem ofSpec?_spec (k : BasicKind) : ofSpec? k.spec = some k := by
  cases k <;> rfl

/-- The kind a type name stands for, unless it names a declaration. -/
def ofTypeName? : String → Option BasicKind
  | "bool" => some bool
  | "int8" => some int8
  | "uint8" => some uint8
  | "int16" => some int16
  | "uint16" => some uint16
  | "int32" => some int32
  | "uint32" => some uint32
  | "int64" => some int64
  | "uint64" => some uint64
  | "float" => some float
  | "double" => some double
  | "string" => some string
  | _ => none

/-- The kind of a handle. -/
def ofHandle : Option HandleSort → BasicKind
  | none => handle
  | some .dataPipeConsumer => dataPipeConsumer
  | some .dataPipeProducer => dataPipeProducer
  | some .messagePipe => messagePipe
  | some .sharedBuffer => sharedBuffer

end BasicKind

/-- The kind of a field, parameter or constant. -/
inductive Kind where
  | basic (kind : BasicKind)
  | struct (decl : DeclRef)
  | interface (decl : DeclRef)
  | enum (decl : DeclRef)
  | array (element : Kind)
  | request (inner : Kind)
  deriving DecidableEq, Repr

namespace Kind

def spec : Kind → String
  | basic k => k.spec
  | struct d | interface d | enum d => "x:" ++ d.qualified
  | array k => "a:" ++ k.spec
  | request k => "r:" ++ k.spec

def size : Kind → Nat
  | basic k => k.size
  | interface _ | request _ | enum _ => 4
  | array _ | struct _ => 8

def isBool (k : Kind) : Bool :=
  k = basic .bool

theorem size_pos (k : Kind) : 0 < k.size := by
  cases k with
  | basic k => cases k <;> decide
  | _ => simp [size]

end Kind

/-- The spec of a written type. A name that is no basic kind becomes a reference `x:Name`, to be
resolved later. -/
def TypeExpr.spec : TypeExpr → String
  | named name =>
    match BasicKind.ofTypeName? name with
    | some k => k.spec
    | none => "x:" ++ name
  | handle sort => (BasicKind.ofHandle sort).spec
  | array element => "a:" ++ element.spec
  | request inner => "r:" ++ inner.spec

end WireSchema
