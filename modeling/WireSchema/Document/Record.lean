import WireSchema.Document
import WireSchema.Record

/-!
# Documents of records
-/

namespace WireSchema

open Document

def AttributeValue.document : AttributeValue → Document
  | name t | string t | integer t | float t => .text t
  | bool b => .bool b

/-- A map as an object. -/
def SortedMap.document {α : Type} (f : α → Document) (m : SortedMap α) : Document :=
  object (m.entries.map fun (key, a) => (key, f a))

def Attributes.document (attributes : Attributes) : Document :=
  SortedMap.document AttributeValue.document attributes

/-- An ordinal, if there is one. -/
def ordinalDocument (ordinal : Option UInt32) : Document :=
  optional (fun o : UInt32 => number o.toNat) ordinal

def ValueExpr.document : ValueExpr → Document
  | integer t => object [("integer", .text t)]
  | float t => object [("float", .text t)]
  | string t => object [("string", .text t)]
  | bool b => object [("bool", .bool b)]
  | name t => object [("name", .text t)]
  | default => .text "default"

namespace Record

def EnumField.document (f : EnumField) : Document :=
  object [("line", number f.line.toNat), ("name", text f.name),
    ("value", optional ValueExpr.document f.value)]

def Enum.document (e : Enum) : Document :=
  object [("line", number e.line.toNat), ("name", text e.name),
    ("attributes", Attributes.document e.attributes), ("fields", each EnumField.document e.fields)]

def Constant.document (c : Constant) : Document :=
  object [("line", number c.line.toNat), ("name", text c.name), ("kind", text c.kind),
    ("value", c.value.document), ("attributes", Attributes.document c.attributes)]

def Field.document (f : Field) : Document :=
  object [("line", number f.line.toNat), ("name", text f.name), ("kind", text f.kind),
    ("ordinal", ordinalDocument f.ordinal), ("default", optional ValueExpr.document f.default),
    ("attributes", Attributes.document f.attributes)]

def Struct.document (s : Struct) : Document :=
  object [("line", number s.line.toNat), ("name", text s.name),
    ("attributes", Attributes.document s.attributes), ("fields", each Field.document s.fields),
    ("enums", each Enum.document s.enums), ("constants", each Constant.document s.constants)]

def Parameter.document (p : Parameter) : Document :=
  object [("line", number p.line.toNat), ("name", text p.name), ("kind", text p.kind),
    ("ordinal", ordinalDocument p.ordinal), ("attributes", Attributes.document p.attributes)]

def Method.document (m : Method) : Document :=
  object [("line", number m.line.toNat), ("name", text m.name),
    ("ordinal", ordinalDocument m.ordinal), ("parameters", each Parameter.document m.parameters),
    ("response_parameters", optional (each Parameter.document) m.response),
    ("attributes", Attributes.document m.attributes)]

def Interface.document (i : Interface) : Document :=
  object [("line", number i.line.toNat), ("name", text i.name),
    ("attributes", Attributes.document i.attributes), ("methods", each Method.document i.methods),
    ("enums", each Enum.document i.enums), ("constants", each Constant.document i.constants)]

def Import.document (i : Import) : Document :=
  object [("line", number i.line.toNat), ("filename", text i.filename)]

end Record

def Record.document (r : Record) : Document :=
  object [("name", text r.name), ("namespace", text r.space),
    ("attributes", Attributes.document r.attributes),
    ("imports", each Record.Import.document r.imports),
    ("structs", each Record.Struct.document r.structs),
    ("interfaces", each Record.Interface.document r.interfaces),
    ("enums", each Record.Enum.document r.enums),
    ("constants", each Record.Constant.document r.constants)]

end WireSchema
