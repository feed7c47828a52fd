import WireSchema.Document.Record
import WireSchema.Layout
import WireSchema.Typemap

/-!
# Documents of modules and layouts

The document handed to emitters holds a module, the layouts of its structs and a typemap.
-/

namespace WireSchema

open Document

def DeclRef.document (d : DeclRef) : Document :=
  object [("namespace", text d.space), ("name", text d.name)]

def Kind.document (k : Kind) : Document :=
  text k.spec

def Literal.document : Literal → Document
  | integer t => object [("integer", .text t)]
  | float t => object [("float", .text t)]
  | string t => object [("string", .text t)]
  | bool b => object [("bool", .bool b)]
  | default => .text "default"

def Value.document : Value → Document
  | literal l => object [("literal", l.document)]
  | member m =>
    object [("enum_value", object [("enum", m.enum.document), ("name", text m.name),
      ("value", number m.value)])]
  | constant decl => object [("constant", decl.document)]

namespace Module

def EnumField.document (f : EnumField) : Document :=
  object [("name", text f.name), ("value", number f.value)]

def Enum.document (e : Enum) : Document :=
  object [("name", text e.name), ("namespace", text e.space), ("parent", optional text e.parent),
    ("fields", each EnumField.document e.fields),
    ("attributes", Attributes.document e.attributes)]

def Constant.document (c : Constant) : Document :=
  object [("name", text c.name), ("kind", c.kind.document), ("value", c.value.document),
    ("attributes", Attributes.document c.attributes)]

def Field.document (f : Field) : Document :=
  object [("name", text f.name), ("kind", f.kind.document), ("ordinal", ordinalDocument f.ordinal),
    ("default", optional Value.document f.default),
    ("attributes", Attributes.document f.attributes)]

def Struct.document (s : Struct) : Document :=
  object [("name", text s.name), ("namespace", text s.space),
    ("attributes", Attributes.document s.attributes), ("fields", each Field.document s.fields),
    ("enums", each Enum.document s.enums), ("constants", each Constant.document s.constants)]

def Parameter.document (p : Parameter) : Document :=
  object [("name", text p.name), ("kind", p.kind.document), ("ordinal", ordinalDocument p.ordinal),
    ("attributes", Attributes.document p.attributes)]

def Method.document (m : Method) : Document :=
  object [("name", text m.name), ("ordinal", number m.ordinal.toNat),
    ("parameters", each Parameter.document m.parameters),
    ("response_parameters", optional (each Parameter.document) m.response),
    ("attributes", Attributes.document m.attributes)]

def Interface.document (i : Interface) : Document :=
  object [("name", text i.name), ("namespace", text i.space),
    ("client", optional DeclRef.document i.client), ("methods", each Method.document i.methods),
    ("enums", each Enum.document i.enums), ("constants", each Constant.document i.constants),
    ("attributes", Attributes.document i.attributes)]

def Import.document {μ : Type} (i : Import μ) : Document :=
  object [("filename", text i.filename), ("namespace", text i.space)]

end Module

def Module.document (m : Module) : Document :=
  object [("name", text m.name), ("namespace", text m.space), ("path", text m.path),
    ("attributes", Attributes.document m.attributes),
    ("imports", each Module.Import.document m.imports),
    ("structs", each Module.Struct.document m.structs),
    ("interfaces", each Module.Interface.document m.interfaces),
    ("enums", each Module.Enum.document m.enums),
    ("constants", each Module.Constant.document m.constants),
    ("kinds", m.kinds.document Kind.document)]

def Placed.document (p : Placed) : Document :=
  object [("name", text p.field.name), ("kind", p.field.kind.document),
    ("ordinal", number p.ordinal.toNat), ("offset", number p.offset), ("bit", number p.bit),
    ("size", number p.size)]

def Layout.document (l : Layout) : Document :=
  object [("name", text l.struct.name), ("total_size", number l.totalSize),
    ("fields", each Placed.document l.fields)]

def TypemapEntry.document (e : TypemapEntry) : Document :=
  object [("typename", text e.typename), ("pass_by_value", bool e.passByValue),
    ("headers", each text e.headers)]

/-- The entries of one language. -/
def LanguageMap.document (m : LanguageMap) : Document :=
  SortedMap.document TypemapEntry.document m

def Typemap.document (t : Typemap) : Document :=
  SortedMap.document LanguageMap.document t

namespace Module

/-- The layouts of the structs of a module. -/
def layouts (m : Module) : Except LayoutFault (List Layout) :=
  m.layoutStructs.mapM Layout.ofStruct

/-- The document handed to emitters. -/
def emitterDocument (m : Module) (typemap : Typemap) : Except LayoutFault Document := do
  return object [("module", m.document), ("layouts", each Layout.document (← m.layouts)),
    ("typemap", typemap.document)]

end Module

end WireSchema
