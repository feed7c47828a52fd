/-!
# Documents

The tree of plain data in which records, modules, layouts and typemaps are written out. The entries
of an object keep their order.
-/

namespace WireSchema

/-- Plain data. -/
inductive Document where
  | null
  | bool (value : Bool)
  | number (value : Int)
  | text (value : String)
  | list (items : List Document)
  | object (entries : List (String × Document))
  deriving Repr

namespace Document

/-- A document for a value that may be missing. -/
def optional {α : Type} (f : α → Document) : Option α → Document
  | some a => f a
  | none => null

/-- A document for each element of a list. -/
def each {α : Type} (f : α → Document) (items : List α) : Document :=
  list (items.map f)

end Document

end WireSchema
