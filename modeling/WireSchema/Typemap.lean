import WireSchema.SortedMap

/-!
# Typemaps

A typemap says how schema types are written in target languages. Typemaps are merged entry by entry;
of two entries for one type the later counts.
-/

namespace WireSchema

/-- How one schema type is written in a target language. -/
structure TypemapEntry where
  typename : String
  passByValue : Bool
  headers : List String
  deriving DecidableEq, Repr

/-- The entries of one language, by qualified type. -/
abbrev LanguageMap := SortedMap TypemapEntry

/-- The entries of all languages. -/
abbrev Typemap := SortedMap LanguageMap

namespace Typemap

/-- Adds the entries of another typemap, which count more. -/
def merge (t other : Typemap) : Typemap :=
  other.entries.foldl
    (fun t e => t.insert e.1 (((t.get? e.1).getD ∅).insertAll e.2.entries)) t

/-- The entry of a type in a language. -/
def entry? (t : Typemap) (language type : String) : Option TypemapEntry :=
  (t.get? language).bind fun m => m.get? type

end Typemap

end WireSchema
