import WireSchema.JsonText.Value
import WireSchema.Text.Line
import WireSchema.Typemap

/-!
# Reading typemaps

A typemap document is JSON with comment lines: those that start with `#` after any blanks. They are
blanked out before the document is read, so that lines keep their numbers. A document is an object
of languages, each an object of entries. An entry is an object or a list with a type name and, if
wanted, how values are passed and which headers are needed.
-/

namespace WireSchema.Typemap

open JsonText

/-- A line, or nothing if it is a comment. -/
def uncommented (line : List Char) : List Char :=
  if (Text.trimStart line).head? = some '#' then [] else line

/-- The lines of a document without its comments. -/
def stripComments (text : String) : String :=
  String.ofList (List.intercalate ['\n'] ((Text.lines text.toList).map uncommented))

/-- The members of an entry read so far. -/
structure Partial where
  typename : Option String := none
  passByValue : Option Bool := none
  headers : Option (List String) := none

/-- The entry with the members read; only the type name is required. -/
def Partial.entry? (p : Partial) : Option TypemapEntry :=
  p.typename.map fun typename => ⟨typename, p.passByValue.getD false, p.headers.getD []⟩

/-- Reads a member of an entry after its key. A known member may come once, and others are
passed. -/
def entryMember (p : Partial) (key : String) (i : Input) : Except Fault (Partial × Input) := do
  let once {α : Type} (seen : Option α) : Except Fault Unit :=
    if seen.isSome then throw (i.skipBlanks.faultHere (.duplicateMember key)) else return ()
  match key with
  | "typename" =>
    once p.typename
    let (typename, after) ← string (← colon i)
    return ({ p with typename := some typename }, after)
  | "pass_by_value" =>
    once p.passByValue
    let (passByValue, after) ← bool (← colon i)
    return ({ p with passByValue := some passByValue }, after)
  | "headers" =>
    once p.headers
    let (headers, after) ← stringList (← colon i)
    return ({ p with headers := some headers }, after)
  | _ => return (p, ← skipValue (← colon i))

/-- Reads the members of an entry after its opening bracket. -/
def entryMembers (p : Partial) (first : Bool) (i : Input) : Except Fault (TypemapEntry × Input) :=
  match nextKey first i with
  | .error e => .error e
  | .ok (none, after) =>
    match p.entry? with
    | some entry => .ok (entry, after)
    | none => .error (after.faultHere (.missingMember "typename"))
  | .ok (some key, next) =>
    match entryMember p key next with
    | .error e => .error e
    | .ok (p, after) =>
      if after.rest.length < i.rest.length then entryMembers p false after
      else .error (after.faultHere (.missingMember "typename"))
termination_by i.rest.length

/-- Reads an item of a list if there is one. -/
def optionalItem {α : Type} (item : Input → Except Fault (α × Input)) (first : Bool) (i : Input) :
    Except Fault (Option α × Input) := do
  match ← nextItem first i with
  | (false, next) => return (none, next)
  | (true, next) =>
    let (a, after) ← item next
    return (some a, after)

/-- Passes the closing bracket of an entry that is a list. -/
def closeEntry (i : Input) : Except Fault Input :=
  let i := i.skipBlanks
  match i.rest with
  | [] => .error (i.faultNext .endInList)
  | c :: _ =>
    if c = ']' then .ok i.advance
    else if c = ',' then
      let i := i.advance.skipBlanks
      .error (i.faultNext (if i.rest.head? = some ']' then .trailingComma else .trailingCharacters))
    else .error (i.faultNext .trailingCharacters)

/-- Reads an entry written as a list, after its opening bracket. -/
def entryItems (i : Input) : Except Fault (TypemapEntry × Input) := do
  match ← optionalItem string true i with
  | (none, i) => throw (i.advance.faultHere .emptyEntry)
  | (some typename, i) =>
    let (passByValue, i) ← optionalItem bool false i
    let (headers, i) ← optionalItem stringList false i
    return (⟨typename, passByValue.getD false, headers.getD []⟩, ← closeEntry i)

/-- Reads an entry. -/
def entry (i : Input) : Except Fault (TypemapEntry × Input) :=
  let i := i.skipBlanks
  match i.rest with
  | [] => .error (i.faultNext .endInValue)
  | c :: _ =>
    if c = '[' then entryItems i.advance
    else if c = '\x7b' then entryMembers {} true i.advance
    else .error (wrongType .entry i)

/-- Reads the entries of a language. -/
def languageMap (i : Input) : Except Fault (LanguageMap × Input) := do
  let (entries, after) ← map entry i
  return (.ofList entries, after)

/-- Reads a typemap document. -/
def parse (text : String) : Except Fault Typemap := do
  let (languages, after) ← map languageMap (.ofString (stripComments text))
  let last := after.skipBlanks
  if last.rest.isEmpty then return .ofList languages
  else throw (last.faultNext .trailingCharacters)

end WireSchema.Typemap
