import WireSchema.Module
import WireSchema.Text.Numeral

/-!
# Wire layouts

The fields of a struct are placed in the order of their ordinals. A field is aligned to its own size
and goes into the first gap between placed fields that can hold it, or else after the last. A bool
that follows a bool takes the next bit of its byte as long as there is one. So a field with a new,
highest ordinal never moves another. The size of a struct is a multiple of 8.
-/

namespace WireSchema

/-- Why a struct has no layout, or a layout is inconsistent. -/
inductive LayoutCause where
  | duplicateOrdinal (ordinal : UInt32) (first second : String)
  | ordinalOverflow (field : String)
  | overlap (offset : Nat) (field previous : String)
  | sharedByte (offset : Nat) (fields : List String)
  | paddingConflict (offset : Nat)
  deriving DecidableEq, Repr

def LayoutCause.message : LayoutCause → String
  | duplicateOrdinal ordinal first second =>
    "Fields " ++ first ++ " and " ++ second ++ " both have ordinal @" ++ toString ordinal.toNat
  | ordinalOverflow field =>
    "Implicit ordinal of field " ++ field ++ " is out of range (maximum is " ++
      toString Text.maxOrdinal ++ ")"
  | overlap offset field previous =>
    "Field " ++ field ++ " at byte " ++ toString offset ++ " overlaps field " ++ previous
  | sharedByte offset fields =>
    "Fields " ++ String.intercalate ", " fields ++ " cannot share byte " ++ toString offset
  | paddingConflict offset =>
    "Byte " ++ toString offset ++ " is both padding and part of a field"

/-- A cause and the struct it concerns. -/
structure LayoutFault where
  struct : String
  cause : LayoutCause
  deriving DecidableEq, Repr

def LayoutFault.message (f : LayoutFault) : String :=
  f.struct ++ ": Error: " ++ f.cause.message

/-! ## Ordinals -/

namespace Ordinal

/-- The ordinal after another; the largest has none. -/
def succ? (o : UInt32) : Option UInt32 :=
  if o.toNat < Text.maxOrdinal then some (o + 1) else none

/-- The ordinal of a member: the one written, or else the one that is next. -/
def choose? (written next : Option UInt32) : Option UInt32 :=
  written.or next

end Ordinal

/-! ## Placement -/

/-- The number of bytes from `offset` up to a multiple of `alignment`. -/
def padding (offset alignment : Nat) : Nat :=
  (alignment - offset % alignment) % alignment

/-- A field with its ordinal, its size and its place: an offset in bytes and, for bools, a bit. -/
structure Placed where
  field : Module.Field
  ordinal : UInt32
  size : Nat
  offset : Nat := 0
  bit : Nat := 0
  deriving DecidableEq, Repr

namespace Placed

/-- The first byte after the field. -/
def stop (p : Placed) : Nat :=
  p.offset + p.size

def isBool (p : Placed) : Bool :=
  p.field.kind.isBool

/-- Places a field directly after another. -/
def after (last p : Placed) : Placed :=
  if p.isBool && last.isBool && last.bit < 7 then
    { p with offset := last.offset, bit := last.bit + 1 }
  else
    { p with offset := last.stop + padding last.stop p.size, bit := 0 }

/-- Puts a field among those placed, which are in the order of their offsets. -/
def insert (p : Placed) : List Placed → List Placed
  | [] => [{ p with offset := 0, bit := 0 }]
  | [last] => [last, after last p]
  | last :: next :: rest =>
    if (after last p).stop ≤ next.offset then last :: after last p :: next :: rest
    else last :: insert p (next :: rest)

end Placed

/-- A struct and its fields in the order of their places. -/
structure Layout where
  struct : Module.Struct
  fields : List Placed
  deriving DecidableEq, Repr

namespace Layout

/-- Gives every field its ordinal: the one written, or the one after the field before it. -/
def assignOrdinals : Option UInt32 → List Module.Field → Except LayoutCause (List Placed)
  | _, [] => .ok []
  | next, f :: rest =>
    match Ordinal.choose? f.ordinal next with
    | none => .error (.ordinalOverflow f.name)
    | some ordinal => do
      let placed ← assignOrdinals (Ordinal.succ? ordinal) rest
      return { field := f, ordinal, size := f.kind.size } :: placed

/-- Orders fields by ordinal, and those with one ordinal as they are declared. -/
def byOrdinal (fields : List Placed) : List Placed :=
  fields.mergeSort fun a b => a.ordinal ≤ b.ordinal

/-- The first two neighbours with one ordinal. -/
def duplicate? : List Placed → Option (Placed × Placed)
  | a :: b :: rest => if a.ordinal = b.ordinal then some (a, b) else duplicate? (b :: rest)
  | _ => none

/-- Places fields one after the other. -/
def place (fields : List Placed) : List Placed :=
  fields.foldl (fun placed p => p.insert placed) []

/-- Lays out the fields of a struct. -/
def ofFields (fields : List Module.Field) : Except LayoutCause (List Placed) := do
  let ordered := byOrdinal (← assignOrdinals (some 0) fields)
  match duplicate? ordered with
  | some (a, b) => throw (.duplicateOrdinal a.ordinal a.field.name b.field.name)
  | none => return place ordered

/-- Lays out a struct. -/
def ofStruct (s : Module.Struct) : Except LayoutFault Layout :=
  match ofFields s.fields with
  | .ok fields => .ok ⟨s, fields⟩
  | .error cause => .error ⟨s.name, cause⟩

/-- The end of the last byte in use. -/
def usedSize (l : Layout) : Nat :=
  (l.fields.map Placed.stop).foldl max 0

/-- The size of the struct: the bytes in use, filled up to a multiple of 8. -/
def totalSize (l : Layout) : Nat :=
  l.usedSize + padding l.usedSize 8

/-- The first field of a given name. -/
def get? (l : Layout) (name : String) : Option Placed :=
  l.fields.find? (·.field.name = name)

end Layout

end WireSchema
