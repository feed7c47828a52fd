import WireSchema.Layout

/-!
# Layouts byte by byte

`Layout.bytes` describes every byte of a struct, and checks the layout on the way: fields may not
overlap, and a byte is shared only by bools on different bits. Fields are entered one after the
other, and what lies between a field and those before it is marked as padding.
-/

namespace WireSchema

/-- What a byte of a struct holds: the fields that begin there, or padding. -/
structure ByteInfo where
  isPadding : Bool := false
  begins : List Placed := []
  deriving DecidableEq, Repr

namespace Layout

/-- Marks the bytes from `start` up to `stop` as padding. -/
def markPadding (start stop : Nat) (infos : List ByteInfo) : List ByteInfo :=
  infos.mapIdx fun byte info =>
    if start ≤ byte ∧ byte < stop then { info with isPadding := true } else info

/-- Enters a field at the byte where it begins. -/
def enter (f : Placed) (infos : List ByteInfo) : List ByteInfo :=
  infos.modify f.offset fun info => { info with begins := info.begins ++ [f] }

/-- Enters fields, with padding between them and at the end. `limit` is the end of the fields
before, and `previous` the one directly before. A field that begins below the limit has to share the
byte of a bool with the one directly before. There is no result if a field begins beyond the last
byte, as only an empty one can. -/
def fill (limit : Nat) (previous : Option Placed) (infos : List ByteInfo) :
    List Placed → Except LayoutCause (Option (List ByteInfo))
  | [] => .ok (some (markPadding limit infos.length infos))
  | f :: rest =>
    let shares := previous.any fun p => p.isBool && f.isBool && p.offset = f.offset
    if f.offset < limit && !shares then
      .error (.overlap f.offset f.field.name ((previous.map (·.field.name)).getD ""))
    else if infos.length ≤ f.offset then .ok none
    else fill (max limit f.stop) (some f) (enter f (markPadding limit f.offset infos)) rest

/-- Whether all fields are bools on different bits, given the bits already taken. -/
def distinctBits (taken : List Nat) : List Placed → Bool
  | [] => true
  | f :: rest =>
    f.isBool && f.bit ≤ 7 && !taken.contains f.bit && distinctBits (f.bit :: taken) rest

/-- Checks a byte: padding begins no field, and several fields are bools on different bits. -/
def checkByte (offset : Nat) (info : ByteInfo) : Except LayoutCause Unit :=
  if info.isPadding && !info.begins.isEmpty then throw (.paddingConflict offset)
  else if info.begins.length > 1 && !distinctBits [] info.begins then
    throw (.sharedByte offset (info.begins.map (·.field.name)))
  else return ()

/-- Checks bytes, the first of which is at `offset`. -/
def checkBytes (offset : Nat) : List ByteInfo → Except LayoutCause Unit
  | [] => .ok ()
  | info :: rest => do
    checkByte offset info
    checkBytes (offset + 1) rest

/-- Every byte of the struct, if the layout is consistent and no field begins beyond the last. -/
def bytes (l : Layout) : Except LayoutFault (Option (List ByteInfo)) :=
  match fill 0 none (List.replicate l.totalSize {}) l.fields with
  | .error cause => .error ⟨l.struct.name, cause⟩
  | .ok none => .ok none
  | .ok (some infos) =>
    match checkBytes 0 infos with
    | .ok () => .ok (some infos)
    | .error cause => .error ⟨l.struct.name, cause⟩

end Layout

end WireSchema
