/-!
# Numerals

Digits read as numbers. `Text.readInteger?` is the value of an integer literal: a sign, then decimal
or `0x` hexadecimal digits whose value is at most `maxMagnitude`. `Text.readOrdinal?` reads an
unsigned 32 bit number.
-/

namespace WireSchema.Text

/-- The value of a decimal or hexadecimal digit. -/
def digitValue? (c : Char) : Option Nat :=
  if c.isDigit then some (c.toNat - '0'.toNat)
  else if 'a' ≤ c ∧ c ≤ 'f' then some (c.toNat - 'a'.toNat + 10)
  else if 'A' ≤ c ∧ c ≤ 'F' then some (c.toNat - 'A'.toNat + 10)
  else none

def isHexDigit (c : Char) : Bool :=
  (digitValue? c).isSome

/-- Continues a numeral of the given base whose digits so far have the value `acc`. -/
def readDigits? (base acc : Nat) : List Char → Option Nat
  | [] => some acc
  | c :: rest =>
    match digitValue? c with
    | some d => if d < base then readDigits? base (acc * base + d) rest else none
    | none => none

/-- The value of a non-empty numeral of the given base. -/
def readNat? (base : Nat) : List Char → Option Nat
  | [] => none
  | digits => readDigits? base 0 digits

/-- The largest ordinal. -/
def maxOrdinal : Nat := Nat.pow 2 32 - 1

/-- Reads an unsigned 32 bit number, which may be written with a leading `+`. -/
def readOrdinal? (text : String) : Option UInt32 :=
  let digits := match text.toList with
    | '+' :: rest => rest
    | cs => cs
  match readNat? 10 digits with
  | some n => if n ≤ maxOrdinal then some (UInt32.ofNat n) else none
  | none => none

/-- The largest magnitude of an integer literal: integers are held in 128 bits with a sign. -/
def maxMagnitude : Nat := Nat.pow 2 127 - 1

/-- Reads an integer of the given base, which may be written with a sign. -/
def readSigned? (base : Nat) : List Char → Option Int
  | '-' :: digits => ((readNat? base digits).filter (· ≤ maxMagnitude + 1)).map fun n => -(n : Int)
  | '+' :: digits => ((readNat? base digits).filter (· ≤ maxMagnitude)).map fun n => (n : Int)
  | digits => ((readNat? base digits).filter (· ≤ maxMagnitude)).map fun n => (n : Int)

/-- Reads a magnitude: hexadecimal after `0x` or `0X`, decimal otherwise. A second sign is accepted
here, in front of the digits. -/
def readMagnitude? : List Char → Option Int
  | '0' :: 'x' :: hex => readSigned? 16 hex
  | '0' :: 'X' :: hex => readSigned? 16 hex
  | decimal => readSigned? 10 decimal

/-- The opposite of an integer. The least one has none and stays as it is. -/
def opposite (n : Int) : Int :=
  if n = -(maxMagnitude + 1 : Int) then n else -n

/-- The value of an integer literal with an optional sign. -/
def readInteger? (text : String) : Option Int :=
  match text.toList with
  | '-' :: digits => (readMagnitude? digits).map opposite
  | '+' :: digits => readMagnitude? digits
  | digits => readMagnitude? digits

end WireSchema.Text
