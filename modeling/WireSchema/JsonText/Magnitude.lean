import WireSchema.Text.Numeral

/-!
# Magnitudes of JSON numbers

A number is held as a significand of 64 bits and a power of ten: digits that no longer fit are
dropped. Its range is that of double precision, and the significand and the power of ten are each
rounded to 53 bits before they are multiplied. A number near the end of the range can therefore
fall on the other side of it than its exact value does.
-/

namespace WireSchema.JsonText

/-- A number without its sign: `significand * 10 ^ exponent`. -/
structure Magnitude where
  significand : Nat
  exponent : Int
deriving DecidableEq, Repr

/-- The largest significand. -/
def maxSignificand : Nat := Nat.pow 2 64 - 1

/-- The value of digits. -/
def digitsValue (digits : List Char) : Nat :=
  (Text.readNat? 10 digits).getD 0

/-- The significand with one more digit, if it still fits. -/
def appendDigit? (significand : Nat) (digit : Char) : Option Nat :=
  let next := significand * 10 + digitsValue [digit]
  if next ≤ maxSignificand then some next else none

namespace Magnitude

/-- Takes the digits of the whole part. From the first that does not fit, each digit only raises
the power of ten. -/
def takeWhole (significand : Nat) : List Char → Magnitude
  | [] => ⟨significand, 0⟩
  | digit :: rest =>
    match appendDigit? significand digit with
    | some next => takeWhole next rest
    | none => ⟨significand, rest.length + 1⟩

/-- Takes the digits of the fraction. From the first that does not fit, they count for nothing. -/
def takeFraction (m : Magnitude) : List Char → Magnitude
  | [] => m
  | digit :: rest =>
    match appendDigit? m.significand digit with
    | some next => takeFraction ⟨next, m.exponent - 1⟩ rest
    | none => m

/-- The power of ten that an exponent part writes. -/
def writtenExponent : List Char → Int
  | _ :: '-' :: digits => -(digitsValue digits : Int)
  | _ :: '+' :: digits => digitsValue digits
  | _ :: digits => digitsValue digits
  | [] => 0

/-- The magnitude of a number without its sign. -/
def ofText (text : List Char) : Magnitude :=
  let whole := takeWhole 0 (text.takeWhile Char.isDigit)
  match text.dropWhile Char.isDigit with
  | '.' :: rest =>
    let m := whole.takeFraction (rest.takeWhile Char.isDigit)
    ⟨m.significand, m.exponent + writtenExponent (rest.dropWhile Char.isDigit)⟩
  | rest => ⟨whole.significand, whole.exponent + writtenExponent rest⟩

end Magnitude

/-- A quotient rounded to the nearest natural number, a half to the even one. -/
def roundDiv (n d : Nat) : Nat :=
  let quotient := n / d
  let twice := 2 * (n % d)
  if twice > d || (twice = d && quotient % 2 = 1) then quotient + 1 else quotient

/-- A natural number rounded to 53 significant bits. -/
def roundToDouble (n : Nat) : Nat :=
  let unit := Nat.pow 2 (n.log2 - 52)
  roundDiv n unit * unit

/-- The end of the range of numbers: `2 ^ 1024`, less half of the last place before it. -/
def rangeEnd : Nat :=
  Nat.pow 2 1024 - Nat.pow 2 970

/-- The largest power of ten in the range of numbers. -/
def maxPowerOfTen : Nat := 308

/-- Whether a number lies outside the range of numbers. A negative power of ten only makes a
significand smaller, so such a number never does. -/
def Magnitude.tooLarge (m : Magnitude) : Bool :=
  match m.exponent with
  | .negSucc _ => false
  | .ofNat power =>
    if power ≤ maxPowerOfTen then
      decide (rangeEnd ≤ roundToDouble m.significand * roundToDouble (Nat.pow 10 power))
    else m.significand ≠ 0

end WireSchema.JsonText
