import WireSchema.JsonText.Input
import WireSchema.JsonText.Magnitude

/-!
# JSON strings, numbers and words
-/

namespace WireSchema.JsonText

/-- Passing a character leaves less. -/
theorem length_past_lt {i : Input} {c : Char} {rest : List Char} (h : i.rest = c :: rest) :
    (i.past c rest).rest.length < i.rest.length := by
  unfold Input.past
  split <;> simp [h]

/-! ## Strings -/

/-- The character of an escape of one letter. -/
def simpleEscape? : Char → Option Char
  | '"' => some '"'
  | '\\' => some '\\'
  | '/' => some '/'
  | 'b' => some '\x08'
  | 'f' => some '\x0c'
  | 'n' => some '\n'
  | 'r' => some '\r'
  | 't' => some '\t'
  | _ => none

/-- How many characters the next four bytes reach into; `none` if there are fewer bytes. -/
def fourBytes? (used : Nat) : List Char → Option Nat
  | [] => if used < 4 then none else some 0
  | c :: rest => if used < 4 then (fourBytes? (used + c.utf8Size) rest).map (· + 1) else some 0

/-- Reads the four hexadecimal digits of an escape. -/
def hexEscape (i : Input) : Except Fault (Nat × Input) :=
  match fourBytes? 0 i.rest with
  | none => .error ((i.advanceBy i.rest.length).faultHere .endInString)
  | some n =>
    match Text.readNat? 16 (i.rest.take 4) with
    | some code =>
      if n = 4 then .ok (code, i.advanceBy 4)
      else .error ((i.advanceBy n).faultHere .badEscape)
    | none => .error ((i.advanceBy n).faultHere .badEscape)

def isLeading (code : Nat) : Bool :=
  0xD800 ≤ code && code ≤ 0xDBFF

def isTrailing (code : Nat) : Bool :=
  0xDC00 ≤ code && code ≤ 0xDFFF

/-- Passes a character that has to come before the second half of a pair. -/
def pairMark (c : Char) (i : Input) : Except Fault Input :=
  match i.rest with
  | [] => .error (i.faultHere .endInString)
  | d :: _ => if d = c then .ok i.advance else .error (i.advance.faultHere .halfSurrogate)

/-- Reads a code point after `\u`, which may take two escapes. -/
def codePoint (i : Input) : Except Fault (Char × Input) := do
  let (code, i) ← hexEscape i
  if isTrailing code then throw (i.faultHere .loneSurrogate)
  else if isLeading code then
    let i ← pairMark 'u' (← pairMark '\\' i)
    let (low, i) ← hexEscape i
    if isTrailing low then
      return (Char.ofNat (0x10000 + (code - 0xD800) * 0x400 + (low - 0xDC00)), i)
    else throw (i.faultHere .loneSurrogate)
  else return (Char.ofNat code, i)

/-- Reads an escape after its backslash. -/
def escape (i : Input) : Except Fault (Char × Input) :=
  match i.rest with
  | [] => .error (i.faultHere .endInString)
  | 'u' :: _ => codePoint i.advance
  | c :: _ =>
    match simpleEscape? c with
    | some d => .ok (d, i.advance)
    | none => .error (i.advance.faultHere .badEscape)

/-- Reads a string after its opening quote. -/
def stringBody (i : Input) : Except Fault (List Char × Input) :=
  match _ : i.rest with
  | [] => .error (i.faultHere .endInString)
  | '"' :: _ => .ok ([], i.advance)
  | '\\' :: _ => do
    let (c, next) ← escape i.advance
    if next.rest.length < i.rest.length then
      let (cs, after) ← stringBody next
      return (c :: cs, after)
    else return ([c], next)
  | c :: rest =>
    if c.toNat < 0x20 then .error (i.advance.faultHere .controlCharacter)
    else do
      let (cs, after) ← stringBody (i.past c rest)
      return (c :: cs, after)
termination_by i.rest.length
decreasing_by
  · assumption
  · exact length_past_lt ‹_›

/-- Passes an escape after its backslash. -/
def skipEscape (i : Input) : Except Fault Input :=
  match i.rest with
  | [] => .error (i.faultHere .endInString)
  | 'u' :: _ =>
    match hexEscape i.advance with
    | .ok (_, after) => .ok after
    | .error e => .error e
  | c :: _ =>
    if (simpleEscape? c).isSome then .ok i.advance else .error (i.advance.faultHere .badEscape)

/-- Passes a string after its opening quote. -/
def skipString (i : Input) : Except Fault Input :=
  match _ : i.rest with
  | [] => .error (i.faultHere .endInString)
  | '"' :: _ => .ok i.advance
  | '\\' :: _ => do
    let next ← skipEscape i.advance
    if next.rest.length < i.rest.length then skipString next else return next
  | c :: rest =>
    if c.toNat < 0x20 then .error (i.faultHere .controlCharacter) else skipString (i.past c rest)
termination_by i.rest.length
decreasing_by
  · assumption
  · exact length_past_lt ‹_›

/-! ## Words and numbers -/

/-- Passes the letters of a word. -/
def word : List Char → Input → Except Fault Input
  | [], i => .ok i
  | c :: cs, i =>
    match i.rest with
    | [] => .error (i.faultHere .endInValue)
    | d :: _ => if d = c then word cs i.advance else .error (i.advance.faultHere .wordMissing)

/-- Passes digits. -/
def skipDigits (i : Input) : Input :=
  i.advanceBy (i.rest.takeWhile Char.isDigit).length

/-- Whether a digit comes next. -/
def digitNext (i : Input) : Bool :=
  (i.rest.head?.map Char.isDigit).getD false

/-- Passes the whole part of a number. `atEnd` is the cause if the text ends instead. -/
def wholePart (atEnd : Cause) (i : Input) : Except Fault Input :=
  match i.rest with
  | [] => .error (i.faultHere atEnd)
  | '0' :: _ =>
    if digitNext i.advance then .error (i.advance.faultNext .badNumber) else .ok i.advance
  | c :: _ => if c.isDigit then .ok (skipDigits i) else .error (i.advance.faultHere .badNumber)

/-- Passes the fraction of a number if there is one. -/
def fractionPart (atEnd : Cause) (i : Input) : Except Fault Input :=
  match i.rest with
  | '.' :: _ =>
    let after := i.advance
    if digitNext after then .ok (skipDigits after)
    else if after.rest.isEmpty then .error (after.faultNext atEnd)
    else .error (after.faultNext .badNumber)
  | _ => .ok i

/-- Passes a sign if there is one. -/
def skipSign (i : Input) : Input :=
  match i.rest with
  | '+' :: _ => i.advance
  | '-' :: _ => i.advance
  | _ => i

/-- Passes the exponent of a number if there is one. -/
def exponentPart (atEnd : Cause) (i : Input) : Except Fault Input :=
  match i.rest with
  | c :: _ =>
    if c = 'e' || c = 'E' then
      let after := skipSign i.advance
      if digitNext after then .ok (skipDigits after)
      else if after.rest.isEmpty then .error (after.faultHere atEnd)
      else .error (after.advance.faultHere .badNumber)
    else .ok i
  | [] => .ok i

/-- Passes a number without its sign. -/
def number (atEnd : Cause) (i : Input) : Except Fault Input := do
  exponentPart atEnd (← fractionPart atEnd (← wholePart atEnd i))

/-- The text between two places, the second of which comes later. -/
def textBetween (i j : Input) : List Char :=
  i.rest.take (i.rest.length - j.rest.length)

/-- The largest magnitude of an integer: 64 bits with a sign if it is negative, without one if
not. -/
def maxInteger (sign : String) : Nat :=
  if sign = "-" then Nat.pow 2 63 else maxSignificand

/-- Whether a number is an integer. One that no integer can hold is not, nor is a negative zero. -/
def isInteger (sign : String) (cs : List Char) : Bool :=
  cs.all Char.isDigit && decide (digitsValue cs ≤ maxInteger sign)
    && !(sign = "-" && digitsValue cs = 0)

/-- A number without its sign, as something that was not wanted. -/
def foundNumber (sign : String) (i : Input) : Except Fault (Found × Input) := do
  let after ← number .endInValue i
  let cs := textBetween i after
  if isInteger sign cs then return (.integer (sign ++ String.ofList cs), after)
  else if (Magnitude.ofText cs).tooLarge then throw (after.faultHere .numberTooLarge)
  else return (.float (sign ++ String.ofList cs), after)

/-- The value that comes next, as something that was not wanted. Lists and objects are not
passed. -/
def foundValue (i : Input) : Except Fault (Found × Input) :=
  match i.rest with
  | 'n' :: _ => do return (.null, ← word "ull".toList i.advance)
  | 't' :: _ => do return (.bool true, ← word "rue".toList i.advance)
  | 'f' :: _ => do return (.bool false, ← word "alse".toList i.advance)
  | '-' :: _ => foundNumber "-" i.advance
  | '"' :: _ => do
    let (cs, after) ← stringBody i.advance
    return (.string (String.ofList cs), after)
  | '[' :: _ => .ok (.list, i)
  | '\x7b' :: _ => .ok (.object, i)
  | c :: _ => if c.isDigit then foundNumber "" i else .error (i.faultNext .valueMissing)
  | [] => .error (i.faultNext .valueMissing)

/-- The fault of a value that was not wanted. -/
def wrongType (wanted : Wanted) (i : Input) : Fault :=
  match foundValue i with
  | .ok (found, after) => after.faultHere (.wrongType found wanted)
  | .error e => e

end WireSchema.JsonText
