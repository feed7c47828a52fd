import WireSchema.JsonText.Scalar

/-!
# JSON values of a wanted type

Readers for strings, truth values, lists and objects, and one that passes any value.
-/

namespace WireSchema.JsonText

/-! ## Passing any value -/

/-- The brackets around a value. -/
inductive Bracket where
  | list
  | object
  deriving DecidableEq, Repr

namespace Bracket

def closing : Bracket → Char
  | list => ']'
  | object => '\x7d'

def separatorMissing : Bracket → Cause
  | list => .listSeparatorMissing
  | object => .objectSeparatorMissing

def endCause : Bracket → Cause
  | list => .endInList
  | object => .endInObject

end Bracket

/-- Passes the key of a member and the colon after it. -/
def skipKey (i : Input) : Except Fault Input := do
  let i := i.skipBlanks
  match i.rest with
  | [] => throw (i.faultNext .endInObject)
  | c :: _ =>
    if c = '"' then
      let i := (← skipString i.advance).skipBlanks
      match i.rest with
      | [] => throw (i.faultNext .endInObject)
      | d :: _ => if d = ':' then return i.advance else throw (i.faultNext .colonMissing)
    else throw (i.faultNext .keyNotString)

/-- Passes what has to come before an item in brackets. -/
def skipItemStart (b : Bracket) (i : Input) : Except Fault Input :=
  match b with
  | .list => .ok i
  | .object => skipKey i

/-- Where passing over a value stands: before a value, or after one or an opening bracket. -/
inductive Stage where
  | value
  | after (comma : Bool)
  deriving DecidableEq, Repr

/-- One move over a value in brackets, given innermost first: the brackets and the stage after it.
Nothing is left to do after a value without brackets. -/
def skipStep (brackets : List Bracket) (stage : Stage) (i : Input) :
    Except Fault (Option (List Bracket × Stage) × Input) := do
  let i := i.skipBlanks
  match stage, brackets with
  | .value, _ =>
    match i.rest with
    | [] => throw (i.faultNext .endInValue)
    | 'n' :: _ => return (some (brackets, .after true), ← word "ull".toList i.advance)
    | 't' :: _ => return (some (brackets, .after true), ← word "rue".toList i.advance)
    | 'f' :: _ => return (some (brackets, .after true), ← word "alse".toList i.advance)
    | '-' :: _ => return (some (brackets, .after true), ← number .badNumber i.advance)
    | '"' :: _ => return (some (brackets, .after true), ← skipString i.advance)
    | '[' :: _ => return (some (.list :: brackets, .after false), i.advance)
    | '\x7b' :: _ => return (some (.object :: brackets, .after false), i.advance)
    | c :: _ =>
      if c.isDigit then return (some (brackets, .after true), ← number .badNumber i)
      else throw (i.faultNext .valueMissing)
  | .after _, [] => return (none, i)
  | .after comma, b :: outer =>
    match i.rest with
    | [] => throw (i.faultNext b.endCause)
    | c :: _ =>
      if c = ',' && comma then
        return (some (b :: outer, .value), ← skipItemStart b i.advance)
      else if c = b.closing then return (some (outer, .after true), i.advance)
      else if comma then throw (i.faultNext b.separatorMissing)
      else return (some (b :: outer, .value), ← skipItemStart b i)

/-- How much is left to do: every move passes a character, or goes from after a bracket to a
value. -/
def Stage.weight (stage : Stage) (i : Input) : Nat :=
  match stage with
  | .value => 2 * i.rest.length
  | .after _ => 2 * i.rest.length + 1

/-- Passes a value in brackets, move by move. -/
def skipMoves (brackets : List Bracket) (stage : Stage) (i : Input) : Except Fault Input :=
  match skipStep brackets stage i with
  | .error e => .error e
  | .ok (none, i') => .ok i'
  | .ok (some (brackets', stage'), i') =>
    if stage'.weight i' < stage.weight i then skipMoves brackets' stage' i' else .ok i'
termination_by stage.weight i

/-- Passes any value. -/
def skipValue (i : Input) : Except Fault Input :=
  skipMoves [] .value i

/-! ## Wanted values -/

/-- Reads a string. -/
def string (i : Input) : Except Fault (String × Input) := do
  let i := i.skipBlanks
  match i.rest with
  | [] => throw (i.faultNext .endInValue)
  | c :: _ =>
    if c = '"' then
      let (cs, after) ← stringBody i.advance
      return (String.ofList cs, after)
    else throw (wrongType .string i)

/-- Reads a truth value. -/
def bool (i : Input) : Except Fault (Bool × Input) := do
  let i := i.skipBlanks
  match i.rest with
  | [] => throw (i.faultNext .endInValue)
  | 't' :: _ => return (true, ← word "rue".toList i.advance)
  | 'f' :: _ => return (false, ← word "alse".toList i.advance)
  | _ => throw (wrongType .bool i)

/-- Whether a list goes on, given whether this is its start. A list that goes on is passed up to its
next item, and one that ends is not passed. -/
def nextItem (first : Bool) (i : Input) : Except Fault (Bool × Input) :=
  let i := i.skipBlanks
  match i.rest with
  | [] => .error (i.faultNext .endInList)
  | c :: _ =>
    if c = ']' then .ok (false, i)
    else if first then .ok (true, i)
    else if c = ',' then
      let i := i.advance.skipBlanks
      match i.rest with
      | [] => .error (i.faultNext .endInValue)
      | d :: _ => if d = ']' then .error (i.faultNext .trailingComma) else .ok (true, i)
    else .error (i.faultNext .listSeparatorMissing)

/-- Reads the items of a list up to its closing bracket, which is not passed. -/
def items {α : Type} (item : Input → Except Fault (α × Input)) (first : Bool) (i : Input) :
    Except Fault (List α × Input) :=
  match nextItem first i with
  | .error e => .error e
  | .ok (false, next) => .ok ([], next)
  | .ok (true, next) =>
    match item next with
    | .error e => .error e
    | .ok (a, after) =>
      if after.rest.length < i.rest.length then
        match items item false after with
        | .error e => .error e
        | .ok (others, last) => .ok (a :: others, last)
      else .ok ([a], after)
termination_by i.rest.length

/-- Reads a list of strings. -/
def stringList (i : Input) : Except Fault (List String × Input) := do
  let i := i.skipBlanks
  match i.rest with
  | [] => throw (i.faultNext .endInValue)
  | c :: _ =>
    if c = '[' then
      let (strings, after) ← items string true i.advance
      return (strings, after.advance)
    else throw (wrongType .list i)

/-- The next key of an object, given whether this is its start; `none` after its closing bracket. -/
def nextKey (first : Bool) (i : Input) : Except Fault (Option String × Input) := do
  let i := i.skipBlanks
  match i.rest with
  | [] => throw (i.faultNext .endInObject)
  | c :: _ =>
    if c = '\x7d' then return (none, i.advance)
    else
      let i := if !first && c = ',' then i.advance.skipBlanks else i
      if !first && c ≠ ',' then throw (i.faultNext .objectSeparatorMissing)
      match i.rest with
      | [] => throw (i.faultNext .endInValue)
      | '"' :: _ =>
        let (cs, after) ← stringBody i.advance
        return (some (String.ofList cs), after)
      | '\x7d' :: _ => throw (i.faultNext .trailingComma)
      | _ => throw (i.faultNext .keyNotString)

/-- Passes the colon after a key. -/
def colon (i : Input) : Except Fault Input :=
  let i := i.skipBlanks
  match i.rest with
  | [] => .error (i.faultNext .endInObject)
  | c :: _ => if c = ':' then .ok i.advance else .error (i.faultNext .colonMissing)

/-- Reads the members of an object, all of one type, after its opening bracket. -/
def members {α : Type} (value : Input → Except Fault (α × Input)) (first : Bool) (i : Input) :
    Except Fault (List (String × α) × Input) :=
  match nextKey first i with
  | .error e => .error e
  | .ok (none, after) => .ok ([], after)
  | .ok (some key, next) =>
    match colon next with
    | .error e => .error e
    | .ok next =>
      match value next with
      | .error e => .error e
      | .ok (a, after) =>
        if after.rest.length < i.rest.length then
          match members value false after with
          | .error e => .error e
          | .ok (others, last) => .ok ((key, a) :: others, last)
        else .ok ([(key, a)], after)
termination_by i.rest.length

/-- Reads an object whose members are all of one type. -/
def map {α : Type} (value : Input → Except Fault (α × Input)) (i : Input) :
    Except Fault (List (String × α) × Input) :=
  let i := i.skipBlanks
  match i.rest with
  | [] => .error (i.faultNext .endInValue)
  | c :: _ => if c = '\x7b' then members value true i.advance else .error (wrongType .map i)

end WireSchema.JsonText
