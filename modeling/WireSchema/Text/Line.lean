import WireSchema.Text.Blank

/-!
# Lines of a text

A line ends at a line feed, or at a carriage return directly before one; the end of the text
closes the last line. Lines are counted from 1.
-/

namespace WireSchema.Text

/-- The lines of a text without their endings. -/
def lines : List Char → List (List Char)
  | [] => []
  | '\n' :: rest => [] :: lines rest
  | '\r' :: '\n' :: rest => [] :: lines rest
  | c :: rest =>
    match lines rest with
    | [] => [[c]]
    | first :: others => (c :: first) :: others

/-- How many line feeds a text holds. -/
def newlines (cs : List Char) : Nat :=
  cs.count '\n'

/-- The trimmed text of a line; there is no line 0. -/
def snippet? (text : String) (line : UInt32) : Option String :=
  match line.toNat with
  | 0 => none
  | n + 1 => (lines text.toList)[n]?.map fun line => trim (String.ofList line)

end WireSchema.Text
