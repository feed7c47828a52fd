import WireSchema.Text.Line
import WireSchema.Text.Numeral
import WireSchema.Token

/-!
# From text to tokens

Between tokens stand gaps of blanks and comments. At any other place the first character decides
what is read: a digit starts a number, a quote a string, `@` an ordinal, a letter or underscore a
word, and anything else must be a punctuation mark. `Token.scan` gives the tokens up to the first
fault, and the fault if there is one.
-/

namespace WireSchema

/-- Why a text cannot be split into tokens. -/
inductive ScanCause where
  | illegal (c : Option Char)
  | badEscape (c : Char)
  | missingEscape
  | unterminatedString
  | unterminatedComment
  | badNumber (text : String)
  | missingOrdinalDigits
  deriving DecidableEq, Repr

def ScanCause.message : ScanCause → String
  | illegal none => "Lexer locked on EOF"
  | illegal (some c) => "Illegal character '" ++ c.toString ++ "'"
  | badEscape c => "Invalid escape sequence \\" ++ c.toString
  | missingEscape => "Expected an escape character after \\"
  | unterminatedString => "Unterminated string literal"
  | unterminatedComment => "Unterminated block comment"
  | badNumber text => "Invalid number " ++ text
  | missingOrdinalDigits => "Expected digits after @"

/-- A cause and the line on which the offending text starts. -/
structure ScanFault where
  line : UInt32
  cause : ScanCause
  deriving DecidableEq, Repr

def ScanFault.message (f : ScanFault) : String :=
  "L" ++ toString f.line.toNat ++ ": " ++ f.cause.message

namespace Token

/-- The characters of words: ASCII letters, ASCII digits and the underscore. -/
def isWordChar (c : Char) : Bool :=
  c.isAlphanum || c == '_'

/-- Words start with a letter or an underscore. -/
def isWordStart (c : Char) : Bool :=
  c.isAlpha || c == '_'

/-- The codes allowed after a backslash in a string. -/
def isEscapeCode (c : Char) : Bool :=
  c ∈ ['n', 'r', 't', '"', '\'', '0', '\\']

/-! ## Lexemes

Each reader takes the text at which a lexeme starts and returns the symbol and the text after it.
-/

/-- A symbol with the text after it, or the reason why there is none. -/
abbrev Lexeme := Except ScanCause (Symbol × List Char)

/-- A keyword or an identifier: the longest run of word characters. -/
def word (cs : List Char) : Symbol × List Char :=
  let name := String.ofList (cs.takeWhile isWordChar)
  let symbol := match Keyword.ofText? name with
    | some k => .keyword k
    | none => .identifier name
  (symbol, cs.dropWhile isWordChar)

/-- The body of a string after the opening quote, as written, and the text after the closing
quote. -/
def stringBody : List Char → Except ScanCause (List Char × List Char)
  | [] => .error .unterminatedString
  | '"' :: rest => .ok ([], rest)
  | '\n' :: _ => .error .unterminatedString
  | ['\\'] => .error .missingEscape
  | '\\' :: c :: rest =>
    if isEscapeCode c then
      match stringBody rest with
      | .ok (body, after) => .ok ('\\' :: c :: body, after)
      | .error e => .error e
    else .error (.badEscape c)
  | c :: rest =>
    match stringBody rest with
    | .ok (body, after) => .ok (c :: body, after)
    | .error e => .error e

/-- The digits of an ordinal after the `@`. -/
def ordinal (cs : List Char) : Lexeme :=
  match cs.takeWhile Char.isDigit with
  | [] => .error .missingOrdinalDigits
  | digits => .ok (.ordinal (String.ofList digits), cs.dropWhile Char.isDigit)

/-- Closes a number: it may not run on into word characters. -/
def finishNumber (symbol : String → Symbol) (text rest : List Char) : Lexeme :=
  match rest.takeWhile isWordChar with
  | [] => .ok (symbol (String.ofList text), rest)
  | more => .error (.badNumber (String.ofList (text ++ more)))

/-- The fraction of a number, a point with at least one digit after it, and the text after it. -/
def fraction : List Char → List Char × List Char
  | '.' :: d :: rest =>
    if d.isDigit then
      ('.' :: (d :: rest).takeWhile Char.isDigit, (d :: rest).dropWhile Char.isDigit)
    else ([], '.' :: d :: rest)
  | cs => ([], cs)

/-- The sign of an exponent and the text after it. -/
def exponentSign : List Char → List Char × List Char
  | '+' :: rest => (['+'], rest)
  | '-' :: rest => (['-'], rest)
  | cs => ([], cs)

/-- A decimal number after its whole part and fraction, which are given as `text`. -/
def decimalTail (text frac : List Char) : List Char → Lexeme
  | [] => finishNumber (if frac.isEmpty then .integer else .float) (text ++ frac) []
  | c :: rest =>
    if c = 'e' || c = 'E' then
      let signed := exponentSign rest
      let start := text ++ frac ++ c :: signed.1
      match signed.2.takeWhile Char.isDigit with
      | [] => .error (.badNumber (String.ofList start))
      | digits => finishNumber .float (start ++ digits) (signed.2.dropWhile Char.isDigit)
    else finishNumber (if frac.isEmpty then .integer else .float) (text ++ frac) (c :: rest)

/-- A decimal number. -/
def decimal (cs : List Char) : Lexeme :=
  let rest := fraction (cs.dropWhile Char.isDigit)
  decimalTail (cs.takeWhile Char.isDigit) rest.1 rest.2

/-- A hexadecimal number after its `0x`, which is given as `start`. -/
def hexadecimal (start cs : List Char) : Lexeme :=
  match cs.takeWhile Text.isHexDigit with
  | [] => .error (.badNumber (String.ofList start))
  | digits => finishNumber .integer (start ++ digits) (cs.dropWhile Text.isHexDigit)

/-- A number, given the text from its first digit on. -/
def number : List Char → Lexeme
  | '0' :: 'x' :: rest => hexadecimal ['0', 'x'] rest
  | '0' :: 'X' :: rest => hexadecimal ['0', 'X'] rest
  | cs => decimal cs

/-- The mark a character stands for on its own. -/
def singleMark? : Char → Option Punct
  | '\x7b' => some .lbrace
  | '\x7d' => some .rbrace
  | '[' => some .lbracket
  | ']' => some .rbracket
  | '(' => some .lparen
  | ')' => some .rparen
  | '<' => some .langle
  | '>' => some .rangle
  | ';' => some .semicolon
  | ',' => some .comma
  | '=' => some .assign
  | '&' => some .amp
  | '.' => some .dot
  | '-' => some .minus
  | '+' => some .plus
  | _ => none

/-- A punctuation mark; `=>` is one mark. -/
def mark (c : Char) (rest : List Char) : Lexeme :=
  match c, rest with
  | '=', '>' :: rest => .ok (.punct .arrow, rest)
  | c, rest =>
    match singleMark? c with
    | some p => .ok (.punct p, rest)
    | none => .error (.illegal (some c))

/-- The lexeme that starts with the character `c`. -/
def lexeme (c : Char) (rest : List Char) : Lexeme :=
  if c.isDigit then number (c :: rest)
  else if c = '"' then
    match stringBody rest with
    | .ok (body, after) => .ok (.string (String.ofList body), after)
    | .error e => .error e
  else if c = '@' then ordinal rest
  else if isWordStart c then .ok (word (c :: rest))
  else mark c rest

/-! ## Every lexeme leaves a shorter text -/

theorem length_dropWhile_le (p : Char → Bool) (cs : List Char) :
    (cs.dropWhile p).length ≤ cs.length :=
  (List.dropWhile_sublist p).length_le

theorem length_of_stringBody {cs body after : List Char} (h : stringBody cs = .ok (body, after)) :
    after.length < cs.length := by
  fun_induction stringBody cs generalizing body after with
  | case1 => simp at h
  | case2 rest => simp_all
  | case3 => simp at h
  | case4 => simp at h
  | case5 c rest hc b a hb ih => have := ih hb; simp_all; omega
  | case6 => simp at h
  | case7 => simp at h
  | case8 c rest _ _ _ _ b a hb ih => have := ih hb; simp_all; omega
  | case9 => simp at h

theorem rest_of_finishNumber {f : String → Symbol} {text rest : List Char} {s : Symbol}
    {after : List Char} (h : finishNumber f text rest = .ok (s, after)) : after = rest := by
  unfold finishNumber at h
  split at h <;> simp_all

theorem length_fraction_le (cs : List Char) : (fraction cs).2.length ≤ cs.length := by
  unfold fraction
  split
  · split
    · have := length_dropWhile_le Char.isDigit
      simp only [List.length_cons]
      exact Nat.le_trans (this _) (by simp)
    · simp
  · simp

theorem length_exponentSign_le (cs : List Char) : (exponentSign cs).2.length ≤ cs.length := by
  unfold exponentSign
  split <;> simp

theorem length_of_decimalTail {text frac cs : List Char} {s : Symbol} {after : List Char}
    (h : decimalTail text frac cs = .ok (s, after)) : after.length ≤ cs.length := by
  unfold decimalTail at h
  split at h
  · exact Nat.le_of_eq (congrArg List.length (rest_of_finishNumber h))
  · rename_i c rest
    split at h
    · dsimp only at h
      split at h
      · simp at h
      · rw [rest_of_finishNumber h]
        have h₁ := length_dropWhile_le Char.isDigit (exponentSign rest).2
        have h₂ := length_exponentSign_le rest
        simp only [List.length_cons]
        omega
    · exact Nat.le_of_eq (congrArg List.length (rest_of_finishNumber h))

theorem length_of_decimal {c : Char} {rest : List Char} (hc : c.isDigit = true) {s : Symbol}
    {after : List Char} (h : decimal (c :: rest) = .ok (s, after)) :
    after.length < (c :: rest).length := by
  unfold decimal at h
  have h₁ := length_of_decimalTail h
  have h₂ := length_fraction_le ((c :: rest).dropWhile Char.isDigit)
  rw [List.dropWhile_cons_of_pos (by simpa using hc)] at h₁ h₂
  have h₃ := length_dropWhile_le Char.isDigit rest
  simp only [List.length_cons]
  omega

theorem length_of_hexadecimal {start cs : List Char} {s : Symbol} {after : List Char}
    (h : hexadecimal start cs = .ok (s, after)) : after.length ≤ cs.length := by
  unfold hexadecimal at h
  split at h
  · simp at h
  · rw [rest_of_finishNumber h]
    exact length_dropWhile_le _ _

theorem length_of_number {c : Char} {rest : List Char} (hc : c.isDigit = true) {s : Symbol}
    {after : List Char} (h : number (c :: rest) = .ok (s, after)) :
    after.length < (c :: rest).length := by
  unfold number at h
  split at h
  · rename_i heq
    have := length_of_hexadecimal h
    simp_all
    omega
  · rename_i heq
    have := length_of_hexadecimal h
    simp_all
    omega
  · exact length_of_decimal hc h

theorem length_of_ordinal {cs : List Char} {s : Symbol} {after : List Char}
    (h : ordinal cs = .ok (s, after)) : after.length ≤ cs.length := by
  unfold ordinal at h
  split at h
  · simp at h
  · simp only [Except.ok.injEq, Prod.mk.injEq] at h
    rw [← h.2]
    exact length_dropWhile_le _ _

theorem length_of_mark {c : Char} {rest : List Char} {s : Symbol} {after : List Char}
    (h : mark c rest = .ok (s, after)) : after.length ≤ rest.length := by
  unfold mark at h
  split at h
  · simp_all
  · split at h <;> simp_all

theorem length_word_lt {c : Char} {rest : List Char} (hc : isWordStart c = true) :
    (word (c :: rest)).2.length < (c :: rest).length := by
  have hw : isWordChar c = true := by
    unfold isWordStart at hc
    unfold isWordChar Char.isAlphanum
    grind
  unfold word
  rw [List.dropWhile_cons_of_pos hw]
  have := length_dropWhile_le isWordChar rest
  simp only [List.length_cons]
  omega

theorem length_of_lexeme {c : Char} {rest : List Char} {s : Symbol} {after : List Char}
    (h : lexeme c rest = .ok (s, after)) : after.length ≤ rest.length := by
  unfold lexeme at h
  split at h
  · exact Nat.le_of_lt_succ (length_of_number ‹_› h)
  split at h
  · split at h
    · have := length_of_stringBody ‹_›
      simp_all
      omega
    · simp at h
  split at h
  · exact length_of_ordinal h
  split at h
  · simp only [Except.ok.injEq] at h
    have hlt : (word (c :: rest)).2.length < (c :: rest).length := length_word_lt ‹_›
    rw [h] at hlt
    exact Nat.le_of_lt_succ hlt
  · exact length_of_mark h

/-! ## Scanning -/

/-- The body of a block comment after its opening, and the text after the first `*/`. -/
def blockComment? : List Char → Option (List Char × List Char)
  | [] => none
  | '*' :: '/' :: rest => some ([], rest)
  | c :: rest => (blockComment? rest).map fun (body, after) => (c :: body, after)

theorem length_of_blockComment? {cs body after : List Char}
    (h : blockComment? cs = some (body, after)) : after.length < cs.length := by
  fun_induction blockComment? cs generalizing body after with
  | case1 => simp at h
  | case2 rest =>
    cases h
    exact Nat.lt_succ_of_lt (Nat.lt_succ_self _)
  | case3 c rest _ ih =>
    obtain ⟨⟨b, a⟩, hb, heq⟩ := Option.map_eq_some_iff.1 h
    have := ih hb
    simp_all
    omega

/-- The tokens of a text up to the first fault. -/
structure Scan where
  tokens : List Token
  fault : Option ScanFault := none
  deriving DecidableEq, Repr

namespace Scan

/-- Puts a token in front. -/
def cons (t : Token) (s : Scan) : Scan :=
  { s with tokens := t :: s.tokens }

/-- All the tokens, or the fault. -/
def toExcept (s : Scan) : Except ScanFault (List Token) :=
  match s.fault with
  | none => .ok s.tokens
  | some f => .error f

end Scan

/-- Scans a text whose first character stands on the given line. Lines are counted in 32 bits, so
after the last of them comes line 0. -/
def scanFrom (line : UInt32) : List Char → Scan
  | [] => { tokens := [] }
  | c :: rest =>
    if Text.isBlank c then scanFrom (if c = '\n' then line + 1 else line) rest
    else if c = '/' ∧ rest.head? = some '/' then
      scanFrom line (rest.dropWhile (· ≠ '\n'))
    else if c = '/' ∧ rest.head? = some '*' then
      match _ : blockComment? rest.tail with
      | some (body, after) => scanFrom (line + .ofNat (Text.newlines body)) after
      | none => { tokens := [], fault := some ⟨line, .unterminatedComment⟩ }
    else
      match _ : lexeme c rest with
      | .ok (symbol, after) => (scanFrom line after).cons ⟨line, symbol⟩
      | .error cause => { tokens := [], fault := some ⟨line, cause⟩ }
termination_by cs => cs.length
decreasing_by
  · simp
  · have := length_dropWhile_le (· ≠ '\n') rest
    simp only [List.length_cons]
    omega
  · have := length_of_blockComment? ‹_›
    simp only [List.length_cons, List.length_tail] at *
    omega
  · have := length_of_lexeme ‹_›
    simp only [List.length_cons]
    omega

/-- The tokens of a text. -/
def scan (text : String) : Scan :=
  scanFrom 1 text.toList

end Token

end WireSchema
