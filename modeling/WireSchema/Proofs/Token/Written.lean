import WireSchema.Proofs.Token.Split

/-!
# Reading back what is written

`Token.Spelled` and `Token.Splits` leave the scanner no choice: `Token.lexeme` reads every lexeme
that is spelled as they say (`Token.lexeme_of_spelled`), so a text that splits into tokens without a
fault is scanned to these tokens (`Token.scanFrom_of_splits`). Symbols that are written out with
separators between them make such a text (`Token.scan_written`).
-/

namespace WireSchema

variable {p : Char → Bool} {c : Char} {cs after gap text frac exp sign whole : List Char}
  {s : Symbol}

namespace Token

/-! ## Runs -/

theorem takeWhile_append_of_stopsAt (h : ∀ c ∈ cs, p c = true) (ends : StopsAt p after) :
    (cs ++ after).takeWhile p = cs := by
  rw [List.takeWhile_append_of_pos h, takeWhile_eq_nil_iff.2 ends, List.append_nil]

theorem dropWhile_append_of_stopsAt (h : ∀ c ∈ cs, p c = true) (ends : StopsAt p after) :
    (cs ++ after).dropWhile p = after := by
  have hsplit := List.takeWhile_append_dropWhile (p := p) (l := cs ++ after)
  rw [takeWhile_append_of_stopsAt h ends] at hsplit
  exact List.append_cancel_left hsplit

theorem StopsAt.mono {q : Char → Bool} (ends : StopsAt p cs) (h : ∀ c, q c = true → p c = true) :
    StopsAt q cs := fun c hc => by
  have hp := ends c hc
  cases hq : q c with
  | false => rfl
  | true => exact absurd (h c hq) (by simp [hp])

theorem isDigit_iff : c.isDigit = true ↔ 48 ≤ c.toNat ∧ c.toNat ≤ 57 := by
  change (decide ('0'.val ≤ c.val) && decide (c.val ≤ '9'.val)) = true ↔ _
  simp only [Bool.and_eq_true, decide_eq_true_eq, UInt32.le_iff_toNat_le]
  exact .rfl

theorem isAlpha_iff :
    c.isAlpha = true ↔ 65 ≤ c.toNat ∧ c.toNat ≤ 90 ∨ 97 ≤ c.toNat ∧ c.toNat ≤ 122 := by
  change (decide ('A'.val ≤ c.val ∧ c.val ≤ 'Z'.val) ||
    (decide ('a'.val ≤ c.val) && decide (c.val ≤ 'z'.val))) = true ↔ _
  simp only [Bool.or_eq_true, Bool.and_eq_true, decide_eq_true_eq, UInt32.le_iff_toNat_le]
  exact .rfl

theorem isWordChar_of_isDigit (h : c.isDigit = true) : isWordChar c = true := by
  simp [isWordChar, Char.isAlphanum, h]

theorem isWordChar_of_isHexDigit (h : Text.isHexDigit c = true) : isWordChar c = true := by
  simp only [Text.isHexDigit, Text.digitValue?] at h
  have hletters : 'a' ≤ c ∧ c ≤ 'f' ∨ 'A' ≤ c ∧ c ≤ 'F' → c.isAlpha = true := by
    rw [isAlpha_iff]
    simp only [Char.le_def, UInt32.le_iff_toNat_le]
    change 97 ≤ c.toNat ∧ c.toNat ≤ 102 ∨ 65 ≤ c.toNat ∧ c.toNat ≤ 70 → _
    omega
  split at h
  · exact isWordChar_of_isDigit ‹_›
  split at h
  · next hlower => simp [isWordChar, Char.isAlphanum, hletters (.inl hlower)]
  split at h
  · next hupper => simp [isWordChar, Char.isAlphanum, hletters (.inr hupper)]
  · cases h

theorem Run.of_all (hne : cs ≠ []) (h : cs.all p = true) : Run p cs :=
  ⟨hne, List.all_eq_true.1 h⟩

theorem Run.exists_cons (h : Run p cs) : ∃ d ds, cs = d :: ds ∧ p d = true := by
  obtain ⟨hne, hall⟩ := h
  cases cs with
  | nil => exact absurd rfl hne
  | cons d ds => exact ⟨d, ds, rfl, hall d List.mem_cons_self⟩

/-! ## Reading lexemes -/

theorem Keyword.ofText?_text (k : Keyword) : Keyword.ofText? k.text = some k := by
  cases k <;> rfl

theorem Keyword.ofText?_eq_none {name : String} (h : ∀ k : Keyword, k.text ≠ name) :
    Keyword.ofText? name = none :=
  List.find?_eq_none.2 fun k _ => by simpa using h k

theorem word_keyword (k : Keyword) (ends : StopsAt isWordChar after) :
    word (k.text.toList ++ after) = (.keyword k, after) := by
  have hall : ∀ c ∈ k.text.toList, isWordChar c = true :=
    List.all_eq_true.1 (by cases k <;> decide)
  rw [word, takeWhile_append_of_stopsAt hall ends, dropWhile_append_of_stopsAt hall ends,
    String.ofList_toList, Keyword.ofText?_text]

theorem word_identifier (h : ∀ c ∈ cs, isWordChar c = true)
    (other : ∀ k : Keyword, k.text ≠ String.ofList cs) (ends : StopsAt isWordChar after) :
    word (cs ++ after) = (.identifier (String.ofList cs), after) := by
  rw [word, takeWhile_append_of_stopsAt h ends, dropWhile_append_of_stopsAt h ends,
    Keyword.ofText?_eq_none other]

theorem finishNumber_of_stopsAt (symbol : String → Symbol) (text : List Char)
    (ends : StopsAt isWordChar after) :
    finishNumber symbol text after = .ok (symbol (String.ofList text), after) := by
  rw [finishNumber, takeWhile_eq_nil_iff.2 ends]

theorem fraction_append (h : IsFraction frac) (ends : StopsAt Char.isDigit after)
    (whole : frac = [] → ∀ d rest, after = '.' :: d :: rest → d.isDigit = false) :
    fraction (frac ++ after) = (frac, after) := by
  cases h with
  | absent =>
    unfold fraction
    split
    · next d rest heq =>
      rw [if_neg (by simp [whole rfl d rest heq]), ← heq]
      rfl
    · rfl
  | present digits =>
    obtain ⟨d, ds, rfl, hd⟩ := digits.exists_cons
    have htake := takeWhile_append_of_stopsAt digits.2 ends
    have hdrop := dropWhile_append_of_stopsAt digits.2 ends
    rw [List.cons_append] at htake hdrop
    simp only [List.cons_append, fraction]
    rw [if_pos hd, htake, hdrop]

theorem exponentSign_append (h : IsSign sign) (ends : ∀ d ∈ after.head?, d.isDigit = true) :
    exponentSign (sign ++ after) = (sign, after) := by
  cases h with
  | absent =>
    unfold exponentSign
    split
    · next heq => exact absurd (ends '+' (by rw [show after = _ from heq]; rfl)) (by decide)
    · next heq => exact absurd (ends '-' (by rw [show after = _ from heq]; rfl)) (by decide)
    · rfl
  | plus => rfl
  | minus => rfl

/-- An exponent is read to its end, and where none follows the number is over. -/
theorem decimalTail_append (text frac : List Char) (h : IsExponent exp)
    (ends : StopsAt isWordChar after) :
    decimalTail text frac (exp ++ after) =
      .ok ((if (frac ++ exp).isEmpty then Symbol.integer else Symbol.float)
        (String.ofList (text ++ (frac ++ exp))), after) := by
  cases h with
  | absent =>
    simp only [List.nil_append, List.append_nil]
    cases after with
    | nil => exact finishNumber_of_stopsAt _ _ ends
    | cons c rest =>
      have hletter : (decide (c = 'e') || decide (c = 'E')) = false := by
        have hc := ends c rfl
        by_contra h
        simp only [Bool.not_eq_false, Bool.or_eq_true, decide_eq_true_eq] at h
        rcases h with rfl | rfl <;> exact absurd hc (by decide)
      rw [decimalTail, hletter]
      exact finishNumber_of_stopsAt _ _ ends
  | @present e sign ds letter signed digits =>
    have hletter : (decide (e = 'e') || decide (e = 'E')) = true := by simpa using letter
    have hstop := ends.mono fun _ => isWordChar_of_isDigit
    have hhead : ∀ d ∈ (ds ++ after).head?, d.isDigit = true := by
      obtain ⟨d, rest, rfl, hd⟩ := digits.exists_cons
      rintro _ ⟨⟩
      exact hd
    have hfloat : (frac ++ e :: (sign ++ ds)).isEmpty = false := by simp
    simp only [List.cons_append, List.append_assoc, decimalTail, hletter, if_true,
      exponentSign_append signed hhead, takeWhile_append_of_stopsAt digits.2 hstop,
      dropWhile_append_of_stopsAt digits.2 hstop]
    split
    · exact absurd rfl digits.1
    · rw [finishNumber_of_stopsAt _ _ ends, hfloat]
      rfl

/-- Only `0x` and `0X` start a hexadecimal number. -/
theorem number_eq_decimal (hw : Run Char.isDigit whole)
    (hx : ∀ c ∈ after.head?, c ≠ 'x' ∧ c ≠ 'X') :
    number (whole ++ after) = decimal (whole ++ after) := by
  have hsecond : ∀ c rest, whole ++ after = '0' :: c :: rest → c ≠ 'x' ∧ c ≠ 'X' := by
    intro c rest heq
    obtain ⟨d, ds, rfl, -⟩ := hw.exists_cons
    obtain ⟨-, heq⟩ := List.cons.inj heq
    cases ds with
    | nil => exact hx c (by simp [show after = c :: rest from heq])
    | cons d' ds =>
      obtain ⟨rfl, -⟩ := List.cons.inj heq
      have hdigit := hw.2 d' (by simp)
      constructor <;> (rintro rfl; exact absurd hdigit (by decide))
  unfold number
  split
  · next rest heq => exact absurd rfl (hsecond _ _ heq).1
  · next rest heq => exact absurd rfl (hsecond _ _ heq).2
  · rfl

/-- A whole part, a fraction and an exponent are read as one number. -/
theorem number_parts (hw : Run Char.isDigit whole) (hf : IsFraction frac) (he : IsExponent exp)
    (ends : StopsAt isWordChar after)
    (hwhole : frac ++ exp = [] → ∀ d rest, after = '.' :: d :: rest → d.isDigit = false) :
    number (whole ++ (frac ++ exp) ++ after) =
      .ok ((if (frac ++ exp).isEmpty then Symbol.integer else Symbol.float)
        (String.ofList (whole ++ (frac ++ exp))), after) := by
  have hexp : StopsAt Char.isDigit (exp ++ after) := by
    cases he with
    | absent => exact ends.mono fun _ => isWordChar_of_isDigit
    | present letter =>
      rintro _ ⟨⟩
      rcases letter with rfl | rfl <;> decide
  have hfrac : StopsAt Char.isDigit (frac ++ (exp ++ after)) := by
    cases hf with
    | absent => exact hexp
    | present => rintro _ ⟨⟩; decide
  have hx : ∀ c ∈ (frac ++ (exp ++ after)).head?, c ≠ 'x' ∧ c ≠ 'X' := by
    cases hf with
    | present => rintro _ ⟨⟩; decide
    | absent =>
      cases he with
      | present letter =>
        rintro _ ⟨⟩
        rcases letter with rfl | rfl <;> decide
      | absent =>
        intro c hc
        have hword := ends c hc
        constructor <;> (rintro rfl; exact absurd hword (by decide))
  have hnone : frac = [] → ∀ d rest, exp ++ after = '.' :: d :: rest → d.isDigit = false := by
    rintro rfl d rest heq
    cases he with
    | absent => exact hwhole rfl d rest heq
    | present letter => rcases letter with rfl | rfl <;> cases heq
  rw [List.append_assoc, List.append_assoc, number_eq_decimal hw hx, decimal,
    takeWhile_append_of_stopsAt hw.2 hfrac, dropWhile_append_of_stopsAt hw.2 hfrac,
    fraction_append hf hexp hnone, decimalTail_append _ _ he ends]

theorem number_integer (h : IsInteger cs) (ends : StopsAt isWordChar after)
    (whole : Run Char.isDigit cs → ∀ d rest, after = '.' :: d :: rest → d.isDigit = false) :
    number (cs ++ after) = .ok (.integer (String.ofList cs), after) := by
  cases h with
  | decimal digits =>
    have key := number_parts digits .absent .absent ends fun _ => whole digits
    simpa using key
  | @hexadecimal x ds letter digits =>
    have hstop := ends.mono fun _ => isWordChar_of_isHexDigit
    have hhex : hexadecimal ['0', x] (ds ++ after) =
        .ok (.integer (String.ofList ('0' :: x :: ds)), after) := by
      rw [hexadecimal, takeWhile_append_of_stopsAt digits.2 hstop,
        dropWhile_append_of_stopsAt digits.2 hstop]
      split
      · exact absurd rfl digits.1
      · exact finishNumber_of_stopsAt _ _ ends
    rcases letter with rfl | rfl <;> exact hhex

theorem number_float (h : IsFloat cs) (ends : StopsAt isWordChar after) :
    number (cs ++ after) = .ok (.float (String.ofList cs), after) := by
  cases h with
  | mk digits fraction exponent either =>
    rw [number_parts digits fraction exponent ends fun hnil => absurd hnil either,
      List.isEmpty_eq_false_iff.2 either]
    rfl

theorem stringBody_append (h : IsStringText cs) (after : List Char) :
    stringBody (cs ++ '"' :: after) = .ok (cs, after) := by
  induction h with
  | nil => rfl
  | @plain c cs quote newline slash rest ih =>
    rw [List.cons_append, stringBody, ih]
    · exact quote
    · exact newline
    · exact fun hc => absurd hc slash
    · exact fun _ _ hc => absurd hc slash
  | @escape c cs code rest ih =>
    rw [List.cons_append, List.cons_append, stringBody, if_pos code, ih]

theorem ordinal_append (h : Run Char.isDigit cs) (ends : StopsAt Char.isDigit after) :
    ordinal (cs ++ after) = .ok (.ordinal (String.ofList cs), after) := by
  rw [ordinal, takeWhile_append_of_stopsAt h.2 ends, dropWhile_append_of_stopsAt h.2 ends]
  split
  · exact absurd rfl h.1
  · rfl

/-! ## What a lexeme starts with -/

theorem isBlank_of_isWordChar (h : isWordChar c = true) : Text.isBlank c = false := by
  simp only [isWordChar, Char.isAlphanum, Bool.or_eq_true, beq_iff_eq, isAlpha_iff, isDigit_iff] at h
  simp only [Text.isBlank, Text.blankRanges, List.any_cons, List.any_nil, Bool.or_false,
    Bool.or_eq_false_iff, Bool.and_eq_false_iff, decide_eq_false_iff_not]
  rcases h with h | rfl
  · omega
  · decide

theorem ne_slash_of_isWordChar (h : isWordChar c = true) : c ≠ '/' := by
  rintro rfl
  exact absurd h (by decide)

theorem mark_text (m : Punct) (longest : m = .assign → after.head? ≠ some '>') :
    ∃ c cs, m.text.toList = c :: cs ∧ Text.isBlank c = false ∧ c ≠ '/' ∧
      lexeme c (cs ++ after) = .ok (.punct m, after) := by
  cases m with
  | assign =>
    refine ⟨'=', [], rfl, by decide, by decide, ?_⟩
    have hmark : mark '=' after = .ok (.punct .assign, after) := by
      unfold mark
      split
      · exact absurd rfl (longest rfl)
      · rfl
    exact hmark
  | _ => exact ⟨_, _, rfl, by decide, by decide, rfl⟩

theorem lexeme_of_isDigit (h : c.isDigit = true) (rest : List Char) :
    lexeme c rest = number (c :: rest) := by
  rw [lexeme, if_pos h]

theorem lexeme_of_isWordStart (h : isWordStart c = true) (rest : List Char) :
    lexeme c rest = .ok (word (c :: rest)) := by
  have hdigit : ¬ c.isDigit = true := by
    rw [isDigit_iff]
    simp only [isWordStart, Bool.or_eq_true, beq_iff_eq, isAlpha_iff] at h
    rcases h with h | rfl
    · omega
    · decide
  have hquote : c ≠ '"' := by
    rintro rfl
    exact absurd h (by decide)
  have hat : c ≠ '@' := by
    rintro rfl
    exact absurd h (by decide)
  rw [lexeme, if_neg hdigit, if_neg hquote, if_neg hat, if_pos h]

/-- Every lexeme is read as its symbol, up to its end. It starts neither with a blank nor as
comments do. -/
theorem lexeme_of_spelled (h : Spelled s cs after) :
    ∃ c rest, cs = c :: rest ∧ Text.isBlank c = false ∧ c ≠ '/' ∧
      lexeme c (rest ++ after) = .ok (s, after) := by
  -- Words and numbers start with a word character, which is neither a blank nor a slash.
  have hstarts : ∀ c rest, cs = c :: rest → isWordChar c = true →
      lexeme c (rest ++ after) = .ok (s, after) →
      ∃ c rest, cs = c :: rest ∧ Text.isBlank c = false ∧ c ≠ '/' ∧
        lexeme c (rest ++ after) = .ok (s, after) :=
    fun c rest heq hc hlexeme =>
      ⟨c, rest, heq, isBlank_of_isWordChar hc, ne_slash_of_isWordChar hc, hlexeme⟩
  cases h with
  | @keyword k _ ends =>
    have hstart : ∃ c rest, k.text.toList = c :: rest ∧ isWordStart c = true := by
      cases k <;> exact ⟨_, _, rfl, by decide⟩
    obtain ⟨c, rest, htext, hc⟩ := hstart
    refine hstarts c rest htext (isWordChar_of_isWordStart hc) ?_
    rw [lexeme_of_isWordStart hc, ← List.cons_append, ← htext, word_keyword k ends]
  | @identifier c rest _ start word other ends =>
    have hc := isWordChar_of_isWordStart start
    refine hstarts c rest rfl hc ?_
    rw [lexeme_of_isWordStart start, ← List.cons_append,
      word_identifier (List.forall_mem_cons.2 ⟨hc, word⟩) other ends]
  | integer number ends whole =>
    obtain ⟨d, rest, heq, hd⟩ := number.head_isDigit []
    rw [List.append_nil] at heq
    refine hstarts d rest heq (isWordChar_of_isDigit hd) ?_
    rw [lexeme_of_isDigit hd, ← List.cons_append, ← heq, number_integer number ends whole]
  | float number ends =>
    obtain ⟨d, rest, heq, hd⟩ := number.head_isDigit []
    rw [List.append_nil] at heq
    refine hstarts d rest heq (isWordChar_of_isDigit hd) ?_
    rw [lexeme_of_isDigit hd, ← List.cons_append, ← heq, number_float number ends]
  | @string body _ text =>
    refine ⟨'"', body ++ ['"'], rfl, by decide, by decide, ?_⟩
    rw [List.append_assoc, List.singleton_append, lexeme, if_neg (by decide), if_pos rfl,
      stringBody_append text]
  | @ordinal ds _ digits ends =>
    refine ⟨'@', ds, rfl, by decide, by decide, ?_⟩
    rw [lexeme, if_neg (by decide), if_neg (by decide), if_pos rfl, ordinal_append digits ends]
  | @punct m _ longest => exact mark_text m longest

/-! ## Scanning a text that splits -/

theorem blockComment?_append (first : ¬ ['*', '/'] <:+: cs ++ ['*']) (after : List Char) :
    blockComment? (cs ++ '*' :: '/' :: after) = some (cs, after) := by
  induction cs with
  | nil => rfl
  | cons c cs ih =>
    have hrest : ¬ ['*', '/'] <:+: cs ++ ['*'] := fun h => first (List.infix_cons h)
    have hne : ∀ rest, c = '*' → cs ++ '*' :: '/' :: after = '/' :: rest → False := by
      rintro rest rfl heq
      cases cs with
      | nil => cases heq
      | cons d cs =>
        cases heq
        exact first ⟨[], cs ++ ['*'], rfl⟩
    rw [List.cons_append, blockComment?, ih hrest]
    · rfl
    · exact hne

/-- A gap is passed over, and its line feeds are counted. -/
theorem scanFrom_gap (h : Gap after gap) (line : UInt32) :
    scanFrom line (gap ++ after) = scanFrom (line + .ofNat (Text.newlines gap)) after := by
  induction h generalizing line with
  | nil => simp [Text.newlines]
  | @blank c gap blank rest ih =>
    have hline : (if c = '\n' then line + 1 else line) + .ofNat (Text.newlines gap) =
        line + .ofNat (Text.newlines (c :: gap)) := by
      by_cases hc : c = '\n'
      · simp [hc, Text.newlines, UInt32.ofNat_add, UInt32.add_assoc, UInt32.add_comm]
      · simp [hc, Text.newlines]
    rw [List.cons_append, scanFrom, if_pos blank, ih, hline]
  | @line body gap inside ends rest ih =>
    have hbody : ∀ c ∈ '/' :: body, decide (c ≠ '\n') = true := by
      intro c hc
      rcases List.mem_cons.1 hc with rfl | hc
      · decide
      · exact decide_eq_true fun h => inside (h ▸ hc)
    have hstop : StopsAt (· ≠ '\n') (gap ++ after) := fun c hc => by simpa using ends c hc
    have hdrop := dropWhile_append_of_stopsAt hbody hstop
    have hline : Text.newlines ('/' :: '/' :: (body ++ gap)) = Text.newlines gap := by
      simp [Text.newlines, List.count_eq_zero.2 inside]
    rw [List.cons_append, List.cons_append, List.append_assoc, scanFrom, if_neg (by decide),
      if_pos ⟨rfl, rfl⟩, ← List.cons_append, hdrop, ih, hline]
  | @block body gap first rest ih =>
    have hline : line + .ofNat (Text.newlines body) + .ofNat (Text.newlines gap) =
        line + .ofNat (Text.newlines ('/' :: '*' :: (body ++ '*' :: '/' :: gap))) := by
      simp [Text.newlines, UInt32.ofNat_add, UInt32.add_assoc]
    have hbody := blockComment?_append first (gap ++ after)
    rw [List.cons_append, List.cons_append, List.append_assoc, scanFrom, if_neg (by decide),
      if_neg (by simp), if_pos ⟨rfl, rfl⟩]
    split
    · next body' after' heq =>
      obtain ⟨rfl, rfl⟩ := Prod.mk.inj (Option.some.inj (hbody.symm.trans heq))
      rw [ih, hline]
    · next heq => cases hbody.symm.trans heq

theorem scanFrom_spelled (h : Spelled s cs after) (line : UInt32) :
    scanFrom line (cs ++ after) = (scanFrom line after).cons ⟨line, s⟩ := by
  obtain ⟨c, rest, rfl, hblank, hslash, hlexeme⟩ := lexeme_of_spelled h
  rw [List.cons_append, scanFrom, if_neg (by simp [hblank]), if_neg fun h => hslash h.1,
    if_neg fun h => hslash h.1]
  split
  · next symbol after' heq =>
    obtain ⟨rfl, rfl⟩ := Prod.mk.inj (Except.ok.inj (hlexeme.symm.trans heq))
    rfl
  · next heq => cases hlexeme.symm.trans heq

/-- A text that splits into tokens without a fault is scanned to these tokens. -/
theorem scanFrom_of_splits {before : List Char} {tokens : List Token}
    (h : Splits before text tokens none) : scanFrom (lineAfter before) text = { tokens } := by
  generalize hfault : (none : Option ScanFault) = fault at h
  induction h with
  | finished gaps =>
    have key := scanFrom_gap gaps
    simp only [List.append_nil] at key
    rw [key, scanFrom]
  | faulty => cases hfault
  | @token before gap lexeme after symbol tokens fault gaps spelled rest ih =>
    have hline : lineAfter (before ++ gap ++ lexeme) = lineAfter (before ++ gap) := by
      rw [lineAfter_append_of_not_mem _ spelled.newline_not_mem]
    have hrest := ih hfault
    rw [hline] at hrest
    rw [scanFrom_gap gaps, ← lineAfter_append, scanFrom_spelled spelled, hrest]
    rfl

end Token

/-! ## Writing symbols -/

open Token

namespace Symbol

/-- How a symbol is written. -/
def spelling : Symbol → List Char
  | identifier text | integer text | float text => text.toList
  | string text => '"' :: (text.toList ++ ['"'])
  | ordinal digits => '@' :: digits.toList
  | keyword k => k.text.toList
  | punct m => m.text.toList

/-- The symbols that can be written: those whose texts are lexemes of their sorts. -/
inductive WellFormed : Symbol → Prop where
  | identifier {c : Char} {cs : List Char} (start : isWordStart c = true)
    (word : ∀ d ∈ cs, isWordChar d = true)
    (other : ∀ k : Keyword, k.text ≠ String.ofList (c :: cs)) :
    WellFormed (.identifier (String.ofList (c :: cs)))
  | integer {cs : List Char} (number : IsInteger cs) : WellFormed (.integer (String.ofList cs))
  | float {cs : List Char} (number : IsFloat cs) : WellFormed (.float (String.ofList cs))
  | string {cs : List Char} (text : IsStringText cs) : WellFormed (.string (String.ofList cs))
  | ordinal {ds : List Char} (digits : Run Char.isDigit ds) :
    WellFormed (.ordinal (String.ofList ds))
  | keyword (k : Keyword) : WellFormed (.keyword k)
  | punct (m : Punct) : WellFormed (.punct m)

end Symbol

namespace Token

/-- Blanks and closed comments, in any number. A line comment is closed by a line feed. -/
inductive Filler : List Char → Prop where
  | nil : Filler []
  | blank {c : Char} {rest : List Char} (blank : Text.isBlank c = true) (filler : Filler rest) :
    Filler (c :: rest)
  | line {body rest : List Char} (inside : '\n' ∉ body) (filler : Filler rest) :
    Filler ('/' :: '/' :: (body ++ '\n' :: rest))
  | block {body rest : List Char} (first : ¬ ['*', '/'] <:+: body ++ ['*'])
    (filler : Filler rest) : Filler ('/' :: '*' :: (body ++ '*' :: '/' :: rest))

theorem Filler.isGap (h : Filler gap) (after : List Char) : Gap after gap := by
  induction h with
  | nil => exact .nil
  | blank blank _ ih => exact .blank blank ih
  | line inside _ ih => exact .line inside (by rintro _ ⟨⟩; rfl) (.blank (by decide) ih)
  | block first _ ih => exact .block first ih

/-- What can follow a lexeme that stands apart: the end of the text, a blank or a comment. -/
def Apart (after : List Char) : Prop :=
  ∀ c ∈ after.head?, Text.isBlank c = true ∨ c = '/'

theorem Filler.apart_append (h : Filler gap) (after : List Char) (hafter : gap = [] → Apart after) :
    Apart (gap ++ after) := by
  cases h with
  | nil => exact hafter rfl
  | blank blank => rintro _ ⟨⟩; exact .inl blank
  | line | block => rintro _ ⟨⟩; exact .inr rfl

theorem Apart.stopsAt (h : Apart after) : StopsAt isWordChar after := by
  intro c hc
  cases hword : isWordChar c with
  | false => rfl
  | true =>
    rcases h c hc with hblank | rfl
    · exact absurd hblank (by simp [isBlank_of_isWordChar hword])
    · exact absurd hword (by decide)

theorem Apart.head?_ne (h : Apart after) (hc : Text.isBlank c = false) (hslash : c ≠ '/') :
    after.head? ≠ some c := fun hhead => by
  rcases h c hhead with hblank | rfl
  · exact absurd hblank (by simp [hc])
  · exact hslash rfl

/-- A well-formed symbol that stands apart is spelled as it is written. -/
theorem spelled_of_wellFormed (h : s.WellFormed) (apart : Apart after) :
    Spelled s s.spelling after := by
  cases h with
  | identifier start word other =>
    rw [Symbol.spelling, String.toList_ofList]
    exact .identifier start word other apart.stopsAt
  | integer number =>
    rw [Symbol.spelling, String.toList_ofList]
    refine .integer number apart.stopsAt fun _ d rest heq => ?_
    exact absurd (congrArg List.head? heq) (apart.head?_ne (by decide) (by decide))
  | float number =>
    rw [Symbol.spelling, String.toList_ofList]
    exact .float number apart.stopsAt
  | string text =>
    rw [Symbol.spelling, String.toList_ofList]
    exact .string text
  | ordinal digits =>
    rw [Symbol.spelling, String.toList_ofList]
    exact .ordinal digits (apart.stopsAt.mono fun _ => isWordChar_of_isDigit)
  | keyword k => exact .keyword apart.stopsAt
  | punct m => exact .punct fun _ => apart.head?_ne (by decide) (by decide)

/-- A symbol and what is written in front of it. -/
structure Spaced where
  gap : List Char
  symbol : Symbol

def Spaced.chars (i : Spaced) : List Char :=
  i.gap ++ i.symbol.spelling

/-- Symbols as tokens, each on the line where it starts in a text that has the characters `before`
in front. -/
def tokensAfter (before : List Char) : List Spaced → List Token
  | [] => []
  | i :: rest => ⟨lineAfter (before ++ i.gap), i.symbol⟩ :: tokensAfter (before ++ i.chars) rest

/-- Symbols that are written apart split the text into themselves. -/
theorem splits_written {items : List Spaced} {last : List Char} (before : List Char)
    (formed : ∀ i ∈ items, i.symbol.WellFormed) (filled : ∀ i ∈ items, Filler i.gap)
    (apart : ∀ i ∈ items.tail, i.gap ≠ []) (closed : Filler last) :
    Splits before (items.flatMap Spaced.chars ++ last) (tokensAfter before items) none := by
  induction items generalizing before with
  | nil => exact .finished (closed.isGap [])
  | cons i rest ih =>
    obtain ⟨hformed, hformeds⟩ := List.forall_mem_cons.1 formed
    obtain ⟨hfilled, hfilleds⟩ := List.forall_mem_cons.1 filled
    have hrest := ih (before ++ i.chars) hformeds hfilleds
      fun j hj => apart j (List.mem_of_mem_tail hj)
    -- The next symbol has something in front of it, and behind the last there is only filler.
    have hnext : Apart (rest.flatMap Spaced.chars ++ last) := by
      cases rest with
      | nil =>
        have hlast := closed.apart_append [] fun _ _ hc => by simp at hc
        simpa using hlast
      | cons j more =>
        have hj := (hfilleds j List.mem_cons_self).apart_append
          (j.symbol.spelling ++ (more.flatMap Spaced.chars ++ last))
          fun hnil => absurd hnil (apart j List.mem_cons_self)
        simpa [Spaced.chars] using hj
    have key := Splits.token (hfilled.isGap _) (spelled_of_wellFormed hformed hnext)
      (by simpa [Spaced.chars] using hrest)
    simpa [Spaced.chars, tokensAfter] using key

theorem getElem?_tokensAfter (before : List Char) (front : List Spaced) (i : Spaced)
    (back : List Spaced) : (tokensAfter before (front ++ i :: back))[front.length]? =
      some ⟨lineAfter (before ++ front.flatMap Spaced.chars ++ i.gap), i.symbol⟩ := by
  induction front generalizing before with
  | nil => simp [tokensAfter]
  | cons j front ih => simpa [tokensAfter] using ih (before ++ j.chars)

theorem scan_of_splits {tokens : List Token} (h : Splits [] text tokens none) :
    scan (String.ofList text) = { tokens } := by
  rw [scan, String.toList_ofList]
  exact scanFrom_of_splits h

/-- Scanning undoes writing: well-formed symbols, written with blanks or closed comments between any
two of them and around them, are read back, each on its line. -/
theorem scan_written {items : List Spaced} {last : List Char}
    (formed : ∀ i ∈ items, i.symbol.WellFormed) (filled : ∀ i ∈ items, Filler i.gap)
    (apart : ∀ i ∈ items.tail, i.gap ≠ []) (closed : Filler last) :
    scan (String.ofList (items.flatMap Spaced.chars ++ last)) =
        { tokens := tokensAfter [] items, fault := none } ∧
      ∀ front i back, items = front ++ i :: back →
        ∃ t, (tokensAfter [] items)[front.length]? = some t ∧ t.symbol = i.symbol ∧
          LineOf (front.flatMap Spaced.chars ++ i.gap) t.line := by
  refine ⟨scan_of_splits (splits_written [] formed filled apart closed), ?_⟩
  rintro front i back rfl
  exact ⟨_, getElem?_tokensAfter [] front i back, rfl, lineOf_lineAfter _⟩

/-- Symbols with look-alikes in front of them: a number in a comment, a keyword that goes on, `=`
and `>` apart. -/
def lookalikes : List Spaced :=
  [⟨"/* 0x */".toList, .integer "0X1f"⟩, ⟨"//e9\n".toList, .float "1e-5"⟩,
    ⟨"\t".toList, .string "\\\"*/"⟩, ⟨" ".toList, .punct .assign⟩,
    ⟨"/***/\n".toList, .punct .rangle⟩, ⟨" ".toList, .identifier "defaults"⟩,
    ⟨" ".toList, .keyword .defaultWord⟩, ⟨" ".toList, .ordinal "07"⟩]

theorem scan_written_lookalikes :
    String.ofList (lookalikes.flatMap Spaced.chars ++ "\n".toList) =
      "/* 0x */0X1f//e9\n1e-5\t\"\\\"*/\" =/***/\n> defaults default @07\n" ∧
    scan (String.ofList (lookalikes.flatMap Spaced.chars ++ "\n".toList)) =
      { tokens :=
          [⟨1, .integer "0X1f"⟩, ⟨2, .float "1e-5"⟩, ⟨2, .string "\\\"*/"⟩, ⟨2, .punct .assign⟩,
            ⟨3, .punct .rangle⟩, ⟨3, .identifier "defaults"⟩, ⟨3, .keyword .defaultWord⟩,
            ⟨3, .ordinal "07"⟩] } ∧
    LineOf "/* 0x */0X1f//e9\n".toList 2 := by
  have blank : ∀ c, Text.isBlank c = true → Filler [c] := fun _ h => .blank h .nil
  have float : IsFloat (['1'] ++ ([] ++ 'e' :: (['-'] ++ ['5']))) :=
    .mk (.of_all (by decide) (by decide)) .absent
      (.present (.inl rfl) .minus (.of_all (by decide) (by decide))) (by decide)
  have string : IsStringText ['\\', '"', '*', '/'] :=
    .escape (by decide) (.plain (by decide) (by decide) (by decide)
      (.plain (by decide) (by decide) (by decide) .nil))
  have formed : ∀ i ∈ lookalikes, i.symbol.WellFormed := by
    simp only [lookalikes, List.forall_mem_cons, List.not_mem_nil, false_implies, implies_true,
      and_true]
    refine ⟨@Symbol.WellFormed.integer "0X1f".toList
        (.hexadecimal (.inr rfl) (.of_all (by decide) (by decide))),
      @Symbol.WellFormed.float _ float, @Symbol.WellFormed.string _ string, .punct _, .punct _,
      @Symbol.WellFormed.identifier 'd' "efaults".toList (by decide)
        (List.all_eq_true.1 (by decide)) ?_, .keyword _,
      @Symbol.WellFormed.ordinal "07".toList (.of_all (by decide) (by decide))⟩
    intro k
    cases k <;> decide
  have filled : ∀ i ∈ lookalikes, Filler i.gap := by
    simp only [lookalikes, List.forall_mem_cons, List.not_mem_nil, false_implies, implies_true,
      and_true]
    exact ⟨@Filler.block " 0x ".toList [] (by decide) .nil,
      @Filler.line "e9".toList [] (by decide) .nil, blank _ (by decide), blank _ (by decide),
      @Filler.block "*".toList _ (by decide) (blank '\n' (by decide)), blank _ (by decide),
      blank _ (by decide), blank _ (by decide)⟩
  obtain ⟨hscan, hlines⟩ := scan_written formed filled (by decide) (blank '\n' (by decide))
  obtain ⟨t, ht, -, hline⟩ := hlines (lookalikes.take 1) _ (lookalikes.drop 2) rfl
  obtain rfl := Option.some.inj ht
  exact ⟨rfl, hscan, hline⟩

theorem filler_lineFeeds (n : Nat) : Filler (List.replicate n '\n') := by
  induction n with
  | zero => exact .nil
  | succ n ih => exact .blank (by decide) ih

/-- Two names with `n` line feeds between them. -/
def farApart (n : Nat) : List Spaced :=
  [⟨[], .identifier "x"⟩, ⟨List.replicate n '\n', .identifier "x"⟩]

theorem scan_farApart (n : Nat) :
    scan (String.ofList ((farApart (n + 1)).flatMap Spaced.chars)) =
      { tokens := [⟨1, .identifier "x"⟩, ⟨.ofNat (1 + (n + 1)), .identifier "x"⟩] } := by
  have hname : (Symbol.identifier "x").WellFormed :=
    @Symbol.WellFormed.identifier 'x' [] (by decide) (by simp) (fun k => by cases k <;> decide)
  have hsplits := @splits_written (farApart (n + 1)) [] []
    (by simp [farApart, hname]) (by simp [farApart, Filler.nil, filler_lineFeeds])
    (by simp [farApart]) .nil
  rw [List.append_nil] at hsplits
  rw [scan_of_splits hsplits]
  simp [farApart, tokensAfter, lineAfter, Text.newlines, Spaced.chars, Symbol.spelling]

/-- Between names that are `2 ^ 32 - 1` line feeds apart the count of lines comes round: the second
is found on line 0. -/
theorem written_past_last_line :
    scan (String.ofList ((farApart 4294967295).flatMap Spaced.chars)) =
        { tokens := [⟨1, .identifier "x"⟩, ⟨0, .identifier "x"⟩] } ∧
      (0 : UInt32).toNat ≠ 1 + Text.newlines ('x' :: List.replicate 4294967295 '\n') := by
  constructor
  · rw [scan_farApart 4294967294]
    rfl
  · rw [Text.newlines, List.count_cons_of_ne (by decide), List.count_replicate_self]
    decide

end Token

end WireSchema
