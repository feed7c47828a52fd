import Mathlib.Data.List.TakeWhile
import WireSchema.Token.Scan

/-!
# Lexemes

`Token.Spelled` says how each symbol is written and what may follow it, and `Token.Faulty` where a
text cannot go on and why. `Token.lexeme` reads exactly such lexemes (`Token.spelled_of_lexeme`), and
stops at exactly such places (`Token.faulty_of_lexeme`).
-/

namespace WireSchema.Token

variable {p : Char → Bool} {c : Char} {cs rest after text frac : List Char} {s : Symbol}
  {cause : ScanCause}

/-! ## Runs of characters -/

/-- At least one character, all of one class. -/
def Run (p : Char → Bool) (cs : List Char) : Prop :=
  cs ≠ [] ∧ ∀ c ∈ cs, p c = true

/-- The text is over, or goes on with a character outside the class. -/
def StopsAt (p : Char → Bool) (cs : List Char) : Prop :=
  ∀ c ∈ cs.head?, p c = false

theorem takeWhile_eq_nil_iff : cs.takeWhile p = [] ↔ StopsAt p cs := by
  cases cs with
  | nil => simp [StopsAt]
  | cons c rest => cases h : p c <;> simp [StopsAt, h]

theorem run_takeWhile (h : cs.takeWhile p ≠ []) : Run p (cs.takeWhile p) :=
  ⟨h, fun _ hc => List.mem_takeWhile_imp hc⟩

theorem stopsAt_dropWhile (p : Char → Bool) (cs : List Char) : StopsAt p (cs.dropWhile p) := by
  intro c hc
  have h := List.head?_dropWhile_not p cs
  rw [Option.mem_def.1 hc] at h
  simpa using h

theorem run_digits_of_isDigit (hc : c.isDigit = true) (rest : List Char) :
    Run Char.isDigit ((c :: rest).takeWhile Char.isDigit) :=
  run_takeWhile (by simp [hc])

/-! ## What lexemes look like -/

/-- The fraction of a number may be missing. -/
inductive IsFraction : List Char → Prop where
  | absent : IsFraction []
  | present {ds : List Char} (digits : Run Char.isDigit ds) : IsFraction ('.' :: ds)

inductive IsSign : List Char → Prop where
  | absent : IsSign []
  | plus : IsSign ['+']
  | minus : IsSign ['-']

/-- The exponent of a number may be missing. -/
inductive IsExponent : List Char → Prop where
  | absent : IsExponent []
  | present {e : Char} {sign ds : List Char} (letter : e = 'e' ∨ e = 'E') (signed : IsSign sign)
    (digits : Run Char.isDigit ds) : IsExponent (e :: (sign ++ ds))

/-- Decimal digits, or hexadecimal digits after `0x` or `0X`. -/
inductive IsInteger : List Char → Prop where
  | decimal {ds : List Char} (digits : Run Char.isDigit ds) : IsInteger ds
  | hexadecimal {x : Char} {ds : List Char} (letter : x = 'x' ∨ x = 'X')
    (digits : Run Text.isHexDigit ds) : IsInteger ('0' :: x :: ds)

/-- Decimal digits with a fraction, an exponent or both. -/
inductive IsFloat : List Char → Prop where
  | mk {whole frac exp : List Char} (digits : Run Char.isDigit whole) (fraction : IsFraction frac)
    (exponent : IsExponent exp) (either : frac ++ exp ≠ []) : IsFloat (whole ++ (frac ++ exp))

/-- The text of a string between its quotes: no line feed, and quotes and backslashes only in
escapes. -/
inductive IsStringText : List Char → Prop where
  | nil : IsStringText []
  | plain {c : Char} {cs : List Char} (quote : c ≠ '"') (newline : c ≠ '\n') (slash : c ≠ '\\')
    (rest : IsStringText cs) : IsStringText (c :: cs)
  | escape {c : Char} {cs : List Char} (code : isEscapeCode c = true) (rest : IsStringText cs) :
    IsStringText ('\\' :: c :: cs)

/-- `Spelled symbol chars after`: the symbol is written as `chars` where `after` follows. Words and
numbers end where no word character follows, and each lexeme is as long as it can be. -/
inductive Spelled : Symbol → List Char → List Char → Prop where
  | keyword {k : Keyword} {after : List Char} (ends : StopsAt isWordChar after) :
    Spelled (.keyword k) k.text.toList after
  | identifier {c : Char} {cs after : List Char} (start : isWordStart c = true)
    (word : ∀ d ∈ cs, isWordChar d = true) (other : ∀ k : Keyword, k.text ≠ String.ofList (c :: cs))
    (ends : StopsAt isWordChar after) :
    Spelled (.identifier (String.ofList (c :: cs))) (c :: cs) after
  | integer {cs after : List Char} (number : IsInteger cs) (ends : StopsAt isWordChar after)
    (whole : Run Char.isDigit cs → ∀ d rest, after = '.' :: d :: rest → d.isDigit = false) :
    Spelled (.integer (String.ofList cs)) cs after
  | float {cs after : List Char} (number : IsFloat cs) (ends : StopsAt isWordChar after) :
    Spelled (.float (String.ofList cs)) cs after
  | string {cs after : List Char} (text : IsStringText cs) :
    Spelled (.string (String.ofList cs)) ('"' :: (cs ++ ['"'])) after
  | ordinal {ds after : List Char} (digits : Run Char.isDigit ds)
    (ends : StopsAt Char.isDigit after) : Spelled (.ordinal (String.ofList ds)) ('@' :: ds) after
  | punct {mark : Punct} {after : List Char} (longest : mark = .assign → after.head? ≠ some '>') :
    Spelled (.punct mark) mark.text.toList after

/-! ## Where a text cannot go on -/

/-- Neither a lexeme nor a gap starts with the character `c` where `rest` follows. -/
structure StartsNothing (c : Char) (rest : List Char) : Prop where
  blank : Text.isBlank c = false
  comment : c = '/' → StopsAt (fun d => d == '/' || d == '*') rest
  digit : c.isDigit = false
  quote : c ≠ '"'
  ordinal : c ≠ '@'
  word : isWordStart c = false
  mark : ∀ mark : Punct, mark.text.toList.head? ≠ some c

/-- Why a string cannot go on at a place between its quotes. -/
inductive StringStops : ScanCause → List Char → Prop where
  | over {rest : List Char} (line : ∀ c ∈ rest.head?, c = '\n') :
    StringStops .unterminatedString rest
  | escape {c : Char} {rest : List Char} (code : isEscapeCode c = false) :
    StringStops (.badEscape c) ('\\' :: c :: rest)
  | missing : StringStops .missingEscape ['\\']

/-- `Faulty cause rest`: what starts at `rest` is not a lexeme, for the given reason. A bad number is
blamed with all its characters. -/
inductive Faulty : ScanCause → List Char → Prop where
  | illegal {c : Char} {rest : List Char} (start : StartsNothing c rest) :
    Faulty (.illegal (some c)) (c :: rest)
  | string {cause : ScanCause} {body rest : List Char} (text : IsStringText body)
    (stops : StringStops cause rest) : Faulty cause ('"' :: (body ++ rest))
  | comment {body : List Char} (ends : ¬ ['*', '/'] <:+: body) :
    Faulty .unterminatedComment ('/' :: '*' :: body)
  | hexDigits {x : Char} {rest : List Char} (letter : x = 'x' ∨ x = 'X')
    (ends : StopsAt Text.isHexDigit rest) :
    Faulty (.badNumber (String.ofList ['0', x])) ('0' :: x :: rest)
  | exponentDigits {whole frac sign rest : List Char} {e : Char} (digits : Run Char.isDigit whole)
    (fraction : IsFraction frac) (letter : e = 'e' ∨ e = 'E') (signed : IsSign sign)
    (ends : StopsAt Char.isDigit rest) :
    Faulty (.badNumber (String.ofList (whole ++ frac ++ e :: sign)))
      (whole ++ frac ++ e :: sign ++ rest)
  | runsOn {number more rest : List Char} (start : IsInteger number ∨ IsFloat number)
    (word : Run isWordChar more) (ends : StopsAt isWordChar rest) :
    Faulty (.badNumber (String.ofList (number ++ more))) (number ++ more ++ rest)
  | ordinalDigits {rest : List Char} (ends : StopsAt Char.isDigit rest) :
    Faulty .missingOrdinalDigits ('@' :: rest)

/-! ## Words -/

theorem isWordChar_of_isWordStart (h : isWordStart c = true) : isWordChar c = true := by
  simp only [isWordStart, Bool.or_eq_true] at h
  simp only [isWordChar, Char.isAlphanum, Bool.or_eq_true]
  exact h.imp .inl id

theorem Keyword.text_of_ofText? {word : String} {k : Keyword} (h : Keyword.ofText? word = some k) :
    k.text = word := by
  simpa using List.find?_some h

theorem Keyword.text_ne_of_ofText? {word : String} (h : Keyword.ofText? word = none) (k : Keyword) :
    k.text ≠ word := by
  have hk : k ∈ Keyword.all := by cases k <;> decide
  simpa using List.find?_eq_none.1 h k hk

theorem spelled_of_word (hc : isWordStart c = true) (rest : List Char) :
    Spelled (word (c :: rest)).1 ((c :: rest).takeWhile isWordChar) (word (c :: rest)).2 := by
  have hrun : (c :: rest).takeWhile isWordChar = c :: rest.takeWhile isWordChar :=
    List.takeWhile_cons_of_pos (isWordChar_of_isWordStart hc)
  have hends : StopsAt isWordChar (word (c :: rest)).2 := stopsAt_dropWhile isWordChar _
  unfold word at hends ⊢
  dsimp only
  split
  · next k hk =>
    have htext := Keyword.text_of_ofText? hk
    rw [← String.toList_ofList (l := (c :: rest).takeWhile isWordChar), ← htext]
    exact .keyword hends
  · next hk =>
    rw [hrun] at hk ⊢
    exact .identifier hc (fun _ hd => List.mem_takeWhile_imp hd)
      (Keyword.text_ne_of_ofText? hk) hends

/-! ## Numbers -/

theorem finishNumber_eq_ok {f : String → Symbol} (h : finishNumber f text rest = .ok (s, after)) :
    s = f (String.ofList text) ∧ after = rest ∧ StopsAt isWordChar rest := by
  unfold finishNumber at h
  split at h
  · next hnil =>
    simp only [Except.ok.injEq, Prod.mk.injEq] at h
    exact ⟨h.1.symm, h.2.symm, takeWhile_eq_nil_iff.1 hnil⟩
  · simp at h

theorem faulty_of_finishNumber {f : String → Symbol} (hn : IsInteger text ∨ IsFloat text)
    (h : finishNumber f text rest = .error cause) : Faulty cause (text ++ rest) := by
  unfold finishNumber at h
  split at h
  · simp at h
  · next hne =>
    simp only [Except.error.injEq] at h
    subst h
    have key := Faulty.runsOn hn (run_takeWhile hne) (stopsAt_dropWhile isWordChar rest)
    rwa [List.append_assoc, List.takeWhile_append_dropWhile] at key

/-- A fraction is read whenever one starts. -/
theorem fraction_spec (cs : List Char) :
    cs = (fraction cs).1 ++ (fraction cs).2 ∧ IsFraction (fraction cs).1 ∧
      ((fraction cs).1 = [] → ∀ d rest, (fraction cs).2 = '.' :: d :: rest → d.isDigit = false) := by
  unfold fraction
  split
  · next d rest =>
    split
    · next hd =>
      refine ⟨?_, .present (run_digits_of_isDigit hd rest), by simp⟩
      rw [List.cons_append, List.takeWhile_append_dropWhile]
    · next hd =>
      refine ⟨rfl, .absent, ?_⟩
      rintro - d' rest' ⟨⟩
      simpa using hd
  · next hne =>
    refine ⟨rfl, .absent, ?_⟩
    rintro - d rest rfl
    exact absurd rfl (hne d rest)

theorem exponentSign_spec (cs : List Char) :
    cs = (exponentSign cs).1 ++ (exponentSign cs).2 ∧ IsSign (exponentSign cs).1 := by
  unfold exponentSign
  split
  · exact ⟨rfl, .plus⟩
  · exact ⟨rfl, .minus⟩
  · exact ⟨rfl, .absent⟩

/-- The number that a whole part, a fraction and an exponent make. -/
theorem spelled_parts {exp : List Char} (hw : Run Char.isDigit text) (hf : IsFraction frac)
    (he : IsExponent exp) (hends : StopsAt isWordChar after)
    (hwhole : frac ++ exp = [] → ∀ d rest, after = '.' :: d :: rest → d.isDigit = false) :
    Spelled ((if (frac ++ exp).isEmpty then Symbol.integer else Symbol.float)
      (String.ofList (text ++ (frac ++ exp)))) (text ++ (frac ++ exp)) after := by
  split
  · next hempty =>
    have hnil := List.isEmpty_iff.1 hempty
    rw [hnil, List.append_nil]
    exact .integer (.decimal hw) hends fun _ => hwhole hnil
  · next hne => exact .float (.mk hw hf he (by simpa using hne)) hends

theorem isInteger_or_isFloat_parts {exp : List Char} (hw : Run Char.isDigit text)
    (hf : IsFraction frac) (he : IsExponent exp) :
    IsInteger (text ++ (frac ++ exp)) ∨ IsFloat (text ++ (frac ++ exp)) := by
  by_cases h : frac ++ exp = []
  · rw [h, List.append_nil]
    exact .inl (.decimal hw)
  · exact .inr (.mk hw hf he h)

/-- What can follow the whole part and the fraction of a number: an exponent or none, or an exponent
without digits. -/
theorem decimalTail_cases (text frac cs : List Char) :
    (∃ exp rest, cs = exp ++ rest ∧ IsExponent exp ∧
      decimalTail text frac cs =
        finishNumber (if (frac ++ exp).isEmpty then .integer else .float)
          (text ++ (frac ++ exp)) rest) ∨
    ∃ e sign rest, cs = e :: (sign ++ rest) ∧ (e = 'e' ∨ e = 'E') ∧ IsSign sign ∧
      StopsAt Char.isDigit rest ∧
      decimalTail text frac cs = .error (.badNumber (String.ofList (text ++ frac ++ e :: sign))) := by
  cases cs with
  | nil => exact .inl ⟨[], [], rfl, .absent, by simp [decimalTail]⟩
  | cons e cs =>
    by_cases hletter : e = 'e' ∨ e = 'E'
    · have hcond : (decide (e = 'e') || decide (e = 'E')) = true := by simpa using hletter
      obtain ⟨hsplit, hsign⟩ := exponentSign_spec cs
      by_cases hds : (exponentSign cs).2.takeWhile Char.isDigit = []
      · refine .inr ⟨e, _, _, by rw [← hsplit], hletter, hsign, takeWhile_eq_nil_iff.1 hds, ?_⟩
        simp only [decimalTail, hcond, if_true, hds]
      · refine .inl ⟨e :: ((exponentSign cs).1 ++ (exponentSign cs).2.takeWhile Char.isDigit),
          (exponentSign cs).2.dropWhile Char.isDigit, ?_, .present hletter hsign (run_takeWhile hds),
          ?_⟩
        · rw [List.cons_append, List.append_assoc, List.takeWhile_append_dropWhile, ← hsplit]
        · simp only [decimalTail, hcond, if_true]
          simp
    · have hcond : (decide (e = 'e') || decide (e = 'E')) = false := by simpa using hletter
      refine .inl ⟨[], e :: cs, rfl, .absent, ?_⟩
      simp [decimalTail, hcond]

theorem spelled_of_decimalTail (hw : Run Char.isDigit text) (hf : IsFraction frac)
    (hwhole : frac = [] → ∀ d rest, cs = '.' :: d :: rest → d.isDigit = false)
    (h : decimalTail text frac cs = .ok (s, after)) :
    ∃ chars, text ++ (frac ++ cs) = chars ++ after ∧ Spelled s chars after := by
  obtain ⟨exp, rest, rfl, he, heq⟩ | ⟨e, sign, rest, -, -, -, -, heq⟩ :=
    decimalTail_cases text frac cs
  · rw [heq] at h
    obtain ⟨rfl, rfl, hends⟩ := finishNumber_eq_ok h
    refine ⟨_, by simp, spelled_parts hw hf he hends fun hnil => ?_⟩
    obtain ⟨hfrac, rfl⟩ := List.append_eq_nil_iff.1 hnil
    exact hwhole hfrac
  · rw [heq] at h
    cases h

theorem faulty_of_decimalTail (hw : Run Char.isDigit text) (hf : IsFraction frac)
    (h : decimalTail text frac cs = .error cause) : Faulty cause (text ++ (frac ++ cs)) := by
  obtain ⟨exp, rest, rfl, he, heq⟩ | ⟨e, sign, rest, rfl, hletter, hsign, hends, heq⟩ :=
    decimalTail_cases text frac cs
  · rw [heq] at h
    have key := faulty_of_finishNumber (isInteger_or_isFloat_parts hw hf he) h
    simpa only [List.append_assoc] using key
  · rw [heq, Except.error.injEq] at h
    subst h
    have key := Faulty.exponentDigits hw hf hletter hsign hends
    simpa only [List.append_assoc, List.cons_append] using key

/-- A decimal number splits into its whole part, its fraction and what follows. -/
theorem decimal_split (cs : List Char) :
    cs.takeWhile Char.isDigit ++ ((fraction (cs.dropWhile Char.isDigit)).1 ++
      (fraction (cs.dropWhile Char.isDigit)).2) = cs := by
  rw [← (fraction_spec (cs.dropWhile Char.isDigit)).1, List.takeWhile_append_dropWhile]

theorem spelled_of_hexadecimal {x : Char} (hx : x = 'x' ∨ x = 'X')
    (h : hexadecimal ['0', x] rest = .ok (s, after)) :
    ∃ chars, '0' :: x :: rest = chars ++ after ∧ Spelled s chars after := by
  unfold hexadecimal at h
  split at h
  · simp at h
  · next hne =>
    obtain ⟨rfl, rfl, hends⟩ := finishNumber_eq_ok h
    have hdigits : ¬ Run Char.isDigit ('0' :: x :: rest.takeWhile Text.isHexDigit) := by
      rintro ⟨-, hall⟩
      have hd := hall x (by simp)
      rcases hx with rfl | rfl <;> exact absurd hd (by decide)
    refine ⟨'0' :: x :: rest.takeWhile Text.isHexDigit, by simp, ?_⟩
    exact .integer (.hexadecimal hx (run_takeWhile hne)) hends fun hrun => absurd hrun hdigits

theorem faulty_of_hexadecimal {x : Char} (hx : x = 'x' ∨ x = 'X')
    (h : hexadecimal ['0', x] rest = .error cause) : Faulty cause ('0' :: x :: rest) := by
  unfold hexadecimal at h
  split at h
  · next hnil =>
    rw [Except.error.injEq] at h
    subst h
    exact .hexDigits hx (takeWhile_eq_nil_iff.1 hnil)
  · next hne =>
    have key := faulty_of_finishNumber (.inl (.hexadecimal hx (run_takeWhile hne))) h
    simpa using key

theorem spelled_of_number (hc : c.isDigit = true) (h : number (c :: rest) = .ok (s, after)) :
    ∃ chars, c :: rest = chars ++ after ∧ Spelled s chars after := by
  unfold number at h
  split at h
  · next heq => rw [heq]; exact spelled_of_hexadecimal (.inl rfl) h
  · next heq => rw [heq]; exact spelled_of_hexadecimal (.inr rfl) h
  · obtain ⟨-, hfrac, hwhole⟩ := fraction_spec ((c :: rest).dropWhile Char.isDigit)
    have key := spelled_of_decimalTail (run_digits_of_isDigit hc rest) hfrac hwhole h
    rwa [decimal_split] at key

theorem faulty_of_number (hc : c.isDigit = true) (h : number (c :: rest) = .error cause) :
    Faulty cause (c :: rest) := by
  unfold number at h
  split at h
  · next heq => rw [heq]; exact faulty_of_hexadecimal (.inl rfl) h
  · next heq => rw [heq]; exact faulty_of_hexadecimal (.inr rfl) h
  · have hfrac := (fraction_spec ((c :: rest).dropWhile Char.isDigit)).2.1
    have key := faulty_of_decimalTail (run_digits_of_isDigit hc rest) hfrac h
    rwa [decimal_split] at key

/-! ## Strings, ordinals and marks -/

theorem text_of_stringBody {body : List Char} (h : stringBody cs = .ok (body, after)) :
    cs = body ++ '"' :: after ∧ IsStringText body := by
  fun_induction stringBody cs generalizing body after with
  | case1 => simp at h
  | case2 rest =>
    simp only [Except.ok.injEq, Prod.mk.injEq] at h
    obtain ⟨rfl, rfl⟩ := h
    exact ⟨rfl, .nil⟩
  | case3 => simp at h
  | case4 => simp at h
  | case5 c rest hc b a hb ih =>
    simp only [Except.ok.injEq, Prod.mk.injEq] at h
    obtain ⟨rfl, rfl⟩ := h
    obtain ⟨rfl, htext⟩ := ih hb
    exact ⟨rfl, .escape hc htext⟩
  | case6 => simp at h
  | case7 => simp at h
  | case8 c rest hquote hline hlast hslash b a hb ih =>
    simp only [Except.ok.injEq, Prod.mk.injEq] at h
    obtain ⟨rfl, rfl⟩ := h
    obtain ⟨rfl, htext⟩ := ih hb
    refine ⟨rfl, .plain hquote hline (fun hc => ?_) htext⟩
    -- After a backslash the text goes on, since the closing quote is still to come.
    cases b with
    | nil => exact hslash _ _ hc rfl
    | cons d b => exact hslash _ _ hc rfl
  | case9 => simp at h

theorem stops_of_stringBody (h : stringBody cs = .error cause) :
    ∃ body rest, cs = body ++ rest ∧ IsStringText body ∧ StringStops cause rest := by
  fun_induction stringBody cs with
  | case1 =>
    cases h
    exact ⟨[], [], rfl, .nil, .over (by simp)⟩
  | case2 => simp at h
  | case3 rest =>
    cases h
    exact ⟨[], _, rfl, .nil, .over (by simp)⟩
  | case4 =>
    cases h
    exact ⟨[], _, rfl, .nil, .missing⟩
  | case5 => simp at h
  | case6 c rest hc e he ih =>
    obtain ⟨body, tail, rfl, htext, hstops⟩ := ih (he.trans h)
    exact ⟨'\\' :: c :: body, tail, rfl, .escape hc htext, hstops⟩
  | case7 c rest hc =>
    cases h
    exact ⟨[], _, rfl, .nil, .escape (by simpa using hc)⟩
  | case8 => simp at h
  | case9 c rest hquote hline hlast hslash e he ih =>
    have hc : c ≠ '\\' := by
      intro hc
      cases rest with
      | nil => exact hlast hc rfl
      | cons d rest => exact hslash _ _ hc rfl
    obtain ⟨body, tail, rfl, htext, hstops⟩ := ih (he.trans h)
    exact ⟨c :: body, tail, rfl, .plain hquote hline hc htext, hstops⟩

theorem spelled_of_ordinal (h : ordinal rest = .ok (s, after)) :
    ∃ chars, '@' :: rest = chars ++ after ∧ Spelled s chars after := by
  unfold ordinal at h
  split at h
  · simp at h
  · next hne =>
    simp only [Except.ok.injEq, Prod.mk.injEq] at h
    obtain ⟨rfl, rfl⟩ := h
    refine ⟨'@' :: rest.takeWhile Char.isDigit, by simp, ?_⟩
    exact .ordinal (run_takeWhile hne) (stopsAt_dropWhile _ _)

theorem faulty_of_ordinal (h : ordinal rest = .error cause) : Faulty cause ('@' :: rest) := by
  unfold ordinal at h
  split at h
  · next hnil =>
    cases h
    exact .ordinalDigits (takeWhile_eq_nil_iff.1 hnil)
  · simp at h

/-- A mark that a character stands for is written as that character. -/
theorem text_of_singleMark? {mark : Punct} (h : singleMark? c = some mark) :
    mark.text.toList = [c] := by
  unfold singleMark? at h
  split at h <;> first | (cases h; rfl) | cases h

/-- A character that is no mark starts none. -/
theorem head?_ne_of_singleMark? (h : singleMark? c = none) (mark : Punct) :
    mark.text.toList.head? ≠ some c := by
  intro hc
  cases mark <;> (obtain rfl := Option.some.inj hc; exact absurd h (by decide))

theorem spelled_of_mark (h : mark c rest = .ok (s, after)) :
    ∃ chars, c :: rest = chars ++ after ∧ Spelled s chars after := by
  unfold mark at h
  split at h
  · simp only [Except.ok.injEq, Prod.mk.injEq] at h
    obtain ⟨rfl, rfl⟩ := h
    exact ⟨['=', '>'], rfl, .punct (by simp)⟩
  · next hne =>
    split at h
    · next m hm =>
      simp only [Except.ok.injEq, Prod.mk.injEq] at h
      obtain ⟨rfl, rfl⟩ := h
      have htext := text_of_singleMark? hm
      refine ⟨[c], rfl, htext ▸ .punct fun hassign hgt => ?_⟩
      subst hassign
      obtain rfl : '=' = c := (List.cons.inj htext).1
      obtain ⟨tail, rfl⟩ := List.head?_eq_some_iff.1 hgt
      exact hne _ rfl rfl
    · simp at h

theorem cause_of_mark (h : mark c rest = .error cause) :
    cause = .illegal (some c) ∧ ∀ mark : Punct, mark.text.toList.head? ≠ some c := by
  unfold mark at h
  split at h
  · simp at h
  · split at h
    · simp at h
    · next hm =>
      cases h
      exact ⟨rfl, head?_ne_of_singleMark? hm⟩

/-! ## Lexemes -/

theorem spelled_of_lexeme (h : lexeme c rest = .ok (s, after)) :
    ∃ chars, c :: rest = chars ++ after ∧ Spelled s chars after := by
  unfold lexeme at h
  split at h
  · next hc => exact spelled_of_number hc h
  split at h
  · next hc =>
    subst hc
    split at h
    · next body tail hbody =>
      simp only [Except.ok.injEq, Prod.mk.injEq] at h
      obtain ⟨rfl, rfl⟩ := h
      obtain ⟨rfl, htext⟩ := text_of_stringBody hbody
      exact ⟨'"' :: (body ++ ['"']), by simp, .string htext⟩
    · simp at h
  split at h
  · next hc =>
    subst hc
    exact spelled_of_ordinal h
  split at h
  · next hc =>
    simp only [Except.ok.injEq] at h
    have key := spelled_of_word hc rest
    rw [h] at key
    refine ⟨_, ?_, key⟩
    have hafter : (c :: rest).dropWhile isWordChar = after := congrArg Prod.snd h
    rw [← hafter, List.takeWhile_append_dropWhile]
  · exact spelled_of_mark h

theorem faulty_of_lexeme (hblank : Text.isBlank c = false)
    (hcomment : c = '/' → StopsAt (fun d => d == '/' || d == '*') rest)
    (h : lexeme c rest = .error cause) : Faulty cause (c :: rest) := by
  unfold lexeme at h
  split at h
  · next hc => exact faulty_of_number hc h
  next hdigit =>
  split at h
  · next hc =>
    subst hc
    split at h
    · simp at h
    · next hbody =>
      cases h
      obtain ⟨body, tail, rfl, htext, hstops⟩ := stops_of_stringBody hbody
      exact .string htext hstops
  next hquote =>
  split at h
  · next hc =>
    subst hc
    exact faulty_of_ordinal h
  next hordinal =>
  split at h
  · simp at h
  · next hword =>
    obtain ⟨rfl, hmark⟩ := cause_of_mark h
    exact .illegal ⟨hblank, hcomment, by simpa using hdigit, hquote, hordinal,
      by simpa using hword, hmark⟩

/-! ## Lexemes lie on one line -/

theorem Run.not_mem (h : Run p cs) (hc : p c = false) : c ∉ cs := by
  intro hmem
  rw [h.2 c hmem] at hc
  cases hc

theorem IsFraction.newline_not_mem (h : IsFraction cs) : '\n' ∉ cs := by
  cases h with
  | absent => simp
  | present digits => simpa using digits.not_mem (by decide)

theorem IsExponent.newline_not_mem (h : IsExponent cs) : '\n' ∉ cs := by
  cases h with
  | absent => simp
  | present letter signed digits =>
    have hdigits := digits.not_mem (c := '\n') (by decide)
    rcases letter with rfl | rfl <;> cases signed <;> simpa using hdigits

theorem IsStringText.newline_not_mem (h : IsStringText cs) : '\n' ∉ cs := by
  induction h with
  | nil => simp
  | plain _ newline _ _ ih => simpa using ⟨Ne.symm newline, ih⟩
  | @escape c _ code _ ih =>
    have hc : '\n' ≠ c := by
      rintro rfl
      exact absurd code (by decide)
    simpa using ⟨hc, ih⟩

theorem Spelled.newline_not_mem (h : Spelled s cs after) : '\n' ∉ cs := by
  cases h with
  | @keyword k => cases k <;> decide
  | @identifier c cs _ start word =>
    intro hmem
    rcases List.mem_cons.1 hmem with rfl | hmem
    · exact absurd start (by decide)
    · exact absurd (word _ hmem) (by decide)
  | integer number =>
    cases number with
    | decimal digits => exact digits.not_mem (by decide)
    | hexadecimal letter digits =>
      have hdigits := digits.not_mem (c := '\n') (by decide)
      rcases letter with rfl | rfl <;> simpa using hdigits
  | float number =>
    cases number with
    | mk digits fraction exponent =>
      simpa using ⟨digits.not_mem (by decide), fraction.newline_not_mem, exponent.newline_not_mem⟩
  | string text => simpa using text.newline_not_mem
  | ordinal digits => simpa using digits.not_mem (by decide)
  | @punct mark => cases mark <;> decide

/-! ## Faults start at a character that is no blank -/

theorem isBlank_of_isDigit (h : c.isDigit = true) : Text.isBlank c = false := by
  have hrange : 48 ≤ c.toNat ∧ c.toNat ≤ 57 := by
    simpa [Char.isDigit, UInt32.le_iff_toNat_le] using h
  simp only [Text.isBlank, Text.blankRanges, List.any_cons, List.any_nil, Bool.or_false,
    Bool.or_eq_false_iff, Bool.and_eq_false_iff, decide_eq_false_iff_not]
  omega

theorem Run.head_isDigit (h : Run Char.isDigit cs) (rest : List Char) :
    ∃ d more, cs ++ rest = d :: more ∧ d.isDigit = true := by
  obtain ⟨hne, hall⟩ := h
  cases cs with
  | nil => exact absurd rfl hne
  | cons d ds => exact ⟨d, ds ++ rest, rfl, hall d List.mem_cons_self⟩

theorem IsInteger.head_isDigit (h : IsInteger cs) (rest : List Char) :
    ∃ d more, cs ++ rest = d :: more ∧ d.isDigit = true := by
  cases h with
  | decimal digits => exact digits.head_isDigit rest
  | hexadecimal => exact ⟨'0', _, rfl, by decide⟩

theorem IsFloat.head_isDigit (h : IsFloat cs) (rest : List Char) :
    ∃ d more, cs ++ rest = d :: more ∧ d.isDigit = true := by
  cases h with
  | mk digits =>
    rw [List.append_assoc]
    exact digits.head_isDigit _

theorem Faulty.head_not_blank (h : Faulty cause cs) :
    ∃ c more, cs = c :: more ∧ Text.isBlank c = false := by
  cases h with
  | illegal start => exact ⟨_, _, rfl, start.blank⟩
  | string => exact ⟨_, _, rfl, by decide⟩
  | comment => exact ⟨_, _, rfl, by decide⟩
  | hexDigits => exact ⟨_, _, rfl, by decide⟩
  | exponentDigits digits =>
    obtain ⟨d, more, heq, hd⟩ := digits.head_isDigit _
    simp only [List.append_assoc]
    exact ⟨d, more, heq, isBlank_of_isDigit hd⟩
  | runsOn start =>
    rw [List.append_assoc]
    obtain ⟨d, more, heq, hd⟩ :=
      start.elim (fun h => h.head_isDigit _) (fun h => h.head_isDigit _)
    exact ⟨d, more, heq, isBlank_of_isDigit hd⟩
  | ordinalDigits => exact ⟨_, _, rfl, by decide⟩

end WireSchema.Token
