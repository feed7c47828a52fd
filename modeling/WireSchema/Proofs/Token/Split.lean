import WireSchema.Proofs.Token.Lexeme

/-!
# Texts split into gaps and lexemes

`Token.Gap` describes what stands between tokens: blanks and comments. The scanner splits a text into
gaps and the lexemes of its tokens, with nothing left over and nothing added, up to the end of the
text or to the first fault (`Token.scan_splits`). Lines are counted in 32 bits, so their numbers are
right as long as there are fewer than `2 ^ 32 - 1` line feeds (`Token.LineOf`).
-/

namespace WireSchema.Token

variable {before after body cs text : List Char} {tokens : List Token}
  {fault : Option ScanFault} {c : Char}

/-! ## Gaps -/

/-- `Gap after gap`: blanks and comments, where `after` follows. A line comment runs up to the end of
its line, a block comment to the first `*/`. -/
inductive Gap (after : List Char) : List Char → Prop where
  | nil : Gap after []
  | blank {c : Char} {gap : List Char} (blank : Text.isBlank c = true) (rest : Gap after gap) :
    Gap after (c :: gap)
  | line {body gap : List Char} (inside : '\n' ∉ body) (ends : ∀ c ∈ (gap ++ after).head?, c = '\n')
    (rest : Gap after gap) : Gap after ('/' :: '/' :: (body ++ gap))
  | block {body gap : List Char} (first : ¬ ['*', '/'] <:+: body ++ ['*']) (rest : Gap after gap) :
    Gap after ('/' :: '*' :: (body ++ '*' :: '/' :: gap))

theorem closed_of_blockComment? (h : blockComment? cs = some (body, after)) :
    cs = body ++ '*' :: '/' :: after ∧ ¬ ['*', '/'] <:+: body ++ ['*'] := by
  fun_induction blockComment? cs generalizing body after with
  | case1 => simp at h
  | case2 rest =>
    cases h
    exact ⟨rfl, by decide⟩
  | case3 c rest hne ih =>
    obtain ⟨⟨b, a⟩, hb, heq⟩ := Option.map_eq_some_iff.1 h
    simp only [Prod.mk.injEq] at heq
    obtain ⟨rfl, rfl⟩ := heq
    obtain ⟨rfl, hfirst⟩ := ih hb
    refine ⟨rfl, fun hinfix => ?_⟩
    rw [List.cons_append, List.infix_cons_iff] at hinfix
    rcases hinfix with hprefix | hinfix
    · obtain ⟨rfl, hslash⟩ := List.cons_prefix_cons.1 hprefix
      cases b with
      | nil => simp at hslash
      | cons d b =>
        obtain ⟨rfl, -⟩ := List.cons_prefix_cons.1 hslash
        exact hne _ rfl rfl
    · exact hfirst hinfix

theorem open_of_blockComment? (h : blockComment? cs = none) : ¬ ['*', '/'] <:+: cs := by
  fun_induction blockComment? cs with
  | case1 => simp
  | case2 => simp at h
  | case3 c rest hne ih =>
    intro hinfix
    rcases List.infix_cons_iff.1 hinfix with hprefix | hinfix
    · obtain ⟨rfl, hslash⟩ := List.cons_prefix_cons.1 hprefix
      cases rest with
      | nil => simp at hslash
      | cons d rest =>
        obtain ⟨rfl, -⟩ := List.cons_prefix_cons.1 hslash
        exact hne _ rfl rfl
    · exact ih (Option.map_eq_none_iff.1 h) hinfix

/-! ## Splits -/

/-- The line of a character that stands after the given ones. Lines are counted in 32 bits. -/
def lineAfter (before : List Char) : UInt32 :=
  .ofNat (1 + Text.newlines before)

/-- `Splits before text tokens fault`: after the characters `before`, the text splits into gaps and
the lexemes of the tokens, up to its end or to the fault. -/
inductive Splits : List Char → List Char → List Token → Option ScanFault → Prop where
  | finished {before gap : List Char} (gaps : Gap [] gap) : Splits before gap [] none
  | faulty {before gap rest : List Char} {cause : ScanCause} (gaps : Gap rest gap)
    (faulty : Faulty cause rest) :
    Splits before (gap ++ rest) [] (some ⟨lineAfter (before ++ gap), cause⟩)
  | token {before gap lexeme after : List Char} {symbol : Symbol} {tokens : List Token}
    {fault : Option ScanFault} (gaps : Gap (lexeme ++ after) gap)
    (spelled : Spelled symbol lexeme after)
    (rest : Splits (before ++ gap ++ lexeme) after tokens fault) :
    Splits before (gap ++ (lexeme ++ after)) (⟨lineAfter (before ++ gap), symbol⟩ :: tokens) fault

/-- What may stand in front of every gap may stand in front of a text that splits. -/
theorem Splits.prepend {piece : List Char}
    (extend : ∀ gap after, text = gap ++ after → Gap after gap → Gap after (piece ++ gap))
    (h : Splits (before ++ piece) text tokens fault) :
    Splits before (piece ++ text) tokens fault := by
  cases h with
  | finished gaps => exact .finished (extend _ [] (List.append_nil _).symm gaps)
  | faulty gaps faulty =>
    have key := @Splits.faulty before _ _ _ (extend _ _ rfl gaps) faulty
    simpa only [List.append_assoc] using key
  | token gaps spelled rest =>
    have key := @Splits.token before _ _ _ _ _ _ (extend _ _ rfl gaps) spelled
      (by simpa only [List.append_assoc] using rest)
    simpa only [List.append_assoc] using key

theorem Splits.blank (hc : Text.isBlank c = true) (h : Splits (before ++ [c]) text tokens fault) :
    Splits before (c :: text) tokens fault :=
  h.prepend fun _ _ _ rest => rest.blank hc

theorem Splits.lineComment (inside : '\n' ∉ body) (ends : ∀ c ∈ text.head?, c = '\n')
    (h : Splits (before ++ '/' :: '/' :: body) text tokens fault) :
    Splits before ('/' :: '/' :: (body ++ text)) tokens fault := by
  have key := h.prepend fun _ after heq rest =>
    @Gap.line after _ _ inside (heq ▸ ends) rest
  exact key

theorem Splits.blockComment (first : ¬ ['*', '/'] <:+: body ++ ['*'])
    (h : Splits (before ++ '/' :: '*' :: (body ++ ['*', '/'])) text tokens fault) :
    Splits before ('/' :: '*' :: (body ++ '*' :: '/' :: text)) tokens fault := by
  have key := h.prepend (fun gap after _ rest => by
    have hgap := rest.block first
    simpa using hgap)
  simpa using key

/-- Every token of a text is spelled there. -/
theorem Splits.exists_spelled (h : Splits before text tokens fault) {t : Token} (ht : t ∈ tokens) :
    ∃ chars after, Spelled t.symbol chars after := by
  induction h with
  | finished | faulty => simp at ht
  | token gaps spelled rest ih =>
    rcases List.mem_cons.1 ht with rfl | ht
    · exact ⟨_, _, spelled⟩
    · exact ih ht

@[simp]
theorem lineAfter_append (before cs : List Char) :
    lineAfter (before ++ cs) = lineAfter before + .ofNat (Text.newlines cs) := by
  rw [lineAfter, lineAfter, Text.newlines, List.count_append, ← Nat.add_assoc, UInt32.ofNat_add]
  rfl

/-- Characters without a line feed stay on their line. -/
theorem lineAfter_append_of_not_mem (before : List Char) (h : '\n' ∉ cs) :
    lineAfter (before ++ cs) = lineAfter before := by
  rw [lineAfter_append, Text.newlines, List.count_eq_zero.2 h]
  exact UInt32.add_zero _

/-- What the scanner reads at a lexeme splits, if what it reads after the lexeme does. -/
theorem Splits.ofLexeme {symbol : Symbol} (hlexeme : lexeme c cs = .ok (symbol, after))
    (h : ∀ chars, c :: cs = chars ++ after → '\n' ∉ chars →
      Splits (before ++ chars) after tokens fault) :
    Splits before (c :: cs) (⟨lineAfter before, symbol⟩ :: tokens) fault := by
  obtain ⟨chars, heq, hspelled⟩ := spelled_of_lexeme hlexeme
  have hrest := h chars heq hspelled.newline_not_mem
  have key := @Splits.token before [] chars after symbol tokens fault .nil hspelled
    (by simpa using hrest)
  rw [heq]
  simpa using key

/-- One run of the scanner splits the text, whatever was read before. -/
theorem splits_scanFrom {line : UInt32} (hline : line = lineAfter before) :
    Splits before cs (scanFrom line cs).tokens (scanFrom line cs).fault := by
  fun_induction scanFrom line cs generalizing before with
  | case1 => exact .finished .nil
  | case2 line c rest hblank ih =>
    refine Splits.blank hblank (ih ?_)
    subst hline
    by_cases hc : c = '\n' <;> simp [hc, Text.newlines]
  | case3 line c rest hblank hslash ih =>
    obtain ⟨rfl, hhead⟩ := hslash
    obtain ⟨rest, rfl⟩ := List.head?_eq_some_iff.1 hhead
    have hinside : '\n' ∉ rest.takeWhile (· ≠ '\n') := fun hmem => by
      simpa using List.mem_takeWhile_imp hmem
    have hends : ∀ c ∈ (rest.dropWhile (· ≠ '\n')).head?, c = '\n' := fun c hc => by
      simpa using stopsAt_dropWhile (· ≠ '\n') rest c hc
    have hnext : line = lineAfter (before ++ '/' :: '/' :: rest.takeWhile (· ≠ '\n')) := by
      rw [hline, lineAfter_append_of_not_mem _ (by simpa using hinside)]
    have hrest := Splits.lineComment hinside hends (ih hnext)
    rwa [List.takeWhile_append_dropWhile] at hrest
  | case4 line c rest hblank hline' hslash body after hbody ih =>
    obtain ⟨rfl, hhead⟩ := hslash
    obtain ⟨rest, rfl⟩ := List.head?_eq_some_iff.1 hhead
    obtain ⟨rfl, hfirst⟩ := closed_of_blockComment? hbody
    refine Splits.blockComment hfirst (ih ?_)
    rw [hline, lineAfter_append]
    simp [Text.newlines]
  | case5 line c rest hblank hline' hslash hopen =>
    obtain ⟨rfl, hhead⟩ := hslash
    obtain ⟨rest, rfl⟩ := List.head?_eq_some_iff.1 hhead
    have key := @Splits.faulty before [] _ _ .nil (.comment (open_of_blockComment? hopen))
    rw [hline]
    simpa using key
  | case6 line c rest hblank hline' hblock symbol after hlexeme ih =>
    subst hline
    refine Splits.ofLexeme hlexeme fun chars _ hchars => ih ?_
    rw [lineAfter_append_of_not_mem _ hchars]
  | case7 line c rest hblank hline' hblock cause hlexeme =>
    have hcomment : c = '/' → StopsAt (fun d => d == '/' || d == '*') rest := by
      rintro rfl d hd
      have hd : rest.head? = some d := hd
      simp only [true_and, hd, Option.some.injEq] at hline' hblock
      simp [hline', hblock]
    have hfaulty := faulty_of_lexeme (by simpa using hblank) hcomment hlexeme
    have key := @Splits.faulty before [] _ _ .nil hfaulty
    rw [hline]
    simpa using key

/-! ## The pieces of a text -/

/-- `LineOf before line`: a character that stands after `before` is on the line, which is one more
than the line feeds before it. Only 32 bits of that are kept, so with fewer than `2 ^ 32 - 1` line
feeds it is the number of the line. -/
structure LineOf (before : List Char) (line : UInt32) : Prop where
  counted : line = .ofNat (1 + Text.newlines before)
  number : Text.newlines before < 4294967295 → line.toNat = 1 + Text.newlines before

theorem lineOf_lineAfter (before : List Char) : LineOf before (lineAfter before) where
  counted := rfl
  number hfew := by
    rw [lineAfter, UInt32.toNat_ofNat']
    exact Nat.mod_eq_of_lt (by omega)

/-- A token with its lexeme and the gap in front of it. -/
structure Piece where
  gap : List Char
  lexeme : List Char
  token : Token

def Piece.chars (p : Piece) : List Char :=
  p.gap ++ p.lexeme

/-- `Fits before p after`: between `before` and `after`, the piece is a gap and a lexeme of its
token, which stands on the line where the lexeme starts. -/
structure Piece.Fits (before : List Char) (p : Piece) (after : List Char) : Prop where
  gap : Gap (p.lexeme ++ after) p.gap
  spelled : Spelled p.token.symbol p.lexeme after
  line : LineOf (before ++ p.gap) p.token.line

/-- `Ends before rest fault`: after `before`, the text is over and there is no fault, or the fault
is at the first character of `rest`, which is not blank. -/
inductive Ends (before : List Char) : List Char → Option ScanFault → Prop where
  | over : Ends before [] none
  | fault {c : Char} {rest : List Char} {fault : ScanFault} (blank : Text.isBlank c = false)
    (faulty : Faulty fault.cause (c :: rest)) (line : LineOf before fault.line) :
    Ends before (c :: rest) (some fault)

theorem Splits.pieces (h : Splits before text tokens fault) :
    ∃ (pieces : List Piece) (last rest : List Char),
      text = pieces.flatMap Piece.chars ++ last ++ rest ∧
      tokens = pieces.map Piece.token ∧
      (∀ front p back, pieces = front ++ p :: back →
        p.Fits (before ++ front.flatMap Piece.chars)
          (back.flatMap Piece.chars ++ last ++ rest)) ∧
      Gap rest last ∧
      Ends (before ++ pieces.flatMap Piece.chars ++ last) rest fault := by
  induction h with
  | @finished before gap gaps =>
    exact ⟨[], gap, [], by simp, rfl, by simp, gaps, .over⟩
  | @faulty before gap rest cause gaps faulty =>
    obtain ⟨c, more, rfl, hblank⟩ := faulty.head_not_blank
    refine ⟨[], gap, c :: more, by simp, rfl, by simp, gaps, ?_⟩
    simp only [List.flatMap_nil, List.append_nil]
    exact .fault hblank faulty (lineOf_lineAfter _)
  | @token before gap lexeme after symbol tokens fault gaps spelled _ ih =>
    obtain ⟨pieces, last, rest, rfl, rfl, hfits, hlast, hends⟩ := ih
    refine ⟨⟨gap, lexeme, ⟨_, symbol⟩⟩ :: pieces, last, rest, ?_, rfl, ?_, hlast, ?_⟩
    · simp [Piece.chars]
    · intro front p back heq
      cases front with
      | nil =>
        obtain ⟨rfl, rfl⟩ := List.cons.inj heq
        refine ⟨by simpa using gaps, by simpa using spelled, ?_⟩
        simpa using lineOf_lineAfter (before ++ gap)
      | cons q front =>
        obtain ⟨rfl, rfl⟩ := List.cons.inj heq
        have key := hfits front p back rfl
        simpa [Piece.chars] using key
    · simpa [Piece.chars] using hends

/-- The scanner loses and invents nothing: a text is the gaps and lexemes of its tokens, in order, a
last gap and a rest, which is empty unless the scanner stops at a fault there. -/
theorem scan_splits (text : String) :
    ∃ (pieces : List Piece) (last rest : List Char),
      text.toList = pieces.flatMap Piece.chars ++ last ++ rest ∧
      (scan text).tokens = pieces.map Piece.token ∧
      (∀ front p back, pieces = front ++ p :: back →
        p.Fits (front.flatMap Piece.chars) (back.flatMap Piece.chars ++ last ++ rest)) ∧
      Gap rest last ∧
      Ends (pieces.flatMap Piece.chars ++ last) rest (scan text).fault :=
  Splits.pieces (@splits_scanFrom [] text.toList 1 rfl)

/-- Line feeds are passed over and counted. -/
theorem scanFrom_lineFeeds (n : Nat) (line : UInt32) (cs : List Char) :
    scanFrom line (List.replicate n '\n' ++ cs) = scanFrom (line + .ofNat n) cs := by
  induction n generalizing line with
  | zero => simp
  | succ n ih =>
    have hline : line + 1 + .ofNat n = line + .ofNat (n + 1) := by
      rw [Nat.add_comm n 1, UInt32.ofNat_add, ← UInt32.add_assoc]
      rfl
    rw [List.replicate_succ, List.cons_append, scanFrom, if_pos (by decide), if_pos rfl, ih, hline]

/-- After `2 ^ 32 - 1` line feeds the number of the line no longer fits into 32 bits: a name that
stands there is found on line 0. -/
theorem scan_past_last_line :
    (scan (String.ofList (List.replicate 4294967295 '\n' ++ ['x']))).tokens =
        [⟨0, .identifier "x"⟩] ∧
      (0 : UInt32).toNat ≠ 1 + Text.newlines (List.replicate 4294967295 '\n') := by
  constructor
  · rw [scan, String.toList_ofList, scanFrom_lineFeeds]
    decide +kernel
  · rw [Text.newlines, List.count_replicate_self]
    decide

end WireSchema.Token
