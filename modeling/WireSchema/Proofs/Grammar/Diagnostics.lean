import WireSchema.Proofs.Grammar.FaultLines
import WireSchema.Proofs.Token.Written
import WireSchema.Tree.Source

/-!
# Diagnostics point at text

Three counts of lines meet in a diagnostic: the scanner counts line feeds, the grammar passes on the
lines of tokens, and the snippet is looked up among the lines of the text. A character that is no
blank stands in the line that the line feeds before it count (`Text.exists_line`), and faults are
blamed on lines where a lexeme starts. So the diagnostic of a text that is not a schema file always
names a line of the text and shows it (`Tree.diagnostic_of_ofSource`).
-/

namespace WireSchema

/-! ## Lines of a text -/

namespace Text

variable {c d : Char} {cs l : List Char} {n : Nat}

theorem lines_newline (cs : List Char) : lines ('\n' :: cs) = [] :: lines cs := by
  rw [lines]

/-- A character that ends no line is put in front of the first. -/
theorem lines_cons (hd : d ≠ '\n') (hreturn : ∀ rest, d = '\r' → cs ≠ '\n' :: rest) :
    lines (d :: cs) = (d :: (lines cs).headD []) :: (lines cs).tail := by
  rw [lines.eq_4 d cs hd hreturn]
  cases lines cs <;> rfl

/-- What a line holds, it also holds with one more character in front of the text. -/
theorem exists_line_cons (hd : d ≠ '\n') (h : (lines cs)[n]? = some l) (hc : c ∈ l) :
    ∃ l', (lines (d :: cs))[n]? = some l' ∧ c ∈ l' := by
  by_cases hreturn : d = '\r' ∧ ∃ rest, cs = '\n' :: rest
  · -- the carriage return belongs to the end of a line and is in no line
    obtain ⟨rfl, rest, rfl⟩ := hreturn
    have hlines : lines ('\r' :: '\n' :: rest) = [] :: lines rest := by rw [lines]
    rw [lines_newline] at h
    exact ⟨l, hlines ▸ h, hc⟩
  · rw [lines_cons hd fun rest hd' hcs => hreturn ⟨hd', rest, hcs⟩]
    cases hlines : lines cs with
    | nil => simp [hlines] at h
    | cons first others =>
      rw [hlines] at h
      cases n with
      | zero =>
        obtain rfl : first = l := by simpa using h
        exact ⟨d :: first, rfl, List.mem_cons_of_mem d hc⟩
      | succ n => exact ⟨l, h, hc⟩

/-- A character that is no blank stands in the line that the line feeds before it count. -/
theorem exists_line (hc : isBlank c = false) (before rest : List Char) :
    ∃ l, (lines (before ++ c :: rest))[newlines before]? = some l ∧ c ∈ l := by
  induction before with
  | nil =>
    have hline : c ≠ '\n' := by
      rintro rfl
      exact absurd hc (by decide)
    have hreturn : c ≠ '\r' := by
      rintro rfl
      exact absurd hc (by decide)
    rw [List.nil_append, lines_cons hline fun _ h => absurd h hreturn]
    exact ⟨c :: (lines rest).headD [], rfl, List.mem_cons_self⟩
  | cons d before ih =>
    obtain ⟨l, hl, hmem⟩ := ih
    by_cases hd : d = '\n'
    · subst hd
      refine ⟨l, ?_, hmem⟩
      rw [List.cons_append, lines_newline, newlines, List.count_cons_self]
      exact hl
    · have hcount : newlines (d :: before) = newlines before := List.count_cons_of_ne hd
      rw [hcount]
      exact exists_line_cons hd hl hmem

theorem mem_dropWhile_isBlank (hblank : isBlank c = false) (hc : c ∈ cs) :
    c ∈ cs.dropWhile isBlank := by
  rw [← List.takeWhile_append_dropWhile (p := isBlank) (l := cs), List.mem_append] at hc
  rcases hc with hc | hc
  · have htrue := List.mem_takeWhile_imp hc
    rw [hblank] at htrue
    cases htrue
  · exact hc

theorem trim_ne_empty (hblank : isBlank c = false) (hc : c ∈ l) : trim (String.ofList l) ≠ "" := by
  have hmem : c ∈ trimEnd (trimStart l) := by
    unfold trimEnd trimStart
    rw [List.mem_reverse]
    exact mem_dropWhile_isBlank hblank (List.mem_reverse.2 (mem_dropWhile_isBlank hblank hc))
  intro hempty
  rw [trim, String.toList_ofList, ← String.ofList_nil, String.ofList_inj] at hempty
  rw [hempty] at hmem
  cases hmem

end Text

/-- The diagnostic is about a line of the text, and shows it. -/
structure Diagnostic.PointsAt (d : Diagnostic) (file text : String) (line : UInt32) : Prop where
  inFile : d.file = file
  onLine : d.line = some line
  first : 1 ≤ line.toNat
  last : line.toNat ≤ (Text.lines text.toList).length
  shown : ∃ l, (Text.lines text.toList)[line.toNat - 1]? = some l ∧
    d.snippet = some (Text.trim (String.ofList l)) ∧ Text.trim (String.ofList l) ≠ ""

/-- A character that is no blank stands on the line, which is counted by the line feeds before it. -/
def Text.Marks (text : String) (line : UInt32) : Prop :=
  ∃ before c rest, text.toList = before ++ c :: rest ∧ Text.isBlank c = false ∧
    Token.LineOf before line

theorem Text.Marks.pointsAt {text : String} {line : UInt32} (h : Text.Marks text line)
    (few : Text.newlines text.toList < 4294967295) (file message : String) :
    (Diagnostic.atLine file text message line).PointsAt file text line := by
  obtain ⟨before, c, rest, htext, hblank, hcounted⟩ := h
  obtain ⟨l, hl, hmem⟩ := Text.exists_line hblank before rest
  rw [← htext] at hl
  have hlt : Text.newlines before < (Text.lines text.toList).length :=
    (List.getElem?_eq_some_iff.1 hl).1
  have hbefore : Text.newlines before ≤ Text.newlines text.toList := by
    rw [htext]
    simp only [Text.newlines, List.count_append]
    omega
  have hline : line.toNat = Text.newlines before + 1 := by
    rw [hcounted.number (by omega), Nat.add_comm]
  refine ⟨rfl, rfl, by omega, by omega, l, ?_, ?_, Text.trim_ne_empty hblank hmem⟩
  · rw [hline]
    exact hl
  · show Text.snippet? text line = _
    simp only [Text.snippet?, hline, hl, Option.map_some]

/-! ## Where lexemes start -/

namespace Token

variable {text : String} {line : UInt32} {cause : ScanCause} {t : Token}

/-- After the lexemes of its tokens and the gaps between them, the text comes to a place on the given
line where a lexeme starts that cannot be read. -/
def StopsOn (text : String) (line : UInt32) (cause : ScanCause) : Prop :=
  ∃ (pieces : List Piece) (gap : List Char) (c : Char) (rest : List Char),
    text.toList = pieces.flatMap Piece.chars ++ gap ++ c :: rest ∧
    (scan text).tokens = pieces.map Piece.token ∧ Gap (c :: rest) gap ∧
    Text.isBlank c = false ∧ Faulty cause (c :: rest) ∧
    LineOf (pieces.flatMap Piece.chars ++ gap) line

/-- A token of the text starts on the given line: its lexeme stands there. -/
def StartsOn (text : String) (line : UInt32) (t : Token) : Prop :=
  t ∈ (scan text).tokens ∧ ∃ before lexeme after, text.toList = before ++ lexeme ++ after ∧
    Spelled t.symbol lexeme after ∧ LineOf before line

theorem stopsOn_of_fault {fault : ScanFault} (h : (scan text).fault = some fault) :
    StopsOn text fault.line fault.cause := by
  obtain ⟨pieces, gap, rest, htext, htokens, -, hgap, hends⟩ :=
    Splits.pieces (@splits_scanFrom [] text.toList 1 rfl)
  change Ends _ rest (scan text).fault at hends
  rw [h] at hends
  cases hends with
  | fault blank faulty line =>
    exact ⟨pieces, gap, _, _, htext, htokens, hgap, blank, faulty, line⟩

theorem startsOn_of_mem (h : t ∈ (scan text).tokens) : StartsOn text t.line t := by
  obtain ⟨pieces, gap, rest, htext, htokens, hfits, -⟩ :=
    Splits.pieces (@splits_scanFrom [] text.toList 1 rfl)
  have hmem := h
  change (scan text).tokens = _ at htokens
  rw [htokens] at hmem
  obtain ⟨p, hp, rfl⟩ := List.mem_map.1 hmem
  obtain ⟨front, back, rfl⟩ := List.append_of_mem hp
  have hfit := hfits front p back rfl
  refine ⟨h, front.flatMap Piece.chars ++ p.gap, p.lexeme, _, ?_, hfit.spelled, hfit.line⟩
  rw [htext]
  simp [Piece.chars]

theorem StopsOn.marks (h : StopsOn text line cause) : Text.Marks text line := by
  obtain ⟨pieces, gap, c, rest, htext, -, -, hblank, -, hline⟩ := h
  exact ⟨_, c, rest, htext, hblank, hline⟩

theorem StartsOn.marks (h : StartsOn text line t) : Text.Marks text line := by
  obtain ⟨-, before, lexeme, after, htext, hspelled, hline⟩ := h
  obtain ⟨c, rest, rfl, hblank, -⟩ := lexeme_of_spelled hspelled
  rw [List.append_assoc, List.cons_append] at htext
  exact ⟨before, c, _, htext, hblank, hline⟩

end Token

/-! ## The diagnostic of a text that is no schema file -/

/-- Scanning fails on the line of the lexeme that cannot be read, and the grammar on the line of one
of the tokens. -/
theorem Tree.ofSource_error {file text : String} {fault : SchemaFault}
    (h : Tree.ofSource file text = .error fault) :
    (∃ f : ScanFault, fault = .scan (.atLine file text f.cause.message f.line) ∧
      Token.StopsOn text f.line f.cause) ∨
    ∃ (f : GrammarFault) (t : Token), fault = .grammar (.atLine file text f.cause.message f.line) ∧
      Token.StartsOn text f.line t := by
  unfold Tree.ofSource Token.Scan.toExcept at h
  cases hscan : (Token.scan text).fault with
  | some f =>
    rw [hscan] at h
    injection h with h
    exact .inl ⟨f, h.symm, Token.stopsOn_of_fault hscan⟩
  | none =>
    simp only [hscan] at h
    split at h
    case h_1 f hparse =>
      obtain ⟨t, ht, hline⟩ := Tree.onLine_of_ofTokens hparse
      injection h with h
      exact .inr ⟨f, t, h.symm, hline ▸ Token.startsOn_of_mem ht⟩
    case h_2 => cases h

/-- Every diagnostic of a text that cannot be read names its file and a line, where the lexeme
starts that cannot be scanned, or where a token starts. If the lines of the text can be counted in
32 bits, it is about a line of the text and shows it. -/
theorem Tree.diagnostic_of_ofSource {file text : String} {fault : SchemaFault}
    (h : Tree.ofSource file text = .error fault) :
    ∃ d line, d.file = file ∧ d.line = some line ∧
      ((∃ cause, fault = .scan d ∧ d.text = cause.message ∧ Token.StopsOn text line cause) ∨
        ∃ t, fault = .grammar d ∧ Token.StartsOn text line t) ∧
      (Text.newlines text.toList < 4294967295 → d.PointsAt file text line) := by
  rcases Tree.ofSource_error h with ⟨f, rfl, hstops⟩ | ⟨f, t, rfl, hstarts⟩
  · exact ⟨_, f.line, rfl, rfl, .inl ⟨f.cause, rfl, rfl, hstops⟩,
      fun few => hstops.marks.pointsAt few file _⟩
  · exact ⟨_, f.line, rfl, rfl, .inr ⟨t, rfl, hstarts⟩,
      fun few => hstarts.marks.pointsAt few file _⟩

/-- A struct whose third line holds the end of a comment and a character that starts no lexeme. -/
def strayDollar : String :=
  "struct S \x7b\n  /* a\n  b */ int32 x$;\n\x7d;"

theorem Tree.diagnostic_of_ofSource_strayDollar :
    ∃ d, Tree.ofSource "s" strayDollar = .error (.scan d) ∧ d.PointsAt "s" strayDollar 3 := by
  have hscan : (Token.scan strayDollar).toExcept = .error ⟨3, .illegal (some '$')⟩ := by
    decide +kernel
  have hsource : Tree.ofSource "s" strayDollar =
      .error (.scan (.atLine "s" strayDollar (ScanCause.illegal (some '$')).message 3)) := by
    rw [Tree.ofSource, hscan]
  obtain ⟨d, line, -, honLine, hfault, hpoints⟩ := Tree.diagnostic_of_ofSource hsource
  rcases hfault with ⟨cause, hd, -⟩ | ⟨t, hd, -⟩
  · injection hd with hd
    have hline : some 3 = some line := by
      rw [← honLine, ← hd]
      rfl
    injection hline with hline
    exact ⟨d, hd ▸ hsource, hline ▸ hpoints (by decide)⟩
  · cases hd

end WireSchema
