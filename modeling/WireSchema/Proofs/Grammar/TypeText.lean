import Mathlib.Data.List.Basic
import WireSchema.Proofs.Grammar.Completeness
import WireSchema.Proofs.Token.Written

/-!
# Types and their texts

The text of a type is scanned to tokens that are a phrase for the type, whatever follows it, as long
as no word runs on (`Token.exists_scanFrom_text`). The induction is on the type: suffixes stand
after the text of the type they belong to, so each scan goes on where that of the inner type ended.
In front of a name, the rule for types then reads the type back from its text.
-/

namespace WireSchema

open Token Grammar

variable {first name : String} {parts : List String} {t : TypeExpr} {after : List Char}
  {line : UInt32}

namespace TypeExpr

/-- Names are identifiers joined by dots, and the first is not `handle`. -/
def Spellable : TypeExpr → Prop
  | named name => ∃ first parts, name = String.intercalate "." (first :: parts) ∧
      first ≠ "handle" ∧ ∀ part ∈ first :: parts, (Symbol.identifier part).WellFormed
  | handle _ => True
  | array element => element.Spellable
  | request inner => inner.Spellable

end TypeExpr

namespace Token

/-! ## Words and marks -/

theorem wellFormed_identifier {c : Char} {cs : List Char} (hname : name.toList = c :: cs)
    (start : isWordStart c = true) (word : cs.all isWordChar = true)
    (other : Keyword.ofText? name = none) : (Symbol.identifier name).WellFormed := by
  obtain rfl : name = String.ofList (c :: cs) := by rw [← hname, String.ofList_toList]
  exact .identifier start (List.all_eq_true.1 word) (Keyword.text_ne_of_ofText? other)

theorem wellFormed_handle : (Symbol.identifier "handle").WellFormed :=
  wellFormed_identifier rfl (by decide) (by decide) (by decide)

theorem wellFormed_sort (sort : HandleSort) : (Symbol.identifier sort.text).WellFormed := by
  cases sort <;> exact wellFormed_identifier rfl (by decide) (by decide) (by decide)

theorem scanFrom_identifier (h : (Symbol.identifier name).WellFormed)
    (ends : StopsAt isWordChar after) (line : UInt32) :
    scanFrom line (name.toList ++ after) = (scanFrom line after).cons ⟨line, .identifier name⟩ := by
  cases h with
  | identifier start word other =>
    rw [String.toList_ofList]
    exact scanFrom_spelled (.identifier start word other ends) line

theorem scanFrom_punct {mark : Punct} (h : mark ≠ .assign) (after : List Char) (line : UInt32) :
    scanFrom line (mark.text.toList ++ after) = (scanFrom line after).cons ⟨line, .punct mark⟩ :=
  scanFrom_spelled (.punct fun heq => absurd heq h) line

theorem stopsAt_punct (mark : Punct) (after : List Char) :
    StopsAt isWordChar (mark.text.toList ++ after) := by
  cases mark <;>
  · rintro _ ⟨⟩
    decide

/-! ## Texts of types -/

/-- Identifiers joined by dots are scanned to a dotted name. -/
theorem exists_scanFrom_dotted (h : ∀ part ∈ first :: parts, (Symbol.identifier part).WellFormed)
    (line : UInt32) :
    ∃ ts, Phrase.Many Phrase.DotPart ts parts ∧ ∀ after, StopsAt isWordChar after →
      scanFrom line ((String.intercalate "." (first :: parts)).toList ++ after) =
        (⟨line, .identifier first⟩ :: ts).foldr Scan.cons (scanFrom line after) := by
  induction parts generalizing first with
  | nil =>
    refine ⟨[], .nil, fun after ends => ?_⟩
    rw [String.intercalate_singleton]
    exact scanFrom_identifier (h first List.mem_cons_self) ends line
  | cons part parts ih =>
    obtain ⟨hfirst, hparts⟩ := List.forall_mem_cons.1 h
    obtain ⟨ts, hts, hscan⟩ := ih hparts
    refine ⟨_, .cons (@Phrase.DotPart.mk line line part) hts, fun after ends => ?_⟩
    calc scanFrom line ((String.intercalate "." (first :: part :: parts)).toList ++ after)
      _ = scanFrom line (first.toList ++ (Punct.dot.text.toList ++
            ((String.intercalate "." (part :: parts)).toList ++ after))) := by
          rw [String.intercalate_cons_cons]
          simp [Punct.text]
      _ = _ := by
          rw [scanFrom_identifier hfirst (stopsAt_punct .dot _), scanFrom_punct (by decide),
            hscan after ends]
          rfl

/-- The text of a type is scanned to a phrase for the type. -/
theorem exists_scanFrom_text (h : t.Spellable) (line : UInt32) :
    ∃ ts, Phrase.AnyType ts t ∧ ∀ after, StopsAt isWordChar after →
      scanFrom line (t.text.toList ++ after) = ts.foldr Scan.cons (scanFrom line after) := by
  induction t with
  | named name =>
    obtain ⟨first, parts, rfl, hfirst, hwords⟩ := h
    obtain ⟨ts, hts, hscan⟩ := exists_scanFrom_dotted hwords line
    exact ⟨_, .plain (.named hfirst hts), hscan⟩
  | handle sort =>
    cases sort with
    | none =>
      exact ⟨_, .plain (@Phrase.PlainType.handle line), fun after ends =>
        scanFrom_identifier wellFormed_handle ends line⟩
    | some sort =>
      refine ⟨_, .plain (@Phrase.PlainType.handleOf line line line line sort), fun after _ => ?_⟩
      calc scanFrom line ((TypeExpr.handle (some sort)).text.toList ++ after)
        _ = scanFrom line ("handle".toList ++ (Punct.langle.text.toList ++
              (sort.text.toList ++ (Punct.rangle.text.toList ++ after)))) := by
            simp [TypeExpr.text, Punct.text]
        _ = _ := by
            rw [scanFrom_identifier wellFormed_handle (stopsAt_punct .langle _),
              scanFrom_punct (by decide),
              scanFrom_identifier (wellFormed_sort sort) (stopsAt_punct .rangle _),
              scanFrom_punct (by decide)]
            rfl
  | array element ih =>
    obtain ⟨ts, hts, hscan⟩ := ih h
    refine ⟨_, @Phrase.AnyType.array line line ts element hts, fun after _ => ?_⟩
    calc scanFrom line ((TypeExpr.array element).text.toList ++ after)
      _ = scanFrom line (element.text.toList ++ (Punct.lbracket.text.toList ++
            (Punct.rbracket.text.toList ++ after))) := by
          simp [TypeExpr.text, Punct.text]
      _ = _ := by
          rw [hscan _ (stopsAt_punct .lbracket _), scanFrom_punct (by decide),
            scanFrom_punct (by decide), List.foldr_append]
          rfl
  | request inner ih =>
    obtain ⟨ts, hts, hscan⟩ := ih h
    refine ⟨_, @Phrase.AnyType.request line ts inner hts, fun after _ => ?_⟩
    calc scanFrom line ((TypeExpr.request inner).text.toList ++ after)
      _ = scanFrom line (inner.text.toList ++ (Punct.amp.text.toList ++ after)) := by
          simp [TypeExpr.text, Punct.text]
      _ = _ := by
          rw [hscan _ (stopsAt_punct .amp _), scanFrom_punct (by decide), List.foldr_append]
          rfl

theorem foldr_cons (ts : List Token) (s : Scan) :
    ts.foldr Scan.cons s = { s with tokens := ts ++ s.tokens } := by
  induction ts with
  | nil => rfl
  | cons t ts ih => rw [List.foldr_cons, ih]; rfl

/-- The text of a type in front of a name is scanned to a phrase for the type and the name. -/
theorem exists_scan_text (h : t.Spellable) (hname : (Symbol.identifier name).WellFormed) :
    ∃ ts, Phrase.AnyType ts t ∧
      scan (t.text ++ " " ++ name) = { tokens := ts ++ [⟨1, .identifier name⟩] } := by
  obtain ⟨ts, hts, hscan⟩ := exists_scanFrom_text h 1
  refine ⟨ts, hts, ?_⟩
  have hspace : StopsAt isWordChar (' ' :: name.toList) := by
    rintro _ ⟨⟩
    decide
  have hlast : scanFrom 1 (' ' :: name.toList) = { tokens := [⟨1, .identifier name⟩] } := by
    have hend := @scanFrom_identifier name [] hname (by simp [StopsAt]) 1
    rw [List.append_nil] at hend
    rw [scanFrom, if_pos (by decide), if_neg (by decide), hend, scanFrom]
    rfl
  calc scan (t.text ++ " " ++ name)
    _ = scanFrom 1 (t.text.toList ++ ' ' :: name.toList) := by
        rw [scan]
        simp
    _ = { tokens := ts ++ [⟨1, .identifier name⟩] } := by
        rw [hscan _ hspace, hlast, foldr_cons]

end Token

/-- The text of a type in front of a name is scanned without a fault, and from its tokens the rule
for types reads that type and leaves the name alone. -/
theorem Grammar.typeExpr_of_text (h : t.Spellable)
    (hname : (Symbol.identifier name).WellFormed) :
    (scan (t.text ++ " " ++ name)).fault = none ∧
      ∃ c, typeExpr.run (.ofTokens (scan (t.text ++ " " ++ name)).tokens) = .ok (some t, c) ∧
        c.ahead = [⟨1, .identifier name⟩] := by
  obtain ⟨ts, hts, hscan⟩ := exists_scan_text h hname
  rw [hscan]
  exact ⟨rfl, yields_typeExpr_before hts 1 name [] _ rfl⟩

/-- Words that would mean something else elsewhere: `array` starts no array here, and `handle` and
`import` are parts of names. -/
theorem Grammar.typeExpr_of_text_lookalike :
    let t : TypeExpr := .request (.array (.array (.named "array.handle")))
    t.Spellable ∧ t.text = "array.handle[][]&" ∧ (Symbol.identifier "import_").WellFormed ∧
      (scan "array.handle[][]& import_").fault = none ∧
      ∃ c, typeExpr.run (.ofTokens (scan "array.handle[][]& import_").tokens) = .ok (some t, c) ∧
        c.ahead = [⟨1, .identifier "import_"⟩] := by
  intro t
  have harray : (Symbol.identifier "array").WellFormed :=
    wellFormed_identifier rfl (by decide) (by decide) (by decide)
  have hname : (Symbol.identifier "import_").WellFormed :=
    wellFormed_identifier rfl (by decide) (by decide) (by decide)
  have ht : t.Spellable := ⟨"array", ["handle"], by decide, by decide,
    List.forall_mem_cons.2 ⟨harray, List.forall_mem_singleton.2 wellFormed_handle⟩⟩
  exact ⟨ht, by decide, hname, Grammar.typeExpr_of_text ht hname⟩

end WireSchema
