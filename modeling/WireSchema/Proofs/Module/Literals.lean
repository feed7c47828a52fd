import Mathlib.Data.Nat.Digits.Lemmas
import Mathlib.Tactic.IntervalCases
import WireSchema.Proofs.Grammar.Completeness
import WireSchema.Proofs.Module.Values
import WireSchema.Proofs.Token.Written

/-!
# Integer literals

`Token.IntegerText` gives the literals with their values, as positional numerals of any length. The
scanner finds exactly these, reading the digits from the front gives these values
(`Text.readDigits?_eq`), and the sign that the rule for values keeps is the only one in the text
that is read back (`Token.IntegerText.readInteger?`). So an enum field with a literal has the
literal's value, or fails for the one of two reasons that applies (`Module.integerAt_of_literal`).
-/

namespace WireSchema

variable {c : Char} {cs ds : List Char} {n : Nat}

/-! ## Digits -/

namespace Text

/-- The value of a digit is its place in the row of digits. -/
def digitPlace (c : Char) : Nat :=
  "0123456789abcdef".toList.idxOf c.toLower

/-- The number that digits stand for; the last digit counts least. -/
def numeral (base : Nat) (digits : List Char) : Nat :=
  Nat.ofDigits base (digits.map digitPlace).reverse

/-- The digits of a base, each with its value. -/
def IsDigitOf (base : Nat) (c : Char) : Prop :=
  digitValue? c = some (digitPlace c) ∧ digitPlace c < base

instance (base : Nat) (c : Char) : Decidable (IsDigitOf base c) :=
  inferInstanceAs (Decidable (_ ∧ _))

theorem isDigitOf_of_isDigit (h : c.isDigit = true) : IsDigitOf 10 c := by
  obtain ⟨hlow, hhigh⟩ := Token.isDigit_iff.1 h
  rw [← Char.ofNat_toNat c]
  generalize c.toNat = k at hlow hhigh
  interval_cases k <;> decide

theorem isDigitOf_of_isHexDigit (h : isHexDigit c = true) : IsDigitOf 16 c := by
  have hcases : c.isDigit = true ∨ 97 ≤ c.toNat ∧ c.toNat ≤ 102 ∨ 65 ≤ c.toNat ∧ c.toNat ≤ 70 := by
    simp only [isHexDigit, digitValue?] at h
    split at h
    · exact .inl ‹_›
    split at h
    · next hlower =>
      simp only [Char.le_def, UInt32.le_iff_toNat_le] at hlower
      exact .inr (.inl hlower)
    split at h
    · next hupper =>
      simp only [Char.le_def, UInt32.le_iff_toNat_le] at hupper
      exact .inr (.inr hupper)
    · cases h
  rcases hcases with hdigit | ⟨hlow, hhigh⟩ | ⟨hlow, hhigh⟩
  · obtain ⟨hvalue, hplace⟩ := isDigitOf_of_isDigit hdigit
    exact ⟨hvalue, by omega⟩
  all_goals
    rw [← Char.ofNat_toNat c]
    generalize c.toNat = k at hlow hhigh
    interval_cases k <;> decide

theorem numeral_cons (base : Nat) (c : Char) (ds : List Char) :
    numeral base (c :: ds) = digitPlace c * base ^ ds.length + numeral base ds := by
  rw [numeral, List.map_cons, List.reverse_cons, Nat.ofDigits_append, Nat.ofDigits_singleton,
    List.length_reverse, List.length_map, Nat.mul_comm, Nat.add_comm]
  rfl

/-- Digits are read from the front, and each makes what came before it count `base` times. -/
theorem readDigits?_eq {base : Nat} (h : ∀ c ∈ ds, IsDigitOf base c) (acc : Nat) :
    readDigits? base acc ds = some (acc * base ^ ds.length + numeral base ds) := by
  induction ds generalizing acc with
  | nil => simp [readDigits?, numeral]
  | cons c ds ih =>
    obtain ⟨⟨hvalue, hlt⟩, hrest⟩ := List.forall_mem_cons.1 h
    simp only [readDigits?, hvalue, if_pos hlt]
    rw [ih hrest, numeral_cons, List.length_cons, Nat.pow_succ]
    congr 1
    ring

theorem readNat?_eq {base : Nat} (hne : ds ≠ []) (h : ∀ c ∈ ds, IsDigitOf base c) :
    readNat? base ds = some (numeral base ds) := by
  obtain ⟨c, rest, rfl⟩ := List.exists_cons_of_ne_nil hne
  rw [readNat?, readDigits?_eq h, Nat.zero_mul, Nat.zero_add]
  simp

/-- A sign is no digit, so digits alone are read without one. -/
theorem readSigned?_eq {base : Nat} (hne : ds ≠ []) (h : ∀ c ∈ ds, IsDigitOf base c) :
    readSigned? base ds =
      if numeral base ds ≤ maxMagnitude then some (numeral base ds : Int) else none := by
  have hread := readNat?_eq hne h
  have hsign {c : Char} {rest : List Char} (hc : digitValue? c = none) : ds ≠ c :: rest := by
    rintro rfl
    obtain ⟨hvalue, -⟩ := h c List.mem_cons_self
    rw [hc] at hvalue
    cases hvalue
  unfold readSigned?
  split
  · exact absurd rfl (hsign (by decide))
  · exact absurd rfl (hsign (by decide))
  · rw [hread]
    by_cases hle : numeral base ds ≤ maxMagnitude <;> simp [Option.filter, hle]

end Text

open Text

/-! ## Literals -/

namespace Token

/-- `IntegerText cs n`: the characters are an integer literal for `n`, in decimal digits or in
hexadecimal digits after `0x` or `0X`. -/
inductive IntegerText : List Char → Nat → Prop where
  | decimal {ds : List Char} (digits : Run Char.isDigit ds) : IntegerText ds (numeral 10 ds)
  | hexadecimal {x : Char} {ds : List Char} (letter : x = 'x' ∨ x = 'X')
    (digits : Run isHexDigit ds) : IntegerText ('0' :: x :: ds) (numeral 16 ds)

theorem isInteger_iff : IsInteger cs ↔ ∃ n, IntegerText cs n := by
  constructor
  · rintro (digits | ⟨letter, digits⟩)
    · exact ⟨_, .decimal digits⟩
    · exact ⟨_, .hexadecimal letter digits⟩
  · rintro ⟨n, digits | ⟨letter, digits⟩⟩
    · exact .decimal digits
    · exact .hexadecimal letter digits

theorem IntegerText.readMagnitude? (h : IntegerText cs n) :
    Text.readMagnitude? cs = if n ≤ maxMagnitude then some (n : Int) else none := by
  cases h with
  | decimal digits =>
    have hletter {x : Char} {rest : List Char} (hx : x = 'x' ∨ x = 'X') :
        cs ≠ '0' :: x :: rest := by
      rintro rfl
      have hdigit := digits.2 x (by simp)
      rcases hx with rfl | rfl <;> cases hdigit
    unfold Text.readMagnitude?
    split
    · exact absurd rfl (hletter (.inl rfl))
    · exact absurd rfl (hletter (.inr rfl))
    · exact readSigned?_eq digits.1 fun c hc => isDigitOf_of_isDigit (digits.2 c hc)
  | hexadecimal letter digits =>
    have hread := readSigned?_eq digits.1 fun c hc => isDigitOf_of_isHexDigit (digits.2 c hc)
    rcases letter with rfl | rfl <;> exact hread

/-- A literal starts with a digit. -/
theorem IntegerText.exists_cons (h : IntegerText cs n) :
    ∃ c rest, cs = c :: rest ∧ c.isDigit = true := by
  cases h with
  | decimal digits => exact digits.exists_cons
  | hexadecimal letter digits => exact ⟨_, _, rfl, by decide⟩

/-- `Sign ts kept k`: the tokens are a sign that leaves the text `kept` in front of a number and
stands for the factor `k`. A plus sign leaves no trace. -/
inductive Sign : List Token → String → Int → Prop where
  | absent : Sign [] "" 1
  | minus {line : UInt32} : Sign [⟨line, .punct .minus⟩] "-" (-1)
  | plus {line : UInt32} : Sign [⟨line, .punct .plus⟩] "" 1

variable {text kept : String} {ts : List Token} {k : Int}

theorem IntegerText.readInteger? (h : IntegerText text.toList n) (hsign : Sign ts kept k) :
    Text.readInteger? (kept ++ text) = if n ≤ maxMagnitude then some (k * n) else none := by
  have hread := h.readMagnitude?
  obtain ⟨c, rest, hcons, hdigit⟩ := h.exists_cons
  -- A literal has no sign of its own, so that the sign kept in front of it is the only one.
  have hunsigned : Text.readInteger? text = Text.readMagnitude? text.toList := by
    unfold Text.readInteger?
    split
    · next heq =>
      rw [hcons] at heq
      obtain ⟨rfl, -⟩ := List.cons.inj heq
      cases hdigit
    · next heq =>
      rw [hcons] at heq
      obtain ⟨rfl, -⟩ := List.cons.inj heq
      cases hdigit
    · rfl
  have hminus : Text.readInteger? ("-" ++ text) =
      (Text.readMagnitude? text.toList).map opposite := by
    have htext : ("-" ++ text).toList = '-' :: text.toList := by simp
    simp only [Text.readInteger?, htext]
  -- The least integer, which has no opposite, is no magnitude.
  have hopposite : opposite n = -n := if_neg (by omega)
  cases hsign with
  | absent | plus =>
    rw [String.empty_append, hunsigned, hread]
    split <;> simp
  | minus =>
    rw [hminus, hread]
    split <;> simp [hopposite]

/-- A literal with a sign is read as an integer value. -/
theorem Sign.yields_value (hsign : Sign ts kept k) (text : String) (line : UInt32)
    (rest : List Token) :
    Rule.Yields Grammar.value (ts ++ ⟨line, .integer text⟩ :: rest)
      (some (.integer (kept ++ text))) rest := by
  cases hsign with
  | absent =>
    rw [String.empty_append]
    exact Grammar.yields_literal rfl rfl rfl rest
  | minus => exact Grammar.yields_minus (.inl ⟨text, rfl, rfl⟩) rest
  | plus => exact Grammar.yields_plus (.inl ⟨text, rfl, rfl⟩) rest

/-- The scanner finds exactly the literals. -/
theorem exists_integer_mem_scan_iff :
    (∃ source line, ⟨line, .integer text⟩ ∈ (scan source).tokens) ↔
      ∃ n, IntegerText text.toList n := by
  rw [← isInteger_iff]
  constructor
  · rintro ⟨source, line, hmem⟩
    obtain ⟨chars, after, spelled⟩ :=
      (@splits_scanFrom [] source.toList 1 rfl).exists_spelled hmem
    cases spelled with
    | integer number => rwa [String.toList_ofList]
  · intro h
    have hspelled : Spelled (.integer (String.ofList text.toList)) text.toList [] :=
      .integer h (by simp [StopsAt]) (by simp)
    have hscan := scanFrom_spelled hspelled 1
    rw [List.append_nil, String.ofList_toList, scanFrom] at hscan
    refine ⟨text, 1, ?_⟩
    rw [scan, hscan]
    exact List.mem_singleton_self _

end Token

/-! ## Enum fields -/

namespace Module

open Token Names

variable {text kept : String} {ts : List Token} {k : Int} {names : Names} {key name : String}
  {line : UInt32} {visiting : List String} {f : LocalField} {r : Record} {m : Module}
  {path : String} {imports : List (Import Module)}

theorem lead_of_literal (h : IntegerText text.toList n) (hsign : Sign ts kept k)
    (declared : names.fields.lookup key = some f)
    (written : f.written = some (.integer (kept ++ text))) :
    names.lead (.field key) name line =
      if n ≤ maxMagnitude then .ok (.integer (k * n))
      else .error (.resolution f.line (.notAnInteger (kept ++ text))) := by
  simp only [lead, declared, fieldLead, written, exprLead, h.readInteger? hsign]
  by_cases hfits : n ≤ maxMagnitude
  · simp only [if_pos hfits]
  · simp only [if_neg hfits]

/-- The integer of an enum field with a literal, or why there is none. -/
theorem integerAt_of_literal (h : IntegerText text.toList n) (hsign : Sign ts kept k)
    (unknown : names.members.lookup key = none) (declared : names.fields.lookup key = some f)
    (free : key ∉ visiting) (written : f.written = some (.integer (kept ++ text))) :
    names.integerAt visiting (.field key) name line =
      if n ≤ maxMagnitude then checkRange f (k * n)
      else .error (.resolution f.line (.notAnInteger (kept ++ text))) := by
  have hknown : names.known? (.field key) = none := by simp [known?, unknown]
  rw [integerAt_eq hknown fun _ => free, lead_of_literal h hsign declared written]
  split
  · simp only [bind, Except.bind, resume, check, declared]
  · rfl

/-- What an enum field with a literal denotes is the literal's value, in range. -/
theorem eq_of_denotes_literal {value : Int} (h : IntegerText text.toList n) (hsign : Sign ts kept k)
    (unknown : names.members.lookup key = none) (declared : names.fields.lookup key = some f)
    (written : f.written = some (.integer (kept ++ text)))
    (denotes : names.Denotes (.field key) value) : value = k * n ∧ InRange value := by
  have hknown : names.known? (.field key) = none := by simp [known?, unknown]
  have hlead {base : Option Target} {more : Int}
      (equation : names.Equation (.field key) base more) : base = none ∧ more = k * n := by
    obtain ⟨l, hl, hparts⟩ := (@equation_iff names "" 0 _ _ _ hknown).2 equation
    rw [lead_of_literal h hsign declared written] at hl
    split at hl
    · obtain rfl := Except.ok.inj hl
      obtain ⟨hbase, hmore⟩ := Prod.mk.inj hparts
      exact ⟨hbase.symm, hmore.symm⟩
    · cases hl
  refine ⟨?_, denotes.fits unknown⟩
  cases denotes with
  | known equation => exact (hlead equation).2
  | follow equation => cases (hlead equation).1

/-- A literal of a record that is built is in range, and the field is built with its value. -/
theorem exists_field_of_literal {p : Option String × Record.Enum} {f : Record.EnumField}
    (h : IntegerText text.toList n) (hsign : Sign ts kept k) (plain : r.Plain)
    (hb : ofRecord r path imports = .ok m) (hp : p ∈ r.scopedEnums) (hf : f ∈ p.2.fields)
    (written : f.value = some (.integer (kept ++ text))) :
    InRange (k * n) ∧ ∃ enum ∈ m.allEnums, enum.decl = enumDecl r.space p ∧
      ⟨f.name, k * n⟩ ∈ enum.fields := by
  obtain ⟨known, resolved⟩ := resolved_of_ofRecord hb
  obtain ⟨enum, henum, hvalued⟩ := resolved.built.exists_mem_valued hp
  obtain ⟨built, -, hbuilt, hname, hdenotes⟩ := hvalued.fields.exists_right_of_mem hf
  obtain ⟨i, hi⟩ := List.getElem?_of_mem hf
  obtain ⟨unknown, declared⟩ :=
    lookup_fieldKey (imports.map Import.target) plain resolved.distinct hp hi
  rw [space_ofRecord] at hdenotes
  obtain ⟨hvalue, hrange⟩ := eq_of_denotes_literal h hsign unknown declared written hdenotes
  refine ⟨hvalue ▸ hrange, enum, ?_, ?_, ?_⟩
  · simpa [allEnums, List.flatMap_def] using henum
  · rw [Enum.decl, hvalued.name, hvalued.space, hvalued.parent, space_ofRecord]
    rfl
  · rw [← hname, ← hvalue]
    exact hbuilt

/-- Literals keep their value. The scanner finds just the literals; after an optional sign the rule
for values takes one as it is written, and what is read from that text is its value with the sign,
if the magnitude has at most 127 bits. An enum field with it gets that value if it has 32 bits, and
the fault that belongs to it otherwise; so every module that is built has the values that its text
says. -/
theorem enumValue_of_literal (h : IntegerText text.toList n) (hsign : Sign ts kept k) :
    (∀ digits : String, (∃ source line, ⟨line, .integer digits⟩ ∈ (scan source).tokens) ↔
      ∃ n, IntegerText digits.toList n) ∧
    (∀ line rest, Rule.Yields Grammar.value (ts ++ ⟨line, .integer text⟩ :: rest)
      (some (.integer (kept ++ text))) rest) ∧
    (readInteger? (kept ++ text) = if n ≤ 2 ^ 127 - 1 then some (k * n) else none) ∧
    (∀ (names : Names) (visiting : List String) (key name : String) (line : UInt32)
      (f : LocalField),
      names.members.lookup key = none → names.fields.lookup key = some f → key ∉ visiting →
      f.written = some (.integer (kept ++ text)) →
      names.integerAt visiting (.field key) name line =
        if n ≤ 2 ^ 127 - 1 then
          if -2 ^ 31 ≤ k * n ∧ k * n ≤ 2 ^ 31 - 1 then .ok (k * n)
          else .error (.resolution f.line (.enumValueOutOfRange f.name (k * n)))
        else .error (.resolution f.line (.notAnInteger (kept ++ text)))) ∧
    ∀ (file source path : String) (r : Record) (imports : List (Import Module)) (m : Module),
      Record.ofSource file source = .ok r → ofRecord r path imports = .ok m →
      ∀ p ∈ r.scopedEnums, ∀ f ∈ p.2.fields, f.value = some (.integer (kept ++ text)) →
        (-2 ^ 31 ≤ k * n ∧ k * n ≤ 2 ^ 31 - 1) ∧
        ∃ enum ∈ m.allEnums, enum.decl = enumDecl r.space p ∧ ⟨f.name, k * n⟩ ∈ enum.fields := by
  refine ⟨fun _ => exists_integer_mem_scan_iff, hsign.yields_value text, h.readInteger? hsign,
    ?_, ?_⟩
  · intro names visiting key name line f unknown declared free written
    exact integerAt_of_literal h hsign unknown declared free written
  · intro file source path r imports m hr hb p hp f hf written
    exact exists_field_of_literal h hsign (Record.plain_of_ofSource hr) hb hp hf written

/-- `enum E { V = text };`, before the integer is known. -/
def literalNames (text : String) : Names where
  space := ""
  fields := [("E.V", ⟨"V", 1, some (.integer text), none, ["E"]⟩)]

/-- `enum E { V = -0X80000000 };` -/
def lowest : Record where
  name := "lowest"
  space := ""
  attributes := ∅
  imports := []
  structs := []
  interfaces := []
  enums := [⟨1, "E", ∅, [⟨1, "V", some (.integer "-0X80000000")⟩]⟩]
  constants := []

/-- At the ends of both ranges: the lowest enum value, its opposite, and the first magnitude that is
too large for any integer. -/
theorem enumValue_of_literal_lowest :
    IntegerText "0X80000000".toList (2 ^ 31) ∧
    IntegerText "0x80000000000000000000000000000000".toList (2 ^ 127) ∧
    (literalNames "-0X80000000").integerAt [] (.field "E.V") "V" 1 = .ok (-2 ^ 31) ∧
    (literalNames "0X80000000").integerAt [] (.field "E.V") "V" 1 =
      .error (.resolution 1 (.enumValueOutOfRange "V" (2 ^ 31))) ∧
    (literalNames "-0x80000000000000000000000000000000").integerAt [] (.field "E.V") "V" 1 =
      .error (.resolution 1 (.notAnInteger "-0x80000000000000000000000000000000")) ∧
    Record.ofSource "lowest" "enum E { V = -0X80000000 };" = .ok lowest ∧
    ∃ m, ofRecord lowest "/lowest" [] = .ok m ∧
      ∃ enum ∈ m.allEnums, ⟨"V", -2 ^ 31⟩ ∈ enum.fields := by
  have hbound : IntegerText "0X80000000".toList (2 ^ 31) :=
    .hexadecimal (.inr rfl) (.of_all (by decide) (by decide))
  have hlarge : IntegerText "0x80000000000000000000000000000000".toList (2 ^ 127) :=
    .hexadecimal (.inl rfl) (.of_all (by decide) (by decide))
  obtain ⟨-, -, -, hlowest, hbuilt⟩ := enumValue_of_literal hbound (@Sign.minus 1)
  obtain ⟨-, -, -, hopposite, -⟩ := enumValue_of_literal hbound .absent
  obtain ⟨-, -, -, htooLarge, -⟩ := enumValue_of_literal hlarge (@Sign.minus 1)
  have hsource : Record.ofSource "lowest" "enum E { V = -0X80000000 };" = .ok lowest := by
    decide +kernel
  have hok : (ofRecord lowest "/lowest" []).isOk = true := by decide +kernel
  refine ⟨hbound, hlarge, ?_, ?_, ?_, hsource, ?_⟩
  · exact (hlowest _ _ _ _ _ _ rfl rfl (by decide) rfl).trans (by decide)
  · exact (hopposite _ _ _ _ _ _ rfl rfl (by decide) rfl).trans (by decide)
  · exact (htooLarge _ _ _ _ _ _ rfl rfl (by decide) rfl).trans (by decide)
  · obtain ⟨m, hm⟩ := Except.exists_of_isOk hok
    obtain ⟨-, enum, henum, -, hfield⟩ := hbuilt _ _ _ _ _ _ hsource hm
      (none, ⟨1, "E", ∅, [⟨1, "V", some (.integer "-0X80000000")⟩]⟩) (by decide)
      ⟨1, "V", some (.integer "-0X80000000")⟩ (by decide) rfl
    exact ⟨m, hm, enum, henum, hfield⟩

end Module

end WireSchema
