import Mathlib.Data.List.Chain
import Mathlib.Logic.Relation
import WireSchema.Proofs.Module.Tables

/-!
# Integers of enum fields and constants

What the tables say about the integer of a declaration is a system of equations: `Names.Equation` gives
one for each declaration, `Names.Solves` says that integers satisfy all of them, and
`Names.Denotes` is the integer that follows from the equations in finitely many steps. A lookup that
follows references and remembers the keys it has passed finds denoted integers only
(`Names.denotes_of_integerAt`). It stops with `notAnInteger` if the references return to a key that
was passed (`Names.integerAt_of_returns`); otherwise what it remembers does not matter
(`Names.evaluates_integerAt`).
-/

namespace WireSchema.Module

/-- The key of a declaration that may have an integer. -/
def Names.Target.key : Names.Target → String
  | .field key | .constant key => key

namespace Names

variable {names known : Names} {scope visiting : List String} {name key : String} {line : UInt32}
  {t u : Target} {base : Option Target} {n k more : Int} {expr : ValueExpr} {value : Value}

/-! ## What the tables say -/

/-- The declaration that a name selects: of the names it can stand for, in their order, the first
that is an enum field, or the first that is a constant if none is an enum field. -/
inductive Selects (names : Names) (scope : List String) (name : String) : Target → Prop where
  | field {before after : List String} {key : String}
    (order : names.candidates scope name = before ++ key :: after)
    (skipped : ∀ k ∈ before, names.isField k = false) (found : names.isField key = true) :
    Selects names scope name (.field key)
  | constant {before after : List String} {key : String}
    (noField : ∀ k ∈ names.candidates scope name, names.isField k = false)
    (order : names.candidates scope name = before ++ key :: after)
    (skipped : ∀ k ∈ before, (names.constants.lookup k).isSome = false)
    (found : (names.constants.lookup key).isSome = true) : Selects names scope name (.constant key)

/-- The integer of a written value: it is given, or it is that of a declaration. -/
inductive ExprEquation (names : Names) (scope : List String) :
    ValueExpr → Option Target → Int → Prop where
  | integer {text : String} {n : Int} (read : Text.readInteger? text = some n) :
    ExprEquation names scope (.integer text) none n
  | name {name : String} {t : Target} (selects : names.Selects scope name t) :
    ExprEquation names scope (.name name) (some t) 0

/-- The integer of the value of an imported constant. -/
inductive ValueEquation : Value → Option Target → Int → Prop where
  | member (m : EnumMember) : ValueEquation (.member m) none m.value
  | integer {text : String} {n : Int} (read : Text.readInteger? text = some n) :
    ValueEquation (.literal (.integer text)) none n
  | constant (decl : DeclRef) : ValueEquation (.constant decl) (some (.constant decl.qualified)) 0

/-- `Equation names t none n`: the integer of `t` is `n`. `Equation names t (some u) n`: the integer
of `t` is `n` more than that of `u`. -/
inductive Equation (names : Names) : Target → Option Target → Int → Prop where
  | member {key : String} {m : EnumMember} (known : names.members.lookup key = some m) :
    Equation names (.field key) none m.value
  | first {key : String} {f : LocalField} (unknown : names.members.lookup key = none)
    (declared : names.fields.lookup key = some f) (unwritten : f.written = none)
    (first : f.previous = none) : Equation names (.field key) none 0
  | next {key before name : String} {line : UInt32} {f : LocalField}
    (unknown : names.members.lookup key = none) (declared : names.fields.lookup key = some f)
    (unwritten : f.written = none) (next : f.previous = some (before, name, line)) :
    Equation names (.field key) (some (.field before)) 1
  | written {key : String} {f : LocalField} {expr : ValueExpr} {base : Option Target} {n : Int}
    (unknown : names.members.lookup key = none) (declared : names.fields.lookup key = some f)
    (written : f.written = some expr) (equation : names.ExprEquation f.scope expr base n) :
    Equation names (.field key) base n
  | imported {key : String} {decl : DeclRef} {value : Value} {base : Option Target} {n : Int}
    (declared : names.constants.lookup key = some (.imported decl value))
    (equation : ValueEquation value base n) : Equation names (.constant key) base n
  | constant {key : String} {decl : DeclRef} {expr : ValueExpr} {scope : List String}
    {base : Option Target} {n : Int}
    (declared : names.constants.lookup key = some (.declared decl expr scope))
    (equation : names.ExprEquation scope expr base n) : Equation names (.constant key) base n

/-- The range of enum values. -/
def InRange (n : Int) : Prop :=
  -2147483648 ≤ n ∧ n ≤ 2147483647

/-- Integers of enum fields are in range, unless they are known already. -/
def Fits (names : Names) : Target → Int → Prop
  | .field key, n => names.members.lookup key = none → InRange n
  | .constant _, _ => True

/-- The integer that follows from what the tables say. -/
inductive Denotes (names : Names) : Target → Int → Prop where
  | known {t : Target} {n : Int} (equation : names.Equation t none n) (fits : names.Fits t n) :
    Denotes names t n
  | follow {t u : Target} {n more : Int} (equation : names.Equation t (some u) more)
    (denotes : Denotes names u n) (fits : names.Fits t (n + more)) : Denotes names t (n + more)

/-! ## One step of the lookup -/

theorem selects_iff : names.Selects scope name t ↔ names.target? scope name = some t := by
  constructor
  · rintro (⟨order, skipped, found⟩ | ⟨noField, order, skipped, found⟩)
    · have hfind : (names.candidates scope name).find? names.isField = some _ :=
        List.find?_eq_some_iff_append.2 ⟨found, _, _, order, by simpa using skipped⟩
      simp only [target?, hfind]
    · have hnone : (names.candidates scope name).find? names.isField = none :=
        List.find?_eq_none.2 (by simpa using noField)
      have hfind : (names.candidates scope name).find? (fun k => (names.constants.lookup k).isSome) =
          some _ :=
        List.find?_eq_some_iff_append.2 ⟨found, _, _, order, by simpa using skipped⟩
      simp only [target?, hnone, hfind, Option.map_some]
  · intro h
    simp only [target?] at h
    split at h
    · next key hkey =>
      cases h
      obtain ⟨found, before, after, order, skipped⟩ := List.find?_eq_some_iff_append.1 hkey
      exact .field order (by simpa using skipped) found
    · next hnone =>
      obtain ⟨key, hkey, rfl⟩ := Option.map_eq_some_iff.1 h
      obtain ⟨found, before, after, order, skipped⟩ := List.find?_eq_some_iff_append.1 hkey
      exact .constant (by simpa using hnone) order (by simpa using skipped) found

/-- The integer of a declaration that is known without following anything. -/
def known? (names : Names) : Target → Option Int
  | .field key => (names.members.lookup key).map EnumMember.value
  | .constant _ => none

/-- A declaration that is there and whose integer is still to be found. -/
def Pending (names : Names) : Target → Prop
  | .field key => names.members.lookup key = none ∧ (names.fields.lookup key).isSome
  | .constant _ => True

/-- The lead of a declaration, which is blamed by name and line if it is missing. -/
def lead (names : Names) (t : Target) (name : String) (line : UInt32) : Except BuildFault Lead :=
  match t with
  | .field key =>
    match names.fields.lookup key with
    | some f => names.fieldLead f
    | none => .error (.resolution line (.unknownValue name))
  | .constant key =>
    match names.constants.lookup key with
    | some entry => names.constantLead name line entry
    | none => .error (.resolution line (.unknownValue name))

/-- Checks the integer found for a declaration. -/
def check (names : Names) (t : Target) (n : Int) : Except BuildFault Int :=
  match t with
  | .field key =>
    match names.fields.lookup key with
    | some f => checkRange f n
    | none => .ok n
  | .constant _ => .ok n

/-- A lead without the name and line that it blames. -/
def Lead.parts : Lead → Option Target × Int
  | .integer n => (none, n)
  | .follow target _ _ more => (some target, more)

theorem exprEquation_iff : (∃ l, names.exprLead scope line expr = .ok l ∧ l.parts = (base, n)) ↔
    names.ExprEquation scope expr base n := by
  constructor
  · rintro ⟨l, hl, hparts⟩
    unfold exprLead at hl
    split at hl
    · split at hl
      · next hread =>
        cases hl
        cases hparts
        exact .integer hread
      · cases hl
    · split at hl
      · next htarget =>
        cases hl
        cases hparts
        exact .name (selects_iff.2 htarget)
      · cases hl
    · cases hl
  · intro h
    cases h with
    | @integer text n read => exact ⟨.integer n, by simp only [exprLead, read], rfl⟩
    | @name name t selects =>
      exact ⟨.follow t name line 0, by simp only [exprLead, selects_iff.1 selects], rfl⟩

theorem valueEquation_iff {decl : DeclRef} :
    (∃ l, names.constantLead name line (.imported decl value) = .ok l ∧ l.parts = (base, n)) ↔
      ValueEquation value base n := by
  constructor
  · rintro ⟨l, hl, hparts⟩
    cases value with
    | member m =>
      cases hl
      cases hparts
      exact .member m
    | constant decl =>
      cases hl
      cases hparts
      exact .constant decl
    | literal literal =>
      cases literal with
      | integer text =>
        simp only [constantLead] at hl
        split at hl
        · next hread =>
          cases hl
          cases hparts
          exact .integer hread
        · cases hl
      | _ => cases hl
  · intro h
    cases h with
    | member m => exact ⟨.integer m.value, rfl, rfl⟩
    | @integer text n read => exact ⟨.integer n, by simp only [constantLead, read], rfl⟩
    | constant decl => exact ⟨.follow (.constant decl.qualified) name line 0, rfl, rfl⟩

/-- Leads are the equations of declarations whose integers are not known. -/
theorem equation_iff (h : names.known? t = none) :
    (∃ l, names.lead t name line = .ok l ∧ l.parts = (base, n)) ↔ names.Equation t base n := by
  cases t with
  | field key =>
    have unknown : names.members.lookup key = none := by simpa [known?] using h
    constructor
    · rintro ⟨l, hl, hparts⟩
      simp only [lead] at hl
      split at hl
      · next f hf =>
        simp only [fieldLead] at hl
        split at hl
        · next hwritten => exact .written unknown hf hwritten (exprEquation_iff.1 ⟨l, hl, hparts⟩)
        · next hwritten hprevious =>
          cases hl
          cases hparts
          exact .first unknown hf hwritten hprevious
        · next hwritten hprevious =>
          cases hl
          cases hparts
          exact .next unknown hf hwritten hprevious
      · cases hl
    · intro hequation
      cases hequation with
      | member known => rw [unknown] at known; cases known
      | first _ declared unwritten first =>
        exact ⟨.integer 0, by simp only [lead, declared, fieldLead, unwritten, first], rfl⟩
      | @next _ before previous line _ _ declared unwritten next =>
        exact ⟨.follow (.field before) previous line 1,
          by simp only [lead, declared, fieldLead, unwritten, next], rfl⟩
      | written _ declared written equation =>
        simp only [lead, declared, fieldLead, written]
        exact exprEquation_iff.2 equation
  | constant key =>
    constructor
    · rintro ⟨l, hl, hparts⟩
      simp only [lead] at hl
      split at hl
      · next entry hentry =>
        cases entry with
        | imported decl value => exact .imported hentry (valueEquation_iff.1 ⟨l, hl, hparts⟩)
        | declared decl expr scope => exact .constant hentry (exprEquation_iff.1 ⟨l, hl, hparts⟩)
      · cases hl
    · intro hequation
      cases hequation with
      | imported declared equation =>
        simp only [lead, declared]
        exact valueEquation_iff.2 equation
      | constant declared equation =>
        simp only [lead, declared]
        exact exprEquation_iff.2 equation

theorem equation_of_known? (h : names.known? t = some k) :
    names.Equation t base n ↔ base = none ∧ n = k := by
  cases t with
  | constant key => cases h
  | field key =>
    obtain ⟨m, known, rfl⟩ := Option.map_eq_some_iff.1 h
    constructor
    · intro hequation
      cases hequation with
      | member known' =>
        rw [known] at known'
        cases known'
        exact ⟨rfl, rfl⟩
      | first unknown | next unknown | written unknown =>
        rw [known] at unknown
        cases unknown
    · rintro ⟨rfl, rfl⟩
      exact .member known

/-- There is at most one equation for each declaration. -/
theorem Equation.unique {base' : Option Target} {n' : Int} (h : names.Equation t base n)
    (h' : names.Equation t base' n') : base = base' ∧ n = n' := by
  cases hknown : names.known? t with
  | some k =>
    obtain ⟨rfl, rfl⟩ := (equation_of_known? hknown).1 h
    obtain ⟨rfl, rfl⟩ := (equation_of_known? hknown).1 h'
    exact ⟨rfl, rfl⟩
  | none =>
    obtain ⟨l, hl, hparts⟩ : ∃ l, names.lead t "" 0 = .ok l ∧ l.parts = (base, n) :=
      (equation_iff hknown).2 h
    obtain ⟨l', hl', hparts'⟩ := (equation_iff hknown).2 h'
    obtain rfl := Except.ok.inj (hl.symm.trans hl')
    exact Prod.mk.inj (hparts.symm.trans hparts')

theorem known?_of_equation (h : names.Equation t (some u) more) : names.known? t = none := by
  cases hknown : names.known? t with
  | some k => cases ((equation_of_known? hknown).1 h).1
  | none => rfl

/-! ## The lookup -/

/-- What is made of a lead, given how the lookup goes on. -/
def resume (names : Names) (next : Target → String → UInt32 → Except BuildFault Int) (t : Target) :
    Lead → Except BuildFault Int
  | .integer n => names.check t n
  | .follow u name line more => next u name line >>= fun n => names.check t (n + more)

theorem integerAt_of_known (h : names.known? t = some k) :
    names.integerAt visiting t name line = .ok k := by
  cases t with
  | constant key => cases h
  | field key =>
    obtain ⟨m, known, rfl⟩ := Option.map_eq_some_iff.1 h
    rw [integerAt]
    simp only [known]

theorem integerAt_of_passed (pending : names.Pending t) (passed : t.key ∈ visiting) :
    names.integerAt visiting t name line = .error (.resolution line (.notAnInteger name)) := by
  cases t with
  | constant key =>
    rw [integerAt]
    exact dif_pos passed
  | field key =>
    obtain ⟨unknown, declared⟩ := pending
    obtain ⟨f, declared⟩ := Option.isSome_iff_exists.1 declared
    rw [integerAt]
    simp only [unknown]
    split
    · next missing => rw [declared] at missing; cases missing
    · exact dif_pos passed

theorem integerAt_eq (h : names.known? t = none) (free : names.Pending t → t.key ∉ visiting) :
    names.integerAt visiting t name line =
      names.lead t name line >>= names.resume (names.integerAt (t.key :: visiting)) t := by
  cases t with
  | constant key =>
    have hkey : key ∉ visiting := free trivial
    rw [integerAt, dif_neg hkey]
    simp only [lead]
    split
    · next missing => simp only [missing]; rfl
    · next entry hentry =>
      simp only [hentry]
      cases hlead : names.constantLead name line entry with
      | error e => rfl
      | ok l =>
        cases l with
        | integer n => rfl
        | follow u name line more =>
          simp only [resume, bind, Except.bind, Target.key, check]
          cases names.integerAt (key :: visiting) u name line <;> rfl
  | field key =>
    have unknown : names.members.lookup key = none := by simpa [known?] using h
    rw [integerAt]
    simp only [unknown, lead]
    split
    · next missing => simp only [missing]; rfl
    · next f declared =>
      have hkey : key ∉ visiting := free ⟨unknown, by rw [declared]; rfl⟩
      rw [dif_neg hkey]
      simp only [declared]
      cases hlead : names.fieldLead f with
      | error e => rfl
      | ok l =>
        cases l with
        | integer n => simp only [resume, bind, Except.bind, check, declared]
        | follow u name line more =>
          simp only [resume, bind, Except.bind, Target.key, check, declared]
          cases names.integerAt (key :: visiting) u name line <;> rfl

/-! ## References that return -/

/-- The integer of a declaration is found from that of another one. -/
def Refers (names : Names) (t u : Target) : Prop :=
  ∃ more, names.Equation t (some u) more

/-- The chain of references from a declaration comes to a declaration whose integer is not known and
whose key is on the chain already, or among those passed before it. -/
inductive Returns (names : Names) : List String → Target → Prop where
  | back {passed : List String} {t : Target} (pending : names.Pending t) (mem : t.key ∈ passed) :
    Returns names passed t
  | follow {passed : List String} {t u : Target} (refers : names.Refers t u)
    (returns : Returns names (t.key :: passed) u) : Returns names passed t

/-- The outcome of following leads, with no memory of the keys passed. -/
inductive Evaluates (names : Names) : Target → String → UInt32 → Except BuildFault Int → Prop where
  | known {t : Target} {name : String} {line : UInt32} {n : Int} (known : names.known? t = some n) :
    Evaluates names t name line (.ok n)
  | stuck {t : Target} {name : String} {line : UInt32} {e : BuildFault}
    (unknown : names.known? t = none) (lead : names.lead t name line = .error e) :
    Evaluates names t name line (.error e)
  | found {t : Target} {name : String} {line : UInt32} {n : Int} (unknown : names.known? t = none)
    (lead : names.lead t name line = .ok (.integer n)) : Evaluates names t name line (names.check t n)
  | follow {t u : Target} {name name' : String} {line line' : UInt32} {more : Int}
    {outcome : Except BuildFault Int} (unknown : names.known? t = none)
    (lead : names.lead t name line = .ok (.follow u name' line' more))
    (next : Evaluates names u name' line' outcome) :
    Evaluates names t name line (outcome >>= fun n => names.check t (n + more))

theorem exists_lead_of_refers (h : names.Refers t u) (name : String) (line : UInt32) :
    ∃ name' line' more, names.lead t name line = .ok (.follow u name' line' more) := by
  obtain ⟨more, hequation⟩ := h
  obtain ⟨l, hl, hparts⟩ : ∃ l, names.lead t name line = .ok l ∧ l.parts = (some u, more) :=
    (equation_iff (known?_of_equation hequation)).2 hequation
  cases l with
  | integer n => cases hparts
  | follow u' name' line' more' =>
    cases hparts
    exact ⟨name', line', more, hl⟩

theorem equation_of_lead {name' : String} {line' : UInt32} (h : names.known? t = none)
    (hl : names.lead t name line = .ok (.follow u name' line' more)) :
    names.Equation t (some u) more :=
  (equation_iff h).1 ⟨_, hl, rfl⟩

/-- A lookup that returns to a key stops there. -/
theorem integerAt_of_returns (h : names.Returns visiting t) (name : String) (line : UInt32) :
    ∃ name' line', names.integerAt visiting t name line =
      .error (.resolution line' (.notAnInteger name')) := by
  induction h generalizing name line with
  | back pending mem => exact ⟨name, line, integerAt_of_passed pending mem⟩
  | @follow passed t u refers returns ih =>
    by_cases hpassed : names.Pending t ∧ t.key ∈ passed
    · exact ⟨name, line, integerAt_of_passed hpassed.1 hpassed.2⟩
    · obtain ⟨name₁, line₁, more, hlead⟩ := exists_lead_of_refers refers name line
      obtain ⟨name', line', herror⟩ := ih name₁ line₁
      refine ⟨name', line', ?_⟩
      rw [integerAt_eq (known?_of_equation refers.choose_spec) (by simpa using hpassed), hlead]
      simp only [bind, Except.bind, resume, herror]

theorem pending_of_lead {l : Lead} (h : names.known? t = none) (hl : names.lead t name line = .ok l) :
    names.Pending t ∧ t.key ∈ names.keys := by
  cases t with
  | field key =>
    have unknown : names.members.lookup key = none := by simpa [known?] using h
    simp only [lead] at hl
    split at hl
    · next f declared => exact ⟨⟨unknown, by rw [declared]; rfl⟩, mem_keys_of_field declared⟩
    · cases hl
  | constant key =>
    simp only [lead] at hl
    split at hl
    · next entry declared => exact ⟨trivial, mem_keys_of_constant declared⟩
    · cases hl

/-- A lookup that does not return to a key finds what it finds without remembering any. -/
theorem evaluates_integerAt (h : ¬ names.Returns visiting t) (name : String) (line : UInt32) :
    names.Evaluates t name line (names.integerAt visiting t name line) := by
  -- The keys that are left get fewer with each lead that is followed.
  induction hleft : remaining names.keys visiting using Nat.strong_induction_on
    generalizing visiting t name line with
  | _ left ih =>
    cases hknown : names.known? t with
    | some k =>
      rw [integerAt_of_known hknown]
      exact .known hknown
    | none =>
      have free : names.Pending t → t.key ∉ visiting := fun pending mem => h (.back pending mem)
      rw [integerAt_eq hknown free]
      cases hlead : names.lead t name line with
      | error e => exact .stuck hknown hlead
      | ok l =>
        cases l with
        | integer n => exact .found hknown hlead
        | follow u name' line' more =>
          obtain ⟨pending, hkey⟩ := pending_of_lead hknown hlead
          refine .follow hknown hlead (ih _ ?_ (fun returns => h (.follow ?_ returns)) _ _ rfl)
          · exact hleft ▸ remaining_cons_lt hkey (free pending)
          · exact ⟨more, equation_of_lead hknown hlead⟩

theorem Evaluates.unique {outcome outcome' : Except BuildFault Int}
    (h : names.Evaluates t name line outcome) (h' : names.Evaluates t name line outcome') :
    outcome = outcome' := by
  induction h generalizing outcome' with
  | known known => cases h' <;> simp_all
  | stuck unknown lead => cases h' <;> simp_all
  | found unknown lead => cases h' <;> simp_all
  | follow unknown lead next ih =>
    cases h' with
    | known known => simp_all
    | stuck unknown lead' => simp_all
    | found unknown lead' => simp_all
    | follow unknown' lead' next' =>
      rw [lead] at lead'
      cases lead'
      rw [ih next']

/-! ## Denoted integers -/

theorem check_eq_ok (pending : names.Pending t) :
    names.check t n = .ok k ↔ n = k ∧ names.Fits t n := by
  cases t with
  | constant key => simp [check, Fits]
  | field key =>
    obtain ⟨unknown, declared⟩ := pending
    obtain ⟨f, declared⟩ := Option.isSome_iff_exists.1 declared
    simp only [check, declared, checkRange, Fits, unknown, InRange, forall_const]
    split
    · next hrange => simp [hrange]
    · next hrange =>
      refine ⟨fun h => ?_, fun h => absurd h.2 hrange⟩
      cases h

theorem denotes_of_known (h : names.known? t = some k) : names.Denotes t k := by
  refine .known ((equation_of_known? h).2 ⟨rfl, rfl⟩) ?_
  cases t with
  | constant key => trivial
  | field key =>
    intro unknown
    simp [known?, unknown] at h

theorem denotes_of_evaluates {outcome : Except BuildFault Int}
    (h : names.Evaluates t name line outcome) (hn : outcome = .ok n) : names.Denotes t n := by
  induction h generalizing n with
  | known known =>
    cases hn
    exact denotes_of_known known
  | stuck => cases hn
  | found unknown lead =>
    obtain ⟨rfl, fits⟩ := (check_eq_ok (pending_of_lead unknown lead).1).1 hn
    exact .known ((equation_iff unknown).1 ⟨_, lead, rfl⟩) fits
  | follow unknown lead next ih =>
    obtain ⟨k, hk, hcheck⟩ := Except.bind_eq_ok.1 hn
    obtain ⟨rfl, fits⟩ := (check_eq_ok (pending_of_lead unknown lead).1).1 hcheck
    exact .follow (equation_of_lead unknown lead) (ih hk) fits

theorem evaluates_of_denotes (h : names.Denotes t n) (name : String) (line : UInt32) :
    names.Evaluates t name line (.ok n) := by
  induction h generalizing name line with
  | @known t n equation fits =>
    cases hknown : names.known? t with
    | some k =>
      obtain ⟨-, rfl⟩ := (equation_of_known? hknown).1 equation
      exact .known hknown
    | none =>
      obtain ⟨l, hl, hparts⟩ := (equation_iff hknown).2 equation
      cases l with
      | follow => cases hparts
      | integer n =>
        cases hparts
        rw [← (check_eq_ok (pending_of_lead hknown hl).1).2 ⟨rfl, fits⟩]
        exact .found hknown hl
  | @follow t u n more equation denotes fits ih =>
    have hknown := known?_of_equation equation
    obtain ⟨name', line', more', hl⟩ := exists_lead_of_refers ⟨more, equation⟩ name line
    obtain ⟨-, rfl⟩ := equation.unique (equation_of_lead hknown hl)
    have hcheck := (check_eq_ok (pending_of_lead hknown hl).1).2 ⟨rfl, fits⟩
    rw [← hcheck]
    exact .follow hknown hl (ih name' line')

theorem Denotes.fits (h : names.Denotes t n) : names.Fits t n := by
  cases h with
  | known equation fits | follow equation denotes fits => exact fits

theorem Denotes.exists_equation (h : names.Denotes t n) :
    ∃ base more, names.Equation t base more := by
  cases h with
  | known equation | follow equation => exact ⟨_, _, equation⟩

/-- What a lookup finds is denoted. -/
theorem denotes_of_integerAt (h : names.integerAt visiting t name line = .ok n) :
    names.Denotes t n := by
  by_cases hreturns : names.Returns visiting t
  · obtain ⟨name', line', herror⟩ := integerAt_of_returns hreturns name line
    rw [h] at herror
    cases herror
  · exact denotes_of_evaluates (evaluates_integerAt hreturns name line) h

/-- What is denoted is found, unless a key comes back on the way. -/
theorem integerAt_of_denotes (h : names.Denotes t n) (hreturns : ¬ names.Returns visiting t)
    (name : String) (line : UInt32) : names.integerAt visiting t name line = .ok n :=
  (evaluates_integerAt hreturns name line).unique (evaluates_of_denotes h name line)

theorem Denotes.unique {n' : Int} (h : names.Denotes t n) (h' : names.Denotes t n') : n = n' :=
  Except.ok.inj ((evaluates_of_denotes h "" 0).unique (evaluates_of_denotes h' "" 0))

theorem isField_of_equation (h : names.Equation (.field key) base n) : names.isField key = true := by
  cases h with
  | member known => simp [isField, known]
  | first unknown declared | next unknown declared | written unknown declared =>
    simp [isField, declared]

/-- A declaration that has an integer which is not known yet. -/
def Open (names : Names) (t : Target) : Prop :=
  names.known? t = none ∧ ∃ base n, names.Equation t base n

/-- No chain of references leads from one declaration to another one with the same key, unless the
integer of that one is known or it has none. -/
def Apart (names : Names) : Prop :=
  ∀ t u, Relation.TransGen names.Refers t u → names.Open u → t.key = u.key → t = u

theorem Denotes.exists_of_refers (h : names.Denotes t n) (hu : names.Refers t u) :
    ∃ k, names.Denotes u k := by
  obtain ⟨more, equation⟩ := hu
  cases h with
  | known equation' => cases (equation'.unique equation).1
  | follow equation' denotes =>
    cases (equation'.unique equation).1
    exact ⟨_, denotes⟩

/-- Chains from what is denoted end. -/
theorem Denotes.not_cyclic (h : names.Denotes t n) : ¬ Relation.TransGen names.Refers t t := by
  induction h with
  | known equation =>
    intro hcycle
    obtain ⟨u, ⟨more, equation'⟩, -⟩ := Relation.TransGen.head'_iff.1 hcycle
    cases (equation.unique equation').1
  | follow equation denotes fits ih =>
    intro hcycle
    obtain ⟨u, ⟨more, equation'⟩, hback⟩ := Relation.TransGen.head'_iff.1 hcycle
    cases (equation.unique equation').1
    exact ih (Relation.TransGen.tail' hback ⟨_, equation⟩)

theorem known?_of_pending (h : names.Pending t) : names.known? t = none := by
  cases t with
  | constant key => rfl
  | field key => simp [known?, h.1]

/-- If no enum field has the key of a constant, no chain confuses two declarations. -/
theorem apart_of_lookup
    (h : ∀ key, (names.fields.lookup key).isSome → names.constants.lookup key = none) :
    names.Apart := by
  have hfield : ∀ {key base n}, names.known? (.field key) = none →
      names.Equation (.field key) base n → (names.fields.lookup key).isSome := by
    intro key base n hknown equation
    obtain ⟨l, hl, -⟩ : ∃ l, names.lead (.field key) "" 0 = .ok l ∧ l.parts = (base, n) :=
      (equation_iff hknown).2 equation
    exact (pending_of_lead hknown hl).1.2
  have hconstant : ∀ {key base n}, names.Equation (.constant key) base n →
      names.constants.lookup key ≠ none := by
    intro key base n equation
    cases equation with
    | imported declared | constant declared => simp [declared]
  intro t u hchain ⟨hknown, base, n, equation⟩ hkey
  obtain ⟨_, ⟨more, equation'⟩, -⟩ := Relation.TransGen.head'_iff.1 hchain
  cases t with
  | field key =>
    cases u with
    | field key' => rw [show key = key' from hkey]
    | constant key' =>
      obtain rfl : key = key' := hkey
      exact absurd (h key (hfield (known?_of_equation equation') equation')) (hconstant equation)
  | constant key =>
    cases u with
    | constant key' => rw [show key = key' from hkey]
    | field key' =>
      obtain rfl : key = key' := hkey
      exact absurd (h key (hfield hknown equation)) (hconstant equation')

/-- The chain from what is denoted comes back to no key. -/
theorem Denotes.not_returns (apart : names.Apart) (h : names.Denotes t n) {passed : List String}
    (hpassed : ∀ key ∈ passed, ∃ s, s.key = key ∧ Relation.TransGen names.Refers s t) :
    ¬ names.Returns passed t := by
  intro hreturns
  induction hreturns generalizing n with
  | @back passed t pending mem =>
    obtain ⟨s, hkey, hchain⟩ := hpassed _ mem
    obtain rfl := apart _ _ hchain ⟨known?_of_pending pending, h.exists_equation⟩ hkey
    exact h.not_cyclic hchain
  | follow refers returns ih =>
    obtain ⟨k, hk⟩ := h.exists_of_refers refers
    refine ih hk (List.forall_mem_cons.2 ⟨⟨_, rfl, .single refers⟩, fun key hkey => ?_⟩)
    obtain ⟨s, hs, hchain⟩ := hpassed key hkey
    exact ⟨s, hs, hchain.tail refers⟩

/-! ## Tables in which more is known -/

/-- `Knows names known`: in `known` is found what is found in `names` and, for some fields of
`names`, what they denote. -/
structure Knows (names known : Names) : Prop where
  space : known.space = names.space
  kinds : ∀ key, known.kinds.lookup key = names.kinds.lookup key
  fields : ∀ key, known.fields.lookup key = names.fields.lookup key
  constants : ∀ key, known.constants.lookup key = names.constants.lookup key
  members : ∀ {key m}, known.members.lookup key = some m → names.Denotes (.field key) m.value
  grows : ∀ {key}, known.members.lookup key = none → names.members.lookup key = none

namespace Knows

theorem refl (names : Names) : names.Knows names :=
  ⟨rfl, fun _ => rfl, fun _ => rfl, fun _ => rfl,
    fun known => denotes_of_known (by rw [Names.known?, known]; rfl), fun unknown => unknown⟩

theorem addMember {m : EnumMember} (h : names.Knows known)
    (hm : names.Denotes (.field (m.enum.qualified ++ "." ++ m.name)) m.value) :
    names.Knows (known.addMember m) := by
  refine ⟨h.space, h.kinds, h.fields, h.constants, fun {key m'} hlookup => ?_,
    fun {key} hlookup => ?_⟩
  · rw [Names.addMember, List.lookup_cons] at hlookup
    split at hlookup
    · next hkey =>
      cases hlookup
      exact eq_of_beq hkey ▸ hm
    · exact h.members hlookup
  · rw [Names.addMember, List.lookup_cons] at hlookup
    split at hlookup
    · cases hlookup
    · exact h.grows hlookup

theorem isField (h : names.Knows known) (key : String) : known.isField key = names.isField key := by
  have hdenotes : ∀ n, names.Denotes (.field key) n → names.isField key = true := by
    intro n hn
    obtain ⟨base, more, equation⟩ := hn.exists_equation
    exact isField_of_equation equation
  cases hlookup : known.members.lookup key with
  | some m => rw [hdenotes _ (h.members hlookup), Names.isField, hlookup]; rfl
  | none => rw [Names.isField, Names.isField, hlookup, h.grows hlookup, h.fields]

theorem target? (h : names.Knows known) : known.target? scope name = names.target? scope name := by
  simp only [Names.target?, candidates, h.space, h.constants, funext h.isField]

theorem lead (h : names.Knows known) : known.lead t name line = names.lead t name line := by
  simp only [Names.lead, fieldLead, constantLead, exprLead, h.fields, h.constants, h.target?]

theorem known? (h : names.Knows known) (hknown : known.known? t = none) : names.known? t = none := by
  cases t with
  | constant key => rfl
  | field key =>
    have unknown : known.members.lookup key = none := by simpa [Names.known?] using hknown
    rw [Names.known?, h.grows unknown]
    rfl

theorem equation_iff (h : names.Knows known) (hknown : known.known? t = none) :
    known.Equation t base n ↔ names.Equation t base n :=
  calc known.Equation t base n
    _ ↔ ∃ l, known.lead t "" 0 = .ok l ∧ l.parts = (base, n) := (Names.equation_iff hknown).symm
    _ ↔ ∃ l, names.lead t "" 0 = .ok l ∧ l.parts = (base, n) := by rw [h.lead]
    _ ↔ names.Equation t base n := Names.equation_iff (h.known? hknown)

theorem fits_iff (h : names.Knows known) (hknown : known.known? t = none) :
    known.Fits t n ↔ names.Fits t n := by
  cases t with
  | constant key => rfl
  | field key =>
    have unknown : known.members.lookup key = none := by simpa [Names.known?] using hknown
    simp only [Fits, unknown, h.grows unknown]

theorem denotes_of_known (h : names.Knows known) (hknown : known.known? t = some k) :
    names.Denotes t k := by
  cases t with
  | constant key => cases hknown
  | field key =>
    obtain ⟨m, hlookup, rfl⟩ := Option.map_eq_some_iff.1 hknown
    exact h.members hlookup

/-- What more is known changes no denotation. -/
theorem denotes (h : names.Knows known) (hn : known.Denotes t n) : names.Denotes t n := by
  induction hn with
  | @known t n equation fits =>
    cases hknown : known.known? t with
    | some k =>
      obtain ⟨-, rfl⟩ := (equation_of_known? hknown).1 equation
      exact h.denotes_of_known hknown
    | none => exact .known ((h.equation_iff hknown).1 equation) ((h.fits_iff hknown).1 fits)
  | follow equation denotes fits ih =>
    have hknown := known?_of_equation equation
    exact .follow ((h.equation_iff hknown).1 equation) ih ((h.fits_iff hknown).1 fits)

/-- What is denoted is denoted where more is known. -/
theorem denotes_of (h : names.Knows known) (hn : names.Denotes t n) : known.Denotes t n := by
  induction hn with
  | @known t n equation fits =>
    cases hknown : known.known? t with
    | some k =>
      obtain rfl := (h.denotes_of_known hknown).unique (.known equation fits)
      exact Names.denotes_of_known hknown
    | none => exact .known ((h.equation_iff hknown).2 equation) ((h.fits_iff hknown).2 fits)
  | @follow t u n more equation denotes fits ih =>
    cases hknown : known.known? t with
    | some k =>
      obtain rfl := (h.denotes_of_known hknown).unique (.follow equation denotes fits)
      exact Names.denotes_of_known hknown
    | none => exact .follow ((h.equation_iff hknown).2 equation) ih ((h.fits_iff hknown).2 fits)

theorem refers (h : names.Knows known) (hu : known.Refers t u) : names.Refers t u := by
  obtain ⟨more, equation⟩ := hu
  exact ⟨more, (h.equation_iff (known?_of_equation equation)).1 equation⟩

theorem apart (h : names.Knows known) (hnames : names.Apart) : known.Apart := by
  intro t u hchain ⟨hknown, base, n, equation⟩
  refine hnames t u (hchain.lift id fun _ _ => h.refers) ⟨h.known? hknown, base, n, ?_⟩
  exact (h.equation_iff hknown).1 equation

theorem integerAt (h : names.Knows known) (hapart : names.Apart) (hn : names.Denotes t n)
    (name : String) (line : UInt32) : known.integerAt [] t name line = .ok n := by
  have hdenotes := h.denotes_of hn
  exact integerAt_of_denotes hdenotes (hdenotes.not_returns (h.apart hapart) (by simp)) name line

end Knows

end Names

end WireSchema.Module
