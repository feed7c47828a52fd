import Mathlib.Tactic.IntervalCases
import WireSchema.Proofs.Grammar.Completeness

/-!
# Reading undoes writing

A tree is written by any token list that is a file for it, whatever the lines of the tokens are:
`Renders` leaves the choice of every optional part open. Reading gives the tree back without its lines
(`Tree.ofTokens_of_renders`). The trees that can be written are those with modules as a file has them
and no type name that starts with `handle` (`Tree.WellFormed`).
-/

namespace WireSchema

/-! ## Trees without lines -/

namespace Tree

def Import.unlined (i : Import) : Import := { i with line := 0 }

def Attribute.unlined (a : Attribute) : Attribute := { a with line := 0 }

def EnumValue.unlined (v : EnumValue) : EnumValue := { v with line := 0 }

def Enum.unlined (e : Enum) : Enum :=
  { e with
    line := 0
    attributes := e.attributes.map Attribute.unlined
    values := e.values.map EnumValue.unlined }

def Constant.unlined (c : Constant) : Constant :=
  { c with line := 0, attributes := c.attributes.map Attribute.unlined }

def Field.unlined (f : Field) : Field :=
  { f with line := 0, attributes := f.attributes.map Attribute.unlined }

def StructMember.unlined : StructMember → StructMember
  | field f => field f.unlined
  | enum e => enum e.unlined
  | constant c => constant c.unlined

def Struct.unlined (s : Struct) : Struct :=
  { s with
    line := 0
    attributes := s.attributes.map Attribute.unlined
    body := s.body.map StructMember.unlined }

def Parameter.unlined (p : Parameter) : Parameter :=
  { p with line := 0, attributes := p.attributes.map Attribute.unlined }

def Method.unlined (m : Method) : Method :=
  { m with
    line := 0
    parameters := m.parameters.map Parameter.unlined
    response := m.response.map (·.map Parameter.unlined)
    attributes := m.attributes.map Attribute.unlined }

def InterfaceMember.unlined : InterfaceMember → InterfaceMember
  | method m => method m.unlined
  | enum e => enum e.unlined
  | constant c => constant c.unlined

def Interface.unlined (i : Interface) : Interface :=
  { i with
    line := 0
    attributes := i.attributes.map Attribute.unlined
    body := i.body.map InterfaceMember.unlined }

def Definition.unlined : Definition → Definition
  | struct s => struct s.unlined
  | interface i => interface i.unlined
  | enum e => enum e.unlined
  | constant c => constant c.unlined

def Module.unlined (m : Module) : Module :=
  { m with
    line := 0
    attributes := m.attributes.map Attribute.unlined
    definitions := m.definitions.map Definition.unlined }

/-- The tree with all lines set to zero. -/
def unlined (tree : Tree) : Tree :=
  ⟨tree.imports.map Import.unlined, tree.modules.map Module.unlined⟩

end Tree

/-- The tokens write the tree, up to its lines. -/
def Renders (tokens : List Token) (tree : Tree) : Prop :=
  ∃ lined, Phrase.File tokens lined ∧ lined.unlined = tree.unlined

/-! ## Well-formed trees

An identifier token holds any text, so every name can be written. -/

/-- Names of types are dotted names that do not start with `handle`. -/
def TypeExpr.WellFormed : TypeExpr → Prop
  | named name => ∃ first parts, first ≠ "handle" ∧ name = String.intercalate "." (first :: parts)
  | handle _ => True
  | array element => element.WellFormed
  | request inner => inner.WellFormed

namespace Tree

def StructMember.WellFormed : StructMember → Prop
  | field f => f.type.WellFormed
  | enum _ => True
  | constant c => c.type.WellFormed

def Method.WellFormed (m : Method) : Prop :=
  (∀ p ∈ m.parameters, p.type.WellFormed) ∧ ∀ ps ∈ m.response, ∀ p ∈ ps, p.type.WellFormed

def InterfaceMember.WellFormed : InterfaceMember → Prop
  | method m => m.WellFormed
  | enum _ => True
  | constant c => c.type.WellFormed

def Definition.WellFormed : Definition → Prop
  | struct s => ∀ m ∈ s.body, m.WellFormed
  | interface i => ∀ m ∈ i.body, m.WellFormed
  | enum _ => True
  | constant c => c.type.WellFormed

/-- Modules have names, or there is one without a name, without attributes and not empty. -/
structure WellFormed (tree : Tree) : Prop where
  definitions : ∀ m ∈ tree.modules, ∀ d ∈ m.definitions, d.WellFormed
  modules : (∀ m ∈ tree.modules, m.name ≠ none) ∨
    ∃ m, tree.modules = [m] ∧ m.name = none ∧ m.attributes = [] ∧ m.definitions ≠ []

end Tree

/-! ## Ways to write each node -/

namespace Text

theorem readDigits?_append (base acc : Nat) (xs ys : List Char) :
    readDigits? base acc (xs ++ ys) =
      (readDigits? base acc xs).bind fun acc' => readDigits? base acc' ys := by
  induction xs generalizing acc with
  | nil => rfl
  | cons c xs ih =>
    simp only [List.cons_append, readDigits?]
    split
    · split
      · exact ih _
      · rfl
    · rfl

theorem digitValue?_digitChar {d : Nat} (h : d < 10) :
    digitValue? d.digitChar = some d ∧ d.digitChar ≠ '+' := by
  interval_cases d <;> decide

/-- Every number has a decimal numeral. -/
theorem exists_digits (n : Nat) :
    ∃ c cs, c ≠ '+' ∧ readDigits? 10 0 (c :: cs) = some n := by
  induction n using Nat.strongRecOn with
  | ind n ih =>
    have hlast := digitValue?_digitChar (Nat.mod_lt n (by decide : 0 < 10))
    by_cases hn : n < 10
    · refine ⟨(n % 10).digitChar, [], hlast.2, ?_⟩
      simp only [readDigits?, hlast.1]
      rw [if_pos (by omega)]
      exact congrArg some (by omega)
    · obtain ⟨c, cs, hc, hread⟩ := ih (n / 10) (by omega)
      refine ⟨c, cs ++ [(n % 10).digitChar], hc, ?_⟩
      rw [← List.cons_append, readDigits?_append, hread, Option.bind_some]
      simp only [readDigits?, hlast.1]
      rw [if_pos (by omega)]
      exact congrArg some (by omega)

theorem exists_readOrdinal? (n : UInt32) : ∃ digits, readOrdinal? digits = some n := by
  obtain ⟨c, cs, hc, hread⟩ := exists_digits n.toNat
  refine ⟨String.ofList (c :: cs), ?_⟩
  have hle : n.toNat ≤ maxOrdinal := Nat.le_pred_of_lt n.toNat_lt
  simp [readOrdinal?, readNat?, hc, hread, hle]

end Text

namespace Phrase

variable {α : Type} {P : Phrase α} {as : List α}

theorem Many.exists_of_forall (h : ∀ a ∈ as, ∃ ts, P ts a) : ∃ ts, Many P ts as := by
  induction as with
  | nil => exact ⟨_, .nil⟩
  | cons a as ih =>
    obtain ⟨⟨ts, head⟩, htail⟩ := List.forall_mem_cons.1 h
    obtain ⟨ts', tail⟩ := ih htail
    exact ⟨_, .cons head tail⟩

theorem CommaList.exists_of_forall (h : ∀ a ∈ as, ∃ ts, P ts a) : ∃ ts, CommaList P ts as := by
  induction as with
  | nil => exact ⟨_, .nil⟩
  | cons a as ih =>
    obtain ⟨⟨ts, item⟩, htail⟩ := List.forall_mem_cons.1 h
    obtain ⟨ts', rest⟩ := ih htail
    exact ⟨_, @CommaList.more _ _ ts ts' 0 _ _ item rest⟩

theorem Separated.exists_of_forall (hne : as ≠ []) (h : ∀ a ∈ as, ∃ ts, P ts a) :
    ∃ ts, Separated P ts as := by
  induction as with
  | nil => exact absurd rfl hne
  | cons a as ih =>
    obtain ⟨⟨ts, item⟩, htail⟩ := List.forall_mem_cons.1 h
    cases as with
    | nil => exact ⟨_, .last item⟩
    | cons a' as =>
      obtain ⟨ts', rest⟩ := ih (List.cons_ne_nil _ _) htail
      exact ⟨_, @Separated.more _ _ ts ts' 0 _ _ item rest⟩

theorem Optional.exists_of_forall {o : Option α} (h : ∀ a ∈ o, ∃ ts, P ts a) :
    ∃ ts, Optional P ts o := by
  cases o with
  | none => exact ⟨_, .absent⟩
  | some a =>
    obtain ⟨ts, phrase⟩ := h a rfl
    exact ⟨ts, .present phrase⟩

theorem DottedName.exists_single (name : String) : ∃ ts, DottedName ts name :=
  ⟨_, @DottedName.mk 0 name [] [] .nil⟩

theorem exists_anyType (line : UInt32) {t : TypeExpr} (h : t.WellFormed) :
    ∃ ts, AnyType ts t ∧ ts.head?.map Token.line = some line := by
  induction t with
  | named name =>
    obtain ⟨first, parts, hfirst, rfl⟩ := h
    have hparts : ∀ part ∈ parts, ∃ ts, DotPart ts part := fun part _ => ⟨_, @DotPart.mk 0 0 part⟩
    obtain ⟨ts, rest⟩ := Many.exists_of_forall hparts
    exact ⟨_, .plain (@PlainType.named line first ts parts hfirst rest), rfl⟩
  | handle sort =>
    cases sort with
    | none => exact ⟨_, .plain (@PlainType.handle line), rfl⟩
    | some sort => exact ⟨_, .plain (@PlainType.handleOf line 0 0 0 sort), rfl⟩
  | array element ih =>
    obtain ⟨ts, written, start⟩ := ih h
    refine ⟨_, @AnyType.array 0 0 ts element written, ?_⟩
    obtain ⟨l, name, rest, rfl⟩ := written.exists_cons
    exact start
  | request inner ih =>
    obtain ⟨ts, written, start⟩ := ih h
    refine ⟨_, @AnyType.request 0 ts inner written, ?_⟩
    obtain ⟨l, name, rest, rfl⟩ := written.exists_cons
    exact start

theorem exists_value (v : ValueExpr) : ∃ ts, Value ts v := by
  cases v with
  | integer text => exact ⟨_, @Value.integer 0 text⟩
  | float text => exact ⟨_, @Value.float 0 text⟩
  | string text => exact ⟨_, @Value.string 0 text⟩
  | bool value =>
    cases value with
    | true => exact ⟨_, @Value.trueWord 0⟩
    | false => exact ⟨_, @Value.falseWord 0⟩
  | default => exact ⟨_, @Value.defaultWord 0⟩
  | name dotted =>
    obtain ⟨ts, written⟩ := DottedName.exists_single dotted
    exact ⟨ts, .name written⟩

theorem exists_assigned (v : ValueExpr) : ∃ ts, Assigned ts v := by
  obtain ⟨ts, value⟩ := exists_value v
  exact ⟨_, @Assigned.mk 0 ts v value⟩

theorem exists_expr (a : AttributeValue) : ∃ v, AttributeValue.ofExpr? v = some a := by
  cases a with
  | name n => exact ⟨.name n, rfl⟩
  | string s => exact ⟨.string s, rfl⟩
  | integer i => exact ⟨.integer i, rfl⟩
  | float f => exact ⟨.float f, rfl⟩
  | bool b => exact ⟨.bool b, rfl⟩

theorem exists_attribute (a : Tree.Attribute) : ∃ ts, Attribute ts a := by
  obtain ⟨v, allowed⟩ := exists_expr a.value
  obtain ⟨ts, value⟩ := exists_assigned v
  exact ⟨_, @Attribute.valued a.line a.key ts v a.value value allowed⟩

theorem exists_attributes (attributes : List Tree.Attribute) : ∃ ts, Attributes ts attributes := by
  obtain ⟨ts, items⟩ := CommaList.exists_of_forall fun a (_ : a ∈ attributes) => exists_attribute a
  exact ⟨_, .present (@AttributeList.mk 0 0 ts attributes items)⟩

theorem exists_ordinal (o : Option UInt32) : ∃ ts, Optional Ordinal ts o := by
  refine Optional.exists_of_forall fun n _ => ?_
  obtain ⟨digits, valid⟩ := Text.exists_readOrdinal? n
  exact ⟨_, @Ordinal.mk 0 digits n valid⟩

theorem exists_optionalValue (o : Option ValueExpr) : ∃ ts, Optional Assigned ts o :=
  Optional.exists_of_forall fun v _ => exists_assigned v

/-! ### Definitions -/

theorem exists_enum (e : Tree.Enum) : ∃ ts, Enum e.attributes ts e := by
  have hvalue : ∀ v ∈ e.values, ∃ ts, EnumValue ts v := by
    intro v _
    obtain ⟨ts, written⟩ := exists_optionalValue v.value
    exact ⟨_, @EnumValue.mk v.line v.name ts v.value written⟩
  obtain ⟨ts, body⟩ := CommaList.exists_of_forall hvalue
  exact ⟨_, @Enum.mk e.attributes e.line 0 0 0 e.name ts [] e.values body .absent⟩

theorem exists_constant {c : Tree.Constant} (h : c.type.WellFormed) :
    ∃ ts, Constant c.attributes ts c := by
  obtain ⟨ts, written, -⟩ := exists_anyType 0 h
  obtain ⟨vs, value⟩ := exists_assigned c.value
  exact ⟨_, @Constant.mk c.attributes c.line 0 0 c.name ts vs c.type c.value written value⟩

theorem exists_field {f : Tree.Field} (h : f.type.WellFormed) : ∃ ts, Field f.attributes ts f := by
  obtain ⟨ts, written, start⟩ := exists_anyType f.line h
  obtain ⟨os, numbered⟩ := exists_ordinal f.ordinal
  obtain ⟨vs, value⟩ := exists_optionalValue f.default
  exact ⟨_, @Field.mk f.attributes f.line 0 0 f.name ts os vs f.type f.ordinal f.default start written
    numbered value⟩

theorem exists_structMember {m : Tree.StructMember} (h : m.WellFormed) :
    ∃ ts, StructMember ts m := by
  cases m with
  | field f =>
    obtain ⟨as, list⟩ := exists_attributes f.attributes
    obtain ⟨ts, field⟩ := exists_field h
    exact ⟨_, .field list field⟩
  | enum e =>
    obtain ⟨as, list⟩ := exists_attributes e.attributes
    obtain ⟨ts, enum⟩ := exists_enum e
    exact ⟨_, .enum list enum⟩
  | constant c =>
    obtain ⟨as, list⟩ := exists_attributes c.attributes
    obtain ⟨ts, constant⟩ := exists_constant h
    exact ⟨_, .constant list constant⟩

theorem exists_parameters {ps : List Tree.Parameter} (h : ∀ p ∈ ps, p.type.WellFormed) :
    ∃ ts, Parameters ts ps := by
  have hparameter : ∀ p ∈ ps, ∃ ts, Parameter ts p := by
    intro p hp
    obtain ⟨as, list⟩ := exists_attributes p.attributes
    obtain ⟨ts, written, start⟩ := exists_anyType p.line (h p hp)
    obtain ⟨os, numbered⟩ := exists_ordinal p.ordinal
    exact ⟨_, @Parameter.mk p.line 0 p.name as ts os p.attributes p.type p.ordinal list start written
      numbered⟩
  cases ps with
  | nil => exact ⟨_, @Parameters.none 0 0⟩
  | cons p ps =>
    obtain ⟨ts, items⟩ := Separated.exists_of_forall (List.cons_ne_nil p ps) hparameter
    exact ⟨_, @Parameters.some 0 0 ts (p :: ps) items⟩

theorem exists_method {m : Tree.Method} (h : m.WellFormed) : ∃ ts, Method m.attributes ts m := by
  obtain ⟨os, numbered⟩ := exists_ordinal m.ordinal
  obtain ⟨ps, list⟩ := exists_parameters h.1
  have hresponse : ∀ ps ∈ m.response, ∃ ts, Response ts ps := by
    intro ps hps
    obtain ⟨ts, reply⟩ := exists_parameters (h.2 ps hps)
    exact ⟨_, @Response.mk 0 ts ps reply⟩
  obtain ⟨rs, reply⟩ := Optional.exists_of_forall hresponse
  exact ⟨_, @Method.mk m.attributes m.line 0 m.name os ps rs m.ordinal m.parameters m.response
    numbered list reply⟩

theorem exists_interfaceMember {m : Tree.InterfaceMember} (h : m.WellFormed) :
    ∃ ts, InterfaceMember ts m := by
  cases m with
  | method m =>
    obtain ⟨as, list⟩ := exists_attributes m.attributes
    obtain ⟨ts, method⟩ := exists_method h
    exact ⟨_, .method list method⟩
  | enum e =>
    obtain ⟨as, list⟩ := exists_attributes e.attributes
    obtain ⟨ts, enum⟩ := exists_enum e
    exact ⟨_, .enum list enum⟩
  | constant c =>
    obtain ⟨as, list⟩ := exists_attributes c.attributes
    obtain ⟨ts, constant⟩ := exists_constant h
    exact ⟨_, .constant list constant⟩

theorem exists_attributedDefinition {d : Tree.Definition} (h : d.WellFormed) :
    ∃ ts, AttributedDefinition ts d := by
  cases d with
  | struct s =>
    obtain ⟨as, list⟩ := exists_attributes s.attributes
    obtain ⟨ts, body⟩ := Many.exists_of_forall fun m hm => exists_structMember (h m hm)
    exact ⟨_, .mk list
      (.struct (@Struct.mk s.attributes s.line 0 0 0 s.name ts [] s.body body .absent))⟩
  | interface i =>
    obtain ⟨as, list⟩ := exists_attributes i.attributes
    obtain ⟨ts, body⟩ := Many.exists_of_forall fun m hm => exists_interfaceMember (h m hm)
    exact ⟨_, .mk list
      (.interface (@Interface.mk i.attributes i.line 0 0 0 i.name ts [] i.body body .absent))⟩
  | enum e =>
    obtain ⟨as, list⟩ := exists_attributes e.attributes
    obtain ⟨ts, enum⟩ := exists_enum e
    exact ⟨_, .mk list (.enum enum)⟩
  | constant c =>
    obtain ⟨as, list⟩ := exists_attributes c.attributes
    obtain ⟨ts, constant⟩ := exists_constant h
    exact ⟨_, .mk list (.constant constant)⟩

theorem exists_module {m : Tree.Module} (hname : m.name ≠ none)
    (h : ∀ d ∈ m.definitions, d.WellFormed) : ∃ ts, Module ts m := by
  obtain ⟨line, name, attributes, definitions⟩ := m
  cases name with
  | none => exact absurd rfl hname
  | some name =>
    obtain ⟨as, list⟩ := exists_attributes attributes
    obtain ⟨ns, named⟩ := DottedName.exists_single name
    obtain ⟨ts, body⟩ := Many.exists_of_forall fun d hd => exists_attributedDefinition (h d hd)
    have hbody := @ModuleBody.braced 0 0 ts [] definitions body .absent
    exact ⟨_, @Module.mk line as ns _ attributes name definitions list named hbody⟩

end Phrase

/-- Every well-formed tree can be written. -/
theorem Tree.WellFormed.exists_renders {tree : Tree} (h : tree.WellFormed) :
    ∃ tokens, Renders tokens tree := by
  obtain ⟨is, head⟩ := Phrase.Many.exists_of_forall fun (i : Tree.Import) (_ : i ∈ tree.imports) =>
    ⟨_, @Phrase.Import.mk i.line 0 0 i.path⟩
  obtain hnamed | ⟨m, hmodules, hname, hattributes, hne⟩ := h.modules
  · obtain ⟨ms, body⟩ := Phrase.Many.exists_of_forall fun m hm =>
      Phrase.exists_module (hnamed m hm) (h.definitions m hm)
    exact ⟨_, _, .mk head (.modules body), rfl⟩
  · have hwell : ∀ d ∈ m.definitions, d.WellFormed := h.definitions m (by simp [hmodules])
    obtain ⟨ds, body⟩ :=
      Phrase.Many.exists_of_forall fun d hd => Phrase.exists_attributedDefinition (hwell d hd)
    obtain ⟨t, more, rfl, -, -⟩ := body.opens (fun _ _ hitem => hitem.opens) hne
    -- The line of the module is that of its first token.
    refine ⟨_, _, .mk head (.loose rfl body), ?_⟩
    obtain ⟨imports, modules⟩ := tree
    obtain ⟨line, name, attributes, definitions⟩ := m
    cases hmodules
    cases hname
    cases hattributes
    rfl

/-- Every well-formed tree can be written, and however a tree is written, reading the tokens gives it
back up to its lines. -/
theorem Tree.ofTokens_of_renders (tree : Tree) :
    (tree.WellFormed → ∃ tokens, Renders tokens tree) ∧
      ∀ tokens, Renders tokens tree →
        ∃ read, Tree.ofTokens tokens = .ok read ∧ read.unlined = tree.unlined := by
  refine ⟨Tree.WellFormed.exists_renders, ?_⟩
  rintro tokens ⟨lined, hfile, hlined⟩
  exact ⟨lined, Tree.ofTokens_of_file hfile, hlined⟩

/-- Two modules, the first without braces and with an attribute. -/
def charts : Tree where
  imports := []
  modules := [
    ⟨0, some "sea.map", [⟨0, "Since", .integer "3"⟩], [.struct ⟨0, "Pin", [],
      [.field ⟨0, .request (.array (.array (.handle (some .messagePipe)))), "ends", some 7,
        some .default, []⟩]⟩]⟩,
    ⟨0, some "b", [], []⟩]

/-- One way to write `charts`, on five lines. -/
def chartsTokens : List Token :=
  [⟨1, .punct .lbracket⟩, ⟨1, .identifier "Since"⟩, ⟨1, .punct .assign⟩, ⟨1, .punct .plus⟩,
    ⟨1, .integer "3"⟩, ⟨1, .punct .rbracket⟩, ⟨1, .keyword .moduleWord⟩, ⟨1, .identifier "sea"⟩,
    ⟨1, .punct .dot⟩, ⟨1, .identifier "map"⟩, ⟨1, .punct .semicolon⟩,
    ⟨2, .keyword .structWord⟩, ⟨2, .identifier "Pin"⟩, ⟨2, .punct .lbrace⟩,
    ⟨3, .identifier "array"⟩, ⟨3, .punct .langle⟩, ⟨3, .identifier "handle"⟩, ⟨3, .punct .langle⟩,
    ⟨3, .identifier "message_pipe"⟩, ⟨3, .punct .rangle⟩, ⟨3, .punct .lbracket⟩,
    ⟨3, .punct .rbracket⟩, ⟨3, .punct .rangle⟩, ⟨3, .punct .amp⟩, ⟨3, .identifier "ends"⟩,
    ⟨3, .ordinal "7"⟩, ⟨3, .punct .assign⟩, ⟨3, .keyword .defaultWord⟩, ⟨3, .punct .semicolon⟩,
    ⟨4, .punct .rbrace⟩, ⟨4, .punct .semicolon⟩,
    ⟨5, .punct .lbracket⟩, ⟨5, .punct .rbracket⟩, ⟨5, .keyword .moduleWord⟩, ⟨5, .identifier "b"⟩,
    ⟨5, .punct .lbrace⟩, ⟨5, .punct .rbrace⟩]

theorem charts_wellFormed : charts.WellFormed where
  definitions := by simp [charts, Tree.Definition.WellFormed, Tree.StructMember.WellFormed,
    TypeExpr.WellFormed]
  modules := by simp [charts]

theorem chartsTokens_renders : Renders chartsTokens charts := by
  have hsince : Phrase.Attribute _ ⟨1, "Since", .integer "3"⟩ :=
    .valued (@Phrase.Assigned.mk 1 _ _ (@Phrase.Value.plusInteger 1 1 "3")) rfl
  have hsea : Phrase.DottedName _ "sea.map" :=
    @Phrase.DottedName.mk 1 "sea" _ ["map"] (.single (@Phrase.DotPart.mk 1 1 "map"))
  have hends : Phrase.Field [] _ ⟨3, .request (.array (.array (.handle (some .messagePipe)))), "ends",
      some 7, some .default, []⟩ :=
    @Phrase.Field.mk [] 3 3 3 "ends" _ _ _ _ _ _ rfl
      (@Phrase.AnyType.request 3 _ _ (@Phrase.AnyType.arrayOf 3 3 3 _ _ (@Phrase.AnyType.array 3 3 _ _
        (.plain (@Phrase.PlainType.handleOf 3 3 3 3 .messagePipe)))))
      (.present (@Phrase.Ordinal.mk 3 "7" 7 (by decide)))
      (.present (@Phrase.Assigned.mk 3 _ _ (@Phrase.Value.defaultWord 3)))
  have hpin := @Phrase.Struct.mk [] 2 2 2 4 "Pin" _ _ _ (.single (.field .absent hends))
    (@Phrase.MaybeSemicolon.present 4)
  have hfirst := @Phrase.Module.mk 1 _ _ _ _ _ _
    (.present (@Phrase.AttributeList.mk 1 1 _ _ (.last hsince))) hsea
    (@Phrase.ModuleBody.toEnd 1 _ _ (.single (.mk .absent (.struct hpin))))
  have hsecond := @Phrase.Module.mk 5 _ _ _ _ _ _ (.present (@Phrase.AttributeList.mk 5 5 _ _ .nil))
    (@Phrase.DottedName.mk 5 "b" _ _ .nil) (@Phrase.ModuleBody.braced 5 5 _ _ _ .nil .absent)
  exact ⟨_, .mk .nil (.modules (.cons hfirst (.single hsecond))), rfl⟩

theorem ofTokens_of_renders_charts :
    charts.WellFormed ∧ Renders chartsTokens charts ∧ (∃ tokens, Renders tokens charts) ∧
      ∃ read, Tree.ofTokens chartsTokens = .ok read ∧ read.unlined = charts.unlined :=
  ⟨charts_wellFormed, chartsTokens_renders, (Tree.ofTokens_of_renders charts).1 charts_wellFormed,
    (Tree.ofTokens_of_renders charts).2 chartsTokens chartsTokens_renders⟩

end WireSchema
