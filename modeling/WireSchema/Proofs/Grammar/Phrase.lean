import WireSchema.Grammar.File

/-!
# The grammar of schema files

Each phrase of the language is a relation between a list of tokens and the node of the tree that the
tokens are read as. The relations know nothing of how phrases are read: `Phrase.File` says what a
file is, with every optional part. Lines of nodes are those of their first tokens.
-/

namespace WireSchema

theorem Symbol.eq_of_sameSort_punct {s : Symbol} {mark : Punct}
    (h : s.sameSort (.punct mark) = true) : s = .punct mark := by
  cases s <;> simp_all [Symbol.sameSort]

theorem Symbol.eq_of_sameSort_keyword {s : Symbol} {word : Keyword}
    (h : s.sameSort (.keyword word) = true) : s = .keyword word := by
  cases s <;> simp_all [Symbol.sameSort]

/-- A phrase: which tokens stand for which node. -/
abbrev Phrase (α : Type) := List Token → α → Prop

namespace Phrase

variable {α : Type} {P Q : Phrase α} {ts ts' : List Token} {a : α} {as as' : List α}

/-! ## Options and repetitions -/

/-- A phrase that may be missing. -/
inductive Optional (P : Phrase α) : Phrase (Option α) where
  | absent : Optional P [] none
  | present {ts : List Token} {a : α} (phrase : P ts a) : Optional P ts (some a)

/-- Phrases one after the other. -/
inductive Many (P : Phrase α) : Phrase (List α) where
  | nil : Many P [] []
  | cons {ts ts' : List Token} {a : α} {as : List α} (head : P ts a) (tail : Many P ts' as) :
    Many P (ts ++ ts') (a :: as)

/-- Phrases with commas between them; there may be one more comma after the last. -/
inductive CommaList (P : Phrase α) : Phrase (List α) where
  | nil : CommaList P [] []
  | last {ts : List Token} {a : α} (item : P ts a) : CommaList P ts [a]
  | more {ts ts' : List Token} {line : UInt32} {a : α} {as : List α} (item : P ts a)
    (rest : CommaList P ts' as) : CommaList P (ts ++ ⟨line, .punct .comma⟩ :: ts') (a :: as)

/-- At least one phrase, with commas between them and none at the end. -/
inductive Separated (P : Phrase α) : Phrase (List α) where
  | last {ts : List Token} {a : α} (item : P ts a) : Separated P ts [a]
  | more {ts ts' : List Token} {line : UInt32} {a : α} {as : List α} (item : P ts a)
    (rest : Separated P ts' as) : Separated P (ts ++ ⟨line, .punct .comma⟩ :: ts') (a :: as)

/-- The semicolon that may follow a closing brace. -/
inductive MaybeSemicolon : List Token → Prop where
  | absent : MaybeSemicolon []
  | present {line : UInt32} : MaybeSemicolon [⟨line, .punct .semicolon⟩]

theorem Many.append (h : Many P ts as) (h' : Many P ts' as') : Many P (ts ++ ts') (as ++ as') := by
  induction h with
  | nil => exact h'
  | cons head _ ih =>
    rw [List.append_assoc]
    exact .cons head ih

/-- What holds from a phrase on, and at the end, holds from the first of several phrases on. -/
theorem Many.follow (Follow : List Token → Prop) {rest : List Token}
    (hnext : ∀ ts a rest, P ts a → Follow (ts ++ rest)) (hrest : Follow rest) (h : Many P ts as) :
    Follow (ts ++ rest) := by
  cases h with
  | nil => exact hrest
  | cons head =>
    rw [List.append_assoc]
    exact hnext _ _ _ head

/-- What holds of the tokens of each phrase holds of all tokens. -/
theorem Many.forall_mem {p : Token → Prop} (hitem : ∀ ts a, P ts a → ∀ t ∈ ts, p t)
    (h : Many P ts as) : ∀ t ∈ ts, p t := by
  induction h with
  | nil => simp
  | cons head _ ih => exact List.forall_mem_append.2 ⟨hitem _ _ head, ih⟩

theorem CommaList.forall_mem {p : Token → Prop} (hcomma : ∀ line, p ⟨line, .punct .comma⟩)
    (hitem : ∀ ts a, P ts a → ∀ t ∈ ts, p t) (h : CommaList P ts as) : ∀ t ∈ ts, p t := by
  induction h with
  | nil => simp
  | last item => exact hitem _ _ item
  | more item _ ih =>
    exact List.forall_mem_append.2 ⟨hitem _ _ item, List.forall_mem_cons.2 ⟨hcomma _, ih⟩⟩

theorem Many.single (h : P ts a) : Many P ts [a] := by
  have key := Many.cons h .nil
  rwa [List.append_nil] at key

/-! ## Names, ordinals and types -/

/-- A name part after a dot. -/
inductive DotPart : Phrase String where
  | mk {l₁ l₂ : UInt32} {part : String} :
    DotPart [⟨l₁, .punct .dot⟩, ⟨l₂, .identifier part⟩] part

/-- Identifiers joined by dots. -/
inductive DottedName : Phrase String where
  | mk {line : UInt32} {first : String} {ts : List Token} {parts : List String}
    (rest : Many DotPart ts parts) :
    DottedName (⟨line, .identifier first⟩ :: ts) (String.intercalate "." (first :: parts))

/-- An ordinal with a valid value. -/
inductive Ordinal : Phrase UInt32 where
  | mk {line : UInt32} {digits : String} {n : UInt32} (valid : Text.readOrdinal? digits = some n) :
    Ordinal [⟨line, .ordinal digits⟩] n

/-- A type without arrays or requests. No name starts with `handle`. -/
inductive PlainType : Phrase TypeExpr where
  | named {line : UInt32} {first : String} {ts : List Token} {parts : List String}
    (other : first ≠ "handle") (rest : Many DotPart ts parts) :
    PlainType (⟨line, .identifier first⟩ :: ts)
      (.named (String.intercalate "." (first :: parts)))
  | handle {line : UInt32} : PlainType [⟨line, .identifier "handle"⟩] (.handle none)
  | handleOf {l₁ l₂ l₃ l₄ : UInt32} {sort : HandleSort} :
    PlainType [⟨l₁, .identifier "handle"⟩, ⟨l₂, .punct .langle⟩, ⟨l₃, .identifier sort.text⟩,
      ⟨l₄, .punct .rangle⟩] (.handle (some sort))

/-- A type. Arrays are written around a type or after it. -/
inductive AnyType : Phrase TypeExpr where
  | plain {ts : List Token} {t : TypeExpr} (plain : PlainType ts t) : AnyType ts t
  | arrayOf {l₁ l₂ l₃ : UInt32} {ts : List Token} {t : TypeExpr} (element : AnyType ts t) :
    AnyType (⟨l₁, .identifier "array"⟩ :: ⟨l₂, .punct .langle⟩ :: (ts ++ [⟨l₃, .punct .rangle⟩]))
      (.array t)
  | array {l₁ l₂ : UInt32} {ts : List Token} {t : TypeExpr} (element : AnyType ts t) :
    AnyType (ts ++ [⟨l₁, .punct .lbracket⟩, ⟨l₂, .punct .rbracket⟩]) (.array t)
  | request {line : UInt32} {ts : List Token} {t : TypeExpr} (inner : AnyType ts t) :
    AnyType (ts ++ [⟨line, .punct .amp⟩]) (.request t)

/-- A type starts with an identifier. -/
theorem AnyType.exists_cons {t : TypeExpr} (h : AnyType ts t) :
    ∃ line name rest, ts = ⟨line, .identifier name⟩ :: rest := by
  induction h with
  | plain plain => cases plain <;> exact ⟨_, _, _, rfl⟩
  | arrayOf => exact ⟨_, _, _, rfl⟩
  | array _ ih | request _ ih =>
    obtain ⟨line, name, rest, rfl⟩ := ih
    exact ⟨line, name, _, rfl⟩

/-! ## Values and attributes -/

/-- A value. A minus sign is part of a number's text, a plus sign is not. -/
inductive Value : Phrase ValueExpr where
  | integer {line : UInt32} {text : String} : Value [⟨line, .integer text⟩] (.integer text)
  | float {line : UInt32} {text : String} : Value [⟨line, .float text⟩] (.float text)
  | minusInteger {l₁ l₂ : UInt32} {text : String} :
    Value [⟨l₁, .punct .minus⟩, ⟨l₂, .integer text⟩] (.integer ("-" ++ text))
  | minusFloat {l₁ l₂ : UInt32} {text : String} :
    Value [⟨l₁, .punct .minus⟩, ⟨l₂, .float text⟩] (.float ("-" ++ text))
  | plusInteger {l₁ l₂ : UInt32} {text : String} :
    Value [⟨l₁, .punct .plus⟩, ⟨l₂, .integer text⟩] (.integer text)
  | plusFloat {l₁ l₂ : UInt32} {text : String} :
    Value [⟨l₁, .punct .plus⟩, ⟨l₂, .float text⟩] (.float text)
  | string {line : UInt32} {text : String} : Value [⟨line, .string text⟩] (.string text)
  | trueWord {line : UInt32} : Value [⟨line, .keyword .trueWord⟩] (.bool true)
  | falseWord {line : UInt32} : Value [⟨line, .keyword .falseWord⟩] (.bool false)
  | defaultWord {line : UInt32} : Value [⟨line, .keyword .defaultWord⟩] .default
  | name {ts : List Token} {name : String} (dotted : DottedName ts name) : Value ts (.name name)

/-- A value after an equals sign. -/
inductive Assigned : Phrase ValueExpr where
  | mk {line : UInt32} {ts : List Token} {v : ValueExpr} (value : Value ts v) :
    Assigned (⟨line, .punct .assign⟩ :: ts) v

/-- An attribute. One without a value is true, and `default` is no value for one. -/
inductive Attribute : Phrase Tree.Attribute where
  | flag {line : UInt32} {key : String} :
    Attribute [⟨line, .identifier key⟩] ⟨line, key, .bool true⟩
  | valued {line : UInt32} {key : String} {ts : List Token} {v : ValueExpr} {a : AttributeValue}
    (value : Assigned ts v) (allowed : AttributeValue.ofExpr? v = some a) :
    Attribute (⟨line, .identifier key⟩ :: ts) ⟨line, key, a⟩

/-- An attribute list in brackets. -/
inductive AttributeList : Phrase (List Tree.Attribute) where
  | mk {l₁ l₂ : UInt32} {ts : List Token} {attributes : List Tree.Attribute}
    (items : CommaList Attribute ts attributes) :
    AttributeList (⟨l₁, .punct .lbracket⟩ :: (ts ++ [⟨l₂, .punct .rbracket⟩])) attributes

/-- The attributes in front of something; there may be no list. -/
inductive Attributes : Phrase (List Tree.Attribute) where
  | absent : Attributes [] []
  | present {ts : List Token} {attributes : List Tree.Attribute}
    (list : AttributeList ts attributes) : Attributes ts attributes

theorem Attributes.ofOptional {o : Option (List Tree.Attribute)} (h : Optional AttributeList ts o) :
    Attributes ts (o.getD []) := by
  cases h with
  | absent => exact .absent
  | present list => exact .present list

/-! ## Definitions

Phrases that start after their attributes take them as a parameter. -/

inductive EnumValue : Phrase Tree.EnumValue where
  | mk {line : UInt32} {name : String} {ts : List Token} {value : Option ValueExpr}
    (written : Optional Assigned ts value) :
    EnumValue (⟨line, .identifier name⟩ :: ts) ⟨line, name, value⟩

inductive Enum (attributes : List Tree.Attribute) : Phrase Tree.Enum where
  | mk {line l₁ l₂ l₃ : UInt32} {name : String} {ts ss : List Token} {values : List Tree.EnumValue}
    (body : CommaList EnumValue ts values) (semicolon : MaybeSemicolon ss) :
    Enum attributes
      (⟨line, .keyword .enumWord⟩ :: ⟨l₁, .identifier name⟩ :: ⟨l₂, .punct .lbrace⟩ ::
        (ts ++ ⟨l₃, .punct .rbrace⟩ :: ss))
      ⟨line, name, attributes, values⟩

inductive Constant (attributes : List Tree.Attribute) : Phrase Tree.Constant where
  | mk {line l₁ l₂ : UInt32} {name : String} {ts vs : List Token} {type : TypeExpr} {v : ValueExpr}
    (written : AnyType ts type) (value : Assigned vs v) :
    Constant attributes
      (⟨line, .keyword .constWord⟩ :: (ts ++ ⟨l₁, .identifier name⟩ ::
        (vs ++ [⟨l₂, .punct .semicolon⟩])))
      ⟨line, type, name, v, attributes⟩

inductive Field (attributes : List Tree.Attribute) : Phrase Tree.Field where
  | mk {line l₁ l₂ : UInt32} {name : String} {ts os vs : List Token} {type : TypeExpr}
    {ordinal : Option UInt32} {default : Option ValueExpr}
    (start : ts.head?.map Token.line = some line) (written : AnyType ts type)
    (numbered : Optional Ordinal os ordinal) (value : Optional Assigned vs default) :
    Field attributes
      (ts ++ ⟨l₁, .identifier name⟩ :: (os ++ (vs ++ [⟨l₂, .punct .semicolon⟩])))
      ⟨line, type, name, ordinal, default, attributes⟩

inductive StructMember : Phrase Tree.StructMember where
  | field {as ts : List Token} {attributes : List Tree.Attribute} {f : Tree.Field}
    (list : Attributes as attributes) (field : Field attributes ts f) :
    StructMember (as ++ ts) (.field f)
  | enum {as ts : List Token} {attributes : List Tree.Attribute} {e : Tree.Enum}
    (list : Attributes as attributes) (enum : Enum attributes ts e) :
    StructMember (as ++ ts) (.enum e)
  | constant {as ts : List Token} {attributes : List Tree.Attribute} {c : Tree.Constant}
    (list : Attributes as attributes) (constant : Constant attributes ts c) :
    StructMember (as ++ ts) (.constant c)

inductive Struct (attributes : List Tree.Attribute) : Phrase Tree.Struct where
  | mk {line l₁ l₂ l₃ : UInt32} {name : String} {ts ss : List Token}
    {members : List Tree.StructMember} (body : Many StructMember ts members)
    (semicolon : MaybeSemicolon ss) :
    Struct attributes
      (⟨line, .keyword .structWord⟩ :: ⟨l₁, .identifier name⟩ :: ⟨l₂, .punct .lbrace⟩ ::
        (ts ++ ⟨l₃, .punct .rbrace⟩ :: ss))
      ⟨line, name, attributes, members⟩

inductive Parameter : Phrase Tree.Parameter where
  | mk {line l₁ : UInt32} {name : String} {as ts os : List Token} {attributes : List Tree.Attribute}
    {type : TypeExpr} {ordinal : Option UInt32} (list : Attributes as attributes)
    (start : ts.head?.map Token.line = some line) (written : AnyType ts type)
    (numbered : Optional Ordinal os ordinal) :
    Parameter (as ++ (ts ++ ⟨l₁, .identifier name⟩ :: os))
      ⟨line, type, name, ordinal, attributes⟩

/-- A parameter list in parentheses. -/
inductive Parameters : Phrase (List Tree.Parameter) where
  | none {l₁ l₂ : UInt32} : Parameters [⟨l₁, .punct .lparen⟩, ⟨l₂, .punct .rparen⟩] []
  | some {l₁ l₂ : UInt32} {ts : List Token} {parameters : List Tree.Parameter}
    (items : Separated Parameter ts parameters) :
    Parameters (⟨l₁, .punct .lparen⟩ :: (ts ++ [⟨l₂, .punct .rparen⟩])) parameters

/-- The parameter list of a response. -/
inductive Response : Phrase (List Tree.Parameter) where
  | mk {line : UInt32} {ts : List Token} {parameters : List Tree.Parameter}
    (list : Parameters ts parameters) : Response (⟨line, .punct .arrow⟩ :: ts) parameters

inductive Method (attributes : List Tree.Attribute) : Phrase Tree.Method where
  | mk {line l₁ : UInt32} {name : String} {os ps rs : List Token} {ordinal : Option UInt32}
    {parameters : List Tree.Parameter} {response : Option (List Tree.Parameter)}
    (numbered : Optional Ordinal os ordinal) (list : Parameters ps parameters)
    (reply : Optional Response rs response) :
    Method attributes
      (⟨line, .identifier name⟩ :: (os ++ (ps ++ (rs ++ [⟨l₁, .punct .semicolon⟩]))))
      ⟨line, name, ordinal, parameters, response, attributes⟩

inductive InterfaceMember : Phrase Tree.InterfaceMember where
  | method {as ts : List Token} {attributes : List Tree.Attribute} {m : Tree.Method}
    (list : Attributes as attributes) (method : Method attributes ts m) :
    InterfaceMember (as ++ ts) (.method m)
  | enum {as ts : List Token} {attributes : List Tree.Attribute} {e : Tree.Enum}
    (list : Attributes as attributes) (enum : Enum attributes ts e) :
    InterfaceMember (as ++ ts) (.enum e)
  | constant {as ts : List Token} {attributes : List Tree.Attribute} {c : Tree.Constant}
    (list : Attributes as attributes) (constant : Constant attributes ts c) :
    InterfaceMember (as ++ ts) (.constant c)

inductive Interface (attributes : List Tree.Attribute) : Phrase Tree.Interface where
  | mk {line l₁ l₂ l₃ : UInt32} {name : String} {ts ss : List Token}
    {members : List Tree.InterfaceMember} (body : Many InterfaceMember ts members)
    (semicolon : MaybeSemicolon ss) :
    Interface attributes
      (⟨line, .keyword .interfaceWord⟩ :: ⟨l₁, .identifier name⟩ :: ⟨l₂, .punct .lbrace⟩ ::
        (ts ++ ⟨l₃, .punct .rbrace⟩ :: ss))
      ⟨line, name, attributes, members⟩

/-- A definition after its attributes. -/
inductive Definition (attributes : List Tree.Attribute) : Phrase Tree.Definition where
  | struct {ts : List Token} {s : Tree.Struct} (struct : Struct attributes ts s) :
    Definition attributes ts (.struct s)
  | interface {ts : List Token} {i : Tree.Interface} (interface : Interface attributes ts i) :
    Definition attributes ts (.interface i)
  | enum {ts : List Token} {e : Tree.Enum} (enum : Enum attributes ts e) :
    Definition attributes ts (.enum e)
  | constant {ts : List Token} {c : Tree.Constant} (constant : Constant attributes ts c) :
    Definition attributes ts (.constant c)

/-- A definition with its attributes. -/
inductive AttributedDefinition : Phrase Tree.Definition where
  | mk {as ts : List Token} {attributes : List Tree.Attribute} {d : Tree.Definition}
    (list : Attributes as attributes) (definition : Definition attributes ts d) :
    AttributedDefinition (as ++ ts) d

/-! ## Modules and files -/

/-- The body of a module: in braces, or open to the next module or the end of the file. -/
inductive ModuleBody : Phrase (List Tree.Definition) where
  | braced {l₁ l₂ : UInt32} {ts ss : List Token} {definitions : List Tree.Definition}
    (body : Many AttributedDefinition ts definitions) (semicolon : MaybeSemicolon ss) :
    ModuleBody (⟨l₁, .punct .lbrace⟩ :: (ts ++ ⟨l₂, .punct .rbrace⟩ :: ss)) definitions
  | toEnd {line : UInt32} {ts : List Token} {definitions : List Tree.Definition}
    (body : Many AttributedDefinition ts definitions) :
    ModuleBody (⟨line, .punct .semicolon⟩ :: ts) definitions

/-- A module with its attributes. -/
inductive Module : Phrase Tree.Module where
  | mk {line : UInt32} {as ns bs : List Token} {attributes : List Tree.Attribute} {name : String}
    {definitions : List Tree.Definition} (list : Attributes as attributes)
    (named : DottedName ns name) (body : ModuleBody bs definitions) :
    Module (as ++ ⟨line, .keyword .moduleWord⟩ :: (ns ++ bs))
      ⟨line, some name, attributes, definitions⟩

inductive Import : Phrase Tree.Import where
  | mk {line l₁ l₂ : UInt32} {path : String} :
    Import [⟨line, .keyword .importWord⟩, ⟨l₁, .string path⟩, ⟨l₂, .punct .semicolon⟩] ⟨line, path⟩

/-- What follows the imports of a file: modules, or at least one loose definition. Loose definitions
form a module without a name. -/
inductive FileBody : Phrase (List Tree.Module) where
  | modules {ts : List Token} {modules : List Tree.Module} (body : Many Module ts modules) :
    FileBody ts modules
  | loose {ts : List Token} {line : UInt32} {definitions : List Tree.Definition}
    (start : ts.head?.map Token.line = some line) (body : Many AttributedDefinition ts definitions) :
    FileBody ts [⟨line, none, [], definitions⟩]

/-- A file: imports, and then its body. -/
inductive File : Phrase Tree where
  | mk {is ts : List Token} {imports : List Tree.Import} {modules : List Tree.Module}
    (head : Many Import is imports) (body : FileBody ts modules) : File (is ++ ts) ⟨imports, modules⟩

/-! ## First tokens -/

/-- There is a first token, and it is neither a semicolon nor the start of an import. -/
def Opens (ts : List Token) : Prop :=
  ∃ t rest, ts = t :: rest ∧ t.symbol ≠ .punct .semicolon ∧ t.symbol ≠ .keyword .importWord

theorem Opens.ne_nil (h : Opens ts) : ts ≠ [] := by
  obtain ⟨t, rest, rfl, -, -⟩ := h
  exact List.cons_ne_nil t rest

/-- The line of what starts at a cursor. -/
theorem Opens.head?_map_line {c : Cursor} {rest : List Token} (h : Opens ts)
    (hc : c.ahead = ts ++ rest) : ts.head?.map Token.line = some c.line := by
  obtain ⟨t, more, rfl, -, -⟩ := h
  simp [Cursor.line, hc]

theorem Opens.append (h : Opens ts) (ts' : List Token) : Opens (ts ++ ts') := by
  obtain ⟨t, rest, rfl, hne⟩ := h
  exact ⟨t, rest ++ ts', rfl, hne⟩

theorem opens_cons {t : Token} {rest : List Token} (hsemicolon : t.symbol ≠ .punct .semicolon)
    (himport : t.symbol ≠ .keyword .importWord) : Opens (t :: rest) :=
  ⟨t, rest, rfl, hsemicolon, himport⟩

theorem Many.opens (hitem : ∀ ts a, P ts a → Opens ts) (hne : as ≠ []) (h : Many P ts as) :
    Opens ts := by
  cases h with
  | nil => exact absurd rfl hne
  | cons head => exact (hitem _ _ head).append _

theorem Many.eq_nil_or_opens (hitem : ∀ ts a, P ts a → Opens ts) (h : Many P ts as) :
    ts = [] ∨ Opens ts := by
  cases h with
  | nil => exact .inl rfl
  | cons head tail => exact .inr (Many.opens hitem (List.cons_ne_nil _ _) (.cons head tail))

variable {attributes : List Tree.Attribute} {as : List Token}

theorem Attributes.opens (h : Attributes as attributes) (hts : Opens ts) : Opens (as ++ ts) := by
  cases h with
  | absent => exact hts
  | present list =>
    cases list
    exact opens_cons (by simp) (by simp)

theorem AnyType.opens {t : TypeExpr} (h : AnyType ts t) : Opens ts := by
  obtain ⟨line, name, rest, rfl⟩ := h.exists_cons
  exact opens_cons (by simp) (by simp)

theorem Enum.opens {e : Tree.Enum} (h : Enum attributes ts e) : Opens ts := by
  cases h
  exact opens_cons (by simp) (by simp)

theorem Constant.opens {c : Tree.Constant} (h : Constant attributes ts c) : Opens ts := by
  cases h
  exact opens_cons (by simp) (by simp)

theorem Field.opens {f : Tree.Field} (h : Field attributes ts f) : Opens ts := by
  cases h with
  | mk _ written => exact written.opens.append _

theorem Method.opens {m : Tree.Method} (h : Method attributes ts m) : Opens ts := by
  cases h
  exact opens_cons (by simp) (by simp)

theorem StructMember.opens {m : Tree.StructMember} (h : StructMember ts m) : Opens ts := by
  cases h with
  | field list field => exact list.opens field.opens
  | enum list enum => exact list.opens enum.opens
  | constant list constant => exact list.opens constant.opens

theorem InterfaceMember.opens {m : Tree.InterfaceMember} (h : InterfaceMember ts m) : Opens ts := by
  cases h with
  | method list method => exact list.opens method.opens
  | enum list enum => exact list.opens enum.opens
  | constant list constant => exact list.opens constant.opens

/-- A definition starts with its keyword. -/
theorem Definition.exists_cons {d : Tree.Definition} (h : Definition attributes ts d) :
    ∃ line word rest, ts = ⟨line, .keyword word⟩ :: rest ∧ word ≠ .moduleWord ∧
      word ≠ .importWord := by
  cases h with
  | struct struct =>
    cases struct
    exact ⟨_, _, _, rfl, by decide, by decide⟩
  | interface interface =>
    cases interface
    exact ⟨_, _, _, rfl, by decide, by decide⟩
  | enum enum =>
    cases enum
    exact ⟨_, _, _, rfl, by decide, by decide⟩
  | constant constant =>
    cases constant
    exact ⟨_, _, _, rfl, by decide, by decide⟩

theorem Definition.opens {d : Tree.Definition} (h : Definition attributes ts d) : Opens ts := by
  obtain ⟨line, word, rest, rfl, -, himport⟩ := h.exists_cons
  exact opens_cons (by simp) (by simpa using himport)

theorem AttributedDefinition.opens {d : Tree.Definition} (h : AttributedDefinition ts d) :
    Opens ts := by
  cases h with
  | mk list definition => exact list.opens definition.opens

theorem Module.opens {m : Tree.Module} (h : Module ts m) : Opens ts := by
  cases h with
  | mk list => exact list.opens (opens_cons (by simp) (by simp))

theorem FileBody.eq_nil_or_opens {modules : List Tree.Module} (h : FileBody ts modules) :
    ts = [] ∨ Opens ts := by
  cases h with
  | modules body => exact body.eq_nil_or_opens fun _ _ hitem => hitem.opens
  | loose _ body => exact body.eq_nil_or_opens fun _ _ hitem => hitem.opens

end Phrase

end WireSchema
