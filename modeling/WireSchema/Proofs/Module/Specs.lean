import WireSchema.Proofs.Module.Resolving

/-!
# Specs stand for the types they are made from

A written type is kept as its spec, a text that is taken apart again when names are resolved.
`Names.Means` says what a type means by its structure, without specs: the kind it stands for, or the
fault in it. Resolving the spec of a type gives just that (`Names.value_resolveKind_iff`), and types
with one spec are one type (`TypeExpr.spec_injective`), since a type can be read off its spec
(`TypeExpr.ofSpec?_spec`). In the table of kinds, the declarations of a module hide imported ones of
the same qualified name (`Names.lookup_kinds_ofRecord`).
-/

namespace WireSchema

/-! ## Specs of basic kinds -/

namespace BasicKind

/-- Only handles have a colon behind the first letter. -/
theorem spec_ne_tagged (k : BasicKind) {tag : Char} (htag : tag ≠ 'h') (rest : List Char) :
    k.spec.toList ≠ tag :: ':' :: rest := by
  cases k <;> simp [spec, htag.symm]

theorem ofSpec?_tagged {tag : Char} (htag : tag ≠ 'h') (rest : List Char) :
    ofSpec? (String.ofList (tag :: ':' :: rest)) = none := by
  refine List.find?_eq_none.2 fun k _ => ?_
  rw [decide_eq_true_eq]
  intro hspec
  refine spec_ne_tagged k htag rest ?_
  rw [hspec, String.toList_ofList]

/-- How a basic kind is written. -/
def type : BasicKind → TypeExpr
  | bool => .named "bool"
  | int8 => .named "int8"
  | uint8 => .named "uint8"
  | int16 => .named "int16"
  | uint16 => .named "uint16"
  | int32 => .named "int32"
  | uint32 => .named "uint32"
  | int64 => .named "int64"
  | uint64 => .named "uint64"
  | float => .named "float"
  | double => .named "double"
  | string => .named "string"
  | handle => .handle none
  | dataPipeConsumer => .handle (some .dataPipeConsumer)
  | dataPipeProducer => .handle (some .dataPipeProducer)
  | messagePipe => .handle (some .messagePipe)
  | sharedBuffer => .handle (some .sharedBuffer)

theorem spec_type (k : BasicKind) : k.type.spec = k.spec := by
  cases k <;> rfl

theorem named_eq_type {name : String} {k : BasicKind} (h : ofTypeName? name = some k) :
    .named name = k.type := by
  unfold ofTypeName? at h
  split at h <;> cases h <;> rfl

theorem handle_eq_type (sort : Option HandleSort) : .handle sort = (ofHandle sort).type := by
  rcases sort with - | sort
  · rfl
  · cases sort <;> rfl

end BasicKind

/-! ## Specs of types -/

namespace TypeExpr

/-- Types by what they stand for: the basic kinds as they are written, names of declarations, and
what is made of other types. -/
@[elab_as_elim]
theorem kind_induction {motive : TypeExpr → Prop} (basic : ∀ k : BasicKind, motive k.type)
    (reference : ∀ name, (∀ k : BasicKind, .named name ≠ k.type) → motive (.named name))
    (array : ∀ element, motive element → motive (.array element))
    (request : ∀ inner, motive inner → motive (.request inner)) (t : TypeExpr) : motive t := by
  induction t with
  | named name =>
    by_cases h : ∃ k : BasicKind, .named name = k.type
    · obtain ⟨k, hk⟩ := h
      exact hk ▸ basic k
    · exact reference name fun k hk => h ⟨k, hk⟩
  | handle sort => exact BasicKind.handle_eq_type sort ▸ basic _
  | array element ih => exact array element ih
  | request inner ih => exact request inner ih

theorem toList_spec_reference {name : String} (h : ∀ k : BasicKind, .named name ≠ k.type) :
    (named name).spec.toList = 'x' :: ':' :: name.toList := by
  have hname : BasicKind.ofTypeName? name = none :=
    Option.eq_none_iff_forall_ne_some.2 fun k hk => h k (BasicKind.named_eq_type hk)
  simp [spec, hname]

theorem toList_spec_array (element : TypeExpr) :
    (array element).spec.toList = 'a' :: ':' :: element.spec.toList := by
  simp [spec]

theorem toList_spec_request (inner : TypeExpr) :
    (request inner).spec.toList = 'r' :: ':' :: inner.spec.toList := by
  simp [spec]

/-- The type with a given spec. -/
def ofSpec? (spec : List Char) : Option TypeExpr :=
  match BasicKind.ofSpec? (String.ofList spec) with
  | some k => some k.type
  | none =>
    match spec with
    | 'a' :: ':' :: element => (ofSpec? element).map .array
    | 'r' :: ':' :: inner => (ofSpec? inner).map .request
    | 'x' :: ':' :: name => some (.named (String.ofList name))
    | _ => none

theorem ofSpec?_spec (t : TypeExpr) : ofSpec? t.spec.toList = some t := by
  induction t using kind_induction with
  | basic k =>
    unfold ofSpec?
    rw [String.ofList_toList, BasicKind.spec_type, BasicKind.ofSpec?_spec]
  | reference name h =>
    unfold ofSpec?
    rw [toList_spec_reference h, BasicKind.ofSpec?_tagged (by decide)]
    simp only [String.ofList_toList]
  | array element ih =>
    unfold ofSpec?
    rw [toList_spec_array, BasicKind.ofSpec?_tagged (by decide)]
    simp only [ih, Option.map_some]
  | request inner ih =>
    unfold ofSpec?
    rw [toList_spec_request, BasicKind.ofSpec?_tagged (by decide)]
    simp only [ih, Option.map_some]

/-- Types with one spec are one type. -/
theorem spec_injective : Function.Injective spec := by
  intro t t' hspec
  have h := ofSpec?_spec t'
  rw [← hspec, ofSpec?_spec, Option.some.injEq] at h
  exact h

end TypeExpr

/-! ## Resolving specs -/

namespace Module

open Resolving

namespace Names

variable {names : Names} {scope : List String} {line : UInt32} {k : Kind} {t : TypeExpr}
  {result : Except BuildFault Kind}

/-- The request for a kind, which has to be an interface. -/
def requestFor (line : UInt32) : Kind → Except BuildFault Kind
  | .interface decl => .ok (.request (.interface decl))
  | other => .error (.resolution line (.notAnInterface other.spec))

theorem requestFor_of_not_interface (h : ∀ decl, k ≠ .interface decl) :
    requestFor line k = .error (.resolution line (.notAnInterface k.spec)) := by
  cases k with
  | interface decl => exact absurd rfl (h decl)
  | _ => rfl

theorem resolveKind_basic (k : BasicKind) :
    (names.resolveKind scope line k.type.spec).value = .ok (.basic k) := by
  rw [resolveKind, BasicKind.spec_type]
  unfold resolveSpec
  rw [String.ofList_toList, BasicKind.ofSpec?_spec]
  rfl

theorem resolveKind_reference {name : String} (h : ∀ k : BasicKind, .named name ≠ k.type) :
    (names.resolveKind scope line (TypeExpr.named name).spec).value =
      (names.kind? scope name).elim (.error (.resolution line (.unknownKind name))) .ok := by
  rw [resolveKind, TypeExpr.toList_spec_reference h]
  unfold resolveSpec
  rw [BasicKind.ofSpec?_tagged (by decide)]
  simp only [String.ofList_toList]
  cases names.kind? scope name <;> rfl

theorem resolveKind_array (element : TypeExpr) :
    (names.resolveKind scope line element.array.spec).value =
      (names.resolveKind scope line element.spec).value.map .array := by
  rw [resolveKind, TypeExpr.toList_spec_array]
  unfold resolveSpec
  rw [BasicKind.ofSpec?_tagged (by decide)]
  exact value_bind _ _

theorem resolveKind_request (inner : TypeExpr) :
    (names.resolveKind scope line inner.request.spec).value =
      (names.resolveKind scope line inner.spec).value >>= requestFor line := by
  rw [resolveKind, TypeExpr.toList_spec_request]
  unfold resolveSpec
  rw [BasicKind.ofSpec?_tagged (by decide)]
  refine (value_bind _ _).trans ?_
  rw [resolveKind]
  congr 1
  funext k
  cases k <;> rfl

/-! ## What types mean -/

/-- What a type means in a scope, by its structure: a kind, or a fault at the given line. -/
inductive Means (names : Names) (scope : List String) (line : UInt32) :
    TypeExpr → Except BuildFault Kind → Prop where
  /-- Primitives and handles stand for their kinds, whatever is declared. -/
  | basic (k : BasicKind) : Means names scope line k.type (.ok (.basic k))
  /-- Any other name stands for the first of its candidates that is in the table. -/
  | declared {name key : String} {before after : List String} {k : Kind}
    (h : ∀ k : BasicKind, .named name ≠ k.type)
    (order : names.candidates scope name = before ++ key :: after)
    (absent : ∀ c ∈ before, names.kinds.lookup c = none)
    (found : names.kinds.lookup key = some k) :
    Means names scope line (.named name) (.ok k)
  | unknown {name : String} (h : ∀ k : BasicKind, .named name ≠ k.type)
    (absent : ∀ c ∈ names.candidates scope name, names.kinds.lookup c = none) :
    Means names scope line (.named name) (.error (.resolution line (.unknownKind name)))
  | array {element : TypeExpr} {k : Kind} (h : Means names scope line element (.ok k)) :
    Means names scope line (.array element) (.ok (.array k))
  | arrayFault {element : TypeExpr} {fault : BuildFault}
    (h : Means names scope line element (.error fault)) :
    Means names scope line (.array element) (.error fault)
  | request {inner : TypeExpr} {decl : DeclRef}
    (h : Means names scope line inner (.ok (.interface decl))) :
    Means names scope line (.request inner) (.ok (.request (.interface decl)))
  | notAnInterface {inner : TypeExpr} {k : Kind} (h : Means names scope line inner (.ok k))
    (other : ∀ decl, k ≠ .interface decl) :
    Means names scope line (.request inner) (.error (.resolution line (.notAnInterface k.spec)))
  | requestFault {inner : TypeExpr} {fault : BuildFault}
    (h : Means names scope line inner (.error fault)) :
    Means names scope line (.request inner) (.error fault)

theorem value_resolveKind_of_means (h : names.Means scope line t result) :
    (names.resolveKind scope line t.spec).value = result := by
  induction h with
  | basic k => exact resolveKind_basic k
  | @declared name key before after k h order absent found =>
    have hkind : names.kind? scope name = some k :=
      List.findSome?_eq_some_iff.2 ⟨before, key, after, order, found, absent⟩
    rw [resolveKind_reference h, hkind]
    rfl
  | @unknown name h absent =>
    have hkind : names.kind? scope name = none := List.findSome?_eq_none_iff.2 absent
    rw [resolveKind_reference h, hkind]
    rfl
  | array _ ih =>
    rw [resolveKind_array, ih]
    rfl
  | arrayFault _ ih =>
    rw [resolveKind_array, ih]
    rfl
  | request _ ih =>
    rw [resolveKind_request, ih]
    rfl
  | notAnInterface _ other ih =>
    rw [resolveKind_request, ih]
    exact requestFor_of_not_interface other
  | requestFault _ ih =>
    rw [resolveKind_request, ih]
    rfl

theorem exists_means (names : Names) (scope : List String) (line : UInt32) (t : TypeExpr) :
    ∃ result, names.Means scope line t result := by
  induction t using TypeExpr.kind_induction with
  | basic k => exact ⟨_, .basic k⟩
  | reference name h =>
    cases hkind : names.kind? scope name with
    | some k =>
      obtain ⟨before, key, after, order, found, absent⟩ := List.findSome?_eq_some_iff.1 hkind
      exact ⟨_, .declared h order absent found⟩
    | none => exact ⟨_, .unknown h (List.findSome?_eq_none_iff.1 hkind)⟩
  | array element ih =>
    obtain ⟨fault | k, h⟩ := ih
    · exact ⟨_, .arrayFault h⟩
    · exact ⟨_, .array h⟩
  | request inner ih =>
    obtain ⟨fault | k, h⟩ := ih
    · exact ⟨_, .requestFault h⟩
    · by_cases hinterface : ∃ decl, k = .interface decl
      · obtain ⟨decl, rfl⟩ := hinterface
        exact ⟨_, .request h⟩
      · exact ⟨_, .notAnInterface h fun decl hk => hinterface ⟨decl, hk⟩⟩

/-- Resolving the spec of a type gives what the type means. -/
theorem value_resolveKind_iff :
    (names.resolveKind scope line t.spec).value = result ↔ names.Means scope line t result := by
  refine ⟨?_, value_resolveKind_of_means⟩
  rintro rfl
  obtain ⟨result, h⟩ := exists_means names scope line t
  rwa [value_resolveKind_of_means h]

end Names

/-! ## The table of kinds -/

namespace Names

/-- A kind is that of the module's own declaration, or else that of an imported one. -/
theorem lookup_kinds_ofRecord (r : Record) (imports : List Module) (key : String) :
    (ofRecord r imports).kinds.lookup key =
      ((ownKinds r).reverse.lookup key).or
        ((imports.flatMap declaredKinds).reverse.lookup key) := by
  rw [kinds_ofRecord, kinds_imported, List.lookup_append]

/-- Specs carry types faithfully: whatever was noted before, resolving the spec of a type gives what
the type means by its structure, a kind of the module's own hides an imported one of the same
qualified name, and no two types share a spec. -/
theorem specs_faithful :
    (∀ (names : Names) (scope : List String) (line : UInt32) (t : TypeExpr)
        (result : Except BuildFault Kind) (used : SortedMap Kind),
      ((names.resolveKind scope line t.spec).run used).map Prod.fst = result ↔
        names.Means scope line t result) ∧
    (∀ (r : Record) (imports : List Module) (key : String),
      (ofRecord r imports).kinds.lookup key =
        ((ownKinds r).reverse.lookup key).or
          ((imports.flatMap declaredKinds).reverse.lookup key)) ∧
    Function.Injective TypeExpr.spec := by
  refine ⟨fun _ _ _ _ _ used => ?_, lookup_kinds_ofRecord, TypeExpr.spec_injective⟩
  rw [map_fst_run]
  exact value_resolveKind_iff

end Names

end Module

end WireSchema
