import WireSchema.Proofs.Module.Order

/-!
# The kinds of a module

A module lists the kinds that were noted under their specs while it was resolved. The list is exact:
it has each kind that occurs in the module, and no other (`Module.mem_kinds_iff_occurs`). What is
noted are the parts of the kinds written in the module; none of them hides another, since two kinds
can have one spec, but not if both occur in one module, where each name stands for one declaration.
-/

namespace WireSchema

/-! ## Maps -/

namespace SortedMap

variable {α : Type} {key : String} {value : α}

theorem lookup_cons_eq_ite (entry : String × α) (rest : List (String × α)) (k : String) :
    (entry :: rest).lookup k = if k = entry.1 then some entry.2 else rest.lookup k := by
  rw [List.lookup_cons]
  by_cases h : k = entry.1
  · rw [if_pos h, beq_iff_eq.2 h]
  · rw [if_neg h, beq_false_of_ne h]

theorem lookup_insertEntry (entries : List (String × α)) (k : String) :
    (insertEntry key value entries).lookup k =
      if k = key then some value else entries.lookup k := by
  induction entries with
  | nil => exact lookup_cons_eq_ite _ [] k
  | cons entry rest ih =>
    obtain ⟨k', v⟩ := entry
    rw [insertEntry]
    by_cases hlt : key < k'
    · rw [if_pos hlt, lookup_cons_eq_ite]
    rw [if_neg hlt]
    by_cases heq : key = k'
    · rw [if_pos heq, lookup_cons_eq_ite, lookup_cons_eq_ite, ← heq]
      by_cases h : k = key <;> simp [h]
    · rw [if_neg heq, lookup_cons_eq_ite, lookup_cons_eq_ite, ih]
      by_cases h : k = k'
      · simp [h, Ne.symm heq]
      · simp [h]

theorem get?_insert (m : SortedMap α) (k : String) :
    (m.insert key value).get? k = if k = key then some value else m.get? k :=
  lookup_insertEntry m.entries k

/-- If entries with one key are equal, none is lost. -/
theorem get?_ofList_eq_some_iff {entries : List (String × α)}
    (hkeys : ∀ e ∈ entries, ∀ e' ∈ entries, e.1 = e'.1 → e = e') :
    (ofList entries).get? key = some value ↔ (key, value) ∈ entries := by
  induction entries using List.reverseRecOn with
  | nil => simp [ofList, insertAll, get?, EmptyCollection.emptyCollection]
  | append_singleton rest e ih =>
    have hinsert : ofList (rest ++ [e]) = (ofList rest).insert e.1 e.2 := by
      simp [ofList, insertAll]
    rw [hinsert, get?_insert, List.mem_append, List.mem_singleton]
    by_cases hkey : key = e.1
    · rw [if_pos hkey, Option.some_inj]
      constructor
      · rintro rfl
        exact .inr (by rw [hkey])
      · rintro (hmem | rfl)
        · rw [← hkeys _ (List.mem_append_left _ hmem) e (by simp) hkey]
        · rfl
    · rw [if_neg hkey, ih fun a ha b hb => hkeys a (List.mem_append_left _ ha) b
        (List.mem_append_left _ hb)]
      refine ⟨.inl, fun h => h.resolve_right ?_⟩
      rintro rfl
      exact hkey rfl

end SortedMap

/-! ## Components -/

namespace Kind

/-- A kind is a component of itself; the components of an array or a request are also those of the
kind within. -/
inductive Component (part : Kind) : Kind → Prop where
  | self : Component part part
  | array {k : Kind} (inner : Component part k) : Component part (.array k)
  | request {k : Kind} (inner : Component part k) : Component part (.request k)

theorem mem_parts_self (k : Kind) : k ∈ k.parts := by
  cases k <;> simp [parts]

theorem mem_parts_iff {part k : Kind} : part ∈ k.parts ↔ Component part k := by
  constructor
  · intro h
    induction k with
    | array k ih =>
      rcases List.mem_append.1 h with h | h
      · exact .array (ih h)
      · exact List.mem_singleton.1 h ▸ .self
    | request k ih =>
      rcases List.mem_append.1 h with h | h
      · exact .request (ih h)
      · exact List.mem_singleton.1 h ▸ .self
    | _ => exact List.mem_singleton.1 h ▸ .self
  · intro h
    induction h with
    | self => exact mem_parts_self part
    | array _ ih => exact List.mem_append_left _ ih
    | request _ ih => exact List.mem_append_left _ ih

theorem not_injective_spec : ¬ Function.Injective spec := by
  intro h
  have heq : Kind.struct ⟨"", "A"⟩ = Kind.enum ⟨"", "A"⟩ := h rfl
  cases heq

end Kind

/-- A nested declaration can have the qualified name of one in another namespace. -/
theorem DeclRef.qualified_nested {space : String} (h : space ≠ "") (parent name : String) :
    DeclRef.qualified ⟨space, parent ++ "." ++ name⟩ =
      DeclRef.qualified ⟨space ++ "." ++ parent, name⟩ := by
  simp [DeclRef.qualified, h, String.append_assoc]

namespace Module

/-- The kinds that are written in a module. -/
inductive Uses (m : Module) : Kind → Prop where
  | constant {c : Constant} (hc : c ∈ m.constants) : Uses m c.kind
  | field {s : Struct} {f : Field} (hs : s ∈ m.structs) (hf : f ∈ s.fields) : Uses m f.kind
  | structConstant {s : Struct} {c : Constant} (hs : s ∈ m.structs) (hc : c ∈ s.constants) :
    Uses m c.kind
  | interfaceConstant {i : Interface} {c : Constant} (hi : i ∈ m.interfaces)
    (hc : c ∈ i.constants) : Uses m c.kind
  | parameter {i : Interface} {method : Method} {p : Parameter} (hi : i ∈ m.interfaces)
    (hmethod : method ∈ i.methods) (hp : p ∈ method.parameters) : Uses m p.kind
  | response {i : Interface} {method : Method} {parameters : List Parameter} {p : Parameter}
    (hi : i ∈ m.interfaces) (hmethod : method ∈ i.methods) (hr : method.response = some parameters)
    (hp : p ∈ parameters) : Uses m p.kind
  | client {i : Interface} {decl : DeclRef} (hi : i ∈ m.interfaces) (hc : i.client = some decl) :
    Uses m (.interface decl)

/-- A kind occurs in a module if it is a component of one that is written there. -/
def Occurs (m : Module) (k : Kind) : Prop :=
  ∃ whole, m.Uses whole ∧ k.Component whole

variable {r : Record} {m : Module} {path : String} {imports : List (Import Module)}

theorem mem_usedKinds_iff {k : Kind} : k ∈ m.usedKinds ↔ m.Uses k := by
  simp only [usedKinds, Struct.kindsUsed, Interface.kindsUsed, Method.kindsUsed, List.mem_append,
    List.mem_map, List.mem_flatMap, Option.mem_toList, Option.map_eq_some_iff]
  constructor
  · rintro ((⟨c, hc, rfl⟩ | ⟨s, hs, ⟨c, hc, rfl⟩ | ⟨f, hf, rfl⟩⟩) |
      ⟨i, hi, (⟨decl, hc, rfl⟩ | ⟨c, hc, rfl⟩) | ⟨method, hm, ⟨p, hp, rfl⟩ | ⟨p, hp, rfl⟩⟩⟩)
    · exact .constant hc
    · exact .structConstant hs hc
    · exact .field hs hf
    · exact .client hi hc
    · exact .interfaceConstant hi hc
    · exact .parameter hi hm hp
    · cases hr : method.response with
      | none => simp [hr] at hp
      | some parameters => exact .response hi hm hr (by simpa [hr] using hp)
  · intro h
    cases h with
    | constant hc => exact .inl (.inl ⟨_, hc, rfl⟩)
    | structConstant hs hc => exact .inl (.inr ⟨_, hs, .inl ⟨_, hc, rfl⟩⟩)
    | field hs hf => exact .inl (.inr ⟨_, hs, .inr ⟨_, hf, rfl⟩⟩)
    | client hi hc => exact .inr ⟨_, hi, .inl (.inl ⟨_, hc, rfl⟩)⟩
    | interfaceConstant hi hc => exact .inr ⟨_, hi, .inl (.inr ⟨_, hc, rfl⟩)⟩
    | parameter hi hm hp => exact .inr ⟨_, hi, .inr ⟨_, hm, .inl ⟨_, hp, rfl⟩⟩⟩
    | response hi hm hr hp =>
      exact .inr ⟨_, hi, .inr ⟨_, hm, .inr ⟨_, by simpa [hr] using hp, rfl⟩⟩⟩

theorem mem_flatMap_parts_iff {k : Kind} : k ∈ m.usedKinds.flatMap Kind.parts ↔ m.Occurs k := by
  simp only [List.mem_flatMap, mem_usedKinds_iff, Kind.mem_parts_iff, Occurs]

/-- Kinds that occur in one module are told apart by their specs. -/
theorem Resolved.eq_of_spec_eq {known : Names} {modules : List Module}
    (homed : ∀ m ∈ modules, m.Homed) (h : Resolved r (Names.ofRecord r modules) known m)
    {k k' : Kind} (hk : m.Occurs k) (hk' : m.Occurs k') (hspec : k.spec = k'.spec) : k = k' := by
  have hfound : ∀ {k : Kind}, m.Occurs k → Found known k := by
    rintro k ⟨whole, hwhole, hpart⟩
    have hfound := h.found homed whole (mem_usedKinds_iff.2 hwhole)
    exact hfound.of_mem_parts (Kind.mem_parts_iff.2 hpart)
  exact (hfound hk).eq_of_spec_eq (hfound hk') hspec

/-- A module that is built lists a kind under a text iff the text is its spec and the kind occurs
in the module. So kinds that occur in it are equal iff their specs are. This does not hold of all
kinds: a struct, an interface and an enum of one name have one spec, and so have a nested
declaration and one of a namespace that ends with its parent. What is asked of the imports, that
their structs and interfaces are in their own namespaces, holds of the module that is built, too. -/
theorem mem_kinds_iff_occurs (homed : ∀ i ∈ imports, i.target.Homed)
    (hb : ofRecord r path imports = .ok m) :
    (∀ (text : String) (k : Kind), m.kinds.get? text = some k ↔ text = k.spec ∧ m.Occurs k) ∧
    (∀ k k' : Kind, m.Occurs k → m.Occurs k' → (k = k' ↔ k.spec = k'.spec)) ∧
    ¬ Function.Injective Kind.spec ∧
    (∀ decl : DeclRef, (Kind.struct decl).spec = (Kind.interface decl).spec ∧
      (Kind.interface decl).spec = (Kind.enum decl).spec) ∧
    (∀ space parent name : String, space ≠ "" →
      DeclRef.qualified ⟨space, parent ++ "." ++ name⟩ =
        DeclRef.qualified ⟨space ++ "." ++ parent, name⟩) ∧
    m.Homed := by
  obtain ⟨known, resolved⟩ := resolved_of_ofRecord hb
  have hapart : ∀ k k' : Kind, m.Occurs k → m.Occurs k' → k.spec = k'.spec → k = k' :=
    fun k k' => resolved.eq_of_spec_eq (List.forall_mem_map.2 homed)
  refine ⟨fun text k => ?_, fun k k' hk hk' => ⟨congrArg Kind.spec, hapart k k' hk hk'⟩,
    Kind.not_injective_spec, fun _ => ⟨rfl, rfl⟩, fun _ _ _ h => DeclRef.qualified_nested h _ _,
    homed_of_ofRecord hb⟩
  rw [resolved.kinds, kindMap, noteAll, ← SortedMap.ofList, SortedMap.get?_ofList_eq_some_iff]
  · rw [List.mem_map]
    constructor
    · rintro ⟨k, hk, heq⟩
      cases heq
      exact ⟨rfl, mem_flatMap_parts_iff.1 hk⟩
    · rintro ⟨rfl, hk⟩
      exact ⟨k, mem_flatMap_parts_iff.2 hk, rfl⟩
  · simp only [List.mem_map, mem_flatMap_parts_iff]
    rintro _ ⟨k, hk, rfl⟩ _ ⟨k', hk', rfl⟩ hspec
    rw [hapart k k' hk hk' hspec]

/-- `module wire; import "net"; struct Node { enum Mode { ON }; array<Mode> modes; net.Node next; };
[Client=Link] interface Link { Open(Link& peer) => (array<array<bool>> bits); };` -/
def links : Record where
  name := "links"
  space := "wire"
  attributes := ∅
  imports := [⟨1, "net"⟩]
  structs :=
    [⟨1, "Node", ∅,
      [⟨1, "modes", "a:x:Mode", none, none, ∅⟩, ⟨1, "next", "x:net.Node", none, none, ∅⟩],
      [⟨1, "Mode", ∅, [⟨1, "ON", none⟩]⟩], []⟩]
  interfaces :=
    [⟨2, "Link", .ofList [("Client", .name "Link")],
      [⟨2, "Open", none, [⟨2, "peer", "r:x:Link", none, ∅⟩],
        some [⟨2, "bits", "a:a:b", none, ∅⟩], ∅⟩], [], []⟩]
  enums := []
  constants := []

theorem mode_links :
    (ofRecord links "/links" nodeImport).map
        (fun m => (m.kinds.get? "x:wire.Node.Mode", m.kinds.get? "x:net.Node")) =
      .ok (some (.enum ⟨"wire", "Node.Mode"⟩), some (.struct ⟨"net", "Node"⟩)) := by
  decide +kernel

/-- The enum below the array of `links` occurs there, so no struct `Mode` of `wire.Node` does. -/
theorem mem_kinds_iff_occurs_links :
    (∀ i ∈ nodeImport, i.target.Homed) ∧ ∃ m, ofRecord links "/links" nodeImport = .ok m ∧
      m.kinds.get? "x:wire.Node.Mode" = some (.enum ⟨"wire", "Node.Mode"⟩) ∧
      m.Occurs (.enum ⟨"wire", "Node.Mode"⟩) ∧ ¬ m.Occurs (.struct ⟨"wire.Node", "Mode"⟩) ∧
      m.Occurs (.struct ⟨"net", "Node"⟩) := by
  obtain ⟨m, hm, hkinds⟩ := Except.map_eq_ok.1 mode_links
  obtain ⟨hmode, hnode⟩ := Prod.mk.inj hkinds
  obtain ⟨listed, apart, -⟩ := mem_kinds_iff_occurs homed_nodeImport hm
  have hoccurs := ((listed _ _).1 hmode).2
  refine ⟨homed_nodeImport, m, hm, hmode, hoccurs, fun hstruct => ?_, ((listed _ _).1 hnode).2⟩
  cases (apart _ _ hoccurs hstruct).2 (by decide)

end Module

end WireSchema
