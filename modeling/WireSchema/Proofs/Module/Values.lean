import WireSchema.Proofs.Grammar.Identifiers
import WireSchema.Proofs.Module.Closed
import WireSchema.Proofs.Module.Integers

/-!
# The values of enums

The enums of a record are built one after the other, and the integers of the fields that are built
become known to the fields after them. `resolved_of_ofRecord` says what this comes to: the integers
of all fields are those denoted by the tables that the record starts with.
-/

namespace WireSchema.Module

open Names

variable {names known known' : Names} {r : Record} {m : Module} {parent : Option String}
  {path : String} {imports : List (Import Module)}

/-! ## Names that must differ -/

theorem checkUnique_eq_ok {seen : List String} {xs : List (String × UInt32)} :
    checkUnique seen xs = .ok () ↔ (xs.map Prod.fst).Nodup ∧ ∀ x ∈ xs.map Prod.fst, x ∉ seen := by
  induction xs generalizing seen with
  | nil => simp [checkUnique]
  | cons x rest ih =>
    obtain ⟨name, line⟩ := x
    rw [checkUnique]
    split
    · next hseen => simp [hseen]
    · next hnew =>
      rw [ih, List.map_cons, List.nodup_cons, List.forall_mem_cons]
      constructor
      · rintro ⟨hnodup, hrest⟩
        refine ⟨⟨fun hmem => hrest name hmem List.mem_cons_self, hnodup⟩, hnew, fun x hx hseen => ?_⟩
        exact hrest x hx (List.mem_cons_of_mem _ hseen)
      · rintro ⟨⟨hname, hnodup⟩, -, hrest⟩
        refine ⟨hnodup, fun x hx hseen => ?_⟩
        rcases List.mem_cons.1 hseen with rfl | hseen
        · exact hname hx
        · exact hrest x hx hseen

theorem checkUnique_nil {xs : List (String × UInt32)} :
    checkUnique [] xs = .ok () ↔ (xs.map Prod.fst).Nodup := by
  simp [checkUnique_eq_ok]

theorem map_fst_nestedNames (enums : List Record.Enum) (constants : List Record.Constant) :
    (nestedNames enums constants).map Prod.fst =
      enums.map Record.Enum.name ++ constants.map Record.Constant.name := by
  simp [nestedNames, Function.comp_def]

/-! ## One enum after the other -/

/-- The key of a field of an enum of a record. -/
def fieldKey (space : String) (p : Option String × Record.Enum) (name : String) : String :=
  (enumDecl space p).qualified ++ "." ++ name

/-- An enum of a record with the integers that its fields denote. -/
structure Enum.Valued (names : Names) (p : Option String × Record.Enum) (enum : Enum) : Prop where
  name : enum.name = p.2.name
  space : enum.space = names.space
  parent : enum.parent = p.1
  attributes : enum.attributes = p.2.attributes
  distinct : (p.2.fields.map Record.EnumField.name).Nodup
  fields : List.Forall₂ (fun f built => EnumField.name built = Record.EnumField.name f ∧
    names.Denotes (.field (fieldKey names.space p f.name)) built.value) p.2.fields enum.fields

theorem buildEnumFields_denotes {decl : DeclRef} {records : List Record.EnumField}
    {fields : List EnumField} (h : names.Knows known)
    (hb : buildEnumFields decl known records = .ok (fields, known')) :
    names.Knows known' ∧
      List.Forall₂ (fun f built => EnumField.name built = Record.EnumField.name f ∧
        names.Denotes (.field (decl.qualified ++ "." ++ f.name)) built.value) records fields := by
  induction records generalizing known fields with
  | nil =>
    cases hb
    exact ⟨h, .nil⟩
  | cons f rest ih =>
    simp only [buildEnumFields, Except.bind_eq_ok, Except.pure_eq_ok, Prod.exists,
      Prod.mk.injEq] at hb
    obtain ⟨value, hvalue, others, known₁, hrest, rfl, rfl⟩ := hb
    have hdenotes := h.denotes (denotes_of_integerAt hvalue)
    obtain ⟨hknows, hothers⟩ := ih (h.addMember (m := ⟨decl, f.name, value⟩) hdenotes) hrest
    exact ⟨hknows, .cons ⟨rfl, hdenotes⟩ hothers⟩

theorem buildEnum_valued {e : Record.Enum} {enum : Enum} (h : names.Knows known)
    (hb : buildEnum parent known e = .ok (enum, known')) :
    names.Knows known' ∧ enum.Valued names (parent, e) := by
  simp only [buildEnum, Except.bind_eq_ok, Except.pure_eq_ok, Prod.exists, Prod.mk.injEq] at hb
  obtain ⟨_, hunique, fields, known₁, hfields, rfl, rfl⟩ := hb
  obtain ⟨hknows, hdenotes⟩ := buildEnumFields_denotes h hfields
  have hnodup : (e.fields.map Record.EnumField.name).Nodup := by
    simpa [Function.comp_def] using checkUnique_nil.1 hunique
  rw [h.space] at hdenotes
  exact ⟨hknows, ⟨rfl, hknows.space, rfl, rfl, hnodup, hdenotes⟩⟩

theorem buildEnums_valued {records : List Record.Enum} {enums : List Enum} (h : names.Knows known)
    (hb : buildEnums parent known records = .ok (enums, known')) :
    names.Knows known' ∧ List.Forall₂ (fun e => Enum.Valued names (parent, e)) records enums := by
  induction records generalizing known enums with
  | nil =>
    cases hb
    exact ⟨h, .nil⟩
  | cons e rest ih =>
    simp only [buildEnums, Except.bind_eq_ok, Except.pure_eq_ok, Prod.exists, Prod.mk.injEq] at hb
    obtain ⟨enum, known₁, henum, others, known₂, hrest, rfl, rfl⟩ := hb
    obtain ⟨hknows₁, hvalued⟩ := buildEnum_valued h henum
    obtain ⟨hknows₂, hothers⟩ := ih hknows₁ hrest
    exact ⟨hknows₂, .cons hvalued hothers⟩

theorem buildNestedEnums_valued {records : List (String × List Record.Enum)}
    {nested : List (List Enum)} (h : names.Knows known)
    (hb : buildNestedEnums known records = .ok (nested, known')) :
    names.Knows known' ∧
      List.Forall₂ (fun record => List.Forall₂ (fun e => Enum.Valued names (some record.1, e)) record.2)
        records nested := by
  induction records generalizing known nested with
  | nil =>
    cases hb
    exact ⟨h, .nil⟩
  | cons record rest ih =>
    simp only [buildNestedEnums, Except.bind_eq_ok, Except.pure_eq_ok, Prod.exists,
      Prod.mk.injEq] at hb
    obtain ⟨enums, known₁, henums, others, known₂, hrest, rfl, rfl⟩ := hb
    obtain ⟨hknows₁, hvalued⟩ := buildEnums_valued h henums
    obtain ⟨hknows₂, hothers⟩ := ih hknows₁ hrest
    exact ⟨hknows₂, .cons hvalued hothers⟩

/-! ## Whole records -/

/-- The enums nested in a struct or interface with the integers that their fields denote. -/
def NestedValued (names : Names) (h : Record.Holder) (enums : List Enum) : Prop :=
  List.Forall₂ (fun e => Enum.Valued names (some h.name, e)) h.enums enums

/-- The enums of a record, those at the top, in structs and in interfaces, with the integers that
their fields denote. -/
structure EnumsValued (r : Record) (names : Names) (top : List Enum)
    (inStructs inInterfaces : List (List Enum)) : Prop where
  enums : List.Forall₂ (fun e => Enum.Valued names (none, e)) r.enums top
  structs : List.Forall₂ (fun s => NestedValued names (Record.Struct.holder s)) r.structs inStructs
  interfaces : List.Forall₂ (fun i => NestedValued names (Record.Interface.holder i)) r.interfaces
    inInterfaces

/-- The enums built from a record: `known` are the names of the record with the values of its
enums. -/
structure EnumsBuilt (r : Record) (names known : Names) (top : List Enum)
    (inStructs inInterfaces : List (List Enum)) : Prop
    extends EnumsValued r names top inStructs inInterfaces where
  knows : names.Knows known
  known_eq : known = ((top ++ (inStructs ++ inInterfaces).flatten).flatMap Enum.members).foldl
    addMember names

theorem EnumsValued.holders {top : List Enum} {inStructs inInterfaces : List (List Enum)}
    (h : EnumsValued r names top inStructs inInterfaces) :
    List.Forall₂ (NestedValued names) r.holders (inStructs ++ inInterfaces) :=
  List.rel_append (List.forall₂_map_left_iff.2 h.structs) (List.forall₂_map_left_iff.2 h.interfaces)

theorem enumsBuilt_of_build {known₁ known₂ : Names} {enums : List Enum}
    {structEnums interfaceEnums : List (List Enum)}
    (henums : buildEnums none names r.enums = .ok (enums, known₁))
    (hstructs : buildNestedEnums known₁ (r.structs.map fun s => (s.name, s.enums)) =
      .ok (structEnums, known₂))
    (hinterfaces : buildNestedEnums known₂ (r.interfaces.map fun i => (i.name, i.enums)) =
      .ok (interfaceEnums, known)) : EnumsBuilt r names known enums structEnums interfaceEnums := by
  obtain ⟨hknows₁, hvalued⟩ := buildEnums_valued (.refl _) henums
  obtain ⟨hknows₂, hstructValued⟩ := buildNestedEnums_valued hknows₁ hstructs
  obtain ⟨hknows, hinterfaceValued⟩ := buildNestedEnums_valued hknows₂ hinterfaces
  rw [List.forall₂_map_left_iff] at hstructValued hinterfaceValued
  refine ⟨⟨hvalued, hstructValued, hinterfaceValued⟩, hknows, ?_⟩
  rw [(buildNestedEnums_spec hinterfaces).2, (buildNestedEnums_spec hstructs).2,
    (buildEnums_spec henums).2, List.flatten_append, List.flatMap_append, List.flatMap_append,
    List.foldl_append, List.foldl_append]

/-- The parts of a module and the parts of the record they are built from: the enums, and the rest
with the names that are known once the enums are built. -/
structure Resolved (r : Record) (names known : Names) (m : Module) : Prop where
  top : r.topNames.Nodup
  built : EnumsBuilt r names known m.enums (m.structs.map Struct.enums)
    (m.interfaces.map Interface.enums)
  structs : List.Forall₂
    (fun s struct => (buildStruct known s struct.enums).value = .ok struct) r.structs m.structs
  interfaces : List.Forall₂
    (fun i interface => (buildInterface known i interface.enums).value = .ok interface) r.interfaces
    m.interfaces
  constants : List.Forall₂
    (fun c constant => (buildConstant known [] c).value = .ok constant) r.constants m.constants
  kinds : m.kinds = kindMap m.usedKinds

/-- What is built from declarations and their nested enums, by declaration. -/
theorem forall₂_of_zip_mapM {ρ ν σ : Type} {f : ρ × ν → Except BuildFault σ} {g : σ → ν}
    (hg : ∀ x y z, f (x, y) = .ok z → g z = y) {xs : List ρ} {ys : List ν} {zs : List σ}
    (hlength : xs.length = ys.length) (hb : (xs.zip ys).mapM f = .ok zs) :
    zs.map g = ys ∧ List.Forall₂ (fun x z => f (x, g z) = .ok z) xs zs := by
  induction xs generalizing ys zs with
  | nil =>
    cases List.length_eq_zero_iff.1 hlength.symm
    cases hb
    exact ⟨rfl, .nil⟩
  | cons x xs ih =>
    obtain ⟨y, ys, rfl⟩ := List.exists_cons_of_length_eq_add_one hlength.symm
    rw [List.zip_cons_cons, List.mapM_cons] at hb
    simp only [Except.bind_eq_ok, Except.pure_eq_ok] at hb
    obtain ⟨z, hz, zs, hzs, rfl⟩ := hb
    obtain ⟨hmap, hall⟩ := ih (by simpa using hlength) hzs
    have hgz := hg x y z hz
    exact ⟨by rw [List.map_cons, hgz, hmap], .cons (hgz ▸ hz) hall⟩

theorem enums_of_buildStruct {s : Record.Struct} {enums : List Enum} {struct : Struct}
    (hb : (buildStruct names s enums).value = .ok struct) : struct.enums = enums := by
  simp only [value_buildStruct, Except.bind_eq_ok, Except.pure_eq_ok] at hb
  obtain ⟨-, -, constants, -, fields, -, rfl⟩ := hb
  rfl

theorem enums_of_buildInterface {i : Record.Interface} {enums : List Enum} {interface : Interface}
    (hb : (buildInterface names i enums).value = .ok interface) : interface.enums = enums := by
  simp only [value_buildInterface, Except.bind_eq_ok, Except.pure_eq_ok] at hb
  obtain ⟨-, -, client, -, constants, -, methods, -, rfl⟩ := hb
  rfl

theorem resolved_of_ofRecord (hb : ofRecord r path imports = .ok m) :
    ∃ known, Resolved r (Names.ofRecord r (imports.map Import.target)) known m := by
  obtain ⟨enums, known₁, structEnums, known₂, interfaceEnums, known, constants, structs, interfaces,
    hunique, henums, hstructEnums, hinterfaceEnums, hconstants, hstructs, hinterfaces, hm⟩ :=
    ofRecord_eq_ok_iff.1 hb
  have built := enumsBuilt_of_build henums hstructEnums hinterfaceEnums
  obtain ⟨hstructMap, hstructBuilt⟩ :=
    forall₂_of_zip_mapM (f := fun p => (buildStruct known p.1 p.2).value)
      (fun _ _ _ => enums_of_buildStruct) built.structs.length_eq hstructs
  obtain ⟨hinterfaceMap, hinterfaceBuilt⟩ :=
    forall₂_of_zip_mapM (f := fun p => (buildInterface known p.1 p.2).value)
      (fun _ _ _ => enums_of_buildInterface) built.interfaces.length_eq hinterfaces
  subst hm hstructMap hinterfaceMap
  refine ⟨known, ⟨?_, built, hstructBuilt, hinterfaceBuilt, List.forall₂_of_mapM hconstants, rfl⟩⟩
  exact map_fst_topLevelNames r ▸ checkUnique_nil.1 hunique

/-- Every enum of the record is built with the integers that its fields denote. -/
theorem EnumsValued.exists_mem_valued {enums : List Enum}
    {structEnums interfaceEnums : List (List Enum)}
    (h : EnumsValued r names enums structEnums interfaceEnums)
    {p : Option String × Record.Enum} (hp : p ∈ r.scopedEnums) :
    ∃ enum ∈ enums ++ (structEnums ++ interfaceEnums).flatten, enum.Valued names p := by
  rcases Record.mem_scopedEnums.1 hp with ⟨holder, hh, e, he, rfl⟩ | ⟨e, he, rfl⟩
  · obtain ⟨nested, -, hnested, hvalues⟩ := h.holders.exists_right_of_mem hh
    obtain ⟨enum, -, henum, hvalued⟩ := hvalues.exists_right_of_mem he
    exact ⟨enum, List.mem_append_right _ (List.mem_flatten.2 ⟨nested, hnested, henum⟩), hvalued⟩
  · obtain ⟨enum, -, henum, hvalued⟩ := h.enums.exists_right_of_mem he
    exact ⟨enum, List.mem_append_left _ henum, hvalued⟩

theorem EnumsValued.exists_valued {enums : List Enum} {structEnums interfaceEnums : List (List Enum)}
    (h : EnumsValued r names enums structEnums interfaceEnums)
    {p : Option String × Record.Enum} (hp : p ∈ r.scopedEnums) :
    ∃ enum : Enum, enum.Valued names p := by
  obtain ⟨enum, -, hvalued⟩ := h.exists_mem_valued hp
  exact ⟨enum, hvalued⟩

/-- A record that is built declares no name twice. -/
theorem Resolved.distinct (h : Resolved r names known m) : r.Distinct := by
  refine ⟨h.top, fun holder hh => ?_, fun p hp => ?_⟩
  · rcases List.mem_append.1 hh with hh | hh
    · obtain ⟨s, hs, rfl⟩ := List.mem_map.1 hh
      obtain ⟨struct, -, -, hb⟩ := h.structs.exists_right_of_mem hs
      simp only [value_buildStruct, Except.bind_eq_ok] at hb
      obtain ⟨_, hunique, -⟩ := hb
      have hnodup := checkUnique_nil.1 hunique
      rw [List.map_append, map_fst_nestedNames] at hnodup
      exact (List.nodup_append.1 hnodup).2.1
    · obtain ⟨i, hi, rfl⟩ := List.mem_map.1 hh
      obtain ⟨interface, -, -, hb⟩ := h.interfaces.exists_right_of_mem hi
      simp only [value_buildInterface, Except.bind_eq_ok] at hb
      obtain ⟨_, hunique, -⟩ := hb
      have hnodup := checkUnique_nil.1 hunique
      rw [List.map_append, map_fst_nestedNames] at hnodup
      exact (List.nodup_append.1 hnodup).2.1
  · obtain ⟨enum, hvalued⟩ := h.built.exists_valued hp
    exact hvalued.distinct

/-! ## The equations of a record -/

section Solved

variable {p : Option String × Record.Enum} {i : Nat} {f : Record.EnumField}

/-- The entry of an enum field of a record. -/
theorem lookup_fieldKey (imports : List Module) (plain : r.Plain) (distinct : r.Distinct)
    (hp : p ∈ r.scopedEnums) (hf : p.2.fields[i]? = some f) :
    (Names.ofRecord r imports).members.lookup (fieldKey r.space p f.name) = none ∧
      (Names.ofRecord r imports).fields.lookup (fieldKey r.space p f.name) =
        some ⟨f.name, f.line, f.value,
          Record.fieldBefore (enumDecl r.space p) p.2.fields i, enumScope p⟩ := by
  have declared := Record.lookup_fields_ofRecord plain distinct imports hp hf
  refine ⟨?_, declared⟩
  have hkey := mem_keys_of_lookup declared
  rw [fields_ofRecord, List.map_reverse, List.mem_reverse] at hkey
  rw [Record.lookup_members_ofRecord, fieldKey, if_pos hkey]

end Solved

theorem Resolved.map_name_structs (h : Resolved r names known m) :
    m.structs.map Struct.name = r.structs.map Record.Struct.name :=
  h.structs.map_eq fun _ _ hb => (@buildStruct_spec [] "" _ _ _ _ hb).2.1

theorem Resolved.map_name_interfaces (h : Resolved r names known m) :
    m.interfaces.map Interface.name = r.interfaces.map Record.Interface.name :=
  h.interfaces.map_eq fun _ _ hb => (@buildInterface_spec [] "" _ _ _ _ hb).2.1

/-- `const int32 K = 7; enum A { X = B.Y, Z }; enum B { Y = K, Q = A.Z };` -/
def crossed : Record where
  name := "crossed"
  space := ""
  attributes := ∅
  imports := []
  structs := []
  interfaces := []
  enums :=
    [⟨1, "A", ∅, [⟨1, "X", some (.name "B.Y")⟩, ⟨1, "Z", none⟩]⟩,
      ⟨1, "B", ∅, [⟨1, "Y", some (.name "K")⟩, ⟨1, "Q", some (.name "A.Z")⟩]⟩]
  constants := [⟨1, "K", "i32", .integer "7", ∅⟩]

end WireSchema.Module
