import Mathlib.Data.String.Basic
import WireSchema.Proofs.Module.Values

/-!
# The order of declarations

The declarations of a record may be written in any order. In the tables of two records that differ
in this order only, the same entries are found, so their enum fields denote the same integers
(`Record.Reordered.knows`) and all else is built alike.
-/

namespace WireSchema

open WireSchema.Module WireSchema.Module.Names WireSchema.Module.Resolving

/-! ## Maps -/

namespace SortedMap

variable {α : Type}

theorem insertEntry_comm {key key' : String} (hne : key ≠ key') (value value' : α)
    (entries : List (String × α)) :
    insertEntry key value (insertEntry key' value' entries) =
      insertEntry key' value' (insertEntry key value entries) := by
  wlog hlt : key < key' generalizing key key' value value' with hsymm
  · exact (hsymm hne.symm value' value (lt_of_le_of_ne (not_lt.1 hlt) hne.symm)).symm
  induction entries with
  | nil => simp [insertEntry, hlt, hlt.not_gt, hne.symm]
  | cons entry rest ih =>
    obtain ⟨k, v⟩ := entry
    rcases lt_trichotomy key k with h | h | h
    · rcases lt_trichotomy key' k with h' | h' | h'
      · simp [insertEntry, hlt, hlt.not_gt, hne.symm, h, h']
      · simp [insertEntry, hlt, hlt.not_gt, hne.symm, ← h']
      · simp [insertEntry, hlt.not_gt, hne.symm, h, h'.not_gt, h'.ne']
    · subst h
      simp [insertEntry, hlt.not_gt, hne.symm]
    · have h' := h.trans hlt
      simp [insertEntry, h.not_gt, h.ne', h'.not_gt, h'.ne', ih]

/-- A map does not depend on the order of its entries if those with one key are equal. -/
theorem ofList_eq_of_perm {entries entries' : List (String × α)} (hperm : entries.Perm entries')
    (hkeys : ∀ e ∈ entries, ∀ e' ∈ entries, e.1 = e'.1 → e = e') :
    ofList entries = ofList entries' := by
  refine hperm.foldl_eq' (fun e he e' he' map => ?_) ∅
  by_cases hne : e.1 = e'.1
  · rw [hkeys e he e' he' hne]
  · simp only [insert, mk.injEq]
    exact insertEntry_comm (Ne.symm hne) _ _ _

end SortedMap

/-! ## Reordered records -/

/-- Records that differ in the order of their declarations. -/
structure Record.Reordered (r r' : Record) : Prop where
  name : r.name = r'.name
  space : r.space = r'.space
  attributes : r.attributes = r'.attributes
  imports : r.imports = r'.imports
  structs : r.structs.Perm r'.structs
  interfaces : r.interfaces.Perm r'.interfaces
  enums : r.enums.Perm r'.enums
  constants : r.constants.Perm r'.constants

namespace Record.Reordered

variable {r r' : Record}

theorem symm (h : r.Reordered r') : r'.Reordered r :=
  ⟨h.name.symm, h.space.symm, h.attributes.symm, h.imports.symm, h.structs.symm, h.interfaces.symm,
    h.enums.symm, h.constants.symm⟩

theorem holders (h : r.Reordered r') : r.holders.Perm r'.holders :=
  (h.structs.map _).append (h.interfaces.map _)

theorem scopedEnums (h : r.Reordered r') : r.scopedEnums.Perm r'.scopedEnums :=
  (h.holders.flatMap_right _).append (h.enums.map _)

theorem scopedConstants (h : r.Reordered r') : r.scopedConstants.Perm r'.scopedConstants :=
  (h.holders.flatMap_right _).append (h.constants.map _)

theorem topNames (h : r.Reordered r') : r.topNames.Perm r'.topNames :=
  ((h.holders.map _).append (h.enums.map _)).append (h.constants.map _)

theorem plain (h : r.Reordered r') (hr : r.Plain) : r'.Plain :=
  ⟨fun _ hh => hr.holders _ (h.holders.mem_iff.2 hh),
    fun _ hp => hr.enums _ (h.scopedEnums.mem_iff.2 hp),
    fun _ hp => hr.fields _ (h.scopedEnums.mem_iff.2 hp),
    fun _ hp => hr.constants _ (h.scopedConstants.mem_iff.2 hp)⟩

theorem distinct (h : r.Reordered r') (hr : r.Distinct) : r'.Distinct :=
  ⟨h.topNames.nodup_iff.1 hr.top, fun _ hh => hr.nested _ (h.holders.mem_iff.2 hh),
    fun _ hp => hr.fields _ (h.scopedEnums.mem_iff.2 hp)⟩

theorem ownFields (h : r.Reordered r') : (ownFields r).Perm (ownFields r') := by
  rw [Names.ownFields, Names.ownFields, ← h.space]
  exact h.scopedEnums.flatMap_right _

theorem ownConstants (h : r.Reordered r') : (ownConstants r).Perm (ownConstants r') := by
  rw [Names.ownConstants, Names.ownConstants, ← h.space]
  exact h.scopedConstants.map _

theorem ownKinds (h : r.Reordered r') : (ownKinds r).Perm (ownKinds r') := by
  rw [Names.ownKinds, Names.ownKinds, ← h.space]
  exact ((h.structs.flatMap_right _).append (h.interfaces.flatMap_right _)).append (h.enums.map _)

theorem lookup_reverse_append {α : Type} {own own' rest rest' : List (String × α)} {key : String}
    (hp : own.Perm own') (hnodup : (own.map Prod.fst).Nodup)
    (hrest : rest'.lookup key = rest.lookup key) :
    (own'.reverse ++ rest').lookup key = (own.reverse ++ rest).lookup key := by
  have hreverse : own.reverse.Perm own'.reverse :=
    (own.reverse_perm.trans hp).trans own'.reverse_perm.symm
  have hkeys : (own.reverse.map Prod.fst).Nodup := by
    rw [List.map_reverse]
    exact List.nodup_reverse.2 hnodup
  rw [List.lookup_append, List.lookup_append, lookup_eq_of_perm hreverse hkeys, hrest]

theorem lookup_members (h : r.Reordered r') (imports : List Module) (key : String) :
    (Names.ofRecord r' imports).members.lookup key =
      (Names.ofRecord r imports).members.lookup key := by
  rw [Record.lookup_members_ofRecord, Record.lookup_members_ofRecord, ← h.space]
  simp only [(h.ownFields.map Prod.fst).mem_iff]

/-- In the tables of reordered records the same is found. -/
theorem knows (h : r.Reordered r') (plain : r.Plain) (distinct : r.Distinct)
    (imports : List Module) : (Names.ofRecord r imports).Knows (Names.ofRecord r' imports) where
  space := by rw [space_ofRecord, space_ofRecord, h.space]
  kinds key := by
    rw [kinds_ofRecord, kinds_ofRecord, ← h.space]
    exact lookup_reverse_append h.ownKinds (Record.nodup_ownKinds plain distinct) rfl
  fields key := by
    rw [fields_ofRecord, fields_ofRecord, ← List.append_nil (List.reverse _),
      ← List.append_nil (Names.ownFields r).reverse]
    exact lookup_reverse_append h.ownFields (Record.nodup_ownFields plain distinct) rfl
  constants key := by
    rw [constants_ofRecord, constants_ofRecord, ← h.space]
    exact lookup_reverse_append h.ownConstants (Record.nodup_ownConstants plain distinct) rfl
  members hm := (Knows.refl _).members (h.lookup_members imports _ ▸ hm)
  grows hnone := h.lookup_members imports _ ▸ hnone

end Record.Reordered

namespace Module

variable {names names' known known' : Names} {scope : List String} {line : UInt32}

/-! ## Tables in which the same is found -/

/-- The same kinds and values are found in two tables. -/
structure Names.Alike (names names' : Names) : Prop where
  space : names.space = names'.space
  kinds : ∀ key, names.kinds.lookup key = names'.kinds.lookup key
  members : ∀ key, names.members.lookup key = names'.members.lookup key
  constants : ∀ key, names.constants.lookup key = names'.constants.lookup key

namespace Names.Alike

theorem candidates (h : names.Alike names') (scope : List String) (name : String) :
    names.candidates scope name = names'.candidates scope name := by
  rw [Names.candidates, Names.candidates, h.space]

theorem resolveSpec (h : names.Alike names') (scope : List String) (line : UInt32)
    (spec : List Char) :
    names.resolveSpec scope line spec = names'.resolveSpec scope line spec := by
  have hkind : ∀ name, names.kind? scope name = names'.kind? scope name := by
    intro name
    simp only [kind?, h.candidates, h.kinds]
  fun_induction Names.resolveSpec names scope line spec with
  | case1 spec basic hspec =>
    unfold Names.resolveSpec
    simp only [hspec]
  | case2 element hspec ih => rw [Names.resolveSpec, hspec, ih]
  | case3 inner hspec ih => rw [Names.resolveSpec, hspec, ih]
  | case4 name k hk hspec =>
    rw [Names.resolveSpec, hspec]
    simp only [← hkind, hk]
  | case5 name hk hspec =>
    rw [Names.resolveSpec, hspec]
    simp only [← hkind, hk]
  | case6 spec harray hrequest hname hspec =>
    rw [Names.resolveSpec, hspec]
    exacts [harray, hrequest, hname]

theorem resolveKind (h : names.Alike names') :
    names.resolveKind = names'.resolveKind := by
  funext scope line spec
  exact h.resolveSpec scope line spec.toList

theorem resolveValue (h : names.Alike names') :
    names.resolveValue = names'.resolveValue := by
  funext scope line expr
  cases expr with
  | name name => simp only [Names.resolveValue, h.candidates, h.members, h.constants]
  | _ => rfl

theorem buildConstant (h : names.Alike names') :
    buildConstant names = buildConstant names' := by
  funext scope c
  simp only [Module.buildConstant, h.resolveKind, h.resolveValue]

theorem buildField (h : names.Alike names') : buildField names = buildField names' := by
  funext scope f
  simp only [Module.buildField, h.resolveKind, h.resolveValue]

theorem buildStruct (h : names.Alike names') : buildStruct names = buildStruct names' := by
  funext s enums
  simp only [Module.buildStruct, h.buildConstant, h.buildField, h.space]

theorem buildClient (h : names.Alike names') : buildClient names = buildClient names' := by
  funext i
  simp only [Module.buildClient, h.resolveKind]

theorem buildParameters (h : names.Alike names') :
    buildParameters names = buildParameters names' := by
  funext scope parameters
  have hparameter : buildParameter names = buildParameter names' := by
    funext scope p
    simp only [buildParameter, h.resolveKind]
  simp only [Module.buildParameters, hparameter]

theorem buildMethods (h : names.Alike names') : buildMethods names = buildMethods names' := by
  funext interface next used methods
  induction methods generalizing next used with
  | nil => rfl
  | cons m rest ih => simp only [Module.buildMethods, h.buildParameters, ih]

theorem buildInterface (h : names.Alike names') : buildInterface names = buildInterface names' := by
  funext i enums
  simp only [Module.buildInterface, h.buildClient, h.buildConstant, h.buildMethods, h.space]

end Names.Alike

/-! ## The names that are known once enums are built -/

section Built

variable {r r' : Record} {imports : List Module} {top top' : List Enum}
  {inStructs inStructs' inInterfaces inInterfaces' : List (List Enum)} {p : Option String × Record.Enum}
  {enum enum' : Enum}

theorem Enum.Valued.unique (h : enum.Valued names p) (h' : enum'.Valued names p) : enum = enum' := by
  have hfield : Relator.RightUnique fun (f : Record.EnumField) (built : EnumField) =>
      built.name = f.name ∧
        names.Denotes (.field (fieldKey names.space p f.name)) built.value := by
    rintro f ⟨name, value⟩ ⟨name', value'⟩ ⟨rfl, hvalue⟩ ⟨rfl, hvalue'⟩
    obtain rfl : value = value' := hvalue.unique hvalue'
    rfl
  have hfields := hfield.forall₂ h.fields h'.fields
  obtain ⟨name, space, parent, fields, attributes⟩ := enum
  obtain ⟨name', space', parent', fields', attributes'⟩ := enum'
  obtain ⟨rfl, rfl, rfl, rfl, -, -⟩ := h
  obtain ⟨rfl, rfl, rfl, rfl, -, -⟩ := h'
  rw [show fields = fields' from hfields]

theorem Enum.Valued.of_knows (h : names.Knows names') (hvalued : enum.Valued names' p) :
    enum.Valued names p := by
  refine ⟨hvalued.name, hvalued.space.trans h.space, hvalued.parent, hvalued.attributes,
    hvalued.distinct, hvalued.fields.imp fun f built ⟨hname, hdenotes⟩ => ⟨hname, ?_⟩⟩
  exact h.space ▸ h.denotes hdenotes

theorem Enum.Valued.map_memberKey (h : enum.Valued names p) :
    enum.members.map memberKey = p.2.fields.map fun f => fieldKey names.space p f.name := by
  have hdecl : enum.decl = enumDecl names.space p := by
    rw [Enum.decl, h.name, h.space, h.parent]
    rfl
  rw [Enum.members, List.map_map]
  refine h.fields.map_eq fun f built hbuilt => ?_
  simp only [Function.comp_apply, memberKey, hdecl, hbuilt.1, fieldKey]

theorem NestedValued.unique {holder : Record.Holder} {enums enums' : List Enum}
    (h : NestedValued names holder enums) (h' : NestedValued names holder enums') : enums = enums' :=
  Relator.RightUnique.forall₂ (fun _ _ _ hvalued hvalued' => hvalued.unique hvalued') h h'

/-- Where more is known, enums have the integers denoted by less. -/
theorem EnumsValued.of_knows (hknows : names.Knows names')
    (h : EnumsValued r names' top inStructs inInterfaces) :
    EnumsValued r names top inStructs inInterfaces :=
  ⟨h.enums.imp fun _ _ hvalued => hvalued.of_knows hknows,
    h.structs.imp fun _ _ hnested => hnested.imp fun _ _ hvalued => hvalued.of_knows hknows,
    h.interfaces.imp fun _ _ hnested => hnested.imp fun _ _ hvalued => hvalued.of_knows hknows⟩

/-- Enums of reordered records are the same in another order. -/
theorem EnumsValued.perm (hr : r.Reordered r') (h : EnumsValued r names top inStructs inInterfaces)
    (h' : EnumsValued r' names top' inStructs' inInterfaces') :
    (top ++ (inStructs ++ inInterfaces).flatten).Perm
      (top' ++ (inStructs' ++ inInterfaces').flatten) := by
  have htop : top.Perm top' :=
    List.rel_perm_imp (fun _ _ _ hvalued hvalued' => hvalued.unique hvalued') h.enums h'.enums hr.enums
  have hnested : (inStructs ++ inInterfaces).Perm (inStructs' ++ inInterfaces') :=
    List.rel_perm_imp (fun _ _ _ hnested hnested' => hnested.unique hnested') h.holders h'.holders
      hr.holders
  exact htop.append hnested.flatten

/-- The values of the enums of a record have the keys of its fields. -/
theorem EnumsValued.perm_memberKey (hspace : names.space = r.space)
    (h : EnumsValued r names top inStructs inInterfaces) :
    (((top ++ (inStructs ++ inInterfaces).flatten).flatMap Enum.members).map memberKey).Perm
      ((ownFields r).map Prod.fst) := by
  let keys : Option String × Record.Enum → List String := fun p =>
    p.2.fields.map fun f => fieldKey r.space p f.name
  have hvalued : ∀ {parent records built},
      List.Forall₂ (fun e => Enum.Valued names (parent, e)) records built →
      (built.flatMap Enum.members).map memberKey = records.flatMap fun e => keys (parent, e) := by
    intro parent records built hall
    rw [List.map_flatMap, List.flatMap_def, List.flatMap_def, hall.map_eq]
    intro e enum henum
    rw [henum.map_memberKey, hspace]
  have hnested : ∀ {holders : List Record.Holder} {built},
      List.Forall₂ (NestedValued names) holders built →
      (built.flatten.flatMap Enum.members).map memberKey =
        holders.flatMap fun holder => holder.enums.flatMap fun e => keys (some holder.name, e) := by
    intro holders built hall
    induction hall with
    | nil => rfl
    | cons hnested _ ih =>
      rw [List.flatten_cons, List.flatMap_append, List.map_append, ih, hvalued hnested]
      rfl
  have hown : (ownFields r).map Prod.fst = r.scopedEnums.flatMap keys := by
    rw [Record.map_fst_ownFields, Record.fieldPaths, List.map_flatMap]
    refine List.flatMap_congr fun p _ => ?_
    simp [keys, fieldKey, fieldKey_eq]
  rw [hown, List.flatMap_append, List.map_append, hvalued h.enums, hnested h.holders,
    Record.scopedEnums, List.flatMap_append, List.flatMap_assoc, List.flatMap_map]
  simp only [List.flatMap_map]
  exact List.perm_append_comm

theorem EnumsBuilt.alike (hr : r.Reordered r') (plain : r.Plain) (distinct : r.Distinct)
    (h : EnumsBuilt r (Names.ofRecord r imports) known top inStructs inInterfaces)
    (h' : EnumsBuilt r' (Names.ofRecord r' imports) known' top' inStructs' inInterfaces') :
    known.Alike known' := by
  have hknows := hr.knows plain distinct imports
  refine ⟨?_, fun key => ?_, fun key => ?_, fun key => ?_⟩
  · rw [h.knows.space, h'.knows.space, hknows.space]
  · rw [h.knows.kinds, h'.knows.kinds, hknows.kinds]
  · have hperm := ((h.perm hr (h'.of_knows hknows)).flatMap_right Enum.members).map
      memberEntry
    have hnodup : ((((top ++ (inStructs ++ inInterfaces).flatten).flatMap Enum.members).map
        memberEntry).map Prod.fst).Nodup := by
      rw [List.map_map]
      exact (h.perm_memberKey (space_ofRecord r imports)).nodup_iff.2
        (Record.nodup_ownFields plain distinct)
    rw [h.known_eq, h'.known_eq, foldl_addMember, foldl_addMember]
    exact (Record.Reordered.lookup_reverse_append hperm hnodup (hr.lookup_members imports key)).symm
  · rw [h.knows.constants, h'.knows.constants, hknows.constants]

end Built

/-! ## Building what is denoted -/

section Complete

variable {r : Record} {parent : Option String}

/-- An enum that can be built. -/
structure Buildable (names : Names) (p : Option String × Record.Enum) : Prop where
  distinct : (p.2.fields.map Record.EnumField.name).Nodup
  denotes : ∀ f ∈ p.2.fields, ∃ n, names.Denotes (.field (fieldKey names.space p f.name)) n

theorem exists_buildEnumFields {decl : DeclRef} {records : List Record.EnumField}
    (apart : names.Apart) (h : names.Knows known)
    (hdenotes : ∀ f ∈ records, ∃ n, names.Denotes (.field (decl.qualified ++ "." ++ f.name)) n) :
    ∃ fields known', buildEnumFields decl known records = .ok (fields, known') := by
  induction records generalizing known with
  | nil => exact ⟨_, _, rfl⟩
  | cons f rest ih =>
    obtain ⟨⟨n, hn⟩, hrest⟩ := List.forall_mem_cons.1 hdenotes
    obtain ⟨fields, known', hbuilt⟩ := ih (h.addMember (m := ⟨decl, f.name, n⟩) hn) hrest
    simp only [buildEnumFields, Except.bind_eq_ok, Except.pure_eq_ok, Prod.exists, Prod.mk.injEq]
    exact ⟨_, _, n, h.integerAt apart hn f.name f.line, fields, known', hbuilt, rfl, rfl⟩

theorem exists_buildEnum {e : Record.Enum} (apart : names.Apart) (h : names.Knows known)
    (he : Buildable names (parent, e)) :
    ∃ enum known', buildEnum parent known e = .ok (enum, known') := by
  have hunique : checkUnique [] (e.fields.map fun f => (f.name, f.line)) = .ok () :=
    checkUnique_nil.2 (by simpa [Function.comp_def] using he.distinct)
  obtain ⟨fields, known', hbuilt⟩ := exists_buildEnumFields apart h he.denotes
  simp only [buildEnum, Except.bind_eq_ok, Except.pure_eq_ok, Prod.exists, Prod.mk.injEq]
  exact ⟨_, _, (), hunique, fields, known', h.space ▸ hbuilt, rfl, rfl⟩

theorem exists_buildEnums {records : List Record.Enum} (apart : names.Apart) (h : names.Knows known)
    (hrecords : ∀ e ∈ records, Buildable names (parent, e)) :
    ∃ enums known', buildEnums parent known records = .ok (enums, known') := by
  induction records generalizing known with
  | nil => exact ⟨_, _, rfl⟩
  | cons e rest ih =>
    obtain ⟨he, hrest⟩ := List.forall_mem_cons.1 hrecords
    obtain ⟨enum, known₁, henum⟩ := exists_buildEnum apart h he
    obtain ⟨enums, known', hbuilt⟩ := ih (buildEnum_valued h henum).1 hrest
    simp only [buildEnums, Except.bind_eq_ok, Except.pure_eq_ok, Prod.exists, Prod.mk.injEq]
    exact ⟨_, _, enum, known₁, henum, enums, known', hbuilt, rfl, rfl⟩

theorem exists_buildNestedEnums {records : List (String × List Record.Enum)} (apart : names.Apart)
    (h : names.Knows known)
    (hrecords : ∀ record ∈ records, ∀ e ∈ record.2, Buildable names (some record.1, e)) :
    ∃ nested known', buildNestedEnums known records = .ok (nested, known') := by
  induction records generalizing known with
  | nil => exact ⟨_, _, rfl⟩
  | cons record rest ih =>
    obtain ⟨hrecord, hrest⟩ := List.forall_mem_cons.1 hrecords
    obtain ⟨enums, known₁, henums⟩ := exists_buildEnums apart h hrecord
    obtain ⟨nested, known', hbuilt⟩ := ih (buildEnums_valued h henums).1 hrest
    simp only [buildNestedEnums, Except.bind_eq_ok, Except.pure_eq_ok, Prod.exists, Prod.mk.injEq]
    exact ⟨_, _, enums, known₁, henums, nested, known', hbuilt, rfl, rfl⟩

end Complete

/-! ## Kinds by their specs -/

/-- An entry of a table of kinds. -/
inductive KindEntry : String × Kind → Prop where
  | struct (decl : DeclRef) : KindEntry (decl.qualified, .struct decl)
  | interface (decl : DeclRef) : KindEntry (decl.qualified, .interface decl)
  | enum (decl : DeclRef) : KindEntry (decl.qualified, .enum decl)

theorem KindEntry.declared {key : String} {k : Kind} (h : KindEntry (key, k)) : k.Declared := by
  cases h
  exacts [.struct _, .interface _, .enum _]

theorem KindEntry.spec {key : String} {k : Kind} (h : KindEntry (key, k)) : k.spec = "x:" ++ key := by
  cases h <;> rfl

/-- The structs and interfaces of a module are in its namespace. -/
structure Homed (m : Module) : Prop where
  structs : ∀ s ∈ m.structs, s.space = m.space
  interfaces : ∀ i ∈ m.interfaces, i.space = m.space

theorem homed_of_ofRecord {r : Record} {path : String} {imports : List (Import Module)} {m : Module}
    (hb : ofRecord r path imports = .ok m) : m.Homed := by
  obtain ⟨names, structEnums, interfaceEnums, hassembled, -⟩ := assembled_of_ofRecord hb
  refine ⟨fun s hs => ?_, fun i hi => ?_⟩
  · obtain ⟨record, -, -, hrecord⟩ :=
      (List.forall₂_of_mapM hassembled.structs).exists_left_of_mem hs
    exact hassembled.names_space ▸
      congrArg DeclRef.space (@buildStruct_spec [] "" _ _ _ _ hrecord).1
  · obtain ⟨record, -, -, hrecord⟩ :=
      (List.forall₂_of_mapM hassembled.interfaces).exists_left_of_mem hi
    exact hassembled.names_space ▸
      congrArg DeclRef.space (@buildInterface_spec [] "" _ _ _ _ hrecord).1

/-- Modules whose structs and interfaces are in their namespaces declare kinds under their own
names. -/
theorem Homed.keyed {m : Module} (h : m.Homed) : ∀ entry ∈ m.declaredKinds, KindEntry entry := by
  simp only [declaredKinds, List.mem_append, List.mem_map]
  rintro _ ((⟨s, hs, rfl⟩ | ⟨i, hi, rfl⟩) | ⟨e, he, rfl⟩)
  · exact h.structs s hs ▸ .struct s.decl
  · exact h.interfaces i hi ▸ .interface i.decl
  · exact .enum e.decl

/-- Kinds stand in the tables of a record under the names of their declarations. -/
theorem keyed_ofRecord (r : Record) {imports : List Module} (homed : ∀ m ∈ imports, m.Homed) :
    ∀ entry ∈ (Names.ofRecord r imports).kinds, KindEntry entry := by
  rw [kinds_ofRecord, kinds_imported]
  refine List.forall_mem_append.2 ⟨?_, fun entry hentry => ?_⟩
  · simp only [ownKinds, holderKinds, enumKind, List.mem_reverse, List.mem_append, List.mem_flatMap,
      List.mem_cons, List.mem_map]
    rintro _ ((⟨s, -, rfl | ⟨e, -, rfl⟩⟩ | ⟨i, -, rfl | ⟨e, -, rfl⟩⟩) | ⟨e, -, rfl⟩)
    exacts [.struct _, .enum _, .interface _, .enum _, .enum _]
  · obtain ⟨m, hm, hentry⟩ := List.mem_flatMap.1 (List.mem_reverse.1 hentry)
    exact (homed m hm).keyed entry hentry

/-- A kind that is made of what is found in a table. -/
inductive Found (names : Names) : Kind → Prop where
  | basic (k : BasicKind) : Found names (.basic k)
  | declared {key : String} {k : Kind} (entry : KindEntry (key, k))
    (found : names.kinds.lookup key = some k) : Found names k
  | array {k : Kind} (element : Found names k) : Found names (.array k)
  | request {k : Kind} (inner : Found names k) : Found names (.request k)

theorem Found.of_mem_parts {k part : Kind} (h : Found names k) (hpart : part ∈ k.parts) :
    Found names part := by
  induction h with
  | basic k => exact List.mem_singleton.1 hpart ▸ .basic k
  | declared entry found =>
    rw [entry.declared.parts] at hpart
    exact List.mem_singleton.1 hpart ▸ .declared entry found
  | array element ih =>
    rcases List.mem_append.1 hpart with hpart | hpart
    · exact ih hpart
    · exact List.mem_singleton.1 hpart ▸ .array element
  | request inner ih =>
    rcases List.mem_append.1 hpart with hpart | hpart
    · exact ih hpart
    · exact List.mem_singleton.1 hpart ▸ .request inner

/-- What the spec of a kind starts with. -/
def specHead (k : Kind) : Option Char :=
  k.spec.toList.head?

theorem specHead_basic (k : BasicKind) : specHead (.basic k) ∉ [some 'x', some 'a', some 'r'] := by
  cases k <;> decide

theorem specHead_declared {key : String} {k : Kind} (h : KindEntry (key, k)) :
    specHead k = some 'x' := by
  simp [specHead, h.spec]

theorem specHead_array (k : Kind) : specHead (.array k) = some 'a' := by
  simp [specHead, Kind.spec]

theorem specHead_request (k : Kind) : specHead (.request k) = some 'r' := by
  simp [specHead, Kind.spec]

/-- Kinds found in one table differ in their specs. -/
theorem Found.eq_of_spec_eq {k k' : Kind} (h : Found names k) (h' : Found names k')
    (hspec : k.spec = k'.spec) : k = k' := by
  have hhead : specHead k = specHead k' := by rw [specHead, specHead, hspec]
  induction h generalizing k' with
  | basic b =>
    have hbasic := specHead_basic b
    rw [hhead] at hbasic
    cases h' with
    | basic b' =>
      have hofSpec : BasicKind.ofSpec? b.spec = BasicKind.ofSpec? b'.spec := congrArg _ hspec
      rw [BasicKind.ofSpec?_spec, BasicKind.ofSpec?_spec] at hofSpec
      rw [Option.some.inj hofSpec]
    | declared entry => simp [specHead_declared entry] at hbasic
    | array => simp [specHead_array] at hbasic
    | request => simp [specHead_request] at hbasic
  | declared entry found =>
    rw [specHead_declared entry] at hhead
    cases h' with
    | basic b' => exact absurd hhead fun h => specHead_basic b' (by simp [← h])
    | declared entry' found' =>
      rw [entry.spec, entry'.spec, String.append_right_inj] at hspec
      exact Option.some.inj (found.symm.trans (hspec ▸ found'))
    | array => simp [specHead_array] at hhead
    | request => simp [specHead_request] at hhead
  | array element ih =>
    rw [specHead_array] at hhead
    cases h' with
    | basic b' => exact absurd hhead fun h => specHead_basic b' (by simp [← h])
    | declared entry' => simp [specHead_declared entry'] at hhead
    | array element' =>
      have hinner := (String.append_right_inj "a:").1 hspec
      rw [ih element' hinner (by rw [specHead, specHead, hinner])]
    | request => simp [specHead_request] at hhead
  | request inner ih =>
    rw [specHead_request] at hhead
    cases h' with
    | basic b' => exact absurd hhead fun h => specHead_basic b' (by simp [← h])
    | declared entry' => simp [specHead_declared entry'] at hhead
    | array => simp [specHead_array] at hhead
    | request inner' =>
      have hinner := (String.append_right_inj "r:").1 hspec
      rw [ih inner' hinner (by rw [specHead, specHead, hinner])]

theorem found_of_resolves {k : Kind}
    (keyed : ∀ key k, names.kinds.lookup key = some k → KindEntry (key, k))
    (h : names.Resolves k) : Found names k := by
  obtain ⟨scope, line, spec, h⟩ := h
  fun_induction Names.resolveSpec names scope line spec generalizing k with
  | case1 spec basic hspec =>
    cases h
    exact .basic basic
  | case2 element hspec ih =>
    simp only [value_bind, value_note, Except.bind_eq_ok] at h
    obtain ⟨k', hk', ⟨⟩⟩ := h
    exact .array (ih hk')
  | case3 inner hspec ih =>
    rw [value_bind, Except.bind_eq_ok] at h
    obtain ⟨k', hk', hrest⟩ := h
    have hfound := ih hk'
    cases k' with
    | interface decl =>
      cases hrest
      exact .request hfound
    | _ => cases hrest
  | case4 name k' hname =>
    cases h
    obtain ⟨key, -, hkey⟩ := List.exists_of_findSome?_eq_some hname
    exact .declared (keyed _ _ hkey) hkey
  | case5 => cases h
  | case6 => cases h

theorem kindMap_eq_of_perm {kinds kinds' : List Kind} (hperm : kinds.Perm kinds')
    (hfound : ∀ k ∈ kinds, Found names k) : kindMap kinds = kindMap kinds' := by
  have hparts : ∀ k ∈ kinds.flatMap Kind.parts, Found names k := by
    intro part hpart
    obtain ⟨k, hk, hpart⟩ := List.mem_flatMap.1 hpart
    exact (hfound k hk).of_mem_parts hpart
  refine SortedMap.ofList_eq_of_perm ((hperm.flatMap_right _).map _) fun e he e' he' hkey => ?_
  obtain ⟨k, hk, rfl⟩ := List.mem_map.1 he
  obtain ⟨k', hk', rfl⟩ := List.mem_map.1 he'
  rw [(hparts k hk).eq_of_spec_eq (hparts k' hk') hkey]

/-! ## Reordered modules -/

/-- The same items in any order; items of one name are equal. -/
def Corresponds {α : Type} (name : α → String) (xs ys : List α) : Prop :=
  xs.Perm ys ∧ ∀ x ∈ xs, ∀ y ∈ ys, name x = name y → x = y

/-- Modules that differ in the order of their declarations. -/
structure Reordered (m m' : Module) : Prop where
  structs : Corresponds Struct.name m.structs m'.structs
  interfaces : Corresponds Interface.name m.interfaces m'.interfaces
  enums : Corresponds Enum.name m.enums m'.enums
  constants : Corresponds Constant.name m.constants m'.constants

theorem Reordered.usedKinds {m m' : Module} (h : m.Reordered m') :
    m.usedKinds.Perm m'.usedKinds :=
  ((h.constants.1.map _).append (h.structs.1.flatMap_right _)).append
    (h.interfaces.1.flatMap_right _)

theorem corresponds_of_perm {α : Type} {name : α → String} {xs ys : List α} (hperm : xs.Perm ys)
    (hnodup : (xs.map name).Nodup) : Corresponds name xs ys :=
  ⟨hperm, fun _ hx _ hy hname =>
    List.inj_on_of_nodup_map hnodup hx (hperm.mem_iff.2 hy) hname⟩

/-- What is built from declarations and the enums nested in them, in any order. -/
theorem perm_of_nested {ρ σ : Type} {N : ρ → List Enum → Prop}
    {f : ρ → List Enum → Resolving σ} {g : σ → List Enum}
    (hN : ∀ x enums enums', N x enums → N x enums' → enums = enums') {xs xs' : List ρ}
    {zs zs' : List σ} (hperm : xs.Perm xs') (hn : List.Forall₂ N xs (zs.map g))
    (hb : List.Forall₂ (fun x z => (f x (g z)).value = .ok z) xs zs)
    (hn' : List.Forall₂ N xs' (zs'.map g))
    (hb' : List.Forall₂ (fun x z => (f x (g z)).value = .ok z) xs' zs') : zs.Perm zs' := by
  have hunique : Relator.RightUnique fun x z => N x (g z) ∧ (f x (g z)).value = .ok z := by
    rintro x z z' ⟨hz, hfz⟩ ⟨hz', hfz'⟩
    rw [hN x _ _ hz hz'] at hfz
    exact Except.ok.inj (hfz.symm.trans hfz')
  rw [List.forall₂_map_right_iff] at hn hn'
  exact List.rel_perm_imp hunique (.mp (fun _ _ => .intro) hn hb) (.mp (fun _ _ => .intro) hn' hb')
    hperm

namespace Resolved

variable {r r' : Record} {imports : List Module} {m m' : Module}

theorem nodup_names (h : Resolved r names known m) :
    (m.structs.map Struct.name).Nodup ∧ (m.interfaces.map Interface.name).Nodup ∧
      (m.enums.map Enum.name).Nodup ∧ (m.constants.map Constant.name).Nodup := by
  have henums : m.enums.map Enum.name = r.enums.map Record.Enum.name :=
    h.built.enums.map_eq fun _ _ hvalued => hvalued.name
  have hconstants : m.constants.map Constant.name = r.constants.map Record.Constant.name :=
    h.constants.map_eq fun _ _ hb => name_of_buildConstant hb
  have htop := h.top
  simp only [Record.topNames, Record.holders, List.map_append, List.map_map, List.nodup_append] at htop
  rw [h.map_name_structs, h.map_name_interfaces, henums, hconstants]
  exact ⟨htop.1.1.1, htop.1.1.2.1, htop.1.2.1, htop.2.1⟩

theorem keyed (homed : ∀ m ∈ imports, m.Homed)
    (h : Resolved r (Names.ofRecord r imports) known m) (key : String) (k : Kind)
    (hk : known.kinds.lookup key = some k) : KindEntry (key, k) :=
  keyed_ofRecord r homed _ (mem_of_lookup (h.built.knows.kinds key ▸ hk))

theorem resolves (h : Resolved r names known m) : ∀ k ∈ m.usedKinds, known.Resolves k := by
  simp only [usedKinds, List.mem_append, List.mem_map, List.mem_flatMap]
  rintro _ ((⟨c, hc, rfl⟩ | ⟨s, hs, hk⟩) | ⟨i, hi, hk⟩)
  · obtain ⟨record, -, -, hrecord⟩ := h.constants.exists_left_of_mem hc
    exact resolves_of_buildConstant hrecord
  · obtain ⟨record, -, -, hrecord⟩ := h.structs.exists_left_of_mem hs
    exact resolves_of_buildStruct hrecord _ hk
  · obtain ⟨record, -, -, hrecord⟩ := h.interfaces.exists_left_of_mem hi
    exact resolves_of_buildInterface hrecord _ hk

/-- Every kind that a module uses is found in the tables it is built with. -/
theorem found (homed : ∀ m ∈ imports, m.Homed)
    (h : Resolved r (Names.ofRecord r imports) known m) : ∀ k ∈ m.usedKinds, Found known k :=
  fun k hk => found_of_resolves (h.keyed homed) (h.resolves k hk)

/-- What is built from reordered records is the same in another order. -/
theorem reordered (hr : r.Reordered r') (plain : r.Plain)
    (h : Resolved r (Names.ofRecord r imports) known m)
    (h' : Resolved r' (Names.ofRecord r' imports) known' m') : m.Reordered m' := by
  have hknows := hr.knows plain h.distinct imports
  have hvalued' := h'.built.toEnumsValued.of_knows hknows
  have halike := h.built.alike hr plain h.distinct h'.built
  have henums : m.enums.Perm m'.enums :=
    List.rel_perm_imp (fun _ _ _ hvalued hvalued' => hvalued.unique hvalued') h.built.enums
      hvalued'.enums hr.enums
  have hconstants : m.constants.Perm m'.constants := by
    refine List.rel_perm_imp (fun c _ _ hb hb' => Except.ok.inj (hb.symm.trans hb')) h.constants ?_
      hr.constants
    rw [halike.buildConstant]
    exact h'.constants
  have hstructs : m.structs.Perm m'.structs :=
    perm_of_nested (fun _ _ _ hnested => hnested.unique) hr.structs h.built.structs h.structs
      hvalued'.structs (halike.buildStruct ▸ h'.structs)
  have hinterfaces : m.interfaces.Perm m'.interfaces :=
    perm_of_nested (fun _ _ _ hnested => hnested.unique) hr.interfaces h.built.interfaces
      h.interfaces hvalued'.interfaces (halike.buildInterface ▸ h'.interfaces)
  obtain ⟨nstructs, ninterfaces, nenums, nconstants⟩ := h.nodup_names
  exact ⟨corresponds_of_perm hstructs nstructs, corresponds_of_perm hinterfaces ninterfaces,
    corresponds_of_perm henums nenums, corresponds_of_perm hconstants nconstants⟩

/-- Reordered modules list the same kinds: none of them hides another that was noted before. -/
theorem kinds_eq (homed : ∀ m ∈ imports, m.Homed)
    (h : Resolved r (Names.ofRecord r imports) known m) (h' : Resolved r' names known' m')
    (hr : m.Reordered m') : m.kinds = m'.kinds := by
  rw [h.kinds, h'.kinds]
  exact kindMap_eq_of_perm hr.usedKinds (h.found homed)

/-- Declarations with nested enums are built if they were built in another order. -/
theorem exists_zip_mapM {ρ σ : Type} {N : ρ → List Enum → Prop}
    {f : ρ → List Enum → Resolving σ} {g : σ → List Enum}
    (hN : ∀ x enums enums', N x enums → N x enums' → enums = enums') {xs xs' : List ρ}
    {zs : List σ} {nested : List (List Enum)} (hperm : xs.Perm xs')
    (hn : List.Forall₂ N xs (zs.map g))
    (hb : List.Forall₂ (fun x z => (f x (g z)).value = .ok z) xs zs)
    (hn' : List.Forall₂ N xs' nested) :
    ∃ zs', ((xs'.zip nested).mapM fun p => (f p.1 p.2).value) = .ok zs' := by
  rw [List.forall₂_map_right_iff] at hn
  refine List.exists_mapM fun ⟨x, enums⟩ hzip => ?_
  have hx : x ∈ xs := hperm.mem_iff.2 (List.of_mem_zip hzip).1
  have hboth : List.Forall₂ (fun x z => N x (g z) ∧ (f x (g z)).value = .ok z) xs zs :=
    .mp (fun _ _ => .intro) hn hb
  obtain ⟨z, -, -, hz, hfz⟩ := hboth.exists_right_of_mem hx
  have henums : enums = g z := hN x _ _ ((List.forall₂_iff_zip.1 hn').2 hzip) hz
  exact ⟨z, henums ▸ hfz⟩

/-- A reordered record is built too, if no chain of references confuses two declarations. -/
theorem exists_ofRecord {path : String} {imports : List (Import Module)} (hr : r.Reordered r')
    (plain : r.Plain) (apart : (Names.ofRecord r (imports.map Import.target)).Apart)
    (h : Resolved r (Names.ofRecord r (imports.map Import.target)) known m) :
    ∃ m', ofRecord r' path imports = .ok m' := by
  have hknows := hr.knows plain h.distinct (imports.map Import.target)
  have apart' := hknows.apart apart
  have hbuildable : ∀ p ∈ r'.scopedEnums,
      Buildable (Names.ofRecord r' (imports.map Import.target)) p := by
    intro p hp
    obtain ⟨enum, hvalued⟩ := h.built.exists_valued (hr.scopedEnums.mem_iff.2 hp)
    refine ⟨hvalued.distinct, fun f hf => ?_⟩
    obtain ⟨built, -, -, -, hdenotes⟩ := hvalued.fields.exists_right_of_mem hf
    rw [← hknows.space] at hdenotes
    exact ⟨built.value, hknows.denotes_of hdenotes⟩
  have hnested : ∀ holder ∈ r'.holders, ∀ e ∈ holder.enums,
      Buildable (Names.ofRecord r' (imports.map Import.target)) (some holder.name, e) :=
    fun holder hh e he => hbuildable _ (Record.mem_scopedEnums.2 (.inl ⟨holder, hh, e, he, rfl⟩))
  obtain ⟨top, known₁, htop⟩ := exists_buildEnums apart' (.refl _) fun e he =>
    hbuildable (none, e) (Record.mem_scopedEnums.2 (.inr ⟨e, he, rfl⟩))
  have hknows₁ := (buildEnums_valued (.refl _) htop).1
  obtain ⟨inStructs, known₂, hinStructs⟩ : ∃ inStructs known₂, buildNestedEnums known₁
      (r'.structs.map fun s => (s.name, s.enums)) = .ok (inStructs, known₂) :=
    exists_buildNestedEnums apart' hknows₁ (List.forall_mem_map.2 fun s hs =>
      hnested s.holder (List.mem_append_left _ (List.mem_map_of_mem hs)))
  have hknows₂ := (buildNestedEnums_valued hknows₁ hinStructs).1
  obtain ⟨inInterfaces, known', hinInterfaces⟩ : ∃ inInterfaces known', buildNestedEnums known₂
      (r'.interfaces.map fun i => (i.name, i.enums)) = .ok (inInterfaces, known') :=
    exists_buildNestedEnums apart' hknows₂ (List.forall_mem_map.2 fun i hi =>
      hnested i.holder (List.mem_append_right _ (List.mem_map_of_mem hi)))
  have built := enumsBuilt_of_build htop hinStructs hinInterfaces
  have halike := h.built.alike hr plain h.distinct built
  have hvalued := built.toEnumsValued.of_knows hknows
  obtain ⟨constants, hconstants⟩ : ∃ constants,
      (r'.constants.mapM fun c => (buildConstant known' [] c).value) = .ok constants := by
    refine List.exists_mapM fun c hc => ?_
    obtain ⟨constant, -, -, hb⟩ := h.constants.exists_right_of_mem (hr.constants.mem_iff.2 hc)
    exact ⟨constant, halike.buildConstant ▸ hb⟩
  obtain ⟨structs, hstructs⟩ := exists_zip_mapM (fun _ _ _ hnested => hnested.unique) hr.structs
    h.built.structs h.structs hvalued.structs
  obtain ⟨interfaces, hinterfaces⟩ := exists_zip_mapM (fun _ _ _ hnested => hnested.unique)
    hr.interfaces h.built.interfaces h.interfaces hvalued.interfaces
  rw [halike.buildStruct] at hstructs
  rw [halike.buildInterface] at hinterfaces
  have hunique : checkUnique [] (topLevelNames r') = .ok () := by
    rw [checkUnique_nil, map_fst_topLevelNames]
    exact hr.topNames.nodup_iff.1 h.top
  exact ⟨_, ofRecord_eq_ok_iff.2 ⟨top, known₁, inStructs, known₂, inInterfaces, known', constants,
    structs, interfaces, hunique, htop, hinStructs, hinInterfaces, hconstants, hstructs,
    hinterfaces, rfl⟩⟩

end Resolved

/-- The order of declarations does not matter to what is built: from two orders come the same
declarations and the same kinds. Nor does it matter to whether a module is built, as long as no
chain of references passes an enum field and a constant with the same key. Names without dots are
what texts have, and imports with their structs and interfaces in their own namespaces are what
built modules are. -/
theorem ofRecord_reordered {r r' : Record} (plain : r.Plain) (hr : r.Reordered r') (path : String)
    (imports : List (Import Module)) :
    (∀ m m', ofRecord r path imports = .ok m → ofRecord r' path imports = .ok m' →
      m.Reordered m' ∧ ((∀ i ∈ imports, i.target.Homed) → m.kinds = m'.kinds)) ∧
    ((Names.ofRecord r (imports.map Import.target)).Apart →
      ((∃ m, ofRecord r path imports = .ok m) ↔ ∃ m', ofRecord r' path imports = .ok m')) ∧
    (∀ (file text : String) (r : Record), Record.ofSource file text = .ok r → r.Plain) ∧
    ∀ (r : Record) (path : String) (imports : List (Import Module)) (m : Module),
      ofRecord r path imports = .ok m → m.Homed := by
  refine ⟨fun m m' hb hb' => ?_, fun apart => ⟨?_, ?_⟩, fun _ _ _ => Record.plain_of_ofSource,
    fun _ _ _ _ => homed_of_ofRecord⟩
  · obtain ⟨known, resolved⟩ := resolved_of_ofRecord hb
    obtain ⟨known', resolved'⟩ := resolved_of_ofRecord hb'
    have hreordered := resolved.reordered hr plain resolved'
    exact ⟨hreordered, fun homed =>
      resolved.kinds_eq (List.forall_mem_map.2 homed) resolved' hreordered⟩
  · rintro ⟨m, hb⟩
    obtain ⟨known, resolved⟩ := resolved_of_ofRecord hb
    exact resolved.exists_ofRecord hr plain apart
  · rintro ⟨m', hb'⟩
    obtain ⟨known', resolved'⟩ := resolved_of_ofRecord hb'
    have hknows := hr.knows plain (hr.symm.distinct resolved'.distinct) (imports.map Import.target)
    exact resolved'.exists_ofRecord hr.symm (hr.plain plain) (hknows.apart apart)

/-- `module net; struct Node {};` -/
def nodeModule : Module where
  name := "net"
  space := "net"
  path := "/net"
  attributes := ∅
  imports := []
  structs := [⟨"Node", "net", ∅, [], [], []⟩]
  interfaces := []
  enums := []
  constants := []
  kinds := ∅

def nodeImport : List (Import Module) :=
  [⟨"net", "net", ⟨true, [.down "net"]⟩, nodeModule⟩]

theorem homed_nodeImport : ∀ i ∈ nodeImport, i.target.Homed :=
  List.forall_mem_singleton.2 ⟨by decide, by decide⟩

/-- `crossed` with `struct S { net.Node node; }; struct T { array<S> parts; };`. -/
def crossedStructs : Record :=
  { crossed with
    structs :=
      [⟨1, "S", ∅, [⟨1, "node", "x:net.Node", none, none, ∅⟩], [], []⟩,
        ⟨1, "T", ∅, [⟨1, "parts", "a:x:S", none, none, ∅⟩], [], []⟩] }

/-- `crossedStructs` with its enums and structs the other way round. -/
def crossedBack : Record :=
  { crossedStructs with
    structs := crossedStructs.structs.reverse
    enums := crossedStructs.enums.reverse }

theorem plain_crossedStructs : crossedStructs.Plain :=
  ⟨by decide, by decide, by decide, by decide⟩

theorem reordered_crossedStructs : crossedStructs.Reordered crossedBack :=
  ⟨rfl, rfl, rfl, rfl, crossedStructs.structs.reverse_perm.symm, .refl _,
    crossedStructs.enums.reverse_perm.symm, .refl _⟩

theorem apart_crossedStructs : (Names.ofRecord crossedStructs [nodeModule]).Apart := by
  have hkeys : ∀ key ∈ (Names.ofRecord crossedStructs [nodeModule]).fields.map Prod.fst,
      (Names.ofRecord crossedStructs [nodeModule]).constants.lookup key = none := by decide +kernel
  exact apart_of_lookup fun key hkey => hkeys key (lookup_isSome_iff.1 hkey)

theorem kinds_crossedStructs :
    (ofRecord crossedStructs "/crossed" nodeImport).map (·.kinds.entries.map Prod.fst) =
      .ok ["a:x:S", "i32", "x:S", "x:net.Node"] := by
  decide +kernel

theorem ofRecord_reordered_crossed :
    crossedStructs.Plain ∧ crossedStructs.Reordered crossedBack ∧
      (∀ i ∈ nodeImport, i.target.Homed) ∧
      (Names.ofRecord crossedStructs (nodeImport.map Import.target)).Apart ∧
      ∃ m m', ofRecord crossedStructs "/crossed" nodeImport = .ok m ∧
        ofRecord crossedBack "/crossed" nodeImport = .ok m' ∧ m.Reordered m' ∧
        m.kinds = m'.kinds ∧
        m'.kinds.entries.map Prod.fst = ["a:x:S", "i32", "x:S", "x:net.Node"] := by
  obtain ⟨hsame, hbuilt, -⟩ := ofRecord_reordered plain_crossedStructs reordered_crossedStructs
    "/crossed" nodeImport
  refine ⟨plain_crossedStructs, reordered_crossedStructs, homed_nodeImport,
    apart_crossedStructs, ?_⟩
  obtain ⟨m, hm, hkinds⟩ := Except.map_eq_ok.1 kinds_crossedStructs
  obtain ⟨m', hm'⟩ := (hbuilt apart_crossedStructs).1 ⟨m, hm⟩
  obtain ⟨hreordered, hsameKinds⟩ := hsame m m' hm hm'
  have heq := hsameKinds homed_nodeImport
  exact ⟨m, m', hm, hm', hreordered, heq, heq ▸ hkinds⟩

/-! ## A chain that confuses two declarations -/

/-- `module E; const int32 X = 5; const int32 Y = X;` -/
def fives : Record where
  name := "p"
  space := "E"
  attributes := ∅
  imports := []
  structs := []
  interfaces := []
  enums := []
  constants := [⟨1, "X", "i32", .integer "5", ∅⟩, ⟨1, "Y", "i32", .name "X", ∅⟩]

def fivesModule : Module where
  name := "p"
  space := "E"
  path := "/p"
  attributes := ∅
  imports := []
  structs := []
  interfaces := []
  enums := []
  constants :=
    [⟨"X", .basic .int32, .literal (.integer "5"), ∅⟩,
      ⟨"Y", .basic .int32, .constant ⟨"E", "X"⟩, ∅⟩]
  kinds := kindMap [.basic .int32, .basic .int32]

/-- `import "p"; enum E { X = G.Z }; enum G { Z = E.Y };` -/
def shadowing : Record where
  name := "a"
  space := ""
  attributes := ∅
  imports := [⟨1, "p"⟩]
  structs := []
  interfaces := []
  enums := [⟨1, "E", ∅, [⟨1, "X", some (.name "G.Z")⟩]⟩, ⟨1, "G", ∅, [⟨1, "Z", some (.name "E.Y")⟩]⟩]
  constants := []

/-- `shadowing` with its enums the other way round. -/
def shadowingBack : Record :=
  { shadowing with enums := shadowing.enums.reverse }

def fivesImport : List (Import Module) :=
  [⟨"p", "E", ⟨true, [.down "p"]⟩, fivesModule⟩]

/-- The field `E.X` and the imported constant `E.X` have one key. From the field leads a chain to the
constant: if the enum `E` comes first, the chain is followed as a whole and taken for a cycle; if it
comes last, the value of `G.Z` is known already. -/
theorem shadowing_order_matters :
    ofRecord fives "/p" [] = .ok fivesModule ∧ shadowing.Plain ∧ shadowing.Reordered shadowingBack ∧
      (ofRecord shadowingBack "/a" fivesImport).isOk = true ∧
      (ofRecord shadowing "/a" fivesImport).map (fun _ => ()) =
        .error (.resolution 1 (.notAnInteger "E.Y")) := by
  refine ⟨rfl, ⟨by decide, by decide, by decide, by decide⟩,
    ⟨rfl, rfl, rfl, rfl, .refl _, .refl _, shadowing.enums.reverse_perm.symm, .refl _⟩, ?_, ?_⟩
  · decide +kernel
  · decide +kernel

end Module

end WireSchema
