import WireSchema.Proofs.Module.Order

/-!
# Names are not used twice

No two declarations of a module have one qualified name, whatever they declare, and no name is used
twice among the members of a struct or interface or in a list of parameters (`Module.Unambiguous`).
Each of the checks made while a module is built compares the names of one place only. All of them
together make the paths to the declarations differ, and since names hold no dots, different paths
have different qualified names (`Module.unambiguous_of_ofRecord`).
-/

namespace WireSchema.Module

open Names Resolving

variable {r : Record} {m : Module} {names known : Names} {path : String}

/-! ## Names of a module -/

/-- The structs, interfaces, enums and constants of a module, nested ones through their parents. -/
def decls (m : Module) : List DeclRef :=
  m.structs.map Struct.decl ++ m.interfaces.map Interface.decl ++ m.allEnums.map Enum.decl ++
    m.constantDecls

/-- The qualified names of all that a module declares, enum fields through their enums. -/
def qualifiedNames (m : Module) : List String :=
  m.decls.map DeclRef.qualified ++ (m.allEnums.flatMap Enum.members).map memberKey

def Struct.memberNames (s : Struct) : List String :=
  s.fields.map Field.name ++ (s.enums.map Enum.name ++ s.constants.map Constant.name)

def Interface.memberNames (i : Interface) : List String :=
  i.methods.map Method.name ++ (i.enums.map Enum.name ++ i.constants.map Constant.name)

/-- The parameters of a method, and those of its response. -/
def Method.parameterLists (m : Method) : List (List Parameter) :=
  m.parameters :: m.response.toList

/-- No two members, methods or parameters are taken for one another. -/
structure Interface.Unambiguous (i : Interface) : Prop where
  members : i.memberNames.Nodup
  ordinals : (i.methods.map Method.ordinal).Nodup
  parameters : ∀ m ∈ i.methods, ∀ ps ∈ m.parameterLists, (ps.map Parameter.name).Nodup

/-- No two declarations are taken for one another. -/
structure Unambiguous (m : Module) : Prop where
  qualified : m.qualifiedNames.Nodup
  structs : ∀ s ∈ m.structs, s.memberNames.Nodup
  interfaces : ∀ i ∈ m.interfaces, i.Unambiguous

/-! ## Members -/

theorem map_name_of_constants {scope : List String} {records : List Record.Constant}
    {constants : List Constant}
    (hb : (records.mapM fun c => (buildConstant names scope c).value) = .ok constants) :
    constants.map Constant.name = records.map Record.Constant.name :=
  (List.forall₂_of_mapM hb).map_eq fun _ _ => name_of_buildConstant

theorem nodup_of_buildParameters {scope : List String} {records : List Record.Parameter}
    {parameters : List Parameter}
    (hb : (buildParameters names scope records).value = .ok parameters) :
    (parameters.map Parameter.name).Nodup := by
  simp only [value_buildParameters, Except.bind_eq_ok] at hb
  obtain ⟨_, hunique, hparameters⟩ := hb
  have hnames : parameters.map Parameter.name = records.map Record.Parameter.name := by
    refine (List.forall₂_of_mapM hparameters).map_eq fun record parameter hrecord => ?_
    simp only [value_buildParameter, Except.bind_eq_ok, Except.pure_eq_ok] at hrecord
    obtain ⟨kind, -, rfl⟩ := hrecord
    rfl
  rw [hnames]
  simpa [Function.comp_def] using checkUnique_nil.1 hunique

/-- The methods of an interface get ordinals that no method before has. -/
theorem distinct_of_buildMethods {interface : String} {next : Option UInt32}
    {used : List (UInt32 × String)} {records : List Record.Method} {methods : List Method}
    (hb : (buildMethods names interface next used records).value = .ok methods) :
    methods.map Method.name = records.map Record.Method.name ∧
      (methods.map Method.ordinal).Nodup ∧
      (∀ m ∈ methods, used.lookup m.ordinal = none) ∧
      ∀ m ∈ methods, ∀ ps ∈ m.parameterLists, (ps.map Parameter.name).Nodup := by
  fun_induction buildMethods names interface next used records generalizing methods with
  | case1 =>
    cases hb
    simp
  | case2 => cases hb
  | case3 => cases hb
  | case4 next used m rest ordinal hordinal hfree ih =>
    simp only [value_bind, value_option_mapM, value_pure, Except.bind_eq_ok,
      Except.pure_eq_ok] at hb
    obtain ⟨parameters, hparameters, response, hresponse, methods, hmethods, rfl⟩ := hb
    obtain ⟨hnames, hordinals, hunused, hlists⟩ := ih hmethods
    have hunused' : ∀ method ∈ methods, method.ordinal ≠ ordinal ∧
        used.lookup method.ordinal = none := by
      intro method hmethod
      have hnone := hunused method hmethod
      rw [List.lookup_eq_none_iff, List.forall_mem_cons] at hnone
      exact ⟨bne_iff_ne.1 hnone.1, List.lookup_eq_none_iff.2 hnone.2⟩
    refine ⟨congrArg (m.name :: ·) hnames, List.nodup_cons.2 ⟨?_, hordinals⟩,
      List.forall_mem_cons.2 ⟨hfree, fun method hmethod => (hunused' method hmethod).2⟩,
      List.forall_mem_cons.2 ⟨?_, hlists⟩⟩
    · intro hmem
      obtain ⟨method, hmethod, heq⟩ := List.mem_map.1 hmem
      exact (hunused' method hmethod).1 heq
    · refine List.forall_mem_cons.2 ⟨nodup_of_buildParameters hparameters, fun ps hps => ?_⟩
      obtain ⟨record, -, hrecord⟩ := Option.exists_of_mapM hresponse (Option.mem_toList.1 hps)
      exact nodup_of_buildParameters hrecord

theorem NestedValued.map_name {holder : Record.Holder} {enums : List Enum}
    (h : NestedValued names holder enums) :
    enums.map Enum.name = holder.enums.map Record.Enum.name :=
  h.map_eq fun _ _ hvalued => hvalued.name

/-- What is checked of a struct holds of the names of its members and of its constants. -/
theorem names_of_buildStruct {s : Record.Struct} {enums : List Enum} {struct : Struct}
    (hnested : NestedValued names s.holder enums)
    (hb : (buildStruct known s enums).value = .ok struct) :
    struct.memberNames.Nodup ∧
      struct.constants.map Constant.name = s.constants.map Record.Constant.name := by
  simp only [value_buildStruct, Except.bind_eq_ok, Except.pure_eq_ok] at hb
  obtain ⟨_, hunique, constants, hconstants, fields, hfields, rfl⟩ := hb
  have hnames : fields.map Field.name = s.fields.map Record.Field.name := by
    refine (List.forall₂_of_mapM hfields).map_eq fun record field hrecord => ?_
    simp only [value_buildField, Except.bind_eq_ok, Except.pure_eq_ok] at hrecord
    obtain ⟨kind, -, default, -, rfl⟩ := hrecord
    rfl
  have hconstants := map_name_of_constants hconstants
  have hnodup := checkUnique_nil.1 hunique
  rw [List.map_append, map_fst_nestedNames, List.map_map] at hnodup
  refine ⟨?_, hconstants⟩
  rw [Struct.memberNames, hnames, hnested.map_name, hconstants]
  exact hnodup

/-- What is checked of an interface holds of the names of its members and of its constants. -/
theorem names_of_buildInterface {i : Record.Interface} {enums : List Enum} {interface : Interface}
    (hnested : NestedValued names i.holder enums)
    (hb : (buildInterface known i enums).value = .ok interface) :
    interface.Unambiguous ∧
      interface.constants.map Constant.name = i.constants.map Record.Constant.name := by
  simp only [value_buildInterface, Except.bind_eq_ok, Except.pure_eq_ok] at hb
  obtain ⟨_, hunique, client, -, constants, hconstants, methods, hmethods, rfl⟩ := hb
  obtain ⟨hnames, hordinals, -, hparameters⟩ := distinct_of_buildMethods hmethods
  have hconstants := map_name_of_constants hconstants
  have hnodup := checkUnique_nil.1 hunique
  rw [List.map_append, map_fst_nestedNames, List.map_map] at hnodup
  refine ⟨⟨?_, hordinals, hparameters⟩, hconstants⟩
  rw [Interface.memberNames, hnames, hnested.map_name, hconstants]
  exact hnodup

/-! ## Paths -/

/-- Structs and interfaces, then enums: the paths to all kinds of a record in another order. -/
theorem perm_kindPaths (r : Record) :
    r.kindPaths.Perm (r.holders.map (fun h => [h.name]) ++ r.scopedEnums.map enumScope) := by
  have hblocks := List.flatMap_append_perm r.holders (fun h => [[h.name]])
    fun h => h.enums.map fun e => [h.name, e.name]
  have hscopes : r.scopedEnums.map enumScope =
      r.holders.flatMap (fun h => h.enums.map fun e => [h.name, e.name]) ++
        r.enums.map fun e => [e.name] := by
    simp [Record.scopedEnums, enumScope, List.map_flatMap, Function.comp_def]
  rw [hscopes, ← List.append_assoc, Record.kindPaths, ← List.map_eq_flatMap]
  refine (hblocks.symm.append_right _).trans ?_
  rw [← List.map_eq_flatMap]

theorem allEnums_eq (m : Module) : m.allEnums =
    m.enums ++ (m.structs.map Struct.enums ++ m.interfaces.map Interface.enums).flatten := by
  rw [allEnums, List.append_assoc, List.flatten_append, ← List.flatMap_def, ← List.flatMap_def]

theorem EnumsValued.scoped {top : List Enum} {inStructs inInterfaces : List (List Enum)}
    (h : EnumsValued r names top inStructs inInterfaces) :
    List.Forall₂ (fun p enum => Enum.Valued names p enum) r.scopedEnums
      ((inStructs ++ inInterfaces).flatten ++ top) := by
  refine List.rel_append ?_ (List.forall₂_map_left_iff.2 h.enums)
  rw [← List.flatMap_id]
  exact List.rel_flatMap h.holders fun holder enums hnested => List.forall₂_map_left_iff.2 hnested

theorem Enum.Valued.decl {p : Option String × Record.Enum} {enum : Enum}
    (h : enum.Valued names p) : enum.decl = enumDecl names.space p := by
  rw [Enum.decl, enumDecl, h.space, h.parent, h.name]

theorem space_of_ofRecord {imports : List (Import Module)} (hb : ofRecord r path imports = .ok m) :
    m.space = r.space := by
  simp only [ofRecord, Except.bind_eq_ok, Except.pure_eq_ok, Prod.exists] at hb
  obtain ⟨_, -, _, _, -, _, _, -, _, _, -, _, -, _, -, _, -, rfl⟩ := hb
  rfl

/-- A declaration of a module has the name of the record's and constants of the same names. -/
structure Named (space : String) (decl : DeclRef) (constants : List Constant)
    (holder : Record.Holder) : Prop where
  decl_eq : decl = ⟨space, holder.name⟩
  constants_eq : constants.map Constant.name = holder.constants.map Record.Constant.name

theorem constantDecls_of_named {σ : Type} {decl : σ → DeclRef} {constants : σ → List Constant}
    {space : String} {holders : List Record.Holder} {zs : List σ}
    (h : List.Forall₂ (fun holder z => Named space (decl z) (constants z) holder) holders zs) :
    (zs.flatMap fun z => (constants z).map fun c =>
      (⟨space, nestedName (some (decl z).name) c.name⟩ : DeclRef)) =
      holders.flatMap fun holder => holder.constants.map fun c =>
        constantDecl space (some holder.name, c) := by
  rw [List.flatMap_def, List.flatMap_def, h.map_eq]
  intro holder z hnamed
  have hmap := congrArg (List.map fun name =>
    (⟨space, nestedName (some holder.name) name⟩ : DeclRef)) hnamed.constants_eq
  rw [List.map_map, List.map_map] at hmap
  rw [hnamed.decl_eq]
  exact hmap

namespace Resolved

theorem structs_nested (h : Resolved r names known m) :
    List.Forall₂ (fun s struct => NestedValued names s.holder struct.enums ∧
      (buildStruct known s struct.enums).value = .ok struct) r.structs m.structs :=
  .mp (fun _ _ => .intro) (List.forall₂_map_right_iff.1 h.built.structs) h.structs

theorem interfaces_nested (h : Resolved r names known m) :
    List.Forall₂ (fun i interface => NestedValued names i.holder interface.enums ∧
      (buildInterface known i interface.enums).value = .ok interface) r.interfaces m.interfaces :=
  .mp (fun _ _ => .intro) (List.forall₂_map_right_iff.1 h.built.interfaces) h.interfaces

theorem named_structs (h : Resolved r names known m) :
    List.Forall₂ (fun holder struct =>
      Named known.space (Struct.decl struct) struct.constants holder)
      (r.structs.map Record.Struct.holder) m.structs := by
  refine List.forall₂_map_left_iff.2 (h.structs_nested.imp ?_)
  rintro s struct ⟨hnested, hb⟩
  exact ⟨(@buildStruct_spec [] "" _ _ _ _ hb).1, (names_of_buildStruct hnested hb).2⟩

theorem named_interfaces (h : Resolved r names known m) :
    List.Forall₂ (fun holder interface =>
      Named known.space (Interface.decl interface) interface.constants holder)
      (r.interfaces.map Record.Interface.holder) m.interfaces := by
  refine List.forall₂_map_left_iff.2 (h.interfaces_nested.imp ?_)
  rintro i interface ⟨hnested, hb⟩
  exact ⟨(@buildInterface_spec [] "" _ _ _ _ hb).1, (names_of_buildInterface hnested hb).2⟩

theorem map_decl_holders (h : Resolved r names known m) :
    m.structs.map Struct.decl ++ m.interfaces.map Interface.decl =
      r.holders.map fun holder => ⟨known.space, holder.name⟩ := by
  rw [h.named_structs.map_eq fun _ _ hnamed => hnamed.decl_eq,
    h.named_interfaces.map_eq fun _ _ hnamed => hnamed.decl_eq, ← List.map_append]
  rfl

theorem perm_enumDecls (h : Resolved r names known m) :
    (m.allEnums.map Enum.decl).Perm (r.scopedEnums.map (enumDecl names.space)) := by
  rw [← h.built.scoped.map_eq fun _ _ hvalued => hvalued.decl, allEnums_eq]
  exact List.perm_append_comm.map _

theorem perm_constantDecls (hspace : m.space = known.space) (h : Resolved r names known m) :
    m.constantDecls.Perm (r.scopedConstants.map (constantDecl known.space)) := by
  have htop : m.constants.map (fun c => (⟨known.space, c.name⟩ : DeclRef)) =
      r.constants.map fun c => constantDecl known.space (none, c) := by
    refine h.constants.map_eq fun c constant hb => ?_
    rw [name_of_buildConstant hb]
    rfl
  have hstructs := constantDecls_of_named h.named_structs
  have hinterfaces := constantDecls_of_named h.named_interfaces
  rw [constantDecls, hspace, htop, Record.scopedConstants, Record.holders, List.append_assoc,
    List.flatMap_append, List.map_append, List.map_append, List.map_flatMap, List.map_flatMap]
  simp only [List.map_map]
  refine List.perm_append_comm.trans (.of_eq ?_)
  exact congrArg₂ _ (congrArg₂ _ hstructs hinterfaces) rfl

/-- The names of a module are the keys of the paths of its record. -/
theorem perm_qualifiedNames {imports : List Module} (hspace : m.space = r.space)
    (h : Resolved r (Names.ofRecord r imports) known m) :
    m.qualifiedNames.Perm (r.paths.map (pathKey r.space)) := by
  have hknown : known.space = r.space := h.built.knows.space.trans (space_ofRecord r imports)
  have hholders : (m.structs.map Struct.decl ++ m.interfaces.map Interface.decl).map
      DeclRef.qualified = (r.holders.map fun holder => [holder.name]).map (pathKey r.space) := by
    rw [h.map_decl_holders, hknown, List.map_map, List.map_map]
    refine List.map_congr_left fun holder _ => ?_
    simp [pathKey]
  -- Each sort of declarations has the keys of its own paths, up to their order.
  have henums := h.perm_enumDecls.map DeclRef.qualified
  have hconstants := (h.perm_constantDecls (hspace.trans hknown.symm)).map DeclRef.qualified
  have hfields := h.built.perm_memberKey (space_ofRecord r imports)
  have hscopes : (r.scopedEnums.map (enumDecl (Names.ofRecord r imports).space)).map
      DeclRef.qualified = (r.scopedEnums.map enumScope).map (pathKey r.space) := by
    rw [space_ofRecord, List.map_map, List.map_map]
    exact List.map_congr_left fun p _ => qualified_enumDecl r.space p
  have hpaths : (r.scopedConstants.map (constantDecl known.space)).map DeclRef.qualified =
      r.constantPaths.map (pathKey r.space) := by
    rw [hknown, Record.constantPaths, List.map_map, List.map_map]
    exact List.map_congr_left fun p _ => qualified_constantDecl r.space p
  rw [hscopes] at henums
  rw [hpaths] at hconstants
  rw [Record.map_fst_ownFields, ← allEnums_eq] at hfields
  rw [qualifiedNames, decls, List.map_append, List.map_append, hholders, Record.paths,
    List.map_append, List.map_append]
  refine .append (.append ((henums.append_left _).trans ?_) hconstants) hfields
  rw [← List.map_append]
  exact (perm_kindPaths r).symm.map _

end Resolved

/-- A record without dots in its names makes a module without ambiguous names. -/
theorem unambiguous_of_ofRecord {imports : List (Import Module)} (plain : r.Plain)
    (hb : ofRecord r path imports = .ok m) : m.Unambiguous := by
  obtain ⟨known, resolved⟩ := resolved_of_ofRecord hb
  refine ⟨?_, fun s hs => ?_, fun i hi => ?_⟩
  · have hperm := resolved.perm_qualifiedNames (space_of_ofRecord hb)
    exact hperm.nodup_iff.2 (Record.nodup_keys plain resolved.distinct)
  · obtain ⟨record, -, -, hnested, hbuilt⟩ := resolved.structs_nested.exists_left_of_mem hs
    exact (names_of_buildStruct hnested hbuilt).1
  · obtain ⟨record, -, -, hnested, hbuilt⟩ := resolved.interfaces_nested.exists_left_of_mem hi
    exact (names_of_buildInterface hnested hbuilt).1

end WireSchema.Module
