import Mathlib.Data.List.Nodup
import Mathlib.Data.List.Perm.Basic
import WireSchema.Module.Build
import WireSchema.Proofs.Fallible

/-!
# The tables of a record

`Names.ofRecord` fills its tables declaration by declaration. `Names.imported_eq` gives in one piece
what the imports leave, and `Names.ofRecord_eq` extends it by the entries of the record; building
the enums of the record adds their values (`buildEnums_spec`). An entry is found by its key, the
path of names that leads to it, written with dots. If no declared name holds a dot (`Record.Plain`)
and no name is declared twice in one place (`Record.Distinct`), different declarations have
different keys, so every declaration is found under its own key and the order of the declarations
does not matter to what is found.
-/

namespace WireSchema

/-! ## What a record declares -/

namespace Record

/-- A struct or an interface, as what holds nested declarations. -/
structure Holder where
  name : String
  enums : List Enum
  constants : List Constant

def Struct.holder (s : Struct) : Holder :=
  ⟨s.name, s.enums, s.constants⟩

def Interface.holder (i : Interface) : Holder :=
  ⟨i.name, i.enums, i.constants⟩

def holders (r : Record) : List Holder :=
  r.structs.map Struct.holder ++ r.interfaces.map Interface.holder

/-- The enums of a record, nested ones with the names of their holders. -/
def scopedEnums (r : Record) : List (Option String × Enum) :=
  r.holders.flatMap (fun h => h.enums.map (some h.name, ·)) ++ r.enums.map (none, ·)

/-- The constants of a record, nested ones with the names of their holders. -/
def scopedConstants (r : Record) : List (Option String × Constant) :=
  r.holders.flatMap (fun h => h.constants.map (some h.name, ·)) ++ r.constants.map (none, ·)

/-- The names declared at the top of a record. -/
def topNames (r : Record) : List String :=
  r.holders.map Holder.name ++ r.enums.map Enum.name ++ r.constants.map Constant.name

/-- No declared name holds a dot. -/
structure Plain (r : Record) : Prop where
  holders : ∀ h ∈ r.holders, '.' ∉ h.name.toList
  enums : ∀ p ∈ r.scopedEnums, '.' ∉ p.2.name.toList
  fields : ∀ p ∈ r.scopedEnums, ∀ f ∈ p.2.fields, '.' ∉ f.name.toList
  constants : ∀ p ∈ r.scopedConstants, '.' ∉ p.2.name.toList

/-- No name is declared twice at the top, in a struct or interface, or in an enum. -/
structure Distinct (r : Record) : Prop where
  top : r.topNames.Nodup
  nested : ∀ h ∈ r.holders, (h.enums.map Enum.name ++ h.constants.map Constant.name).Nodup
  fields : ∀ p ∈ r.scopedEnums, (p.2.fields.map EnumField.name).Nodup

theorem mem_scopedEnums {r : Record} {p : Option String × Enum} : p ∈ r.scopedEnums ↔
    (∃ h ∈ r.holders, ∃ e ∈ h.enums, (some h.name, e) = p) ∨ ∃ e ∈ r.enums, (none, e) = p := by
  simp [scopedEnums]

theorem mem_scopedConstants {r : Record} {p : Option String × Constant} : p ∈ r.scopedConstants ↔
    (∃ h ∈ r.holders, ∃ c ∈ h.constants, (some h.name, c) = p) ∨
      ∃ c ∈ r.constants, (none, c) = p := by
  simp [scopedConstants]

end Record

namespace Module

theorem map_fst_topLevelNames (r : Record) : (topLevelNames r).map Prod.fst = r.topNames := by
  simp [topLevelNames, Record.topNames, Record.holders, Record.Struct.holder,
    Record.Interface.holder, Function.comp_def]

/-! ## What a module declares -/

/-- The values of an enum. -/
def Enum.members (e : Enum) : List EnumMember :=
  e.fields.map fun f => ⟨e.decl, f.name, f.value⟩

/-- The values of the enums of a module. -/
def memberValues (m : Module) : List EnumMember :=
  m.allEnums.flatMap Enum.members

/-- The constants of a declaration, or of a module itself, with their values. -/
def scopedValues (space : String) (parent : Option String) (constants : List Constant) :
    List (DeclRef × Value) :=
  constants.map fun c => (⟨space, nestedName parent c.name⟩, c.value)

/-- The constants of a module with their values, those at the top last. -/
def constantValues (m : Module) : List (DeclRef × Value) :=
  m.structs.flatMap (fun s => scopedValues m.space (some s.name) s.constants) ++
    m.interfaces.flatMap (fun i => scopedValues m.space (some i.name) i.constants) ++
    scopedValues m.space none m.constants

/-- The kinds that a module declares, by the names under which they are imported. -/
def declaredKinds (m : Module) : List (String × Kind) :=
  m.structs.map (fun s => ((DeclRef.mk m.space s.name).qualified, .struct s.decl)) ++
    m.interfaces.map (fun i => ((DeclRef.mk m.space i.name).qualified, .interface i.decl)) ++
    m.allEnums.map fun e => (e.decl.qualified, .enum e.decl)

/-- The key of an enum value. -/
def memberKey (m : EnumMember) : String :=
  m.enum.qualified ++ "." ++ m.name

namespace Names

variable {names : Names} {space : String}

/-! ## Entries of the tables -/

/-- The entries of enum fields, given the field before them. -/
def fieldEntries (enum : DeclRef) (scope : List String) :
    Option (String × String × UInt32) → List Record.EnumField → List (String × LocalField)
  | _, [] => []
  | previous, f :: rest =>
    (enum.qualified ++ "." ++ f.name, ⟨f.name, f.line, f.value, previous, scope⟩) ::
      fieldEntries enum scope (some (enum.qualified ++ "." ++ f.name, f.name, f.line)) rest

/-- The name of an enum of a record. -/
def enumDecl (space : String) (p : Option String × Record.Enum) : DeclRef :=
  ⟨space, nestedName p.1 p.2.name⟩

/-- The scope of the values written in an enum. -/
def enumScope (p : Option String × Record.Enum) : List String :=
  p.1.toList ++ [p.2.name]

def enumEntries (space : String) (p : Option String × Record.Enum) : List (String × LocalField) :=
  fieldEntries (enumDecl space p) (enumScope p) none p.2.fields

def enumKind (space : String) (p : Option String × Record.Enum) : String × Kind :=
  ((enumDecl space p).qualified, .enum (enumDecl space p))

/-- The name of a constant of a record. -/
def constantDecl (space : String) (p : Option String × Record.Constant) : DeclRef :=
  ⟨space, nestedName p.1 p.2.name⟩

def constantEntry (space : String) (p : Option String × Record.Constant) :
    String × ConstantEntry :=
  ((constantDecl space p).qualified, .declared (constantDecl space p) p.2.value p.1.toList)

/-- The kind of a struct or interface and those of the enums in it. -/
def holderKinds (space : String) (kind : DeclRef → Kind) (h : Record.Holder) :
    List (String × Kind) :=
  ((DeclRef.mk space h.name).qualified, kind ⟨space, h.name⟩) ::
    h.enums.map fun e => enumKind space (some h.name, e)

/-- The kinds that a record declares. -/
def ownKinds (r : Record) : List (String × Kind) :=
  r.structs.flatMap (fun s => holderKinds r.space .struct s.holder) ++
    r.interfaces.flatMap (fun i => holderKinds r.space .interface i.holder) ++
    r.enums.map fun e => enumKind r.space (none, e)

/-- The enum fields that a record declares. -/
def ownFields (r : Record) : List (String × LocalField) :=
  r.scopedEnums.flatMap (enumEntries r.space)

/-- The constants that a record declares. -/
def ownConstants (r : Record) : List (String × ConstantEntry) :=
  r.scopedConstants.map (constantEntry r.space)

def importedEntry (c : DeclRef × Value) : String × ConstantEntry :=
  (c.1.qualified, .imported c.1 c.2)

def memberEntry (v : EnumMember) : String × EnumMember :=
  (memberKey v, v)

/-! ## Imported entries -/

/-- Adds entries in order; only later entries hide them. -/
def learn (names : Names) (kinds : List (String × Kind)) (members : List (String × EnumMember))
    (constants : List (String × ConstantEntry)) : Names :=
  { names with
    kinds := kinds.reverse ++ names.kinds
    members := members.reverse ++ names.members
    constants := constants.reverse ++ names.constants }

theorem learn_learn (names : Names) (ks ks' : List (String × Kind))
    (ms ms' : List (String × EnumMember)) (cs cs' : List (String × ConstantEntry)) :
    (names.learn ks ms cs).learn ks' ms' cs' =
      names.learn (ks ++ ks') (ms ++ ms') (cs ++ cs') := by
  simp only [learn, List.reverse_append, List.append_assoc]

/-- Steps that each add entries add all of them. -/
theorem foldl_learn {α : Type} {f : Names → α → Names} {ks : α → List (String × Kind)}
    {ms : α → List (String × EnumMember)} {cs : α → List (String × ConstantEntry)}
    (hf : ∀ names a, f names a = names.learn (ks a) (ms a) (cs a)) (xs : List α) (names : Names) :
    xs.foldl f names = names.learn (xs.flatMap ks) (xs.flatMap ms) (xs.flatMap cs) := by
  induction xs generalizing names with
  | nil => rfl
  | cons a rest ih => rw [List.foldl_cons, ih, hf, learn_learn]; rfl

theorem flatMap_nil {α β : Type} (xs : List α) : (xs.flatMap fun _ => ([] : List β)) = [] :=
  List.flatMap_eq_nil_iff.2 fun _ _ => rfl

theorem addMember_eq (names : Names) (m : EnumMember) :
    names.addMember m = names.learn [] [memberEntry m] [] :=
  rfl

theorem foldl_addMember (ms : List EnumMember) (names : Names) :
    ms.foldl addMember names = names.learn [] (ms.map memberEntry) [] := by
  rw [foldl_learn addMember_eq]
  simp only [flatMap_nil, ← List.map_eq_flatMap]

theorem addImportedConstants_eq (owner : String) (parent : Option String)
    (constants : List Constant) (names : Names) :
    names.addImportedConstants owner parent constants =
      names.learn [] [] ((scopedValues owner parent constants).map importedEntry) := by
  have hone : ∀ (names : Names) (c : Constant),
      names.addConstant (.imported ⟨owner, nestedName parent c.name⟩ c.value) =
        names.learn [] [] [importedEntry (⟨owner, nestedName parent c.name⟩, c.value)] :=
    fun _ _ => rfl
  rw [addImportedConstants, foldl_learn hone]
  simp only [flatMap_nil, ← List.map_eq_flatMap, scopedValues, List.map_map, Function.comp_def]

theorem addImportedEnum_eq (names : Names) (e : Enum) :
    names.addImportedEnum e =
      names.learn [(e.decl.qualified, .enum e.decl)] (e.members.map memberEntry) [] := by
  have hmembers : e.fields.foldl (fun names f => names.addMember ⟨e.decl, f.name, f.value⟩) names =
      names.learn [] (e.members.map memberEntry) [] := by
    rw [← foldl_addMember, Enum.members, List.foldl_map]
  rw [addImportedEnum, hmembers]
  rfl

/-- A struct or interface is added with the constants nested in it. -/
theorem addImportedHolder_eq {α : Type} (owner : String) (name : α → String) (kind : α → Kind)
    (constants : α → List Constant) (names : Names) (holder : α) :
    (names.addKindAs ⟨owner, name holder⟩ (kind holder)).addImportedConstants owner
        (some (name holder)) (constants holder) =
      names.learn [((DeclRef.mk owner (name holder)).qualified, kind holder)] []
        ((scopedValues owner (some (name holder)) (constants holder)).map importedEntry) := by
  rw [addImportedConstants_eq]
  rfl

theorem addImport_eq (names : Names) (m : Module) :
    names.addImport m = names.learn m.declaredKinds (m.memberValues.map memberEntry)
      (m.constantValues.map importedEntry) := by
  have hstruct := addImportedHolder_eq m.space Struct.name (.struct ·.decl) Struct.constants
  have hinterface :=
    addImportedHolder_eq m.space Interface.name (.interface ·.decl) Interface.constants
  simp only [addImport]
  rw [foldl_learn hstruct, foldl_learn hinterface, foldl_learn addImportedEnum_eq,
    addImportedConstants_eq, learn_learn, learn_learn, learn_learn]
  simp [declaredKinds, memberValues, constantValues, flatMap_nil, List.map_flatMap,
    ← List.map_eq_flatMap]

/-- What imported modules leave in the tables of a module in the given namespace. -/
def imported (space : String) (imports : List Module) : Names :=
  imports.foldl addImport { space }

theorem imported_eq (space : String) (imports : List Module) :
    imported space imports = learn { space } (imports.flatMap declaredKinds)
      ((imports.flatMap memberValues).map memberEntry)
      ((imports.flatMap constantValues).map importedEntry) := by
  rw [imported, foldl_learn addImport_eq, List.map_flatMap, List.map_flatMap]

theorem kinds_imported (space : String) (imports : List Module) :
    (imported space imports).kinds = (imports.flatMap declaredKinds).reverse := by
  rw [imported_eq]
  exact List.append_nil _

theorem members_imported (space : String) (imports : List Module) :
    (imported space imports).members =
      ((imports.flatMap memberValues).map memberEntry).reverse := by
  rw [imported_eq]
  exact List.append_nil _

theorem constants_imported (space : String) (imports : List Module) :
    (imported space imports).constants =
      ((imports.flatMap constantValues).map importedEntry).reverse := by
  rw [imported_eq]
  exact List.append_nil _

/-! ## The record's own entries -/

/-- Adds entries in order. Fields hide known values of the same keys. -/
def extend (names : Names) (kinds : List (String × Kind)) (fields : List (String × LocalField))
    (constants : List (String × ConstantEntry)) : Names :=
  { names with
    kinds := kinds.reverse ++ names.kinds
    members := names.members.filter (·.1 ∉ fields.map Prod.fst)
    fields := fields.reverse ++ names.fields
    constants := constants.reverse ++ names.constants }

theorem space_extend (names : Names) (ks : List (String × Kind)) (fs : List (String × LocalField))
    (cs : List (String × ConstantEntry)) : (names.extend ks fs cs).space = names.space :=
  rfl

theorem extend_nil (names : Names) : names.extend [] [] [] = names := by
  simp [extend]

theorem extend_extend (names : Names) (ks ks' : List (String × Kind))
    (fs fs' : List (String × LocalField)) (cs cs' : List (String × ConstantEntry)) :
    (names.extend ks fs cs).extend ks' fs' cs' =
      names.extend (ks ++ ks') (fs ++ fs') (cs ++ cs') := by
  have hfilter : (names.members.filter (·.1 ∉ fs.map Prod.fst)).filter
      (·.1 ∉ fs'.map Prod.fst) = names.members.filter (·.1 ∉ (fs ++ fs').map Prod.fst) := by
    rw [List.filter_filter]
    refine List.filter_congr fun entry _ => ?_
    simp only [List.map_append, List.mem_append, not_or, Bool.decide_and, Bool.and_comm]
  simp only [extend, hfilter, List.reverse_append, List.append_assoc]

/-- Steps that each add entries add all of them. -/
theorem foldl_extend {α : Type} {f : Names → α → Names} {ks : α → List (String × Kind)}
    {fs : α → List (String × LocalField)} {cs : α → List (String × ConstantEntry)}
    (hf : ∀ names a, names.space = space → f names a = names.extend (ks a) (fs a) (cs a))
    (xs : List α) (hspace : names.space = space) :
    xs.foldl f names = names.extend (xs.flatMap ks) (xs.flatMap fs) (xs.flatMap cs) := by
  induction xs generalizing names with
  | nil => exact (extend_nil names).symm
  | cons a rest ih =>
    rw [List.foldl_cons, hf names a hspace, ih (by exact hspace), extend_extend]
    rfl

theorem addKind_eq (names : Names) (decl : DeclRef) (kind : DeclRef → Kind) :
    names.addKind decl kind = names.extend [(decl.qualified, kind decl)] [] [] := by
  simp [addKind, addKindAs, extend]

theorem addFields_eq (enum : DeclRef) (scope : List String)
    (previous : Option (String × String × UInt32)) (fields : List Record.EnumField)
    (names : Names) :
    addFields enum scope previous fields names =
      names.extend [] (fieldEntries enum scope previous fields) [] := by
  induction fields generalizing previous names with
  | nil => exact (extend_nil names).symm
  | cons f rest ih =>
    let entry : String × LocalField :=
      (enum.qualified ++ "." ++ f.name, ⟨f.name, f.line, f.value, previous, scope⟩)
    have hone : ({ names with
        members := names.members.filter (·.1 ≠ enum.qualified ++ "." ++ f.name)
        fields := entry :: names.fields } : Names) = names.extend [] [entry] [] := by
      simp [extend, entry]
    rw [addFields, ih, hone, extend_extend]
    rfl

theorem addEnum_eq (parent : Option String) (names : Names) (e : Record.Enum) :
    names.addEnum parent e =
      names.extend [enumKind names.space (parent, e)] (enumEntries names.space (parent, e)) [] := by
  rw [addEnum, addFields_eq, addKind_eq, extend_extend]
  rfl

theorem addDeclaredConstant_eq (parent : Option String) (names : Names) (c : Record.Constant) :
    names.addDeclaredConstant parent c =
      names.extend [] [] [constantEntry names.space (parent, c)] := by
  simp [addDeclaredConstant, addConstant, extend, constantEntry, constantDecl, ConstantEntry.decl]

theorem addAll_eq (parent : Option String) (enums : List Record.Enum)
    (constants : List Record.Constant) (hspace : names.space = space) :
    constants.foldl (addDeclaredConstant parent) (enums.foldl (addEnum parent) names) =
      names.extend (enums.map fun e => enumKind space (parent, e))
        (enums.flatMap fun e => enumEntries space (parent, e))
        (constants.map fun c => constantEntry space (parent, c)) := by
  rw [foldl_extend (fun names e h => h ▸ addEnum_eq parent names e) enums hspace,
    foldl_extend (fun names c h => h ▸ addDeclaredConstant_eq parent names c) constants
      ((space_extend ..).trans hspace),
    extend_extend]
  simp only [flatMap_nil, List.append_nil, List.nil_append, ← List.map_eq_flatMap]

theorem addHolder_eq (kind : DeclRef → Kind) (h : Record.Holder) (hspace : names.space = space) :
    (names.addKind ⟨names.space, h.name⟩ kind).addNested h.name h.enums h.constants =
      names.extend (holderKinds space kind h)
        (h.enums.flatMap fun e => enumEntries space (some h.name, e))
        (h.constants.map fun c => constantEntry space (some h.name, c)) := by
  have hkind : (names.addKind ⟨names.space, h.name⟩ kind).space = space := hspace
  rw [addNested, addAll_eq (some h.name) h.enums h.constants hkind, addKind_eq, extend_extend,
    hspace]
  rfl

theorem addRecord_eq {r : Record} (hspace : names.space = r.space) :
    names.addRecord r = names.extend (ownKinds r) (ownFields r) (ownConstants r) := by
  have hstructs := foldl_extend
    (f := fun names (s : Record.Struct) =>
      (names.addKind ⟨names.space, s.name⟩ .struct).addNested s.name s.enums s.constants)
    (fun _ s h => addHolder_eq .struct s.holder h) r.structs hspace
  have hinterfaces := fun ks fs cs => foldl_extend
    (f := fun names (i : Record.Interface) =>
      (names.addKind ⟨names.space, i.name⟩ .interface).addNested i.name i.enums i.constants)
    (fun _ i h => addHolder_eq .interface i.holder h) r.interfaces
    ((space_extend names ks fs cs).trans hspace)
  rw [addRecord, hstructs, hinterfaces, extend_extend,
    addAll_eq none r.enums r.constants ((space_extend ..).trans hspace), extend_extend]
  simp [ownKinds, ownFields, ownConstants, Record.scopedEnums, Record.scopedConstants,
    Record.holders, List.flatMap_map, List.flatMap_assoc, List.map_flatMap, Function.comp_def,
    Record.Struct.holder, Record.Interface.holder]

theorem ofRecord_eq (r : Record) (imports : List Module) :
    ofRecord r imports =
      (imported r.space imports).extend (ownKinds r) (ownFields r) (ownConstants r) :=
  addRecord_eq (by rw [← imported, imported_eq]; rfl)

theorem space_ofRecord (r : Record) (imports : List Module) :
    (ofRecord r imports).space = r.space := by
  rw [ofRecord_eq, space_extend, imported_eq]
  rfl

/-- Imports have no enum fields whose integers are to be found. -/
theorem fields_ofRecord (r : Record) (imports : List Module) :
    (ofRecord r imports).fields = (ownFields r).reverse := by
  rw [ofRecord_eq, imported_eq]
  exact List.append_nil _

theorem kinds_ofRecord (r : Record) (imports : List Module) :
    (ofRecord r imports).kinds = (ownKinds r).reverse ++ (imported r.space imports).kinds := by
  rw [ofRecord_eq, extend]

theorem constants_ofRecord (r : Record) (imports : List Module) :
    (ofRecord r imports).constants =
      (ownConstants r).reverse ++ (imported r.space imports).constants := by
  rw [ofRecord_eq, extend]

theorem members_ofRecord (r : Record) (imports : List Module) :
    (ofRecord r imports).members =
      (imported r.space imports).members.filter (·.1 ∉ (ownFields r).map Prod.fst) := by
  rw [ofRecord_eq, extend]

/-! ## Finding entries -/

section Lookup

variable {α : Type} {entries entries' : List (String × α)} {key : String} {a : α}

theorem mem_of_lookup (h : entries.lookup key = some a) : (key, a) ∈ entries := by
  obtain ⟨before, after, rfl, -⟩ := List.lookup_eq_some_iff.1 h
  simp

theorem lookup_eq_some_iff_mem (h : (entries.map Prod.fst).Nodup) :
    entries.lookup key = some a ↔ (key, a) ∈ entries := by
  refine ⟨mem_of_lookup, fun hmem => ?_⟩
  obtain ⟨before, after, rfl⟩ := List.append_of_mem hmem
  refine List.lookup_eq_some_iff.2 ⟨before, after, rfl, fun entry hentry => ?_⟩
  rw [List.map_append, List.map_cons, List.nodup_append] at h
  have hne := h.2.2 entry.1 (List.mem_map_of_mem hentry) key List.mem_cons_self
  exact bne_iff_ne.2 hne.symm

theorem lookup_isSome_iff : (entries.lookup key).isSome ↔ key ∈ entries.map Prod.fst := by
  refine ⟨fun h => ?_, fun h => ?_⟩
  · obtain ⟨a, ha⟩ := Option.isSome_iff_exists.1 h
    exact mem_keys_of_lookup ha
  · rw [Option.isSome_iff_ne_none, ne_eq, List.lookup_eq_none_iff]
    intro hnone
    obtain ⟨entry, hentry, rfl⟩ := List.mem_map.1 h
    exact absurd rfl (bne_iff_ne.1 (hnone entry hentry))

/-- What is found does not depend on the order of entries with different keys. -/
theorem lookup_eq_of_perm (hp : entries.Perm entries') (h : (entries.map Prod.fst).Nodup) :
    entries.lookup key = entries'.lookup key := by
  have h' : (entries'.map Prod.fst).Nodup := (hp.map Prod.fst).nodup_iff.1 h
  ext a
  rw [lookup_eq_some_iff_mem h, lookup_eq_some_iff_mem h', hp.mem_iff]

theorem lookup_filter_keys (keys : List String) :
    (entries.filter (·.1 ∉ keys)).lookup key =
      if key ∈ keys then none else entries.lookup key := by
  induction entries with
  | nil => simp
  | cons entry rest ih =>
    rw [List.filter_cons]
    by_cases hkey : key = entry.1
    · subst hkey
      by_cases hmem : entry.1 ∈ keys
      · rw [if_neg (by simpa using hmem), ih, if_pos hmem, if_pos hmem]
      · rw [if_pos (by simpa using hmem), if_neg hmem, List.lookup_cons, List.lookup_cons,
          beq_self_eq_true]
    · have hbeq : (key == entry.1) = false := beq_eq_false_iff_ne.2 hkey
      split
      · rw [List.lookup_cons, hbeq, ih, List.lookup_cons, hbeq]
      · rw [ih, List.lookup_cons, hbeq]

end Lookup

/-! ## Keys -/

/-- The key of what a path of names leads to. -/
def pathKey (space : String) (path : List String) : String :=
  (DeclRef.mk space (String.intercalate "." path)).qualified

theorem qualified_enumDecl (space : String) (p : Option String × Record.Enum) :
    (enumDecl space p).qualified = pathKey space (enumScope p) := by
  obtain ⟨_ | parent, e⟩ := p <;> simp [enumDecl, enumScope, pathKey, nestedName]

theorem qualified_constantDecl (space : String) (p : Option String × Record.Constant) :
    (constantDecl space p).qualified = pathKey space (p.1.toList ++ [p.2.name]) := by
  obtain ⟨_ | parent, c⟩ := p <;> simp [constantDecl, pathKey, nestedName]

/-- A field's key is the path of its enum with its name. -/
theorem fieldKey_eq (space : String) (p : Option String × Record.Enum) (name : String) :
    (enumDecl space p).qualified ++ "." ++ name = pathKey space (enumScope p ++ [name]) := by
  obtain ⟨_ | parent, e⟩ := p <;>
    by_cases hspace : space = "" <;>
    simp [enumDecl, enumScope, pathKey, nestedName, DeclRef.qualified, hspace, String.append_assoc]

theorem pathKey_injective {space : String} {xs ys : List String}
    (hxs : ∀ x ∈ xs, '.' ∉ x.toList) (hys : ∀ y ∈ ys, '.' ∉ y.toList) (nxs : xs ≠ []) (nys : ys ≠ [])
    (h : pathKey space xs = pathKey space ys) : xs = ys := by
  have hnames : String.intercalate "." xs = String.intercalate "." ys := by
    simp only [pathKey, DeclRef.qualified] at h
    split at h
    · exact h
    · exact (String.append_right_inj _).1 h
  have hsplit : ∀ zs : List String, (∀ z ∈ zs, '.' ∉ z.toList) → zs ≠ [] →
      (String.intercalate "." zs).toList.splitOn '.' = zs.map String.toList := by
    intro zs hzs nzs
    rw [String.toList_intercalate]
    exact List.splitOn_intercalate '.' (by simpa using hzs) (by simpa using nzs)
  have hlists : xs.map String.toList = ys.map String.toList := by
    rw [← hsplit xs hxs nxs, ← hsplit ys hys nys, hnames]
  exact List.map_injective_iff.2 (fun _ _ => String.toList_injective) hlists

end Names

/-! ## Different declarations have different keys -/

section Paths

/-- Paths that end in different names. -/
theorem nodup_map_name {α : Type} {name : α → String} {xs : List α} (hnames : (xs.map name).Nodup)
    (first : String) : (xs.map fun x => [first, name x]).Nodup := by
  have hinjective : Function.Injective fun last => [first, last] := fun a b hab => by simpa using hab
  have hmap := hnames.map hinjective
  rwa [List.map_map] at hmap

/-- Paths in blocks that start with different names. -/
theorem nodup_blocks {α : Type} {name : α → String} {paths : α → List (List String)} {xs : List α}
    (hnames : (xs.map name).Nodup) (hpaths : ∀ x ∈ xs, (paths x).Nodup)
    (hstart : ∀ x ∈ xs, ∀ path ∈ paths x, path.head? = some (name x)) :
    (xs.flatMap paths).Nodup := by
  refine List.nodup_flatMap.2 ⟨hpaths, ?_⟩
  refine (List.pairwise_map.1 hnames).imp_of_mem fun {x y} hx hy hne path hpx hpy => hne ?_
  exact Option.some.inj ((hstart x hx path hpx).symm.trans (hstart y hy path hpy))

/-- Paths into structs and interfaces, and paths from other names at the top. -/
theorem nodup_topBlocks {β : Type} {name : β → String} {holders : List Record.Holder}
    {tops : List β} {inside : Record.Holder → List (List String)} {outside : β → List (List String)}
    (hnames : (holders.map Record.Holder.name ++ tops.map name).Nodup)
    (hinside : ∀ h ∈ holders, (inside h).Nodup)
    (houtside : ∀ t ∈ tops, (outside t).Nodup)
    (hin : ∀ h ∈ holders, ∀ path ∈ inside h, path.head? = some h.name)
    (hout : ∀ t ∈ tops, ∀ path ∈ outside t, path.head? = some (name t)) :
    (holders.flatMap inside ++ tops.flatMap outside).Nodup := by
  rw [List.nodup_append] at hnames
  refine List.nodup_append.2 ⟨nodup_blocks hnames.1 hinside hin,
    nodup_blocks hnames.2.1 houtside hout, ?_⟩
  rintro path hpath _ hpath' rfl
  obtain ⟨h, hh, hph⟩ := List.mem_flatMap.1 hpath
  obtain ⟨t, ht, hpt⟩ := List.mem_flatMap.1 hpath'
  refine hnames.2.2 h.name (List.mem_map_of_mem hh) (name t) (List.mem_map_of_mem ht) ?_
  exact Option.some.inj ((hin h hh path hph).symm.trans (hout t ht path hpt))

end Paths

end Module

namespace Record

open WireSchema.Module WireSchema.Module.Names

variable {r : Record}

/-- The paths to the enum fields of a record. -/
def fieldPaths (r : Record) : List (List String) :=
  r.scopedEnums.flatMap fun p => p.2.fields.map fun f => enumScope p ++ [f.name]

/-- The paths to the constants of a record. -/
def constantPaths (r : Record) : List (List String) :=
  r.scopedConstants.map fun p => p.1.toList ++ [p.2.name]

/-- The paths to the structs, interfaces and enums of a record. -/
def kindPaths (r : Record) : List (List String) :=
  r.holders.flatMap (fun h => [h.name] :: h.enums.map fun e => [h.name, e.name]) ++
    r.enums.flatMap fun e => [[e.name]]

theorem Distinct.holders_enums (h : r.Distinct) :
    (r.holders.map Holder.name ++ r.enums.map Enum.name).Nodup :=
  h.top.sublist (List.sublist_append_left _ _)

theorem Distinct.holders_constants (h : r.Distinct) :
    (r.holders.map Holder.name ++ r.constants.map Constant.name).Nodup := by
  have htop := h.top
  rw [topNames, List.append_assoc] at htop
  exact htop.sublist ((List.sublist_append_right _ _).append_left _)

theorem Distinct.nodup_fieldPaths (h : r.Distinct) : r.fieldPaths.Nodup := by
  have heq : r.fieldPaths =
      r.holders.flatMap (fun h => (h.enums.flatMap fun e => e.fields.map fun f =>
        [e.name, f.name]).map (h.name :: ·)) ++
      r.enums.flatMap fun e => e.fields.map fun f => [e.name, f.name] := by
    simp [fieldPaths, scopedEnums, enumScope, List.flatMap_map, List.flatMap_assoc,
      List.map_flatMap, Function.comp_def]
  have hfields : ∀ p ∈ r.scopedEnums, (p.2.fields.map fun f => [p.2.name, f.name]).Nodup :=
    fun p hp => nodup_map_name (h.fields p hp) p.2.name
  rw [heq]
  refine nodup_topBlocks h.holders_enums (fun holder hh => ?_) (fun e he => ?_)
    (fun holder _ path hpath => ?_) (by simp)
  · have hnames : (holder.enums.map Enum.name).Nodup := (List.nodup_append.1 (h.nested holder hh)).1
    refine (nodup_blocks hnames (fun e he => ?_) (by simp)).map List.cons_injective
    exact hfields (some holder.name, e) (mem_scopedEnums.2 (.inl ⟨holder, hh, e, he, rfl⟩))
  · exact hfields (none, e) (mem_scopedEnums.2 (.inr ⟨e, he, rfl⟩))
  · obtain ⟨rest, -, rfl⟩ := List.mem_map.1 hpath
    rfl

theorem Distinct.nodup_constantPaths (h : r.Distinct) : r.constantPaths.Nodup := by
  have heq : r.constantPaths =
      r.holders.flatMap (fun h => h.constants.map fun c => [h.name, c.name]) ++
      r.constants.flatMap fun c => [[c.name]] := by
    simp [constantPaths, scopedConstants, List.map_flatMap, ← List.map_eq_flatMap,
      Function.comp_def]
  rw [heq]
  refine nodup_topBlocks h.holders_constants (fun holder hh => ?_) (by simp) (by simp) (by simp)
  have hnames := (List.nodup_append.1 (h.nested holder hh)).2.1
  exact nodup_map_name hnames holder.name

theorem Distinct.nodup_kindPaths (h : r.Distinct) : r.kindPaths.Nodup := by
  refine nodup_topBlocks h.holders_enums (fun holder hh => ?_) (by simp) (by simp) (by simp)
  have hnames : (holder.enums.map Enum.name).Nodup := (List.nodup_append.1 (h.nested holder hh)).1
  refine List.nodup_cons.2 ⟨by simp, ?_⟩
  exact nodup_map_name hnames holder.name

/-- The paths to all that a record declares. -/
def paths (r : Record) : List (List String) :=
  r.kindPaths ++ r.constantPaths ++ r.fieldPaths

theorem mem_kindPaths {path : List String} : path ∈ r.kindPaths ↔
    (∃ h ∈ r.holders, path = [h.name]) ∨
      (∃ h ∈ r.holders, ∃ e ∈ h.enums, path = [h.name, e.name]) ∨
      ∃ e ∈ r.enums, path = [e.name] := by
  simp only [kindPaths, List.mem_append, List.mem_flatMap, List.mem_cons, List.mem_map,
    List.not_mem_nil, or_false]
  grind

theorem mem_constantPaths {path : List String} : path ∈ r.constantPaths ↔
    (∃ h ∈ r.holders, ∃ c ∈ h.constants, path = [h.name, c.name]) ∨
      ∃ c ∈ r.constants, path = [c.name] := by
  simp only [constantPaths, List.mem_map, mem_scopedConstants]
  grind

theorem mem_fieldPaths {path : List String} : path ∈ r.fieldPaths ↔
    (∃ h ∈ r.holders, ∃ e ∈ h.enums, ∃ f ∈ e.fields, path = [h.name, e.name, f.name]) ∨
      ∃ e ∈ r.enums, ∃ f ∈ e.fields, path = [e.name, f.name] := by
  simp only [fieldPaths, List.mem_flatMap, List.mem_map, mem_scopedEnums, enumScope]
  grind

/-- No two declarations of a record have one path. -/
theorem Distinct.nodup_paths (h : r.Distinct) : r.paths.Nodup := by
  have htop := h.top
  rw [topNames, List.nodup_append, List.nodup_append] at htop
  obtain ⟨⟨hholders, -, henums⟩, -, hconstants⟩ := htop
  -- Names at the top differ. So two declarations with one path of two names would be in one holder,
  -- where the names differ too, and an enum at the top is no holder.
  refine List.nodup_append.2 ⟨List.nodup_append.2 ⟨h.nodup_kindPaths, h.nodup_constantPaths, ?_⟩,
    h.nodup_fieldPaths, ?_⟩
  · rintro path hkind _ hconstant rfl
    rcases mem_kindPaths.1 hkind with
      ⟨holder, hh, rfl⟩ | ⟨holder, hh, e, he, rfl⟩ | ⟨e, he, rfl⟩ <;>
      rcases mem_constantPaths.1 hconstant with ⟨holder', hh', c, hc, heq⟩ | ⟨c, hc, heq⟩ <;>
      simp only [List.cons.injEq, and_true, reduceCtorEq, and_false] at heq
    · exact hconstants _ (List.mem_append_left _ (List.mem_map_of_mem hh)) _
        (List.mem_map_of_mem hc) heq
    · obtain rfl := List.inj_on_of_nodup_map hholders hh hh' heq.1
      exact (List.nodup_append.1 (h.nested holder hh)).2.2 _ (List.mem_map_of_mem he) _
        (List.mem_map_of_mem hc) heq.2
    · exact hconstants _ (List.mem_append_right _ (List.mem_map_of_mem he)) _
        (List.mem_map_of_mem hc) heq
  · rintro path hother _ hfield rfl
    rcases mem_fieldPaths.1 hfield with ⟨holder, hh, e, he, f, hf, rfl⟩ | ⟨e, he, f, hf, rfl⟩ <;>
      rcases List.mem_append.1 hother with hkind | hconstant
    · rcases mem_kindPaths.1 hkind with ⟨_, _, heq⟩ | ⟨_, _, _, _, heq⟩ | ⟨_, _, heq⟩ <;>
        simp at heq
    · rcases mem_constantPaths.1 hconstant with ⟨_, _, _, _, heq⟩ | ⟨_, _, heq⟩ <;> simp at heq
    · rcases mem_kindPaths.1 hkind with ⟨_, _, heq⟩ | ⟨holder, hh, e', he', heq⟩ | ⟨_, _, heq⟩ <;>
        simp only [List.cons.injEq, reduceCtorEq, and_true, and_false] at heq
      exact henums _ (List.mem_map_of_mem hh) _ (List.mem_map_of_mem he) heq.1.symm
    · rcases mem_constantPaths.1 hconstant with ⟨holder, hh, c, hc, heq⟩ | ⟨_, _, heq⟩ <;>
        simp only [List.cons.injEq, reduceCtorEq, and_true, and_false] at heq
      exact henums _ (List.mem_map_of_mem hh) _ (List.mem_map_of_mem he) heq.1.symm

theorem Plain.paths (h : r.Plain) :
    ∀ path ∈ r.paths, path ≠ [] ∧ ∀ name ∈ path, '.' ∉ name.toList := by
  have henum : ∀ p ∈ r.scopedEnums, '.' ∉ p.2.name.toList ∧ ∀ f ∈ p.2.fields, '.' ∉ f.name.toList :=
    fun p hp => ⟨h.enums p hp, h.fields p hp⟩
  have hnested : ∀ holder ∈ r.holders, ∀ e ∈ holder.enums, (some holder.name, e) ∈ r.scopedEnums :=
    fun holder hh e he => mem_scopedEnums.2 (.inl ⟨holder, hh, e, he, rfl⟩)
  have htop : ∀ e ∈ r.enums, (none, e) ∈ r.scopedEnums :=
    fun e he => mem_scopedEnums.2 (.inr ⟨e, he, rfl⟩)
  intro path hpath
  simp only [Record.paths, List.mem_append, mem_kindPaths, mem_constantPaths,
    mem_fieldPaths] at hpath
  rcases hpath with ((⟨holder, hh, rfl⟩ | ⟨holder, hh, e, he, rfl⟩ | ⟨e, he, rfl⟩) |
    ⟨holder, hh, c, hc, rfl⟩ | ⟨c, hc, rfl⟩) |
    ⟨holder, hh, e, he, f, hf, rfl⟩ | ⟨e, he, f, hf, rfl⟩ <;>
    refine ⟨List.cons_ne_nil _ _, ?_⟩ <;>
    simp only [List.forall_mem_cons, List.not_mem_nil, false_implies, implies_true, and_true]
  · exact h.holders holder hh
  · obtain ⟨hname, -⟩ := henum _ (hnested holder hh e he)
    exact ⟨h.holders holder hh, hname⟩
  · obtain ⟨hname, -⟩ := henum _ (htop e he)
    exact hname
  · have hname := h.constants _ (mem_scopedConstants.2 (.inl ⟨holder, hh, c, hc, rfl⟩))
    exact ⟨h.holders holder hh, hname⟩
  · have hname := h.constants _ (mem_scopedConstants.2 (.inr ⟨c, hc, rfl⟩))
    exact hname
  · obtain ⟨hname, hfields⟩ := henum _ (hnested holder hh e he)
    exact ⟨h.holders holder hh, hname, hfields f hf⟩
  · obtain ⟨hname, hfields⟩ := henum _ (htop e he)
    exact ⟨hname, hfields f hf⟩

/-- Names without dots on different paths make different keys. -/
theorem nodup_map_pathKey {space : String} {paths : List (List String)} (hnodup : paths.Nodup)
    (hplain : ∀ path ∈ paths, path ≠ [] ∧ ∀ name ∈ path, '.' ∉ name.toList) :
    (paths.map (pathKey space)).Nodup :=
  hnodup.map_on fun _ hx _ hy heq =>
    pathKey_injective (hplain _ hx).2 (hplain _ hy).2 (hplain _ hx).1 (hplain _ hy).1 heq

/-- Different declarations of a record have different keys. -/
theorem nodup_keys (plain : r.Plain) (distinct : r.Distinct) :
    (r.paths.map (pathKey r.space)).Nodup :=
  nodup_map_pathKey distinct.nodup_paths plain.paths

theorem map_fst_ownFields (r : Record) :
    (ownFields r).map Prod.fst = r.fieldPaths.map (pathKey r.space) := by
  have hentries : ∀ enum scope previous fields,
      (fieldEntries enum scope previous fields).map Prod.fst =
        fields.map fun f => enum.qualified ++ "." ++ f.name := by
    intro enum scope previous fields
    induction fields generalizing previous with
    | nil => rfl
    | cons f rest ih => simp [fieldEntries, ih]
  simp [ownFields, fieldPaths, enumEntries, List.map_flatMap, hentries, fieldKey_eq,
    Function.comp_def]

theorem map_fst_ownConstants (r : Record) :
    (ownConstants r).map Prod.fst = r.constantPaths.map (pathKey r.space) := by
  simp [ownConstants, constantPaths, constantEntry, qualified_constantDecl, Function.comp_def]

theorem map_fst_ownKinds (r : Record) :
    (ownKinds r).map Prod.fst = r.kindPaths.map (pathKey r.space) := by
  have hholder : ∀ name, (DeclRef.mk r.space name).qualified = pathKey r.space [name] := by
    simp [pathKey]
  simp [ownKinds, kindPaths, holders, holderKinds, enumKind, qualified_enumDecl, enumScope, hholder,
    Struct.holder, Interface.holder, List.map_flatMap, List.flatMap_map, ← List.map_eq_flatMap,
    Function.comp_def]

theorem nodup_ownFields (plain : r.Plain) (distinct : r.Distinct) :
    ((ownFields r).map Prod.fst).Nodup := by
  rw [map_fst_ownFields]
  exact (nodup_keys plain distinct).sublist ((List.sublist_append_right _ _).map _)

theorem nodup_ownConstants (plain : r.Plain) (distinct : r.Distinct) :
    ((ownConstants r).map Prod.fst).Nodup := by
  rw [map_fst_ownConstants]
  refine (nodup_keys plain distinct).sublist (List.Sublist.map _ ?_)
  exact (List.sublist_append_right _ _).trans (List.sublist_append_left _ _)

theorem nodup_ownKinds (plain : r.Plain) (distinct : r.Distinct) :
    ((ownKinds r).map Prod.fst).Nodup := by
  rw [map_fst_ownKinds]
  refine (nodup_keys plain distinct).sublist (List.Sublist.map _ ?_)
  exact (List.sublist_append_left _ _).trans (List.sublist_append_left _ _)

/-! ## Every enum field is found under its own key -/

/-- The field before the one at an index, as entries name it. -/
def fieldBefore (enum : DeclRef) (fields : List EnumField) : Nat → Option (String × String × UInt32)
  | 0 => none
  | i + 1 => fields[i]?.map fun f => (enum.qualified ++ "." ++ f.name, f.name, f.line)

theorem mem_fieldEntries (enum : DeclRef) (scope : List String)
    (previous : Option (String × String × UInt32)) {fields : List EnumField} {i : Nat}
    {f : EnumField} (hf : fields[i]? = some f) :
    (enum.qualified ++ "." ++ f.name,
      ⟨f.name, f.line, f.value, if i = 0 then previous else fieldBefore enum fields i, scope⟩) ∈
      fieldEntries enum scope previous fields := by
  induction fields generalizing previous i with
  | nil => simp at hf
  | cons head rest ih =>
    cases i with
    | zero =>
      obtain rfl : head = f := by simpa using hf
      exact List.mem_cons_self
    | succ i =>
      rw [List.getElem?_cons_succ] at hf
      have hmem := ih (some (enum.qualified ++ "." ++ head.name, head.name, head.line)) hf
      cases i <;> exact List.mem_cons_of_mem _ hmem

theorem lookup_fields_ofRecord (plain : r.Plain) (distinct : r.Distinct) (imports : List Module)
    {p : Option String × Enum} (hp : p ∈ r.scopedEnums) {i : Nat} {f : EnumField}
    (hf : p.2.fields[i]? = some f) :
    (Names.ofRecord r imports).fields.lookup ((enumDecl r.space p).qualified ++ "." ++ f.name) =
      some ⟨f.name, f.line, f.value, fieldBefore (enumDecl r.space p) p.2.fields i, enumScope p⟩ := by
  have hnodup : ((ownFields r).reverse.map Prod.fst).Nodup := by
    rw [List.map_reverse]
    exact List.nodup_reverse.2 (nodup_ownFields plain distinct)
  rw [fields_ofRecord, lookup_eq_some_iff_mem hnodup, List.mem_reverse]
  refine List.mem_flatMap.2 ⟨p, hp, ?_⟩
  have hmem := mem_fieldEntries (enumDecl r.space p) (enumScope p) none hf
  cases i <;> exact hmem

/-- The values of the imports are hidden by fields of the same keys. -/
theorem lookup_members_ofRecord (r : Record) (imports : List Module) (key : String) :
    (Names.ofRecord r imports).members.lookup key =
      if key ∈ (ownFields r).map Prod.fst then none
      else (imported r.space imports).members.lookup key := by
  rw [members_ofRecord, lookup_filter_keys]

end Record

/-! ## The values of the record's enums -/

namespace Module

open Names

variable {names names' : Names} {parent : Option String}

theorem space_foldl_addMember (ms : List EnumMember) (names : Names) :
    (ms.foldl addMember names).space = names.space := by
  rw [foldl_addMember]
  rfl

theorem kinds_foldl_addMember (ms : List EnumMember) (names : Names) :
    (ms.foldl addMember names).kinds = names.kinds := by
  rw [foldl_addMember]
  rfl

theorem buildEnumFields_spec {decl : DeclRef} {records : List Record.EnumField}
    {fields : List EnumField} (hb : buildEnumFields decl names records = .ok (fields, names')) :
    names' = (fields.map fun f => EnumMember.mk decl f.name f.value).foldl addMember names := by
  induction records generalizing names fields with
  | nil =>
    cases hb
    rfl
  | cons f rest ih =>
    simp only [buildEnumFields, Except.bind_eq_ok, Except.pure_eq_ok, Prod.exists,
      Prod.mk.injEq] at hb
    obtain ⟨value, -, others, names₁, hrest, rfl, rfl⟩ := hb
    rw [ih hrest]
    rfl

/-- An enum that is built has the name it is declared with, and its values become known. -/
theorem buildEnum_spec {e : Record.Enum} {enum : Enum}
    (hb : buildEnum parent names e = .ok (enum, names')) :
    enum.decl = ⟨names.space, nestedName parent e.name⟩ ∧
      names' = enum.members.foldl addMember names := by
  simp only [buildEnum, Except.bind_eq_ok, Except.pure_eq_ok, Prod.exists, Prod.mk.injEq] at hb
  obtain ⟨-, -, fields, names₁, hfields, rfl, rfl⟩ := hb
  have hknown := buildEnumFields_spec hfields
  have hspace : names₁.space = names.space := by rw [hknown, space_foldl_addMember]
  have hdecl : Enum.decl ⟨e.name, names₁.space, parent, fields, e.attributes⟩ =
      ⟨names.space, nestedName parent e.name⟩ := by
    rw [Enum.decl, hspace]
  exact ⟨hdecl, by rw [Enum.members, hdecl, ← hknown]⟩

/-- The enums have the names they are declared with, in order. -/
def DeclaredAs (space : String) (parent : Option String) (records : List Record.Enum)
    (enums : List Enum) : Prop :=
  List.Forall₂ (fun e enum => Enum.decl enum = ⟨space, nestedName parent (Record.Enum.name e)⟩)
    records enums

theorem buildEnums_spec {records : List Record.Enum} {enums : List Enum}
    (hb : buildEnums parent names records = .ok (enums, names')) :
    DeclaredAs names.space parent records enums ∧
      names' = (enums.flatMap Enum.members).foldl addMember names := by
  induction records generalizing names enums with
  | nil =>
    cases hb
    exact ⟨.nil, rfl⟩
  | cons e rest ih =>
    simp only [buildEnums, Except.bind_eq_ok, Except.pure_eq_ok, Prod.exists, Prod.mk.injEq] at hb
    obtain ⟨enum, names₁, henum, others, names₂, hrest, rfl, rfl⟩ := hb
    obtain ⟨hdecl, rfl⟩ := buildEnum_spec henum
    obtain ⟨hdecls, rfl⟩ := ih hrest
    rw [space_foldl_addMember] at hdecls
    exact ⟨.cons hdecl hdecls, by rw [List.flatMap_cons, List.foldl_append]⟩

/-- Nested enums are built by parent, in order. -/
theorem buildNestedEnums_spec {records : List (String × List Record.Enum)}
    {nested : List (List Enum)} (hb : buildNestedEnums names records = .ok (nested, names')) :
    List.Forall₂ (fun record => DeclaredAs names.space (some record.1) record.2) records nested ∧
      names' = (nested.flatten.flatMap Enum.members).foldl addMember names := by
  induction records generalizing names nested with
  | nil =>
    cases hb
    exact ⟨.nil, rfl⟩
  | cons record rest ih =>
    simp only [buildNestedEnums, Except.bind_eq_ok, Except.pure_eq_ok, Prod.exists,
      Prod.mk.injEq] at hb
    obtain ⟨enums, names₁, henums, others, names₂, hrest, rfl, rfl⟩ := hb
    obtain ⟨hdecls, rfl⟩ := buildEnums_spec henums
    obtain ⟨hothers, rfl⟩ := ih hrest
    rw [space_foldl_addMember] at hothers
    exact ⟨.cons hdecls hothers,
      by rw [List.flatten_cons, List.flatMap_append, List.foldl_append]⟩

end Module

end WireSchema
