import WireSchema.Proofs.Module.Resolving

/-!
# Closed modules

A module is closed if each of its references points to a declaration, of the right sort, of the
module itself or of a module it imports directly. Names are resolved through tables that are filled
from the imports, overwritten by the module's own declarations and extended while enums are built;
`Module.Names.Backed` says that every entry of these tables has a declaration behind it, which is so
after each of those steps. So every module that is built is closed (`Module.closed_of_ofRecord`).
-/

namespace WireSchema

/-! ## Closed kinds, values and modules -/

/-- The names of a module's constants, nested ones through their parents. -/
def Module.constantDecls (m : Module) : List DeclRef :=
  m.constants.map (fun c => ⟨m.space, c.name⟩) ++
    m.structs.flatMap (fun s => s.constants.map fun c =>
      ⟨m.space, nestedName (some s.name) c.name⟩) ++
    m.interfaces.flatMap fun i => i.constants.map fun c =>
      ⟨m.space, nestedName (some i.name) c.name⟩

/-- Every declaration in a kind is one of the given modules, and only interfaces are requested. -/
inductive Kind.Closed (view : List Module) : Kind → Prop where
  | basic (kind : BasicKind) : Closed view (.basic kind)
  | struct {m : Module} {s : Module.Struct} (visible : m ∈ view) (declared : s ∈ m.structs) :
    Closed view (.struct s.decl)
  | interface {m : Module} {i : Module.Interface} (visible : m ∈ view)
    (declared : i ∈ m.interfaces) : Closed view (.interface i.decl)
  | enum {m : Module} {e : Module.Enum} (visible : m ∈ view) (declared : e ∈ m.allEnums) :
    Closed view (.enum e.decl)
  | array {element : Kind} (closed : Closed view element) : Closed view (.array element)
  | request {decl : DeclRef} (closed : Closed view (.interface decl)) :
    Closed view (.request (.interface decl))

/-- A value is a literal, or a constant or an enum value of the given modules. -/
inductive Value.Closed (view : List Module) : Value → Prop where
  | literal (l : Literal) : Closed view (.literal l)
  | member {m : Module} {e : Module.Enum} {f : Module.EnumField} (visible : m ∈ view)
    (declared : e ∈ m.allEnums) (field : f ∈ e.fields) :
    Closed view (.member ⟨e.decl, f.name, f.value⟩)
  | constant {m : Module} {decl : DeclRef} (visible : m ∈ view)
    (declared : decl ∈ m.constantDecls) : Closed view (.constant decl)

namespace Module

structure Constant.Closed (view : List Module) (c : Constant) : Prop where
  kind : c.kind.Closed view
  value : c.value.Closed view

structure Field.Closed (view : List Module) (f : Field) : Prop where
  kind : f.kind.Closed view
  default : ∀ v ∈ f.default, v.Closed view

structure Struct.Closed (view : List Module) (s : Struct) : Prop where
  fields : ∀ f ∈ s.fields, f.Closed view
  constants : ∀ c ∈ s.constants, c.Closed view

structure Method.Closed (view : List Module) (m : Method) : Prop where
  parameters : ∀ p ∈ m.parameters, p.kind.Closed view
  response : ∀ ps ∈ m.response, ∀ p ∈ ps, p.kind.Closed view

structure Interface.Closed (view : List Module) (i : Interface) : Prop where
  client : ∀ decl ∈ i.client, (Kind.interface decl).Closed view
  methods : ∀ m ∈ i.methods, m.Closed view
  constants : ∀ c ∈ i.constants, c.Closed view

/-- The modules whose declarations a module can name: itself and its direct imports. -/
def view (m : Module) : List Module :=
  m :: m.imports.map Import.target

/-- Every reference of a module points to a declaration in its view. -/
structure Closed (m : Module) : Prop where
  structs : ∀ s ∈ m.structs, s.Closed m.view
  interfaces : ∀ i ∈ m.interfaces, i.Closed m.view
  constants : ∀ c ∈ m.constants, c.Closed m.view
  kinds : ∀ entry ∈ m.kinds.entries, entry.2.Closed m.view

theorem mem_allEnums {m : Module} {e : Enum} : e ∈ m.allEnums ↔
    e ∈ m.enums ∨ (∃ s ∈ m.structs, e ∈ s.enums) ∨ ∃ i ∈ m.interfaces, e ∈ i.enums := by
  simp [allEnums]

theorem mem_constantDecls {m : Module} {decl : DeclRef} : decl ∈ m.constantDecls ↔
    (∃ c ∈ m.constants, ⟨m.space, c.name⟩ = decl) ∨
    (∃ s ∈ m.structs, ∃ c ∈ s.constants, ⟨m.space, nestedName (some s.name) c.name⟩ = decl) ∨
    ∃ i ∈ m.interfaces, ∃ c ∈ i.constants, ⟨m.space, nestedName (some i.name) c.name⟩ = decl := by
  simp [constantDecls]

open Resolving

/-! ## Tables with declarations behind them -/

variable {view : List Module} {space : String} {names names' : Names} {scope : List String}
  {line : UInt32}

/-- The names of a module in the given namespace, where every entry is a declaration of the given
modules. -/
structure Names.Backed (space : String) (view : List Module) (names : Names) : Prop where
  space_eq : names.space = space
  kinds : ∀ entry ∈ names.kinds, entry.2.Closed view
  members : ∀ entry ∈ names.members, (Value.member entry.2).Closed view
  constants : ∀ entry ∈ names.constants, (Value.constant entry.2.decl).Closed view

namespace Names.Backed

theorem learn {ks : List (String × Kind)} {ms : List (String × EnumMember)}
    {cs : List (String × ConstantEntry)} (h : names.Backed space view)
    (hks : ∀ entry ∈ ks, entry.2.Closed view)
    (hms : ∀ entry ∈ ms, (Value.member entry.2).Closed view)
    (hcs : ∀ entry ∈ cs, (Value.constant entry.2.decl).Closed view) :
    (names.learn ks ms cs).Backed space view where
  space_eq := h.space_eq
  kinds := List.forall_mem_append.2 ⟨fun _ he => hks _ (List.mem_reverse.1 he), h.kinds⟩
  members := List.forall_mem_append.2 ⟨fun _ he => hms _ (List.mem_reverse.1 he), h.members⟩
  constants := List.forall_mem_append.2 ⟨fun _ he => hcs _ (List.mem_reverse.1 he), h.constants⟩

theorem extend {ks : List (String × Kind)} {fs : List (String × LocalField)}
    {cs : List (String × ConstantEntry)} (h : names.Backed space view)
    (hks : ∀ entry ∈ ks, entry.2.Closed view)
    (hcs : ∀ entry ∈ cs, (Value.constant entry.2.decl).Closed view) :
    (names.extend ks fs cs).Backed space view where
  space_eq := h.space_eq
  kinds := List.forall_mem_append.2 ⟨fun _ he => hks _ (List.mem_reverse.1 he), h.kinds⟩
  members := fun _ he => h.members _ (List.mem_of_mem_filter he)
  constants := List.forall_mem_append.2 ⟨fun _ he => hcs _ (List.mem_reverse.1 he), h.constants⟩

theorem foldl_addMember {ms : List EnumMember} (h : names.Backed space view)
    (hms : ∀ m ∈ ms, (Value.member m).Closed view) :
    (ms.foldl addMember names).Backed space view := by
  rw [Names.foldl_addMember]
  exact h.learn (by simp) (List.forall_mem_map.2 hms) (by simp)

end Names.Backed

/-! ### Imported declarations -/

section Imported

variable {m : Module}

theorem closed_of_mem_declaredKinds (hm : m ∈ view) :
    ∀ entry ∈ m.declaredKinds, entry.2.Closed view := by
  simp only [declaredKinds, List.mem_append, List.mem_map]
  rintro _ ((⟨s, hs, rfl⟩ | ⟨i, hi, rfl⟩) | ⟨e, he, rfl⟩)
  exacts [.struct hm hs, .interface hm hi, .enum hm he]

theorem closed_of_mem_memberValues (hm : m ∈ view) :
    ∀ v ∈ m.memberValues, (Value.member v).Closed view := by
  simp only [memberValues, Enum.members, List.mem_flatMap, List.mem_map]
  rintro _ ⟨e, he, f, hf, rfl⟩
  exact .member hm he hf

theorem closed_of_mem_constantValues (hm : m ∈ view) :
    ∀ c ∈ m.constantValues, (Value.constant c.1).Closed view := by
  simp only [constantValues, scopedValues, List.mem_append, List.mem_flatMap, List.mem_map]
  rintro _ ((⟨s, hs, c, hc, rfl⟩ | ⟨i, hi, c, hc, rfl⟩) | ⟨c, hc, rfl⟩)
  · exact .constant hm (mem_constantDecls.2 (.inr (.inl ⟨s, hs, c, hc, rfl⟩)))
  · exact .constant hm (mem_constantDecls.2 (.inr (.inr ⟨i, hi, c, hc, rfl⟩)))
  · exact .constant hm (mem_constantDecls.2 (.inl ⟨c, hc, rfl⟩))

theorem Names.Backed.imported {imports : List Module} (himports : ∀ m ∈ imports, m ∈ view) :
    (Names.imported space imports).Backed space view := by
  rw [Names.imported_eq]
  refine Names.Backed.learn ⟨rfl, by simp, by simp, by simp⟩ ?_ ?_ ?_
  · rintro entry hentry
    obtain ⟨m, hm, hentry⟩ := List.mem_flatMap.1 hentry
    exact closed_of_mem_declaredKinds (himports m hm) entry hentry
  · refine List.forall_mem_map.2 fun v hv => ?_
    obtain ⟨m, hm, hv⟩ := List.mem_flatMap.1 hv
    exact closed_of_mem_memberValues (himports m hm) v hv
  · refine List.forall_mem_map.2 fun c hc => ?_
    obtain ⟨m, hm, hc⟩ := List.mem_flatMap.1 hc
    exact closed_of_mem_constantValues (himports m hm) c hc

end Imported

/-! ### The module's own declarations -/

/-- The enums and constants of a record with the given parent are declared in the given modules. -/
structure CoversNested (space : String) (view : List Module) (parent : Option String)
    (enums : List Record.Enum) (constants : List Record.Constant) : Prop where
  enums : ∀ e ∈ enums, (Kind.enum ⟨space, nestedName parent e.name⟩).Closed view
  constants : ∀ c ∈ constants, (Value.constant ⟨space, nestedName parent c.name⟩).Closed view

/-- Everything a record declares is declared in the given modules. -/
structure Covers (space : String) (view : List Module) (r : Record) : Prop where
  structs : ∀ s ∈ r.structs, (Kind.struct ⟨space, s.name⟩).Closed view ∧
    CoversNested space view (some s.name) s.enums s.constants
  interfaces : ∀ i ∈ r.interfaces, (Kind.interface ⟨space, i.name⟩).Closed view ∧
    CoversNested space view (some i.name) i.enums i.constants
  top : CoversNested space view none r.enums r.constants

theorem Names.Backed.ofRecord {r : Record} {imports : List Module}
    (himports : ∀ m ∈ imports, m ∈ view) (hcovers : Covers r.space view r) :
    (Names.ofRecord r imports).Backed r.space view := by
  rw [Names.ofRecord_eq]
  refine (Names.Backed.imported himports).extend ?_ ?_
  · simp only [Names.ownKinds, Names.holderKinds, Names.enumKind, List.mem_append, List.mem_flatMap,
      List.mem_cons, List.mem_map]
    rintro _ ((⟨s, hs, rfl | ⟨e, he, rfl⟩⟩ | ⟨i, hi, rfl | ⟨e, he, rfl⟩⟩) | ⟨e, he, rfl⟩)
    exacts [(hcovers.structs s hs).1, (hcovers.structs s hs).2.enums e he,
      (hcovers.interfaces i hi).1, (hcovers.interfaces i hi).2.enums e he, hcovers.top.enums e he]
  · refine List.forall_mem_map.2 fun p hp => ?_
    rcases Record.mem_scopedConstants.1 hp with ⟨holder, hh, c, hc, rfl⟩ | ⟨c, hc, rfl⟩
    · rcases List.mem_append.1 hh with hh | hh
      · obtain ⟨s, hs, rfl⟩ := List.mem_map.1 hh
        exact (hcovers.structs s hs).2.constants c hc
      · obtain ⟨i, hi, rfl⟩ := List.mem_map.1 hh
        exact (hcovers.interfaces i hi).2.constants c hc
    · exact hcovers.top.constants c hc

namespace Names.Backed

/-! ## Looking up -/

theorem kind? {name : String} {k : Kind} (h : names.Backed space view)
    (hk : names.kind? scope name = some k) : k.Closed view := by
  obtain ⟨key, -, hkey⟩ := List.exists_of_findSome?_eq_some hk
  exact h.kinds _ (mem_of_lookup hkey)

theorem of_resolves {k : Kind} (h : names.Backed space view) (hk : names.Resolves k) :
    k.Closed view := by
  obtain ⟨scope, line, spec, hk⟩ := hk
  fun_induction Names.resolveSpec names scope line spec generalizing k with
  | case1 spec basic hspec =>
    cases hk
    exact .basic basic
  | case2 element hspec ih =>
    simp only [value_bind, value_note, Except.bind_eq_ok] at hk
    obtain ⟨k', hk', ⟨⟩⟩ := hk
    exact .array (ih hk')
  | case3 inner hspec ih =>
    rw [value_bind, Except.bind_eq_ok] at hk
    obtain ⟨k', hk', hrest⟩ := hk
    have hclosed := ih hk'
    cases k' with
    | interface decl =>
      cases hrest
      exact .request hclosed
    | _ => cases hrest
  | case4 name k' hname =>
    cases hk
    exact h.kind? hname
  | case5 => cases hk
  | case6 => cases hk

theorem resolveValue {expr : ValueExpr} {v : Value} (h : names.Backed space view)
    (hv : names.resolveValue scope line expr = .ok v) : v.Closed view := by
  cases expr with
  | name name =>
    simp only [Names.resolveValue] at hv
    split at hv
    · next m hm =>
      obtain ⟨key, -, hkey⟩ := List.exists_of_findSome?_eq_some hm
      cases hv
      exact h.members _ (mem_of_lookup hkey)
    · split at hv
      · next entry hentry =>
        obtain ⟨key, -, hkey⟩ := List.exists_of_findSome?_eq_some hentry
        cases hv
        exact h.constants _ (mem_of_lookup hkey)
      · cases hv
  | _ =>
    cases hv
    exact .literal _

end Names.Backed

/-! ## What is built -/

theorem name_of_buildConstant {c : Record.Constant} {constant : Constant}
    (hb : (buildConstant names scope c).value = .ok constant) : constant.name = c.name := by
  simp only [value_buildConstant, Except.bind_eq_ok, Except.pure_eq_ok] at hb
  obtain ⟨kind, -, value, -, rfl⟩ := hb
  rfl

theorem Names.Backed.buildConstant {c : Record.Constant} {constant : Constant}
    (h : names.Backed space view) (hb : (buildConstant names scope c).value = .ok constant) :
    constant.Closed view := by
  refine ⟨h.of_resolves (resolves_of_buildConstant hb), ?_⟩
  simp only [value_buildConstant, Except.bind_eq_ok, Except.pure_eq_ok] at hb
  obtain ⟨kind, -, value, hvalue, rfl⟩ := hb
  exact h.resolveValue hvalue

/-- Every constant is built under its name, and every constant that is built is closed. -/
theorem buildConstants_spec {records : List Record.Constant} {constants : List Constant}
    (hb : (records.mapM fun c => (buildConstant names scope c).value) = .ok constants) :
    (∀ c ∈ records, ∃ constant ∈ constants, constant.name = c.name) ∧
      (names.Backed space view → ∀ c ∈ constants, c.Closed view) := by
  have hall := List.forall₂_of_mapM hb
  refine ⟨fun c hc => ?_, fun h c hc => ?_⟩
  · obtain ⟨constant, -, hmem, hbuilt⟩ := hall.exists_right_of_mem hc
    exact ⟨constant, hmem, name_of_buildConstant hbuilt⟩
  · obtain ⟨record, -, -, hrecord⟩ := hall.exists_left_of_mem hc
    exact h.buildConstant hrecord

/-- The declarations of a struct that is built, and where they come from. -/
theorem buildStruct_spec {s : Record.Struct} {enums : List Enum} {struct : Struct}
    (hb : (buildStruct names s enums).value = .ok struct) :
    struct.decl = ⟨names.space, s.name⟩ ∧ struct.name = s.name ∧ struct.enums = enums ∧
      (∀ c ∈ s.constants, ∃ constant ∈ struct.constants, constant.name = c.name) ∧
      (names.Backed space view → struct.Closed view) := by
  have hkinds := resolves_of_buildStruct hb
  simp only [value_buildStruct, Except.bind_eq_ok, Except.pure_eq_ok] at hb
  obtain ⟨-, -, constants, hconstants, fields, hfields, rfl⟩ := hb
  obtain ⟨hnames, hclosed⟩ := buildConstants_spec hconstants
  refine ⟨rfl, rfl, rfl, hnames, fun h => ⟨fun f hf => ⟨?_, fun v hv => ?_⟩, hclosed h⟩⟩
  · exact h.of_resolves (hkinds _ (List.mem_append_right _ (List.mem_map_of_mem hf)))
  · obtain ⟨record, -, -, hrecord⟩ := (List.forall₂_of_mapM hfields).exists_left_of_mem hf
    simp only [value_buildField, Except.bind_eq_ok, Except.pure_eq_ok] at hrecord
    obtain ⟨kind, -, default, hdefault, rfl⟩ := hrecord
    obtain ⟨expr, -, hexpr⟩ := Option.exists_of_mapM hdefault hv
    exact h.resolveValue hexpr

/-- The declarations of an interface that is built, and where they come from. -/
theorem buildInterface_spec {i : Record.Interface} {enums : List Enum} {interface : Interface}
    (hb : (buildInterface names i enums).value = .ok interface) :
    interface.decl = ⟨names.space, i.name⟩ ∧ interface.name = i.name ∧ interface.enums = enums ∧
      (∀ c ∈ i.constants, ∃ constant ∈ interface.constants, constant.name = c.name) ∧
      (names.Backed space view → interface.Closed view) := by
  simp only [value_buildInterface, Except.bind_eq_ok, Except.pure_eq_ok] at hb
  obtain ⟨-, -, client, hclient, constants, hconstants, methods, hmethods, rfl⟩ := hb
  obtain ⟨hnames, hclosed⟩ := buildConstants_spec hconstants
  refine ⟨rfl, rfl, rfl, hnames, fun h => ⟨?_, fun m hm => ⟨fun p hp => ?_, ?_⟩, hclosed h⟩⟩
  · exact fun decl hdecl => h.of_resolves (resolves_of_buildClient hclient decl hdecl)
  · have hkind : p.kind ∈ m.kindsUsed := List.mem_append_left _ (List.mem_map_of_mem hp)
    exact h.of_resolves (resolves_of_buildMethods hmethods m hm _ hkind)
  · intro ps hps p hp
    have hkind : p.kind ∈ m.kindsUsed :=
      List.mem_append_right _ (List.mem_map_of_mem (by rwa [Option.mem_def.1 hps]))
    exact h.of_resolves (resolves_of_buildMethods hmethods m hm _ hkind)

/-! ## What the record declares -/

section Zipped

variable {ε ρ ν σ : Type} {R : ρ → ν → Prop} {records : List ρ} {nested : List ν} {built : List σ}
  {f : ρ × ν → Except ε σ}

theorem exists_built_of_record {r : ρ} (hR : List.Forall₂ R records nested)
    (hb : (records.zip nested).mapM f = .ok built) (hr : r ∈ records) :
    ∃ n, ∃ b ∈ built, R r n ∧ f (r, n) = .ok b := by
  obtain ⟨n, hzip, -, hrn⟩ := hR.exists_right_of_mem hr
  obtain ⟨b, -, hmem, hf⟩ := (List.forall₂_of_mapM hb).exists_right_of_mem hzip
  exact ⟨n, b, hmem, hrn, hf⟩

theorem exists_built_of_nested {n : ν} (hR : List.Forall₂ R records nested)
    (hb : (records.zip nested).mapM f = .ok built) (hn : n ∈ nested) :
    ∃ r, ∃ b ∈ built, f (r, n) = .ok b := by
  obtain ⟨r, hzip, -, -⟩ := hR.exists_left_of_mem hn
  obtain ⟨b, -, hmem, hf⟩ := (List.forall₂_of_mapM hb).exists_right_of_mem hzip
  exact ⟨r, b, hmem, hf⟩

end Zipped

section Covers

variable {m : Module}

/-- A struct of the record is declared, with what is nested in it, by the struct built for it. -/
theorem covers_struct {s : Record.Struct} {nested : List Enum} {struct : Struct} (hm : m ∈ view)
    (hspace : names.space = m.space) (hstruct : struct ∈ m.structs)
    (hb : (buildStruct names s nested).value = .ok struct)
    (hnested : DeclaredAs m.space (some s.name) s.enums nested) :
    (Kind.struct ⟨m.space, s.name⟩).Closed view ∧
      CoversNested m.space view (some s.name) s.enums s.constants := by
  obtain ⟨hdecl, hname, rfl, hconstants, -⟩ := @buildStruct_spec view m.space _ _ _ _ hb
  rw [hspace] at hdecl
  refine ⟨hdecl ▸ .struct hm hstruct, ⟨fun e he => ?_, fun c hc => ?_⟩⟩
  · obtain ⟨enum, -, henum, hdecl⟩ := List.Forall₂.exists_right_of_mem hnested he
    exact hdecl ▸ .enum hm (mem_allEnums.2 (.inr (.inl ⟨struct, hstruct, henum⟩)))
  · obtain ⟨constant, hconstant, hc⟩ := hconstants c hc
    rw [← hname, ← hc]
    exact .constant hm (mem_constantDecls.2 (.inr (.inl ⟨struct, hstruct, constant, hconstant, rfl⟩)))

/-- An interface of the record is declared, with what is nested in it, by the interface built for
it. -/
theorem covers_interface {i : Record.Interface} {nested : List Enum} {interface : Interface}
    (hm : m ∈ view) (hspace : names.space = m.space) (hinterface : interface ∈ m.interfaces)
    (hb : (buildInterface names i nested).value = .ok interface)
    (hnested : DeclaredAs m.space (some i.name) i.enums nested) :
    (Kind.interface ⟨m.space, i.name⟩).Closed view ∧
      CoversNested m.space view (some i.name) i.enums i.constants := by
  obtain ⟨hdecl, hname, rfl, hconstants, -⟩ := @buildInterface_spec view m.space _ _ _ _ hb
  rw [hspace] at hdecl
  refine ⟨hdecl ▸ .interface hm hinterface, ⟨fun e he => ?_, fun c hc => ?_⟩⟩
  · obtain ⟨enum, -, henum, hdecl⟩ := List.Forall₂.exists_right_of_mem hnested he
    exact hdecl ▸ .enum hm (mem_allEnums.2 (.inr (.inr ⟨interface, hinterface, henum⟩)))
  · obtain ⟨constant, hconstant, hc⟩ := hconstants c hc
    rw [← hname, ← hc]
    exact .constant hm
      (mem_constantDecls.2 (.inr (.inr ⟨interface, hinterface, constant, hconstant, rfl⟩)))

end Covers

/-! ## Kinds in use -/

theorem closed_of_mem_parts {k part : Kind} (h : k.Closed view) (hpart : part ∈ k.parts) :
    part.Closed view := by
  induction h with
  | array closed ih =>
    rcases List.mem_append.1 hpart with hpart | hpart
    · exact ih hpart
    · exact List.mem_singleton.1 hpart ▸ .array closed
  | request closed ih =>
    rcases List.mem_append.1 hpart with hpart | hpart
    · exact ih hpart
    · exact List.mem_singleton.1 hpart ▸ .request closed
  | basic kind => exact List.mem_singleton.1 hpart ▸ .basic kind
  | struct visible declared => exact List.mem_singleton.1 hpart ▸ .struct visible declared
  | interface visible declared => exact List.mem_singleton.1 hpart ▸ .interface visible declared
  | enum visible declared => exact List.mem_singleton.1 hpart ▸ .enum visible declared

theorem closed_of_mem_kindMap {kinds : List Kind} {entry : String × Kind}
    (h : ∀ k ∈ kinds, k.Closed view) (hentry : entry ∈ (kindMap kinds).entries) :
    entry.2.Closed view := by
  have hall : ∀ e ∈ (kindMap kinds).entries, e.2.Closed view := by
    refine List.foldlRecOn (motive := fun map : SortedMap Kind => ∀ e ∈ map.entries, e.2.Closed view)
      _ _ (fun _ he => nomatch he) fun map hmap e he e' he' => ?_
    rcases SortedMap.mem_insertEntry he' with rfl | he'
    · simp only [List.mem_map, List.mem_flatMap] at he
      obtain ⟨part, ⟨k, hk, hpart⟩, rfl⟩ := he
      exact closed_of_mem_parts (h k hk) hpart
    · exact hmap e' he'
  exact hall entry hentry

/-! ## Modules -/

/-- The parts of a module and the parts of the record they are built from, with the names that are
known once the enums are built. -/
structure Assembled (r : Record) (names : Names) (structEnums interfaceEnums : List (List Enum))
    (m : Module) : Prop where
  space : r.space = m.space
  names_space : names.space = m.space
  enums : DeclaredAs m.space none r.enums m.enums
  structNested : List.Forall₂ (fun s => DeclaredAs m.space (some (Record.Struct.name s)) s.enums)
    r.structs structEnums
  interfaceNested :
    List.Forall₂ (fun i => DeclaredAs m.space (some (Record.Interface.name i)) i.enums)
      r.interfaces interfaceEnums
  constants : (r.constants.mapM fun c => (buildConstant names [] c).value) = .ok m.constants
  structs : ((r.structs.zip structEnums).mapM fun p => (buildStruct names p.1 p.2).value) =
    .ok m.structs
  interfaces : ((r.interfaces.zip interfaceEnums).mapM fun p =>
    (buildInterface names p.1 p.2).value) = .ok m.interfaces
  kinds : m.kinds = kindMap m.usedKinds

namespace Assembled

variable {r : Record} {structEnums interfaceEnums : List (List Enum)} {m : Module}

theorem covers (h : Assembled r names structEnums interfaceEnums m) (hm : m ∈ view) :
    Covers m.space view r := by
  refine ⟨fun s hs => ?_, fun i hi => ?_, ⟨fun e he => ?_, fun c hc => ?_⟩⟩
  · obtain ⟨nested, struct, hstruct, hnested, hbuilt⟩ :=
      exists_built_of_record h.structNested h.structs hs
    exact covers_struct hm h.names_space hstruct hbuilt hnested
  · obtain ⟨nested, interface, hinterface, hnested, hbuilt⟩ :=
      exists_built_of_record h.interfaceNested h.interfaces hi
    exact covers_interface hm h.names_space hinterface hbuilt hnested
  · obtain ⟨enum, -, henum, hdecl⟩ := List.Forall₂.exists_right_of_mem h.enums he
    exact hdecl ▸ .enum hm (mem_allEnums.2 (.inl henum))
  · obtain ⟨constant, hconstant, hc⟩ := (@buildConstants_spec view m.space _ _ _ _ h.constants).1 c hc
    rw [← hc]
    exact .constant hm (mem_constantDecls.2 (.inl ⟨constant, hconstant, rfl⟩))

theorem mem_allEnums_of_struct (h : Assembled r names structEnums interfaceEnums m)
    {nested : List Enum} {e : Enum} (hnested : nested ∈ structEnums) (he : e ∈ nested) :
    e ∈ m.allEnums := by
  obtain ⟨s, struct, hstruct, hbuilt⟩ := exists_built_of_nested h.structNested h.structs hnested
  obtain ⟨-, -, rfl, -⟩ := @buildStruct_spec m.view m.space _ _ _ _ hbuilt
  exact mem_allEnums.2 (.inr (.inl ⟨struct, hstruct, he⟩))

theorem mem_allEnums_of_interface (h : Assembled r names structEnums interfaceEnums m)
    {nested : List Enum} {e : Enum} (hnested : nested ∈ interfaceEnums) (he : e ∈ nested) :
    e ∈ m.allEnums := by
  obtain ⟨i, interface, hinterface, hbuilt⟩ :=
    exists_built_of_nested h.interfaceNested h.interfaces hnested
  obtain ⟨-, -, rfl, -⟩ := @buildInterface_spec m.view m.space _ _ _ _ hbuilt
  exact mem_allEnums.2 (.inr (.inr ⟨interface, hinterface, he⟩))

theorem closed (h : Assembled r names structEnums interfaceEnums m)
    (hnames : names.Backed m.space m.view) : m.Closed := by
  have hstructs := List.forall₂_of_mapM h.structs
  have hinterfaces := List.forall₂_of_mapM h.interfaces
  refine ⟨fun s hs => ?_, fun i hi => ?_, (buildConstants_spec h.constants).2 hnames,
    fun entry hentry => ?_⟩
  · obtain ⟨record, -, -, hrecord⟩ := hstructs.exists_left_of_mem hs
    exact (buildStruct_spec hrecord).2.2.2.2 hnames
  · obtain ⟨record, -, -, hrecord⟩ := hinterfaces.exists_left_of_mem hi
    exact (buildInterface_spec hrecord).2.2.2.2 hnames
  · rw [h.kinds] at hentry
    refine closed_of_mem_kindMap (fun k hk => hnames.of_resolves ?_) hentry
    simp only [usedKinds, List.mem_append, List.mem_map, List.mem_flatMap] at hk
    rcases hk with (⟨c, hc, rfl⟩ | ⟨s, hs, hk⟩) | ⟨i, hi, hk⟩
    · obtain ⟨record, -, -, hrecord⟩ := (List.forall₂_of_mapM h.constants).exists_left_of_mem hc
      exact resolves_of_buildConstant hrecord
    · obtain ⟨record, -, -, hrecord⟩ := hstructs.exists_left_of_mem hs
      exact resolves_of_buildStruct hrecord k hk
    · obtain ⟨record, -, -, hrecord⟩ := hinterfaces.exists_left_of_mem hi
      exact resolves_of_buildInterface hrecord k hk

end Assembled

/-- A module that is built is assembled from its record, and the names it is built with have
declarations of the module and its imports behind them. -/
theorem assembled_of_ofRecord {r : Record} {path : String} {imports : List (Import Module)}
    {m : Module} (hb : ofRecord r path imports = .ok m) :
    ∃ names structEnums interfaceEnums, Assembled r names structEnums interfaceEnums m ∧
      names.Backed m.space m.view := by
  obtain ⟨enums, names₁, structEnums, names₂, interfaceEnums, names, constants, structs, interfaces,
    -, henums, hstructEnums, hinterfaceEnums, hconstants, hstructs, hinterfaces, hm⟩ :=
    ofRecord_eq_ok_iff.1 hb
  obtain ⟨hdecls, hknown₁⟩ := buildEnums_spec henums
  obtain ⟨hstructDecls, hknown₂⟩ := buildNestedEnums_spec hstructEnums
  obtain ⟨hinterfaceDecls, hknown⟩ := buildNestedEnums_spec hinterfaceEnums
  have hspace₁ : names₁.space = r.space := by
    rw [hknown₁, space_foldl_addMember, Names.space_ofRecord]
  have hspace₂ : names₂.space = r.space := by rw [hknown₂, space_foldl_addMember, hspace₁]
  have hspace : names.space = r.space := by rw [hknown, space_foldl_addMember, hspace₂]
  rw [Names.space_ofRecord] at hdecls
  rw [hspace₁, List.forall₂_map_left_iff] at hstructDecls
  rw [hspace₂, List.forall₂_map_left_iff] at hinterfaceDecls
  have hassembled : Assembled r names structEnums interfaceEnums m := by
    subst hm
    exact ⟨rfl, hspace, hdecls, hstructDecls, hinterfaceDecls, hconstants, hstructs, hinterfaces,
      rfl⟩
  have hself : m ∈ m.view := List.mem_cons_self
  have himports : ∀ i ∈ imports.map Import.target, i ∈ m.view := by
    subst hm
    exact fun _ hi => List.mem_cons_of_mem _ hi
  have hmembers : ∀ {enums : List Enum}, (∀ e ∈ enums, e ∈ m.allEnums) →
      ∀ v ∈ enums.flatMap Enum.members, (Value.member v).Closed m.view := by
    intro enums henums v hv
    obtain ⟨e, he, hv⟩ := List.mem_flatMap.1 hv
    obtain ⟨f, hf, rfl⟩ := List.mem_map.1 hv
    exact .member hself (henums e he) hf
  have hstart : (Names.ofRecord r (imports.map Import.target)).Backed r.space m.view :=
    .ofRecord himports (hassembled.space ▸ hassembled.covers hself)
  refine ⟨names, structEnums, interfaceEnums, hassembled, hassembled.space ▸ ?_⟩
  rw [hknown, hknown₂, hknown₁]
  refine ((hstart.foldl_addMember (hmembers fun e he => ?_)).foldl_addMember
    (hmembers fun e he => ?_)).foldl_addMember (hmembers fun e he => ?_)
  · exact mem_allEnums.2 (.inl (by rwa [hm]))
  · obtain ⟨nested, hnested, he⟩ := List.mem_flatten.1 he
    exact hassembled.mem_allEnums_of_struct hnested he
  · obtain ⟨nested, hnested, he⟩ := List.mem_flatten.1 he
    exact hassembled.mem_allEnums_of_interface hnested he

theorem imports_of_ofRecord {r : Record} {path : String} {imports : List (Import Module)}
    {m : Module} (hb : ofRecord r path imports = .ok m) : m.imports = imports := by
  obtain ⟨-, -, -, -, -, -, -, -, -, -, -, -, -, -, -, -, rfl⟩ := ofRecord_eq_ok_iff.1 hb
  rfl

/-- Every module that is built is closed. -/
theorem closed_of_ofRecord {r : Record} {path : String} {imports : List (Import Module)} {m : Module}
    (hb : ofRecord r path imports = .ok m) : m.Closed := by
  obtain ⟨names, structEnums, interfaceEnums, hassembled, hbacked⟩ := assembled_of_ofRecord hb
  exact hassembled.closed hbacked

end Module

end WireSchema
