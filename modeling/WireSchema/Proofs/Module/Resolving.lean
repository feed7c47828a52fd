import WireSchema.Proofs.Module.Tables

/-!
# What resolving gives and notes

A computation that notes kinds has a value that does not depend on those noted before
(`Resolving.value`), and what it notes is given by its value (`Resolving.Notes`): resolving a kind
notes the kind and everything it is made of, and every step of building a module notes the kinds of
what it builds. So the kinds of a module are those written in it, with their parts
(`ofRecord_eq_ok_iff`).
-/

namespace WireSchema

/-- A kind and all the kinds it is made of, from the innermost outwards. -/
def Kind.parts : Kind → List Kind
  | array k => k.parts ++ [array k]
  | request k => k.parts ++ [request k]
  | k => [k]

/-- A kind that is a declaration. -/
inductive Kind.Declared : Kind → Prop where
  | struct (decl : DeclRef) : Declared (.struct decl)
  | interface (decl : DeclRef) : Declared (.interface decl)
  | enum (decl : DeclRef) : Declared (.enum decl)

theorem Kind.Declared.parts {k : Kind} (h : k.Declared) : k.parts = [k] := by
  cases h <;> rfl

namespace Module

/-- The kinds that are written in a struct. -/
def Struct.kindsUsed (s : Struct) : List Kind :=
  s.constants.map Constant.kind ++ s.fields.map Field.kind

def Method.kindsUsed (m : Method) : List Kind :=
  m.parameters.map Parameter.kind ++ (m.response.getD []).map Parameter.kind

def Interface.kindsUsed (i : Interface) : List Kind :=
  (i.client.map Kind.interface).toList ++ i.constants.map Constant.kind ++
    i.methods.flatMap Method.kindsUsed

/-- The kinds that are written in a module. -/
def usedKinds (m : Module) : List Kind :=
  m.constants.map Constant.kind ++ m.structs.flatMap Struct.kindsUsed ++
    m.interfaces.flatMap Interface.kindsUsed

/-- Adds kinds and everything they are made of to those noted before. -/
def noteAll (used : SortedMap Kind) (kinds : List Kind) : SortedMap Kind :=
  used.insertAll ((kinds.flatMap Kind.parts).map fun k => (k.spec, k))

theorem noteAll_append (used : SortedMap Kind) (kinds kinds' : List Kind) :
    noteAll used (kinds ++ kinds') = noteAll (noteAll used kinds) kinds' := by
  simp [noteAll, SortedMap.insertAll]

/-- The kinds by their specs, with everything they are made of. -/
def kindMap (kinds : List Kind) : SortedMap Kind :=
  noteAll ∅ kinds

namespace Resolving

variable {α β γ : Type} {x : Resolving α} {f : α → Resolving β} {a : α} {b : β} {k : Kind}
  {used used' : SortedMap Kind} {fault : BuildFault}

/-! ## Runs -/

theorem ext {x y : Resolving α} (h : ∀ used, x.run used = y.run used) : x = y := by
  cases x
  cases y
  congr
  exact funext h

theorem run_bind (x : Resolving α) (f : α → Resolving β) (used : SortedMap Kind) :
    (x >>= f).run used = x.run used >>= fun r => (f r.1).run r.2 := by
  change (Resolving.bind x f).run used = _
  simp only [Resolving.bind]
  cases x.run used <;> rfl

instance : LawfulMonad Resolving := LawfulMonad.mk' Resolving
  (fun x => ext fun used => by
    change (x >>= fun a => pure a).run used = _
    rw [run_bind]
    cases x.run used <;> rfl)
  (fun _ _ => rfl)
  (fun x f g => ext fun used => by
    rw [run_bind, run_bind, run_bind]
    cases x.run used with
    | error fault => rfl
    | ok r => exact (run_bind (f r.1) g r.2).symm)

theorem run_bind_eq_ok : (x >>= f).run used = .ok (b, used') ↔
    ∃ a used₁, x.run used = .ok (a, used₁) ∧ (f a).run used₁ = .ok (b, used') := by
  simp only [run_bind, Except.bind_eq_ok, Prod.exists]

theorem run_pure_eq_ok {c : α} :
    (pure a : Resolving α).run used = .ok (c, used') ↔ a = c ∧ used = used' := by
  change Except.ok (a, used) = _ ↔ _
  simp

theorem run_lift_eq_ok {x : Except BuildFault α} :
    (lift x).run used = .ok (a, used') ↔ x = .ok a ∧ used = used' := by
  cases x <;> simp [lift, Except.map]

theorem run_liftM_eq_ok {x : Except BuildFault α} :
    (liftM x : Resolving α).run used = .ok (a, used') ↔ x = .ok a ∧ used = used' :=
  run_lift_eq_ok

theorem run_note_eq_ok {c : Kind} :
    (note k).run used = .ok (c, used') ↔ k = c ∧ used.insert k.spec k = used' := by
  simp [note]

/-! ## Values -/

/-- What is computed, whatever was noted before. -/
def value (x : Resolving α) : Except BuildFault α :=
  (x.run ∅).map Prod.fst

theorem map_fst_run (x : Resolving α) (used : SortedMap Kind) :
    (x.run used).map Prod.fst = x.value :=
  x.steady used ∅

theorem value_eq_ok_iff (used : SortedMap Kind) :
    x.value = .ok a ↔ ∃ used', x.run used = .ok (a, used') := by
  rw [← map_fst_run x used, Except.map_eq_ok]
  constructor
  · rintro ⟨⟨a, used'⟩, h, rfl⟩
    exact ⟨used', h⟩
  · rintro ⟨used', h⟩
    exact ⟨_, h, rfl⟩

theorem value_eq_error_iff (used : SortedMap Kind) :
    x.value = .error fault ↔ x.run used = .error fault := by
  rw [← map_fst_run x used, Except.map_eq_error]

theorem value_of_run (h : x.run used = .ok (a, used')) : x.value = .ok a :=
  (value_eq_ok_iff used).2 ⟨used', h⟩

theorem value_bind (x : Resolving α) (f : α → Resolving β) :
    (x >>= f).value = x.value >>= fun a => (f a).value := by
  rw [value, value, run_bind]
  cases x.run ∅ with
  | error fault => rfl
  | ok r => exact map_fst_run (f r.1) r.2

theorem value_pure (a : α) : (pure a : Resolving α).value = pure a :=
  rfl

theorem value_map (g : α → β) (x : Resolving α) : (g <$> x).value = g <$> x.value := by
  rw [map_eq_pure_bind, map_eq_pure_bind, value_bind]
  rfl

theorem value_lift (x : Except BuildFault α) : (lift x).value = x := by
  cases x <;> rfl

theorem value_liftM (x : Except BuildFault α) : (liftM x : Resolving α).value = x :=
  value_lift x

theorem value_note (k : Kind) : (note k).value = .ok k :=
  rfl

theorem value_mapM (f : α → Resolving β) (xs : List α) :
    (xs.mapM f).value = xs.mapM fun x => (f x).value := by
  induction xs with
  | nil => rfl
  | cons x rest ih => simp only [List.mapM_cons, value_bind, value_pure, ih]

theorem value_option_mapM (f : α → Resolving β) (x : Option α) :
    (x.mapM f).value = x.mapM fun a => (f a).value := by
  cases x with
  | none => rfl
  | some a => simp only [Option.mapM_some, value_map]

/-! ## Notes -/

/-- When the computation gives a value, it has noted the given kinds of that value, with everything
they are made of. -/
def Notes (x : Resolving α) (kinds : α → List Kind) : Prop :=
  ∀ ⦃used a used'⦄, x.run used = .ok (a, used') → used' = noteAll used (kinds a)

theorem notes_mapM {f : α → Resolving β} {kinds : β → List Kind} (hf : ∀ a, Notes (f a) kinds)
    (xs : List α) : Notes (xs.mapM f) fun ys => ys.flatMap kinds := by
  induction xs with
  | nil =>
    intro used ys used' h
    rw [List.mapM_nil, run_pure_eq_ok] at h
    obtain ⟨rfl, rfl⟩ := h
    rfl
  | cons x rest ih =>
    intro used ys used' h
    simp only [List.mapM_cons, run_bind_eq_ok, run_pure_eq_ok] at h
    obtain ⟨y, used₁, hy, ys, used₂, hys, rfl, rfl⟩ := h
    rw [ih hys, hf x hy]
    simp only [List.flatMap_cons, noteAll_append]

theorem notes_mapM_kind {f : α → Resolving β} {kind : β → Kind}
    (hf : ∀ a, Notes (f a) fun b => [kind b]) (xs : List α) :
    Notes (xs.mapM f) fun ys => ys.map kind := by
  intro used ys used' h
  simpa only [List.map_eq_flatMap] using notes_mapM hf xs h

theorem notes_option_mapM {f : α → Resolving β} {kinds : β → List Kind}
    (hf : ∀ a, Notes (f a) kinds) (x : Option α) :
    Notes (x.mapM f) fun y => y.toList.flatMap kinds := by
  intro used y used' h
  cases x with
  | none =>
    obtain ⟨rfl, rfl⟩ := run_pure_eq_ok.1 h
    rfl
  | some a =>
    simp only [Option.mapM_some, map_eq_pure_bind, run_bind_eq_ok, run_pure_eq_ok] at h
    obtain ⟨b, used₁, hb, rfl, rfl⟩ := h
    simpa using hf a hb

end Resolving

open Resolving

variable {names : Names} {scope : List String} {line : UInt32}

/-! ## What the steps give

Without what they note, the steps are computations in `Except`. -/

theorem value_buildConstant (c : Record.Constant) :
    (buildConstant names scope c).value = do
      let kind ← (names.resolveKind scope c.line c.kind).value
      let value ← names.resolveValue scope c.line c.value
      return ⟨c.name, kind, value, c.attributes⟩ := by
  simp only [buildConstant, value_bind, value_liftM, value_pure]

theorem value_buildField (f : Record.Field) :
    (buildField names scope f).value = do
      let kind ← (names.resolveKind scope f.line f.kind).value
      let default ← f.default.mapM (names.resolveValue scope f.line)
      return ⟨f.name, kind, f.ordinal, default, f.attributes⟩ := by
  simp only [buildField, value_bind, value_lift, value_pure]

theorem value_buildStruct (s : Record.Struct) (enums : List Enum) :
    (buildStruct names s enums).value = do
      checkUnique [] (s.fields.map (fun f => (f.name, f.line)) ++ nestedNames s.enums s.constants)
      let constants ← s.constants.mapM fun c => (buildConstant names [s.name] c).value
      let fields ← s.fields.mapM fun f => (buildField names [s.name] f).value
      return ⟨s.name, names.space, s.attributes, fields, enums, constants⟩ := by
  simp only [buildStruct, value_bind, value_liftM, value_mapM, value_pure]

theorem value_buildParameter (p : Record.Parameter) :
    (buildParameter names scope p).value = do
      let kind ← (names.resolveKind scope p.line p.kind).value
      return ⟨p.name, kind, p.ordinal, p.attributes⟩ := by
  simp only [buildParameter, value_bind, value_pure]

theorem value_buildParameters (parameters : List Record.Parameter) :
    (buildParameters names scope parameters).value =
      checkUnique [] (parameters.map fun p => (p.name, p.line)) >>= fun _ =>
        parameters.mapM fun p => (buildParameter names scope p).value := by
  simp only [buildParameters, value_bind, value_liftM, value_mapM]

theorem value_buildInterface (i : Record.Interface) (enums : List Enum) :
    (buildInterface names i enums).value = do
      checkUnique [] (i.methods.map (fun m => (m.name, m.line)) ++ nestedNames i.enums i.constants)
      let client ← (buildClient names i).value
      let constants ← i.constants.mapM fun c => (buildConstant names [i.name] c).value
      let methods ← (buildMethods names i.name (some 0) [] i.methods).value
      return ⟨i.name, names.space, client, methods, enums, constants, i.attributes⟩ := by
  simp only [buildInterface, value_bind, value_liftM, value_mapM, value_pure]

theorem value_buildDeclarations (r : Record) (structEnums interfaceEnums : List (List Enum)) :
    (buildDeclarations names r structEnums interfaceEnums).value = do
      let constants ← r.constants.mapM fun c => (buildConstant names [] c).value
      let structs ← (r.structs.zip structEnums).mapM fun p => (buildStruct names p.1 p.2).value
      let interfaces ←
        (r.interfaces.zip interfaceEnums).mapM fun p => (buildInterface names p.1 p.2).value
      return (constants, structs, interfaces) := by
  simp only [buildDeclarations, value_bind, value_mapM, value_pure]

/-! ## Where the kinds come from -/

/-- A kind is that of some spec. -/
def Names.Resolves (names : Names) (k : Kind) : Prop :=
  ∃ scope line spec, (names.resolveSpec scope line spec).value = .ok k

theorem resolves_of_buildConstant {c : Record.Constant} {constant : Constant}
    (hb : (buildConstant names scope c).value = .ok constant) : names.Resolves constant.kind := by
  simp only [value_buildConstant, Except.bind_eq_ok, Except.pure_eq_ok] at hb
  obtain ⟨kind, hkind, value, -, rfl⟩ := hb
  exact ⟨_, _, _, hkind⟩

theorem resolves_of_buildStruct {s : Record.Struct} {enums : List Enum} {struct : Struct}
    (hb : (buildStruct names s enums).value = .ok struct) :
    ∀ k ∈ struct.kindsUsed, names.Resolves k := by
  simp only [value_buildStruct, Except.bind_eq_ok, Except.pure_eq_ok] at hb
  obtain ⟨-, -, constants, hconstants, fields, hfields, rfl⟩ := hb
  simp only [Struct.kindsUsed, List.mem_append, List.mem_map]
  rintro _ (⟨c, hc, rfl⟩ | ⟨f, hf, rfl⟩)
  · obtain ⟨record, -, -, hrecord⟩ := (List.forall₂_of_mapM hconstants).exists_left_of_mem hc
    exact resolves_of_buildConstant hrecord
  · obtain ⟨record, -, -, hrecord⟩ := (List.forall₂_of_mapM hfields).exists_left_of_mem hf
    simp only [value_buildField, Except.bind_eq_ok, Except.pure_eq_ok] at hrecord
    obtain ⟨kind, hkind, default, -, rfl⟩ := hrecord
    exact ⟨_, _, _, hkind⟩

theorem resolves_of_buildClient {i : Record.Interface} {client : Option DeclRef}
    (hb : (buildClient names i).value = .ok client) :
    ∀ decl ∈ client, names.Resolves (.interface decl) := by
  unfold buildClient at hb
  split at hb
  case h_1 =>
    cases hb
    simp
  case h_2 | h_3 =>
    rw [value_bind, Except.bind_eq_ok] at hb
    obtain ⟨k, hk, hrest⟩ := hb
    cases k with
    | interface decl =>
      cases hrest
      rintro _ ⟨⟩
      exact ⟨_, _, _, hk⟩
    | _ => cases hrest
  case h_4 => cases hb

theorem resolves_of_buildParameters {records : List Record.Parameter} {parameters : List Parameter}
    (hb : (buildParameters names scope records).value = .ok parameters) :
    ∀ p ∈ parameters, names.Resolves p.kind := by
  intro p hp
  rw [value_buildParameters, Except.bind_eq_ok] at hb
  obtain ⟨-, -, hparameters⟩ := hb
  obtain ⟨record, -, -, hrecord⟩ := (List.forall₂_of_mapM hparameters).exists_left_of_mem hp
  simp only [value_buildParameter, Except.bind_eq_ok, Except.pure_eq_ok] at hrecord
  obtain ⟨kind, hkind, rfl⟩ := hrecord
  exact ⟨_, _, _, hkind⟩

theorem resolves_of_buildMethods {interface : String} {next : Option UInt32}
    {used : List (UInt32 × String)} {records : List Record.Method} {methods : List Method}
    (hb : (buildMethods names interface next used records).value = .ok methods) :
    ∀ m ∈ methods, ∀ k ∈ m.kindsUsed, names.Resolves k := by
  fun_induction buildMethods names interface next used records generalizing methods with
  | case1 =>
    cases hb
    simp
  | case2 => cases hb
  | case3 => cases hb
  | case4 next used m rest ordinal hordinal hfree ih =>
    simp only [value_bind, value_option_mapM, value_pure, Except.bind_eq_ok,
      Except.pure_eq_ok] at hb
    obtain ⟨parameters, hparameters, response, hresponse, methods, hmethods, rfl⟩ := hb
    refine List.forall_mem_cons.2 ⟨?_, ih hmethods⟩
    simp only [Method.kindsUsed, List.mem_append, List.mem_map]
    rintro _ (⟨p, hp, rfl⟩ | ⟨p, hp, rfl⟩)
    · exact resolves_of_buildParameters hparameters p hp
    · cases response with
      | none => simp at hp
      | some ps =>
        obtain ⟨record, -, hrecord⟩ := Option.exists_of_mapM hresponse rfl
        exact resolves_of_buildParameters hrecord p hp

theorem resolves_of_buildInterface {i : Record.Interface} {enums : List Enum}
    {interface : Interface} (hb : (buildInterface names i enums).value = .ok interface) :
    ∀ k ∈ interface.kindsUsed, names.Resolves k := by
  simp only [value_buildInterface, Except.bind_eq_ok, Except.pure_eq_ok] at hb
  obtain ⟨-, -, client, hclient, constants, hconstants, methods, hmethods, rfl⟩ := hb
  simp only [Interface.kindsUsed, List.mem_append, List.mem_map, List.mem_flatMap,
    Option.mem_toList, Option.map_eq_some_iff]
  rintro _ ((⟨decl, hdecl, rfl⟩ | ⟨c, hc, rfl⟩) | ⟨m, hm, hk⟩)
  · exact resolves_of_buildClient hclient decl hdecl
  · obtain ⟨record, -, -, hrecord⟩ := (List.forall₂_of_mapM hconstants).exists_left_of_mem hc
    exact resolves_of_buildConstant hrecord
  · exact resolves_of_buildMethods hmethods m hm _ hk

/-! ## What the steps note -/

/-- The tables of a record have declarations only. -/
theorem Names.declared_ofRecord (r : Record) (imports : List Module) :
    ∀ entry ∈ (ofRecord r imports).kinds, entry.2.Declared := by
  rw [kinds_ofRecord, kinds_imported]
  refine List.forall_mem_append.2 ⟨?_, ?_⟩
  · simp only [ownKinds, holderKinds, enumKind, List.mem_reverse, List.mem_append, List.mem_flatMap,
      List.mem_cons, List.mem_map]
    rintro _ ((⟨s, -, rfl | ⟨e, -, rfl⟩⟩ | ⟨i, -, rfl | ⟨e, -, rfl⟩⟩) | ⟨e, -, rfl⟩)
    exacts [.struct _, .enum _, .interface _, .enum _, .enum _]
  · simp only [declaredKinds, List.mem_reverse, List.mem_flatMap, List.mem_append, List.mem_map]
    rintro _ ⟨m, -, (⟨s, -, rfl⟩ | ⟨i, -, rfl⟩) | ⟨e, -, rfl⟩⟩
    exacts [.struct _, .interface _, .enum _]

theorem insert_noteAll_array (used : SortedMap Kind) (k : Kind) :
    (noteAll used [k]).insert k.array.spec k.array = noteAll used [k.array] := by
  simp [noteAll, SortedMap.insertAll, Kind.parts]

theorem insert_noteAll_request (used : SortedMap Kind) (k : Kind) :
    (noteAll used [k]).insert k.request.spec k.request = noteAll used [k.request] := by
  simp [noteAll, SortedMap.insertAll, Kind.parts]

theorem notes_note {k : Kind} (h : k.parts = [k]) : Notes (note k) fun k => [k] := by
  intro used k' used' hrun
  obtain ⟨rfl, rfl⟩ := run_note_eq_ok.1 hrun
  simp [noteAll, SortedMap.insertAll, h]

section Declared

variable (declared : ∀ entry ∈ names.kinds, entry.2.Declared)

include declared

/-- Resolving notes the kind and, on the way to it, what it is made of. -/
theorem notes_resolveSpec (spec : List Char) :
    Notes (names.resolveSpec scope line spec) fun k => [k] := by
  fun_induction Names.resolveSpec names scope line spec with
  | case1 spec basic hspec => exact notes_note rfl
  | case2 element hspec ih =>
    intro used k used' h
    simp only [run_bind_eq_ok, run_note_eq_ok] at h
    obtain ⟨k', used₁, hk', rfl, rfl⟩ := h
    rw [ih hk', insert_noteAll_array]
  | case3 inner hspec ih =>
    intro used k used' h
    obtain ⟨k', used₁, hk', hrest⟩ := run_bind_eq_ok.1 h
    cases k' with
    | interface decl =>
      obtain ⟨rfl, rfl⟩ := run_note_eq_ok.1 hrest
      rw [ih hk', insert_noteAll_request]
    | _ => cases hrest
  | case4 name k hname =>
    obtain ⟨key, -, hkey⟩ := List.exists_of_findSome?_eq_some hname
    exact notes_note (declared _ (Names.mem_of_lookup hkey)).parts
  | case5 =>
    intro used k used' h
    cases h
  | case6 =>
    intro used k used' h
    cases h

theorem notes_buildConstant (c : Record.Constant) :
    Notes (buildConstant names scope c) fun c => [c.kind] := by
  intro used constant used' h
  simp only [buildConstant, run_bind_eq_ok, run_liftM_eq_ok, run_pure_eq_ok] at h
  obtain ⟨kind, used₁, hkind, value, used₂, ⟨-, rfl⟩, rfl, rfl⟩ := h
  exact notes_resolveSpec declared _ hkind

theorem notes_buildField (f : Record.Field) :
    Notes (buildField names scope f) fun f => [f.kind] := by
  intro used field used' h
  simp only [buildField, run_bind_eq_ok, run_lift_eq_ok, run_pure_eq_ok] at h
  obtain ⟨kind, used₁, hkind, default, used₂, ⟨-, rfl⟩, rfl, rfl⟩ := h
  exact notes_resolveSpec declared _ hkind

theorem notes_buildStruct (s : Record.Struct) (enums : List Enum) :
    Notes (buildStruct names s enums) Struct.kindsUsed := by
  intro used struct used' h
  simp only [buildStruct, run_bind_eq_ok, run_liftM_eq_ok, run_pure_eq_ok] at h
  obtain ⟨-, used₁, ⟨-, rfl⟩, constants, used₂, hconstants, fields, used₃, hfields, rfl, rfl⟩ := h
  rw [notes_mapM_kind (notes_buildField declared) _ hfields,
    notes_mapM_kind (notes_buildConstant declared) _ hconstants, Struct.kindsUsed, noteAll_append]

theorem notes_buildClient (i : Record.Interface) :
    Notes (buildClient names i) fun client => (client.map Kind.interface).toList := by
  intro used client used' h
  unfold buildClient at h
  split at h
  case h_1 =>
    obtain ⟨rfl, rfl⟩ := run_pure_eq_ok.1 h
    rfl
  case h_2 | h_3 =>
    obtain ⟨k, used₁, hk, hrest⟩ := run_bind_eq_ok.1 h
    have hnotes := notes_resolveSpec declared _ hk
    cases k with
    | interface decl =>
      obtain ⟨rfl, rfl⟩ := run_pure_eq_ok.1 hrest
      exact hnotes
    | _ => cases hrest
  case h_4 => cases h

theorem notes_buildParameters (parameters : List Record.Parameter) :
    Notes (buildParameters names scope parameters) fun ps => ps.map Parameter.kind := by
  have hparameter (p : Record.Parameter) :
      Notes (buildParameter names scope p) fun p => [p.kind] := by
    intro used built used' h
    simp only [buildParameter, run_bind_eq_ok, run_pure_eq_ok] at h
    obtain ⟨kind, used₁, hkind, rfl, rfl⟩ := h
    exact notes_resolveSpec declared _ hkind
  intro used built used' h
  simp only [buildParameters, run_bind_eq_ok, run_liftM_eq_ok] at h
  obtain ⟨-, used₁, ⟨-, rfl⟩, hparameters⟩ := h
  exact notes_mapM_kind hparameter _ hparameters

theorem notes_buildMethods (interface : String) (next : Option UInt32)
    (ordinals : List (UInt32 × String)) (methods : List Record.Method) :
    Notes (buildMethods names interface next ordinals methods) fun ms =>
      ms.flatMap Method.kindsUsed := by
  fun_induction buildMethods names interface next ordinals methods with
  | case1 =>
    intro used built used' h
    obtain ⟨rfl, rfl⟩ := run_pure_eq_ok.1 h
    rfl
  | case2 =>
    intro used built used' h
    cases h
  | case3 =>
    intro used built used' h
    cases h
  | case4 next ordinals m rest ordinal hordinal hfree ih =>
    intro used built used' h
    simp only [run_bind_eq_ok, run_pure_eq_ok] at h
    obtain ⟨parameters, used₁, hparameters, response, used₂, hresponse, methods, used₃, hmethods,
      rfl, rfl⟩ := h
    rw [ih hmethods, notes_option_mapM (notes_buildParameters declared) _ hresponse,
      notes_buildParameters declared _ hparameters, ← noteAll_append, ← noteAll_append]
    cases response <;> simp [Method.kindsUsed]

theorem notes_buildInterface (i : Record.Interface) (enums : List Enum) :
    Notes (buildInterface names i enums) Interface.kindsUsed := by
  intro used interface used' h
  simp only [buildInterface, run_bind_eq_ok, run_liftM_eq_ok, run_pure_eq_ok] at h
  obtain ⟨-, used₁, ⟨-, rfl⟩, client, used₂, hclient, constants, used₃, hconstants, methods, used₄,
    hmethods, rfl, rfl⟩ := h
  rw [notes_buildMethods declared _ _ _ _ hmethods,
    notes_mapM_kind (notes_buildConstant declared) _ hconstants,
    notes_buildClient declared _ hclient, Interface.kindsUsed, noteAll_append, noteAll_append]

theorem notes_buildDeclarations (r : Record) (structEnums interfaceEnums : List (List Enum)) :
    Notes (buildDeclarations names r structEnums interfaceEnums) fun built =>
      built.1.map Constant.kind ++ built.2.1.flatMap Struct.kindsUsed ++
        built.2.2.flatMap Interface.kindsUsed := by
  have hstruct : ∀ p : Record.Struct × List Enum,
      Notes (buildStruct names p.1 p.2) Struct.kindsUsed :=
    fun p => notes_buildStruct declared p.1 p.2
  have hinterface : ∀ p : Record.Interface × List Enum,
      Notes (buildInterface names p.1 p.2) Interface.kindsUsed :=
    fun p => notes_buildInterface declared p.1 p.2
  intro used built used' h
  simp only [buildDeclarations, run_bind_eq_ok, run_pure_eq_ok] at h
  obtain ⟨constants, used₁, hconstants, structs, used₂, hstructs, interfaces, used₃, hinterfaces,
    rfl, rfl⟩ := h
  rw [notes_mapM hinterface _ hinterfaces, notes_mapM hstruct _ hstructs,
    notes_mapM_kind (notes_buildConstant declared) _ hconstants]
  simp only [noteAll_append]

theorem run_buildDeclarations_eq_ok {r : Record} {structEnums interfaceEnums : List (List Enum)}
    {constants : List Constant} {structs : List Struct} {interfaces : List Interface}
    {kinds : SortedMap Kind} :
    (buildDeclarations names r structEnums interfaceEnums).run ∅ =
        .ok ((constants, structs, interfaces), kinds) ↔
      (r.constants.mapM fun c => (buildConstant names [] c).value) = .ok constants ∧
      ((r.structs.zip structEnums).mapM fun p => (buildStruct names p.1 p.2).value) = .ok structs ∧
      ((r.interfaces.zip interfaceEnums).mapM fun p => (buildInterface names p.1 p.2).value) =
        .ok interfaces ∧
      kinds = kindMap (constants.map Constant.kind ++ structs.flatMap Struct.kindsUsed ++
        interfaces.flatMap Interface.kindsUsed) := by
  have hvalue : (buildDeclarations names r structEnums interfaceEnums).value =
        .ok (constants, structs, interfaces) ↔
      (r.constants.mapM fun c => (buildConstant names [] c).value) = .ok constants ∧
      ((r.structs.zip structEnums).mapM fun p => (buildStruct names p.1 p.2).value) = .ok structs ∧
      ((r.interfaces.zip interfaceEnums).mapM fun p => (buildInterface names p.1 p.2).value) =
        .ok interfaces := by
    simp only [value_buildDeclarations, Except.bind_eq_ok, Except.pure_eq_ok, Prod.mk.injEq]
    constructor
    · rintro ⟨_, hconstants, _, hstructs, _, hinterfaces, rfl, rfl, rfl⟩
      exact ⟨hconstants, hstructs, hinterfaces⟩
    · rintro ⟨hconstants, hstructs, hinterfaces⟩
      exact ⟨_, hconstants, _, hstructs, _, hinterfaces, rfl, rfl, rfl⟩
  have hnotes := notes_buildDeclarations declared r structEnums interfaceEnums
  constructor
  · intro h
    obtain ⟨hconstants, hstructs, hinterfaces⟩ := hvalue.1 (value_of_run h)
    exact ⟨hconstants, hstructs, hinterfaces, hnotes h⟩
  · rintro ⟨hconstants, hstructs, hinterfaces, rfl⟩
    obtain ⟨used', h⟩ := (value_eq_ok_iff ∅).1 (hvalue.2 ⟨hconstants, hstructs, hinterfaces⟩)
    rw [h, hnotes h]
    rfl

end Declared

/-! ## Modules -/

/-- A module is built iff its enums are built, one after the other, and the rest is resolved with
the names that are known then. Its kinds are those that are written in it and their parts. -/
theorem ofRecord_eq_ok_iff {r : Record} {path : String} {imports : List (Import Module)}
    {m : Module} :
    ofRecord r path imports = .ok m ↔
      ∃ enums names₁ structEnums names₂ interfaceEnums names constants structs interfaces,
        checkUnique [] (topLevelNames r) = .ok () ∧
        buildEnums none (Names.ofRecord r (imports.map Import.target)) r.enums =
          .ok (enums, names₁) ∧
        buildNestedEnums names₁ (r.structs.map fun s => (s.name, s.enums)) =
          .ok (structEnums, names₂) ∧
        buildNestedEnums names₂ (r.interfaces.map fun i => (i.name, i.enums)) =
          .ok (interfaceEnums, names) ∧
        (r.constants.mapM fun c => (buildConstant names [] c).value) = .ok constants ∧
        ((r.structs.zip structEnums).mapM fun p => (buildStruct names p.1 p.2).value) =
          .ok structs ∧
        ((r.interfaces.zip interfaceEnums).mapM fun p => (buildInterface names p.1 p.2).value) =
          .ok interfaces ∧
        m = {
          name := r.name
          space := r.space
          path := path
          attributes := r.attributes
          imports := imports
          structs := structs
          interfaces := interfaces
          enums := enums
          constants := constants
          kinds := kindMap (constants.map Constant.kind ++ structs.flatMap Struct.kindsUsed ++
            interfaces.flatMap Interface.kindsUsed) } := by
  have hdeclared : ∀ {enums names₁ structEnums names₂ interfaceEnums names},
      buildEnums none (Names.ofRecord r (imports.map Import.target)) r.enums =
        .ok (enums, names₁) →
      buildNestedEnums names₁ (r.structs.map fun s => (s.name, s.enums)) =
        .ok (structEnums, names₂) →
      buildNestedEnums names₂ (r.interfaces.map fun i => (i.name, i.enums)) =
        .ok (interfaceEnums, names) → ∀ entry ∈ names.kinds, entry.2.Declared := by
    intro enums names₁ structEnums names₂ interfaceEnums names henums hstructs hinterfaces
    rw [(buildNestedEnums_spec hinterfaces).2, kinds_foldl_addMember,
      (buildNestedEnums_spec hstructs).2, kinds_foldl_addMember, (buildEnums_spec henums).2,
      kinds_foldl_addMember]
    exact Names.declared_ofRecord r _
  simp only [ofRecord, Except.bind_eq_ok, Except.pure_eq_ok, Prod.exists]
  constructor
  · rintro ⟨_, hunique, enums, names₁, henums, structEnums, names₂, hstructEnums, interfaceEnums,
      names, hinterfaceEnums, constants, structs, interfaces, kinds, hrun, rfl⟩
    obtain ⟨hconstants, hstructs, hinterfaces, rfl⟩ := (run_buildDeclarations_eq_ok
      (hdeclared henums hstructEnums hinterfaceEnums)).1 hrun
    exact ⟨enums, names₁, structEnums, names₂, interfaceEnums, names, constants, structs,
      interfaces, hunique, henums, hstructEnums, hinterfaceEnums, hconstants, hstructs,
      hinterfaces, rfl⟩
  · rintro ⟨enums, names₁, structEnums, names₂, interfaceEnums, names, constants, structs,
      interfaces, hunique, henums, hstructEnums, hinterfaceEnums, hconstants, hstructs,
      hinterfaces, rfl⟩
    have hrun := (run_buildDeclarations_eq_ok (hdeclared henums hstructEnums hinterfaceEnums)).2
      ⟨hconstants, hstructs, hinterfaces, rfl⟩
    exact ⟨(), hunique, enums, names₁, henums, structEnums, names₂, hstructEnums, interfaceEnums,
      names, hinterfaceEnums, constants, structs, interfaces, _, hrun, rfl⟩

end Module

end WireSchema
