import WireSchema.Proofs.Grammar.Lines
import WireSchema.Proofs.Module.Integers
import WireSchema.Proofs.Module.Resolving

/-!
# Records, modules and lines

A record keeps the lines of its tree, and a module keeps none: lines are only blamed for faults.
`unlined` sets all lines of a record, of the tables made from it and of a fault to zero. Every stage
from trees to modules commutes with it: a tree without lines has the record without lines
(`Record.ofTree_unlined`), and a record without lines has the same module, or the same fault without
its line (`Module.ofRecord_unlined`).
-/

namespace WireSchema

/-! ## Records -/

namespace Record

def Import.unlined (i : Import) : Import := { i with line := 0 }

def EnumField.unlined (f : EnumField) : EnumField := { f with line := 0 }

def Enum.unlined (e : Enum) : Enum :=
  { e with line := 0, fields := e.fields.map EnumField.unlined }

def Constant.unlined (c : Constant) : Constant := { c with line := 0 }

def Field.unlined (f : Field) : Field := { f with line := 0 }

def Struct.unlined (s : Struct) : Struct :=
  { s with
    line := 0
    fields := s.fields.map Field.unlined
    enums := s.enums.map Enum.unlined
    constants := s.constants.map Constant.unlined }

def Parameter.unlined (p : Parameter) : Parameter := { p with line := 0 }

def Method.unlined (m : Method) : Method :=
  { m with
    line := 0
    parameters := m.parameters.map Parameter.unlined
    response := m.response.map (·.map Parameter.unlined) }

def Interface.unlined (i : Interface) : Interface :=
  { i with
    line := 0
    methods := i.methods.map Method.unlined
    enums := i.enums.map Enum.unlined
    constants := i.constants.map Constant.unlined }

/-- The record with all lines set to zero. -/
def unlined (r : Record) : Record :=
  { r with
    imports := r.imports.map Import.unlined
    structs := r.structs.map Struct.unlined
    interfaces := r.interfaces.map Interface.unlined
    enums := r.enums.map Enum.unlined
    constants := r.constants.map Constant.unlined }

theorem holders_unlined (r : Record) :
    r.unlined.holders = r.holders.map fun h =>
      ⟨h.name, h.enums.map Enum.unlined, h.constants.map Constant.unlined⟩ := by
  simp [holders, unlined, Struct.holder, Interface.holder, Struct.unlined, Interface.unlined,
    Function.comp_def]

theorem scopedEnums_unlined (r : Record) :
    r.unlined.scopedEnums = r.scopedEnums.map (Prod.map id Enum.unlined) := by
  rw [scopedEnums, holders_unlined, scopedEnums]
  simp [List.flatMap_map, List.map_flatMap, unlined, Function.comp_def]

theorem scopedConstants_unlined (r : Record) :
    r.unlined.scopedConstants = r.scopedConstants.map (Prod.map id Constant.unlined) := by
  rw [scopedConstants, holders_unlined, scopedConstants]
  simp [List.flatMap_map, List.map_flatMap, unlined, Function.comp_def]

@[simp]
theorem attributeMap_unlined (attributes : List Tree.Attribute) :
    attributeMap (attributes.map Tree.Attribute.unlined) = attributeMap attributes := by
  simp [attributeMap, Tree.Attribute.unlined, Function.comp_def]

theorem Enum.ofTree_unlined (e : Tree.Enum) : ofTree e.unlined = (ofTree e).unlined := by
  simp [ofTree, Tree.Enum.unlined, unlined, Tree.EnumValue.unlined, EnumField.unlined,
    Function.comp_def]

theorem Constant.ofTree_unlined (c : Tree.Constant) : ofTree c.unlined = (ofTree c).unlined := by
  simp [ofTree, Tree.Constant.unlined, unlined]

theorem Field.ofTree_unlined (f : Tree.Field) : ofTree f.unlined = (ofTree f).unlined := by
  simp [ofTree, Tree.Field.unlined, unlined]

theorem Parameter.ofTree_unlined (p : Tree.Parameter) : ofTree p.unlined = (ofTree p).unlined := by
  simp [ofTree, Tree.Parameter.unlined, unlined]

theorem Method.ofTree_unlined (m : Tree.Method) : ofTree m.unlined = (ofTree m).unlined := by
  simp [ofTree, Tree.Method.unlined, unlined, Function.comp_def, Parameter.ofTree_unlined]

/-- To keep the nodes of one sort and to leave out lines can be done in either order. -/
theorem filterMap_map_unlined {α β : Type} {pick : α → Option β} {erase : α → α} {e : β → β}
    (h : ∀ a, pick (erase a) = (pick a).map e) (xs : List α) :
    (xs.map erase).filterMap pick = (xs.filterMap pick).map e := by
  rw [List.filterMap_map, List.map_filterMap]
  exact congrArg (List.filterMap · xs) (funext h)

theorem Struct.ofTree_unlined (s : Tree.Struct) : ofTree s.unlined = (ofTree s).unlined := by
  simp only [ofTree, Tree.Struct.unlined, unlined, attributeMap_unlined]
  rw [filterMap_map_unlined (e := Field.unlined), filterMap_map_unlined (e := Enum.unlined),
    filterMap_map_unlined (e := Constant.unlined)]
  all_goals
    rintro (f | e | c) <;> simp [Tree.StructMember.unlined, Field.ofTree_unlined,
      Enum.ofTree_unlined, Constant.ofTree_unlined]

theorem Interface.ofTree_unlined (i : Tree.Interface) : ofTree i.unlined = (ofTree i).unlined := by
  simp only [ofTree, Tree.Interface.unlined, unlined, attributeMap_unlined]
  rw [filterMap_map_unlined (e := Method.unlined), filterMap_map_unlined (e := Enum.unlined),
    filterMap_map_unlined (e := Constant.unlined)]
  all_goals
    rintro (m | e | c) <;> simp [Tree.InterfaceMember.unlined, Method.ofTree_unlined,
      Enum.ofTree_unlined, Constant.ofTree_unlined]

theorem ofModule_unlined (file : String) (imports : List Tree.Import) (m : Tree.Module) :
    ofModule file (imports.map Tree.Import.unlined) m.unlined =
      (ofModule file imports m).unlined := by
  simp only [ofModule, Tree.Module.unlined, unlined, attributeMap_unlined]
  rw [filterMap_map_unlined (e := Struct.unlined),
    filterMap_map_unlined (e := Interface.unlined),
    filterMap_map_unlined (e := Enum.unlined),
    filterMap_map_unlined (e := Constant.unlined)]
  · simp [Tree.Import.unlined, Import.unlined, Function.comp_def]
  all_goals
    rintro (s | i | e | c) <;> simp [Tree.Definition.unlined, Struct.ofTree_unlined,
      Interface.ofTree_unlined, Enum.ofTree_unlined, Constant.ofTree_unlined]

theorem ofTree_unlined (file : String) (tree : Tree) :
    ofTree file tree.unlined = (ofTree file tree).map unlined := by
  obtain ⟨imports, modules⟩ := tree
  match modules with
  | [] => rfl
  | [m] => exact congrArg Except.ok (ofModule_unlined file imports m)
  | m :: m' :: rest => simp [ofTree, Tree.unlined, Except.map]

end Record

/-! ## Faults -/

/-- A fault with its line set to zero. -/
def BuildFault.unlined : BuildFault → BuildFault
  | resolution _ cause => resolution 0 cause
  | validation _ cause => validation 0 cause

theorem mapError_bind {ε ε' α β : Type} (u : ε → ε') (x : Except ε α) (k : α → Except ε β) :
    (x >>= k).mapError u = x.mapError u >>= fun a => (k a).mapError u := by
  cases x <;> rfl

theorem mapError_map_bind {ε ε' α β γ : Type} (u : ε → ε') (f : α → β) (x : Except ε α)
    (k : β → Except ε' γ) : ((x.map f).mapError u >>= k) = x.mapError u >>= fun a => k (f a) := by
  cases x <;> rfl

namespace Module

namespace Resolving

variable {α α' β : Type}

/-- The computation with the line of its fault set to zero. -/
def unlined (x : Resolving α) : Resolving α where
  run used := (x.run used).mapError BuildFault.unlined
  steady used used' := by
    have h := x.steady used used'
    cases hrun : x.run used <;> cases hrun' : x.run used' <;>
      simp_all [Except.map, Except.mapError]

theorem unlined_pure (a : α) : (pure a : Resolving α).unlined = pure a :=
  rfl

theorem unlined_bind (x : Resolving α) (f : α → Resolving β) :
    (x >>= f).unlined = x.unlined >>= fun a => (f a).unlined := by
  refine ext fun used => ?_
  change ((x >>= f).run used).mapError _ = _
  rw [run_bind, run_bind, mapError_bind]
  rfl

theorem unlined_lift (x : Except BuildFault α) :
    (lift x).unlined = lift (x.mapError BuildFault.unlined) :=
  ext fun _ => by cases x <;> rfl

theorem unlined_liftM (x : Except BuildFault α) :
    (liftM x : Resolving α).unlined = liftM (x.mapError BuildFault.unlined) :=
  unlined_lift x

/-- What holds of a step on each item holds of the steps on all of them. -/
theorem mapM_map_of_unlined {e : α → α'} {f : α → Resolving β} {f' : α' → Resolving β}
    (h : ∀ a, f' (e a) = (f a).unlined) (xs : List α) :
    (xs.map e).mapM f' = (xs.mapM f).unlined := by
  induction xs with
  | nil => rfl
  | cons a rest ih =>
    simp only [List.map_cons, List.mapM_cons, h, ih, unlined_bind, unlined_pure]

theorem option_mapM_map_of_unlined {e : α → α'} {f : α → Resolving β} {f' : α' → Resolving β}
    (h : ∀ a, f' (e a) = (f a).unlined) (x : Option α) :
    (x.map e).mapM f' = (x.mapM f).unlined := by
  cases x with
  | none => rfl
  | some a =>
    simp only [Option.map_some, Option.mapM_some, h, map_eq_pure_bind, unlined_bind, unlined_pure]

end Resolving

open Resolving

/-! ## Tables -/

def LocalField.unlined (f : LocalField) : LocalField :=
  { f with line := 0, previous := f.previous.map fun (key, name, _) => (key, name, 0) }

namespace Names

variable {names : Names}

/-- The tables with all lines set to zero. -/
def unlined (names : Names) : Names :=
  { names with fields := names.fields.map (Prod.map id LocalField.unlined) }

@[simp]
theorem space_unlined : names.unlined.space = names.space :=
  rfl

@[simp]
theorem members_unlined : names.unlined.members = names.members :=
  rfl

@[simp]
theorem constants_unlined : names.unlined.constants = names.constants :=
  rfl

@[simp]
theorem candidates_unlined : names.unlined.candidates = names.candidates :=
  rfl

@[simp]
theorem lookup_fields_unlined (key : String) :
    names.unlined.fields.lookup key = (names.fields.lookup key).map LocalField.unlined := by
  simp only [unlined]
  induction names.fields with
  | nil => rfl
  | cons entry rest ih =>
    obtain ⟨k, f⟩ := entry
    simp only [List.map_cons, Prod.map_apply, id_eq, List.lookup_cons, ih]
    split <;> rfl

theorem fieldEntries_unlined (enum : DeclRef) (scope : List String)
    (previous : Option (String × String × UInt32)) (fields : List Record.EnumField) :
    fieldEntries enum scope (previous.map fun (key, name, _) => (key, name, 0))
        (fields.map Record.EnumField.unlined) =
      (fieldEntries enum scope previous fields).map (Prod.map id LocalField.unlined) := by
  induction fields generalizing previous with
  | nil => rfl
  | cons f rest ih =>
    simp only [List.map_cons, fieldEntries]
    exact congrArg _ (ih (some (_, f.name, f.line)))

theorem ownFields_unlined (r : Record) :
    ownFields r.unlined = (ownFields r).map (Prod.map id LocalField.unlined) := by
  rw [ownFields, ownFields, r.scopedEnums_unlined, List.flatMap_map, List.map_flatMap]
  exact congrArg (List.flatMap · _) (funext fun p => fieldEntries_unlined _ _ none _)

theorem ownKinds_unlined (r : Record) : ownKinds r.unlined = ownKinds r := by
  simp [ownKinds, Record.unlined, List.flatMap_map, holderKinds, Record.Struct.holder,
    Record.Interface.holder, Record.Struct.unlined, Record.Interface.unlined, Record.Enum.unlined,
    enumKind, enumDecl, Function.comp_def]

theorem ownConstants_unlined (r : Record) : ownConstants r.unlined = ownConstants r := by
  rw [ownConstants, r.scopedConstants_unlined, List.map_map]
  rfl

theorem ofRecord_unlined (r : Record) (imports : List Module) :
    ofRecord r.unlined imports = (ofRecord r imports).unlined := by
  have hspace : r.unlined.space = r.space := rfl
  have himported : (imported r.space imports).fields = [] := by
    rw [imported_eq]
    rfl
  rw [ofRecord_eq, ofRecord_eq, ownKinds_unlined, ownFields_unlined, ownConstants_unlined, hspace]
  have hkeys : ((ownFields r).map (Prod.map id LocalField.unlined)).map Prod.fst =
      (ownFields r).map Prod.fst := by
    rw [List.map_map]
    rfl
  simp only [extend, unlined, himported, hkeys, List.append_nil, List.map_reverse]

theorem addMember_unlined (m : EnumMember) : (names.addMember m).unlined = names.unlined.addMember m :=
  rfl

/-! ## Resolution -/

theorem resolveSpec_unlined (scope : List String) (line : UInt32) (spec : List Char) :
    names.unlined.resolveSpec scope 0 spec = (names.resolveSpec scope line spec).unlined := by
  have hkind : names.unlined.kind? = names.kind? := rfl
  fun_induction Names.resolveSpec names scope line spec with
  | case1 spec basic hspec =>
    unfold resolveSpec
    simp only [hspec]
    rfl
  | case2 element hspec ih =>
    rw [resolveSpec, hspec]
    simp only [ih, unlined_bind]
    rfl
  | case3 inner hspec ih =>
    rw [resolveSpec, hspec]
    simp only [ih, unlined_bind]
    refine congrArg _ (funext fun k => ?_)
    cases k <;> rfl
  | case4 name k hk hspec =>
    rw [resolveSpec, hspec]
    simp only [hkind, hk]
    rfl
  | case5 name hk hspec =>
    rw [resolveSpec, hspec]
    simp only [hkind, hk]
    rfl
  | case6 spec harray hrequest hname hspec =>
    rw [resolveSpec, hspec]
    · rfl
    exacts [harray, hrequest, hname]

theorem resolveKind_unlined (scope : List String) (line : UInt32) (spec : String) :
    names.unlined.resolveKind scope 0 spec = (names.resolveKind scope line spec).unlined :=
  resolveSpec_unlined scope line spec.toList

theorem resolveValue_unlined (scope : List String) (line : UInt32) (expr : ValueExpr) :
    names.unlined.resolveValue scope 0 expr =
      (names.resolveValue scope line expr).mapError BuildFault.unlined := by
  cases expr with
  | name name =>
    simp only [resolveValue, candidates_unlined, members_unlined, constants_unlined]
    cases (names.candidates scope name).findSome? fun key => names.members.lookup key with
    | some m => rfl
    | none =>
      cases (names.candidates scope name).findSome? fun key => names.constants.lookup key <;> rfl
  | _ => rfl

/-! ## Integers -/

theorem target?_unlined (scope : List String) (name : String) :
    names.unlined.target? scope name = names.target? scope name := by
  have hfield : names.unlined.isField = names.isField := by
    funext key
    rw [isField, lookup_fields_unlined, Option.isSome_map]
    rfl
  rw [target?, hfield]
  rfl

def Lead.unlined : Lead → Lead
  | integer n => integer n
  | follow target name _ more => follow target name 0 more

theorem exprLead_unlined (scope : List String) (line : UInt32) (expr : ValueExpr) :
    names.unlined.exprLead scope 0 expr =
      ((names.exprLead scope line expr).map Lead.unlined).mapError BuildFault.unlined := by
  cases expr with
  | integer text =>
    simp only [exprLead]
    split <;> rfl
  | name name =>
    simp only [exprLead, target?_unlined]
    split <;> rfl
  | _ => rfl

theorem fieldLead_unlined (f : LocalField) :
    names.unlined.fieldLead f.unlined =
      ((names.fieldLead f).map Lead.unlined).mapError BuildFault.unlined := by
  obtain ⟨name, line, written, previous, scope⟩ := f
  cases written with
  | some expr => exact exprLead_unlined scope line expr
  | none => cases previous <;> rfl

theorem constantLead_unlined (name : String) (line : UInt32) (entry : ConstantEntry) :
    names.unlined.constantLead name 0 entry =
      ((names.constantLead name line entry).map Lead.unlined).mapError BuildFault.unlined := by
  cases entry with
  | declared decl expr scope => exact exprLead_unlined scope line expr
  | imported decl value =>
    cases value with
    | literal l =>
      cases l with
      | integer text =>
        simp only [constantLead]
        split <;> rfl
      | _ => rfl
    | _ => rfl

theorem lead_unlined (t : Target) (name : String) (line : UInt32) :
    names.unlined.lead t name 0 =
      ((names.lead t name line).map Lead.unlined).mapError BuildFault.unlined := by
  cases t with
  | field key =>
    simp only [lead, lookup_fields_unlined]
    cases names.fields.lookup key with
    | none => rfl
    | some f => exact fieldLead_unlined f
  | constant key =>
    simp only [lead, constants_unlined]
    cases names.constants.lookup key with
    | none => rfl
    | some entry => exact constantLead_unlined name line entry

theorem check_unlined (t : Target) (n : Int) :
    names.unlined.check t n = (names.check t n).mapError BuildFault.unlined := by
  cases t with
  | constant key => rfl
  | field key =>
    simp only [check, lookup_fields_unlined]
    cases names.fields.lookup key with
    | none => rfl
    | some f =>
      simp only [Option.map_some, checkRange]
      split <;> rfl

theorem pending_unlined_iff (t : Target) : names.unlined.Pending t ↔ names.Pending t := by
  cases t with
  | constant key => exact Iff.rfl
  | field key => simp only [Pending, lookup_fields_unlined, Option.isSome_map]; rfl

theorem integerAt_unlined (visiting : List String) (t : Target) (name : String) (line : UInt32) :
    names.unlined.integerAt visiting t name 0 =
      (names.integerAt visiting t name line).mapError BuildFault.unlined := by
  -- The keys that are left get fewer with each lead that is followed.
  induction hleft : remaining names.keys visiting using Nat.strong_induction_on
    generalizing visiting t name line with
  | _ left ih =>
    cases hknown : names.known? t with
    | some k =>
      have hknown' : names.unlined.known? t = some k := by cases t <;> exact hknown
      rw [integerAt_of_known hknown, integerAt_of_known hknown']
      rfl
    | none =>
      have hknown' : names.unlined.known? t = none := by cases t <;> exact hknown
      by_cases hpassed : names.Pending t ∧ t.key ∈ visiting
      · rw [integerAt_of_passed hpassed.1 hpassed.2,
          integerAt_of_passed ((pending_unlined_iff t).2 hpassed.1) hpassed.2]
        rfl
      · have free : names.Pending t → t.key ∉ visiting := by simpa using hpassed
        rw [integerAt_eq hknown free,
          integerAt_eq hknown' (fun pending => free ((pending_unlined_iff t).1 pending)),
          lead_unlined t name line, mapError_bind]
        cases hlead : names.lead t name line with
        | error e => rfl
        | ok l =>
          cases l with
          | integer n => exact check_unlined t n
          | follow u name' line' more =>
            obtain ⟨pending, hkey⟩ := pending_of_lead hknown hlead
            have hnext := ih _ (hleft ▸ remaining_cons_lt hkey (free pending)) (t.key :: visiting) u
              name' line' rfl
            change names.unlined.integerAt (t.key :: visiting) u name' 0 >>= _ =
              (names.integerAt (t.key :: visiting) u name' line' >>= _).mapError _
            rw [hnext, mapError_bind]
            exact congrArg _ (funext fun n => check_unlined t (n + more))

end Names

/-! ## Building -/

variable (names : Names)

theorem checkUnique_unlined (seen : List String) (declared : List (String × UInt32)) :
    checkUnique seen (declared.map fun p => (p.1, 0)) =
      (checkUnique seen declared).mapError BuildFault.unlined := by
  induction declared generalizing seen with
  | nil => rfl
  | cons p rest ih =>
    simp only [List.map_cons, checkUnique]
    split
    · rfl
    · exact ih _

theorem buildEnumFields_unlined (decl : DeclRef) (fields : List Record.EnumField) :
    buildEnumFields decl names.unlined (fields.map Record.EnumField.unlined) =
      ((buildEnumFields decl names fields).map (Prod.map id Names.unlined)).mapError
        BuildFault.unlined := by
  induction fields generalizing names with
  | nil => rfl
  | cons f rest ih =>
    simp only [List.map_cons, buildEnumFields, Record.EnumField.unlined,
      Names.integerAt_unlined [] _ f.name f.line]
    cases names.integerAt [] (.field (decl.qualified ++ "." ++ f.name)) f.name f.line with
    | error e => rfl
    | ok value =>
      have hrest := ih (names.addMember ⟨decl, f.name, value⟩)
      rw [Names.addMember_unlined] at hrest
      simp only [Except.mapError, bind, Except.bind, hrest]
      cases buildEnumFields decl (names.addMember ⟨decl, f.name, value⟩) rest <;> rfl

theorem buildEnum_unlined (parent : Option String) (e : Record.Enum) :
    buildEnum parent names.unlined e.unlined =
      ((buildEnum parent names e).map (Prod.map id Names.unlined)).mapError BuildFault.unlined := by
  have hunique : checkUnique [] (e.unlined.fields.map fun f => (f.name, f.line)) =
      (checkUnique [] (e.fields.map fun f => (f.name, f.line))).mapError BuildFault.unlined := by
    rw [← checkUnique_unlined]
    simp [Record.Enum.unlined, Record.EnumField.unlined, Function.comp_def]
  have hfields := buildEnumFields_unlined names ⟨names.space, nestedName parent e.name⟩ e.fields
  simp only [buildEnum, hunique]
  cases checkUnique [] (e.fields.map fun f => (f.name, f.line)) with
  | error fault => rfl
  | ok _ =>
    simp only [Record.Enum.unlined, Names.space_unlined, hfields, Except.mapError, bind, Except.bind]
    cases buildEnumFields ⟨names.space, nestedName parent e.name⟩ names e.fields <;> rfl

theorem buildEnums_unlined (parent : Option String) (enums : List Record.Enum) :
    buildEnums parent names.unlined (enums.map Record.Enum.unlined) =
      ((buildEnums parent names enums).map (Prod.map id Names.unlined)).mapError
        BuildFault.unlined := by
  induction enums generalizing names with
  | nil => rfl
  | cons e rest ih =>
    simp only [List.map_cons, buildEnums, buildEnum_unlined]
    cases buildEnum parent names e with
    | error fault => rfl
    | ok built =>
      simp only [Except.map, Except.mapError, bind, Except.bind, Prod.map_snd, ih]
      cases buildEnums parent built.2 rest <;> rfl

theorem buildNestedEnums_unlined (nested : List (String × List Record.Enum)) :
    buildNestedEnums names.unlined (nested.map (Prod.map id (List.map Record.Enum.unlined))) =
      ((buildNestedEnums names nested).map (Prod.map id Names.unlined)).mapError
        BuildFault.unlined := by
  induction nested generalizing names with
  | nil => rfl
  | cons p rest ih =>
    obtain ⟨parent, enums⟩ := p
    simp only [List.map_cons, Prod.map_apply, id_eq, buildNestedEnums, buildEnums_unlined]
    cases buildEnums (some parent) names enums with
    | error fault => rfl
    | ok built =>
      simp only [Except.map, Except.mapError, bind, Except.bind, Prod.map_snd, ih]
      cases buildNestedEnums built.2 rest <;> rfl

theorem buildConstant_unlined (scope : List String) (c : Record.Constant) :
    buildConstant names.unlined scope c.unlined = (buildConstant names scope c).unlined := by
  simp only [buildConstant, Record.Constant.unlined, Names.resolveKind_unlined scope c.line,
    Names.resolveValue_unlined scope c.line, unlined_bind, unlined_liftM, unlined_pure]

theorem mapM_resolveValue_unlined (scope : List String) (line : UInt32) (expr : Option ValueExpr) :
    expr.mapM (names.unlined.resolveValue scope 0) =
      (expr.mapM (names.resolveValue scope line)).mapError BuildFault.unlined := by
  cases expr with
  | none => rfl
  | some expr =>
    simp only [Option.mapM_some, Names.resolveValue_unlined scope line]
    cases names.resolveValue scope line expr <;> rfl

theorem buildField_unlined (scope : List String) (f : Record.Field) :
    buildField names.unlined scope f.unlined = (buildField names scope f).unlined := by
  simp only [buildField, Record.Field.unlined, Names.resolveKind_unlined scope f.line,
    mapM_resolveValue_unlined names scope f.line, unlined_bind, unlined_lift, unlined_pure]

theorem nestedNames_unlined (enums : List Record.Enum) (constants : List Record.Constant) :
    nestedNames (enums.map Record.Enum.unlined) (constants.map Record.Constant.unlined) =
      (nestedNames enums constants).map fun p => (p.1, 0) := by
  simp [nestedNames, Record.Enum.unlined, Record.Constant.unlined, Function.comp_def]

theorem buildStruct_unlined (s : Record.Struct) (enums : List Enum) :
    buildStruct names.unlined s.unlined enums = (buildStruct names s enums).unlined := by
  have hdeclared : s.unlined.fields.map (fun f => (f.name, f.line)) ++
      nestedNames s.unlined.enums s.unlined.constants =
      (s.fields.map (fun f => (f.name, f.line)) ++ nestedNames s.enums s.constants).map
        fun p => (p.1, 0) := by
    simp [Record.Struct.unlined, Record.Field.unlined, nestedNames_unlined, Function.comp_def]
  simp only [buildStruct, hdeclared, checkUnique_unlined, unlined_bind, unlined_liftM, unlined_pure]
  simp only [Record.Struct.unlined, mapM_map_of_unlined (buildConstant_unlined names _),
    mapM_map_of_unlined (buildField_unlined names _), Names.space_unlined]

theorem buildClient_unlined (i : Record.Interface) :
    buildClient names.unlined i.unlined = (buildClient names i).unlined := by
  have hresolve (name : String) := @Names.resolveKind_unlined names [i.name] i.line name
  simp only [buildClient, Record.Interface.unlined, hresolve]
  split
  · rfl
  · rw [unlined_bind]
    refine congrArg _ (funext fun k => ?_)
    cases k <;> rfl
  · rw [unlined_bind]
    refine congrArg _ (funext fun k => ?_)
    cases k <;> rfl
  · rfl

theorem buildParameters_unlined (scope : List String) (parameters : List Record.Parameter) :
    buildParameters names.unlined scope (parameters.map Record.Parameter.unlined) =
      (buildParameters names scope parameters).unlined := by
  have hparameter (p : Record.Parameter) :
      buildParameter names.unlined scope p.unlined =
        (buildParameter names scope p).unlined := by
    simp only [buildParameter, Record.Parameter.unlined, Names.resolveKind_unlined scope p.line,
      unlined_bind, unlined_pure]
  have hdeclared : (parameters.map Record.Parameter.unlined).map (fun p => (p.name, p.line)) =
      (parameters.map fun p => (p.name, p.line)).map fun p => (p.1, 0) := by
    simp [Record.Parameter.unlined, Function.comp_def]
  rw [buildParameters, hdeclared, checkUnique_unlined, mapM_map_of_unlined hparameter,
    buildParameters, unlined_bind, unlined_liftM]

theorem buildMethods_unlined (interface : String) (next : Option UInt32)
    (used : List (UInt32 × String)) (methods : List Record.Method) :
    buildMethods names.unlined interface next used (methods.map Record.Method.unlined) =
      (buildMethods names interface next used methods).unlined := by
  induction methods generalizing next used with
  | nil => rfl
  | cons m rest ih =>
    have hresponse :=
      option_mapM_map_of_unlined (buildParameters_unlined names [interface]) m.response
    simp only [List.map_cons, buildMethods, Record.Method.unlined]
    cases Ordinal.choose? m.ordinal next with
    | none => rfl
    | some ordinal =>
      dsimp only
      cases used.lookup ordinal with
      | some first => rfl
      | none =>
        simp only [buildParameters_unlined, hresponse, ih, unlined_bind, unlined_pure]

theorem buildInterface_unlined (i : Record.Interface) (enums : List Enum) :
    buildInterface names.unlined i.unlined enums = (buildInterface names i enums).unlined := by
  have hdeclared : i.unlined.methods.map (fun m => (m.name, m.line)) ++
      nestedNames i.unlined.enums i.unlined.constants =
      (i.methods.map (fun m => (m.name, m.line)) ++ nestedNames i.enums i.constants).map
        fun p => (p.1, 0) := by
    simp [Record.Interface.unlined, Record.Method.unlined, nestedNames_unlined, Function.comp_def]
  simp only [buildInterface, hdeclared, checkUnique_unlined, buildClient_unlined, unlined_bind,
    unlined_liftM, unlined_pure]
  simp only [Record.Interface.unlined, mapM_map_of_unlined (buildConstant_unlined names _),
    buildMethods_unlined, Names.space_unlined]

theorem buildDeclarations_unlined (r : Record) (structEnums interfaceEnums : List (List Enum)) :
    buildDeclarations names.unlined r.unlined structEnums interfaceEnums =
      (buildDeclarations names r structEnums interfaceEnums).unlined := by
  have hstructs : ((r.structs.map Record.Struct.unlined).zip structEnums).mapM
      (fun p => buildStruct names.unlined p.1 p.2) =
        ((r.structs.zip structEnums).mapM fun p => buildStruct names p.1 p.2).unlined := by
    rw [List.zip_map_left]
    exact mapM_map_of_unlined (fun p => buildStruct_unlined names p.1 p.2) _
  have hinterfaces : ((r.interfaces.map Record.Interface.unlined).zip interfaceEnums).mapM
      (fun p => buildInterface names.unlined p.1 p.2) =
        ((r.interfaces.zip interfaceEnums).mapM fun p => buildInterface names p.1 p.2).unlined := by
    rw [List.zip_map_left]
    exact mapM_map_of_unlined (fun p => buildInterface_unlined names p.1 p.2) _
  simp only [buildDeclarations, Record.unlined, unlined_bind, unlined_pure,
    mapM_map_of_unlined (buildConstant_unlined names _)]
  refine congrArg _ (funext fun constants => ?_)
  refine (congrArg (· >>= _) hstructs).trans (congrArg _ (funext fun structs => ?_))
  exact congrArg (· >>= _) hinterfaces

theorem topLevelNames_unlined (r : Record) :
    topLevelNames r.unlined = (topLevelNames r).map fun p => (p.1, 0) := by
  simp [topLevelNames, Record.unlined, Record.Struct.unlined, Record.Interface.unlined,
    Record.Enum.unlined, Record.Constant.unlined, Function.comp_def]

/-- A record without lines has the same module, or the same fault without its line. -/
theorem ofRecord_unlined (r : Record) (path : String) (imports : List (Import Module)) :
    ofRecord r.unlined path imports = (ofRecord r path imports).mapError BuildFault.unlined := by
  have hstructEnums : r.unlined.structs.map (fun s => (s.name, s.enums)) =
      (r.structs.map fun s => (s.name, s.enums)).map (Prod.map id (List.map Record.Enum.unlined)) := by
    simp [Record.unlined, Record.Struct.unlined, Function.comp_def]
  have hinterfaceEnums : r.unlined.interfaces.map (fun i => (i.name, i.enums)) =
      (r.interfaces.map fun i => (i.name, i.enums)).map
        (Prod.map id (List.map Record.Enum.unlined)) := by
    simp [Record.unlined, Record.Interface.unlined, Function.comp_def]
  rw [ofRecord, topLevelNames_unlined, checkUnique_unlined, hstructEnums, hinterfaceEnums, ofRecord,
    mapError_bind]
  refine congrArg _ (funext fun _ => ?_)
  rw [Names.ofRecord_unlined]
  dsimp only [Record.unlined]
  rw [buildEnums_unlined, mapError_map_bind, mapError_bind]
  refine congrArg _ (funext fun built => ?_)
  obtain ⟨enums, names⟩ := built
  dsimp only [Prod.map, id_eq]
  rw [buildNestedEnums_unlined, mapError_map_bind, mapError_bind]
  refine congrArg _ (funext fun built => ?_)
  obtain ⟨structEnums, names⟩ := built
  dsimp only [Prod.map, id_eq]
  rw [buildNestedEnums_unlined, mapError_map_bind, mapError_bind]
  refine congrArg _ (funext fun built => ?_)
  obtain ⟨interfaceEnums, names⟩ := built
  dsimp only [Prod.map, id_eq]
  rw [← Record.unlined, buildDeclarations_unlined, mapError_bind]
  rfl

end Module

end WireSchema
