import WireSchema.Proofs.Layout.Numbering
import WireSchema.Proofs.Layout.Valid
import WireSchema.Proofs.Module.Unambiguous

/-!
# Methods are numbered like fields

The methods of an interface get their ordinals in one pass, which stops at the first method that
has none left or that of a method before. The fields of a struct are all numbered first, then ordered
and compared. Both accept the same lists of written ordinals, and give the same ones
(`exists_buildMethods_iff`). Where they refuse, the interface reports the first method at fault
(`Misnumbered`), in the order in which the methods are declared (`buildMethods_eq_error`).
-/

namespace WireSchema.Module

open Resolving
open Layout (numbers nextNumber nextNumber_succ? number_of_choose? Exceeds exceeds_zero
  not_exceeds_zero_of_number exceeds_cons_succ_iff exists_isLeast_succ_iff assignOrdinals
  assignOrdinals_cons_eq_ok_iff)

variable {names : Names} {interface : String} {next : Option UInt32}
  {used : List (UInt32 × String)} {m : Record.Method} {methods : List Record.Method}
  {f : Field} {fields : List Field} {o : UInt32} {first : String}

/-! ## What is assumed of the rest of an interface -/

/-- The kinds and the names of the parameters of a method are in order. -/
def ParametersBuild (names : Names) (interface : String) (m : Record.Method) : Prop :=
  ∀ records ∈ m.parameters :: m.response.toList,
    ∃ parameters, (buildParameters names [interface] records).value = .ok parameters

/-- All of an interface but the ordinals of its methods is in order. -/
structure Resolvable (names : Names) (i : Record.Interface) : Prop where
  members : (i.methods.map Record.Method.name ++
    (i.enums.map Record.Enum.name ++ i.constants.map Record.Constant.name)).Nodup
  client : ∃ client, (buildClient names i).value = .ok client
  constants : ∀ c ∈ i.constants, ∃ constant, (buildConstant names [i.name] c).value = .ok constant
  parameters : ∀ m ∈ i.methods, ParametersBuild names i.name m

/-- Then the interface is built if its methods are, and fails as they do. -/
theorem Resolvable.buildInterface_eq {i : Record.Interface} (h : Resolvable names i)
    (enums : List Enum) : ∃ client constants, (buildInterface names i enums).value =
      (buildMethods names i.name (some 0) [] i.methods).value.map fun methods =>
        ⟨i.name, names.space, client, methods, enums, constants, i.attributes⟩ := by
  obtain ⟨client, hclient⟩ := h.client
  obtain ⟨constants, hconstants⟩ := List.exists_mapM h.constants
  have hunique : checkUnique [] (i.methods.map (fun m => (m.name, m.line)) ++
      nestedNames i.enums i.constants) = .ok () := by
    rw [checkUnique_nil, List.map_append, map_fst_nestedNames, List.map_map]
    exact h.members
  refine ⟨client, constants, ?_⟩
  rw [value_buildInterface, hunique, hclient, hconstants]
  cases (buildMethods names i.name (some 0) [] i.methods).value <;> rfl

/-! ## One method -/

theorem buildMethods_of_no_ordinal (rest : List Record.Method)
    (h : Ordinal.choose? m.ordinal next = none) :
    (buildMethods names interface next used (m :: rest)).value =
      .error (.validation m.line (.methodOrdinalOverflow interface m.name)) := by
  rw [buildMethods, h]
  rfl

theorem buildMethods_of_used (rest : List Record.Method)
    (h : Ordinal.choose? m.ordinal next = some o) (hused : used.lookup o = some first) :
    (buildMethods names interface next used (m :: rest)).value =
      .error (.validation m.line (.duplicateMethodOrdinal interface o first m.name)) := by
  simp only [buildMethods, h, hused]
  rfl

theorem buildMethods_of_free (rest : List Record.Method)
    (h : Ordinal.choose? m.ordinal next = some o) (hfree : used.lookup o = none)
    (hm : ParametersBuild names interface m) :
    ∃ parameters response, (buildMethods names interface next used (m :: rest)).value =
      (buildMethods names interface (Ordinal.succ? o) ((o, m.name) :: used) rest).value.map
        (⟨m.name, o, parameters, response, m.attributes⟩ :: ·) := by
  obtain ⟨⟨parameters, hparameters⟩, hresponses⟩ := List.forall_mem_cons.1 hm
  obtain ⟨response, hresponse⟩ : ∃ response,
      (m.response.mapM fun records => (buildParameters names [interface] records).value) =
        .ok response := by
    cases hr : m.response with
    | none => exact ⟨none, rfl⟩
    | some records =>
      obtain ⟨response, hresponse⟩ := hresponses records (by simp [hr])
      exact ⟨some response, by simp [hresponse]⟩
  refine ⟨parameters, response, ?_⟩
  simp only [buildMethods, h, hfree, value_bind, value_option_mapM, hparameters, hresponse]
  cases (buildMethods names interface (Ordinal.succ? o) ((o, m.name) :: used) rest).value <;> rfl

/-! ## Lists that are accepted -/

theorem lookup_cons_eq_none_iff {o' : UInt32} :
    ((o, first) :: used).lookup o' = none ↔ o' ≠ o ∧ used.lookup o' = none := by
  simp only [List.lookup_eq_none_iff, List.forall_mem_cons, bne_iff_ne]

theorem exists_buildMethods_cons_iff {ordinals : List UInt32} {rest : List Record.Method}
    (hm : ParametersBuild names interface m) :
    (∃ built, (buildMethods names interface next used (m :: rest)).value = .ok built ∧
      built.map Method.ordinal = ordinals) ↔
    ∃ o others, Ordinal.choose? m.ordinal next = some o ∧ used.lookup o = none ∧
      ordinals = o :: others ∧
      ∃ built, (buildMethods names interface (Ordinal.succ? o) ((o, m.name) :: used) rest).value =
        .ok built ∧ built.map Method.ordinal = others := by
  cases hchoose : Ordinal.choose? m.ordinal next with
  | none => simp [buildMethods_of_no_ordinal rest hchoose]
  | some o =>
    simp only [Option.some.injEq, exists_and_left, exists_eq_left']
    cases hused : used.lookup o with
    | some first => simp [buildMethods_of_used rest hchoose hused]
    | none =>
      obtain ⟨parameters, response, hbuild⟩ := buildMethods_of_free rest hchoose hused hm
      rw [hbuild]
      cases (buildMethods names interface (Ordinal.succ? o) ((o, m.name) :: used) rest).value with
      | error fault => simp [Except.map]
      | ok built =>
        simp only [Except.map, Except.ok.injEq, exists_eq_left', List.map_cons, true_and]
        exact ⟨fun h => ⟨_, h.symm, rfl⟩, by rintro ⟨_, rfl, rfl⟩; rfl⟩

/-- Methods and fields with the same ordinals written get the same ordinals, and are refused
together. What is compared while methods are numbered is what is compared at the end for fields. -/
theorem exists_buildMethods_iff {ordinals : List UInt32}
    (hsame : methods.map Record.Method.ordinal = fields.map Field.ordinal)
    (hm : ∀ m ∈ methods, ParametersBuild names interface m) :
    (∃ built, (buildMethods names interface next used methods).value = .ok built ∧
      built.map Method.ordinal = ordinals) ↔
    ∃ assigned, assignOrdinals next fields = .ok assigned ∧
      assigned.map Placed.ordinal = ordinals ∧ ordinals.Nodup ∧
      ∀ o ∈ ordinals, used.lookup o = none := by
  induction methods generalizing fields next used ordinals with
  | nil =>
    obtain rfl : fields = [] := by simpa using hsame.symm
    simp only [buildMethods, value_pure, Except.pure_eq_ok, assignOrdinals, Except.ok.injEq,
      exists_eq_left', List.map_nil]
    constructor
    · rintro rfl
      simp
    · exact And.left
  | cons m methods ih =>
    cases fields with
    | nil => simp at hsame
    | cons f fields =>
      obtain ⟨hf, hsame⟩ := List.cons.inj hsame
      obtain ⟨hm, hms⟩ := List.forall_mem_cons.1 hm
      rw [exists_buildMethods_cons_iff hm, hf]
      simp only [ih hsame hms, assignOrdinals_cons_eq_ok_iff, lookup_cons_eq_none_iff]
      constructor
      · rintro ⟨o, others, hchoose, hfree, rfl, assigned, hassigned, rfl, hnodup, hnew⟩
        refine ⟨_, ⟨o, assigned, hchoose, hassigned, rfl⟩, rfl, ?_, ?_⟩
        · exact List.nodup_cons.2 ⟨fun ho => (hnew o ho).1 rfl, hnodup⟩
        · exact List.forall_mem_cons.2 ⟨hfree, fun o' ho' => (hnew o' ho').2⟩
      · rintro ⟨_, ⟨o, assigned, hchoose, hassigned, rfl⟩, rfl, hnodup, hfree⟩
        obtain ⟨ho, hnodup⟩ := List.nodup_cons.1 hnodup
        obtain ⟨hfirst, hfree⟩ := List.forall_mem_cons.1 hfree
        refine ⟨o, _, hchoose, hfirst, rfl, assigned, hassigned, rfl, hnodup, fun o' ho' => ?_⟩
        exact ⟨fun heq => ho (heq ▸ ho'), hfree o' ho'⟩

/-! ## The first method at fault -/

/-- The method at `k` gets the ordinal of one before it, or of one of `used`, whose name is
`first`. -/
def Repeats (next : Nat) (used : List (UInt32 × String)) (fields : List Field)
    (methods : List Record.Method) (k : Nat) (o : UInt32) (first : String) : Prop :=
  (numbers next fields)[k]? = some o.toNat ∧
    ((o, first) ∈ used ∨ ∃ j < k, ∃ m, methods[j]? = some m ∧ m.name = first ∧
      (numbers next fields)[j]? = some o.toNat)

/-- The method at `k` has no ordinal left, or that of one before it. -/
def Misnumbered (next : Nat) (used : List (UInt32 × String)) (fields : List Field)
    (methods : List Record.Method) (k : Nat) : Prop :=
  Exceeds next fields k ∨ ∃ o first, Repeats next used fields methods k o first

/-- What is reported of the method at `k`. -/
inductive Reports (interface : String) (next : Nat) (used : List (UInt32 × String))
    (fields : List Field) (methods : List Record.Method) (k : Nat) : BuildFault → Prop where
  | overflow {m : Record.Method} (at_k : methods[k]? = some m) (exceeds : Exceeds next fields k) :
    Reports interface next used fields methods k
      (.validation m.line (.methodOrdinalOverflow interface m.name))
  | duplicate {m : Record.Method} {o : UInt32} {first : String} (at_k : methods[k]? = some m)
    (repeats : Repeats next used fields methods k o first) :
    Reports interface next used fields methods k
      (.validation m.line (.duplicateMethodOrdinal interface o first m.name))

theorem repeats_succ_iff {k : Nat} {o' : UInt32}
    (hnumber : (f.ordinal.map UInt32.toNat).getD (nextNumber next) = o.toNat) :
    Repeats (nextNumber next) used (f :: fields) (m :: methods) (k + 1) o' first ↔
      Repeats (nextNumber (Ordinal.succ? o)) ((o, m.name) :: used) fields methods k o' first := by
  simp only [Repeats, numbers, hnumber, nextNumber_succ?, List.getElem?_cons_succ]
  refine and_congr_right fun _ => ?_
  rw [List.mem_cons, or_assoc, or_left_comm]
  refine or_congr_right ?_
  constructor
  · rintro ⟨j, hj, m', hm', rfl, ho'⟩
    cases j with
    | zero =>
      obtain rfl : m = m' := by simpa using hm'
      exact .inl (by simpa [UInt32.toNat_inj, eq_comm] using ho')
    | succ j => exact .inr ⟨j, Nat.lt_of_succ_lt_succ hj, m', hm', rfl, ho'⟩
  · rintro (heq | ⟨j, hj, m', hm', rfl, ho'⟩)
    · obtain ⟨rfl, rfl⟩ := Prod.mk.inj heq
      exact ⟨0, Nat.succ_pos k, m, rfl, rfl, rfl⟩
    · exact ⟨j + 1, Nat.succ_lt_succ hj, m', hm', rfl, ho'⟩

theorem misnumbered_succ_iff {k : Nat}
    (hnumber : (f.ordinal.map UInt32.toNat).getD (nextNumber next) = o.toNat) :
    Misnumbered (nextNumber next) used (f :: fields) (m :: methods) (k + 1) ↔
      Misnumbered (nextNumber (Ordinal.succ? o)) ((o, m.name) :: used) fields methods k := by
  simp only [Misnumbered, exceeds_cons_succ_iff k hnumber, repeats_succ_iff hnumber]

theorem not_misnumbered_zero {n : Nat} (hnumber : (f.ordinal.map UInt32.toNat).getD n = o.toNat)
    (hfree : used.lookup o = none) : ¬ Misnumbered n used (f :: fields) (m :: methods) 0 := by
  rintro (hexceeds | ⟨o', first, ho', hused | ⟨j, hj, -⟩⟩)
  · exact not_exceeds_zero_of_number hnumber hexceeds
  · obtain rfl : o = o' := by
      simpa [numbers, hnumber, UInt32.toNat_inj] using ho'
    exact absurd rfl (bne_iff_ne.1 (List.lookup_eq_none_iff.1 hfree _ hused))
  · exact Nat.not_lt_zero j hj

theorem Reports.succ {k : Nat} {fault : BuildFault}
    (hnumber : (f.ordinal.map UInt32.toNat).getD (nextNumber next) = o.toNat)
    (h : Reports interface (nextNumber (Ordinal.succ? o)) ((o, m.name) :: used) fields methods k
      fault) :
    Reports interface (nextNumber next) used (f :: fields) (m :: methods) (k + 1) fault := by
  cases h with
  | overflow at_k exceeds => exact .overflow at_k ((exceeds_cons_succ_iff k hnumber).2 exceeds)
  | duplicate at_k repeats => exact .duplicate at_k ((repeats_succ_iff hnumber).2 repeats)

/-- Methods that are refused are refused for the first one at fault. -/
theorem buildMethods_eq_error {fault : BuildFault}
    (hsame : methods.map Record.Method.ordinal = fields.map Field.ordinal)
    (hm : ∀ m ∈ methods, ParametersBuild names interface m)
    (h : (buildMethods names interface next used methods).value = .error fault) :
    ∃ k, IsLeast {k | Misnumbered (nextNumber next) used fields methods k} k ∧
      Reports interface (nextNumber next) used fields methods k fault := by
  induction methods generalizing fields next used with
  | nil => cases h
  | cons m methods ih =>
    cases fields with
    | nil => simp at hsame
    | cons f fields =>
      obtain ⟨hf, hsame⟩ := List.cons.inj hsame
      obtain ⟨hm, hms⟩ := List.forall_mem_cons.1 hm
      cases hchoose : Ordinal.choose? m.ordinal next with
      | none =>
        rw [buildMethods_of_no_ordinal methods hchoose] at h
        obtain rfl := Except.error.inj h
        have hexceeds : Exceeds (nextNumber next) (f :: fields) 0 := exceeds_zero (hf ▸ hchoose)
        exact ⟨0, ⟨.inl hexceeds, fun _ _ => Nat.zero_le _⟩, .overflow rfl hexceeds⟩
      | some o =>
        have hnumber := number_of_choose? (hf ▸ hchoose)
        cases hused : used.lookup o with
        | some first =>
          rw [buildMethods_of_used methods hchoose hused] at h
          obtain rfl := Except.error.inj h
          have hmem : (o, first) ∈ used := by
            obtain ⟨before, after, rfl, -⟩ := List.lookup_eq_some_iff.1 hused
            simp
          have hrepeats : Repeats (nextNumber next) used (f :: fields) (m :: methods) 0 o first :=
            ⟨by simp [numbers, hnumber], .inl hmem⟩
          exact ⟨0, ⟨.inr ⟨o, first, hrepeats⟩, fun _ _ => Nat.zero_le _⟩, .duplicate rfl hrepeats⟩
        | none =>
          -- This method gets its ordinal, so the fault is among those behind it.
          obtain ⟨parameters, response, hbuild⟩ := buildMethods_of_free methods hchoose hused hm
          rw [hbuild, Except.map_eq_error] at h
          obtain ⟨k, hleast, hreports⟩ := ih hsame hms h
          rw [exists_isLeast_succ_iff (not_misnumbered_zero hnumber hused)]
          simp only [misnumbered_succ_iff hnumber]
          exact ⟨k, hleast, hreports.succ hnumber⟩

/-! ## Interfaces and structs -/

theorem methods_of_buildInterface {i : Record.Interface} {enums : List Enum}
    {built : Interface} (h : (buildInterface names i enums).value = .ok built) :
    (buildMethods names i.name (some 0) [] i.methods).value = .ok built.methods := by
  simp only [value_buildInterface, Except.bind_eq_ok, Except.pure_eq_ok] at h
  obtain ⟨-, -, client, -, constants, -, methods, hmethods, rfl⟩ := h
  exact hmethods

theorem Resolvable.methods_eq_error {i : Record.Interface} {enums : List Enum}
    {fault : BuildFault} (h : Resolvable names i)
    (hfault : (buildInterface names i enums).value = .error fault) :
    (buildMethods names i.name (some 0) [] i.methods).value = .error fault := by
  obtain ⟨client, constants, hbuild⟩ := h.buildInterface_eq enums
  rwa [hbuild, Except.map_eq_error] at hfault

/-- The fields of a layout with their ordinals are those of the struct in another order. -/
theorem perm_zip_ordinals {s : Struct} {layout : Layout} {assigned : List Placed}
    (h : Layout.ofStruct s = .ok layout) (ha : assignOrdinals (some 0) s.fields = .ok assigned) :
    (layout.fields.map fun p => (p.field, p.ordinal)).Perm
      (s.fields.zip (assigned.map Placed.ordinal)) := by
  obtain ⟨assigned', ha', hfields, hperm⟩ := Layout.numbered_of_ofStruct h
  obtain rfl : assigned' = assigned := Except.ok.inj (ha'.symm.trans ha)
  rw [← hfields, List.zip_map']
  have hmap := hperm.map fun p => (p.field, p.ordinal)
  rwa [List.map_map] at hmap

/-- An interface whose methods have the written ordinals of the fields of a struct, and all else in
order, is built if and only if the struct has a layout. Then each method has the ordinal of the
field in its place. Otherwise the fault is that of the first method that has no ordinal left or that
of one before it. Which kinds were noted before makes no difference. -/
theorem buildInterface_numbered_like_struct (names : Names) (i : Record.Interface)
    (enums : List Enum) (s : Struct) (noted : SortedMap Kind)
    (hsame : i.methods.map Record.Method.ordinal = s.fields.map Field.ordinal)
    (h : Resolvable names i) :
    ((∃ interface noted', (buildInterface names i enums).run noted = .ok (interface, noted')) ↔
      ∃ layout, Layout.ofStruct s = .ok layout) ∧
    (∀ interface noted' layout, (buildInterface names i enums).run noted = .ok (interface, noted') →
      Layout.ofStruct s = .ok layout →
      interface.methods.map Method.name = i.methods.map Record.Method.name ∧
      (∃ assigned, assignOrdinals (some 0) s.fields = .ok assigned ∧
        interface.methods.map Method.ordinal = assigned.map Placed.ordinal) ∧
      (layout.fields.map fun p => (p.field, p.ordinal)).Perm
        (s.fields.zip (interface.methods.map Method.ordinal))) ∧
    ∀ fault, (buildInterface names i enums).run noted = .error fault →
      ∃ k, IsLeast {k | Misnumbered 0 [] s.fields i.methods k} k ∧
        Reports i.name 0 [] s.fields i.methods k fault := by
  refine ⟨⟨?_, ?_⟩, ?_, ?_⟩
  · rintro ⟨interface, noted', hbuilt⟩
    obtain ⟨assigned, ha, hordinals, hnodup, -⟩ := (exists_buildMethods_iff hsame h.parameters).1
      ⟨_, methods_of_buildInterface (value_of_run hbuilt), rfl⟩
    exact ⟨_, Layout.ofStruct_of_nodup ha (hordinals ▸ hnodup)⟩
  · rintro ⟨layout, hlayout⟩
    obtain ⟨assigned, ha, hnodup, -⟩ := Layout.assigned_of_ofStruct hlayout
    obtain ⟨methods, hmethods, -⟩ : ∃ methods,
        (buildMethods names i.name (some 0) [] i.methods).value = .ok methods ∧
          methods.map Method.ordinal = assigned.map Placed.ordinal :=
      (exists_buildMethods_iff hsame h.parameters).2 ⟨assigned, ha, rfl, hnodup, fun _ _ => rfl⟩
    obtain ⟨client, constants, hbuild⟩ := h.buildInterface_eq enums
    rw [hmethods] at hbuild
    exact ⟨_, (value_eq_ok_iff noted).1 hbuild⟩
  · intro interface noted' layout hbuilt hlayout
    have hmethods := methods_of_buildInterface (value_of_run hbuilt)
    obtain ⟨assigned, ha, hordinals, -⟩ := (exists_buildMethods_iff hsame h.parameters).1
      ⟨_, hmethods, rfl⟩
    refine ⟨(distinct_of_buildMethods hmethods).1, ⟨assigned, ha, hordinals.symm⟩, ?_⟩
    rw [← hordinals]
    exact perm_zip_ordinals hlayout ha
  · intro fault hfault
    exact buildMethods_eq_error hsame h.parameters
      (h.methods_eq_error ((value_eq_error_iff noted).2 hfault))

/-- `interface Door { Open@7(uint32 code); Close@7() => (); Lock@4294967295(); Unlock(); };` -/
def door : Record.Interface where
  line := 1
  name := "Door"
  attributes := ∅
  methods :=
    [⟨1, "Open", some 7, [⟨1, "code", "u32", none, ∅⟩], none, ∅⟩,
      ⟨1, "Close", some 7, [], some [], ∅⟩, ⟨1, "Lock", some 4294967295, [], none, ∅⟩,
      ⟨1, "Unlock", none, [], none, ∅⟩]
  enums := []
  constants := []

/-- A struct with the ordinals of `door`. -/
def doorStruct : Struct where
  name := "Door"
  space := ""
  attributes := ∅
  fields := door.methods.map fun m => ⟨m.name, .basic .bool, m.ordinal, none, ∅⟩
  enums := []
  constants := []

theorem resolvable_door : Resolvable { space := "" } door where
  members := by decide
  client := ⟨none, rfl⟩
  constants := by simp [door]
  parameters := by
    intro m hm records hrecords
    simp only [door, List.mem_cons, List.not_mem_nil, or_false] at hm
    rcases hm with rfl | rfl | rfl | rfl <;>
      simp only [Option.toList, List.mem_cons, List.not_mem_nil, or_false, or_self] at hrecords <;>
      subst hrecords <;> exact ⟨_, rfl⟩

/-- The interface `door` is refused for its second method, and the struct with the same ordinals for
its last field. -/
theorem numbered_like_struct_door :
    door.methods.map Record.Method.ordinal = doorStruct.fields.map Field.ordinal ∧
    Resolvable { space := "" } door ∧
    (¬ ∃ interface noted, (buildInterface { space := "" } door []).run ∅ = .ok (interface, noted)) ∧
    Layout.ofStruct doorStruct = .error ⟨"Door", .ordinalOverflow "Unlock"⟩ ∧
    ∃ k, IsLeast {k | Misnumbered 0 [] doorStruct.fields door.methods k} k ∧
      Reports "Door" 0 [] doorStruct.fields door.methods k
        (.validation 1 (.duplicateMethodOrdinal "Door" 7 "Open" "Close")) := by
  have hsame : door.methods.map Record.Method.ordinal = doorStruct.fields.map Field.ordinal := rfl
  have hstruct : Layout.ofStruct doorStruct = .error ⟨"Door", .ordinalOverflow "Unlock"⟩ := rfl
  obtain ⟨hiff, -, hreports⟩ :=
    buildInterface_numbered_like_struct { space := "" } door [] doorStruct ∅ hsame resolvable_door
  refine ⟨hsame, resolvable_door, ?_, hstruct, hreports _ rfl⟩
  rw [hiff, hstruct]
  rintro ⟨layout, ⟨⟩⟩

end WireSchema.Module
