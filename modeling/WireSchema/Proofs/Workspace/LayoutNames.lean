import Mathlib.Data.List.Lattice
import WireSchema.Proofs.Workspace.Closed

/-!
# Names of layouts

The structs of a module that are laid out are the declared ones and those that carry what methods
take and return. The latter get their names by joining names with underscores after all checks for
names that are used twice, so a name may occur twice among the layouts. That happens in two ways
only: a declared struct has the name of a method's struct, or the name of an interface and that of a
method overlap in the joined name (`Module.Overlaps`). In modules that are compiled, the names of the
layouts differ if and only if neither occurs (`Workspace.compile_nodup_layoutStructs_iff`).
-/

namespace WireSchema.Module

variable {m : Module} {i j : Interface} {f g : Method} {name : String}

/-! ## Joined names -/

/-- Two texts that are joined in different ways to the same text overlap. -/
theorem of_append_underscore_eq {a b c d : List Char} (h : a ++ '_' :: b = c ++ '_' :: d) :
    (a = c ∧ b = d) ∨ (∃ x, c = a ++ '_' :: x ∧ b = x ++ '_' :: d) ∨
      ∃ x, a = c ++ '_' :: x ∧ d = x ++ '_' :: b := by
  rcases List.append_eq_append_iff.1 h with ⟨x, hc, hb⟩ | ⟨x, ha, hd⟩
  · cases x with
    | nil => simp_all
    | cons u x =>
      simp only [List.cons_append, List.cons.injEq] at hb
      obtain ⟨rfl, hb⟩ := hb
      exact .inr (.inl ⟨x, hc, hb⟩)
  · cases x with
    | nil => simp_all
    | cons u x =>
      simp only [List.cons_append, List.cons.injEq] at hd
      obtain ⟨rfl, hd⟩ := hd
      exact .inr (.inr ⟨x, ha, hd⟩)

/-- The part of the names of a method's structs that is made of its own and its interface's name. -/
def Interface.stem (i : Interface) (f : Method) : String :=
  i.name ++ "_" ++ f.name

/-- The name of the second interface goes on where that of the first ends, as far into the name of the
first method as is needed for the name of the second to be left. -/
def Overlaps (i : Interface) (f : Method) (j : Interface) (g : Method) : Prop :=
  ∃ x, j.name = i.name ++ "_" ++ x ∧ f.name = x ++ "_" ++ g.name

theorem Overlaps.name_ne (h : Overlaps i f j g) : i.name ≠ j.name := by
  obtain ⟨x, hj, -⟩ := h
  intro heq
  have hlength := congrArg String.length (heq.trans hj)
  simp only [String.length_append] at hlength
  have hunderscore : "_".length = 1 := rfl
  omega

theorem Overlaps.stem_eq (h : Overlaps i f j g) : i.stem f = j.stem g := by
  obtain ⟨x, hj, hf⟩ := h
  simp [Interface.stem, hj, hf, String.append_assoc]

theorem overlaps_of_toList {x : List Char} (hj : j.name.toList = i.name.toList ++ '_' :: x)
    (hf : f.name.toList = x ++ '_' :: g.name.toList) : Overlaps i f j g :=
  ⟨.ofList x, String.toList_inj.1 (by simp [hj]), String.toList_inj.1 (by simp [hf])⟩

/-- Joined names are the same only if the names are, or if they overlap. -/
theorem stem_eq (h : i.stem f = j.stem g) :
    (i.name = j.name ∧ f.name = g.name) ∨ Overlaps i f j g ∨ Overlaps j g i f := by
  have hlists : i.name.toList ++ '_' :: f.name.toList = j.name.toList ++ '_' :: g.name.toList := by
    simpa [Interface.stem] using congrArg String.toList h
  rcases of_append_underscore_eq hlists with ⟨hi, hf⟩ | ⟨x, hj, hf⟩ | ⟨x, hi, hg⟩
  · exact .inl ⟨String.toList_inj.1 hi, String.toList_inj.1 hf⟩
  · exact .inr (.inl (overlaps_of_toList hj hf))
  · exact .inr (.inr (overlaps_of_toList hi hg))

/-! ## Names of the structs of methods -/

def Interface.structNames (i : Interface) (f : Method) : List String :=
  (i.methodStructs f).map Struct.name

theorem mem_structNames : name ∈ i.structNames f ↔
    name = i.stem f ++ "_Params" ∨ f.response.isSome ∧ name = i.stem f ++ "_ResponseParams" := by
  cases hresponse : f.response <;>
    simp [Interface.structNames, Interface.methodStructs, Interface.parameterStruct,
      Interface.stem, hresponse]

/-- No name ends in both of the endings. -/
theorem params_ne_responseParams (a b : String) : a ++ "_Params" ≠ b ++ "_ResponseParams" := by
  intro h
  have hlists : a.toList ++ "_Params".toList =
      (b.toList ++ "_Respons".toList) ++ "eParams".toList := by
    rw [← String.toList_append, h]
    simp
  have hends := List.append_inj_right' hlists rfl
  exact absurd hends (by decide)

theorem nodup_structNames (i : Interface) (f : Method) : (i.structNames f).Nodup := by
  cases hresponse : f.response <;>
    simp [Interface.structNames, Interface.methodStructs, Interface.parameterStruct, hresponse]

theorem disjoint_structNames_iff :
    (i.structNames f).Disjoint (j.structNames g) ↔ i.stem f ≠ j.stem g := by
  constructor
  · intro h heq
    exact h (mem_structNames.2 (.inl rfl)) (mem_structNames.2 (.inl (heq ▸ rfl)))
  · intro hne name hi hj
    rw [mem_structNames] at hi hj
    rcases hi with rfl | ⟨-, rfl⟩ <;> rcases hj with hj | ⟨-, hj⟩
    · exact hne (String.append_left_inj _ |>.1 hj)
    · exact params_ne_responseParams _ _ hj
    · exact params_ne_responseParams _ _ hj.symm
    · exact hne (String.append_left_inj _ |>.1 hj)

/-! ## Names of layouts -/

/-- A concatenation of parts that keys tell apart has no duplicates if and only if no part has and
parts of different keys share nothing. -/
theorem nodup_flatMap_iff {α β κ : Type} {key : α → κ} {part : α → List β} {l : List α}
    (hkeys : (l.map key).Nodup) :
    (l.flatMap part).Nodup ↔ (∀ x ∈ l, (part x).Nodup) ∧
      ∀ x ∈ l, ∀ y ∈ l, key x ≠ key y → (part x).Disjoint (part y) := by
  rw [List.nodup_flatMap]
  refine and_congr_right fun _ => ⟨fun h x hx y hy hne => ?_, fun h => ?_⟩
  · have hsymm : Std.Symm (Function.onFun List.Disjoint part) := ⟨fun _ _ => List.Disjoint.symm⟩
    exact h.forall hx hy fun heq => hne (congrArg key heq)
  · exact (List.pairwise_map.1 hkeys).imp_of_mem fun hx hy hne => h _ hx _ hy hne

/-- No declared struct has the name of a struct of a method, and no two methods have names that
overlap with those of their interfaces. -/
structure LayoutsApart (m : Module) : Prop where
  declared : ∀ s ∈ m.structs, ∀ i ∈ m.interfaces, ∀ f ∈ i.methods, s.name ∉ i.structNames f
  methods : ∀ i ∈ m.interfaces, ∀ j ∈ m.interfaces, ∀ f ∈ i.methods, ∀ g ∈ j.methods,
    ¬ Overlaps i f j g

theorem map_name_layoutStructs (m : Module) : m.layoutStructs.map Struct.name =
    m.structs.map Struct.name ++
      m.interfaces.flatMap fun i => i.methods.flatMap i.structNames := by
  rw [layoutStructs, List.map_append, List.map_flatMap]
  simp only [List.map_flatMap]
  rfl

theorem nodup_flatMap_structNames (hmethods : (i.methods.map Method.name).Nodup) :
    (i.methods.flatMap i.structNames).Nodup := by
  refine (nodup_flatMap_iff hmethods).2 ⟨fun f _ => nodup_structNames i f, fun f _ g _ hne => ?_⟩
  refine disjoint_structNames_iff.2 fun heq => ?_
  rcases stem_eq heq with ⟨-, hname⟩ | hoverlaps | hoverlaps
  · exact hne hname
  · exact hoverlaps.name_ne rfl
  · exact hoverlaps.name_ne rfl

theorem disjoint_flatMap_structNames_iff :
    (i.methods.flatMap i.structNames).Disjoint (j.methods.flatMap j.structNames) ↔
      ∀ f ∈ i.methods, ∀ g ∈ j.methods, i.stem f ≠ j.stem g := by
  constructor
  · intro h f hf g hg
    refine disjoint_structNames_iff.1 fun name hi hj => ?_
    exact h (List.mem_flatMap.2 ⟨f, hf, hi⟩) (List.mem_flatMap.2 ⟨g, hg, hj⟩)
  · intro h name hi hj
    obtain ⟨f, hf, hi⟩ := List.mem_flatMap.1 hi
    obtain ⟨g, hg, hj⟩ := List.mem_flatMap.1 hj
    exact disjoint_structNames_iff.2 (h f hf g hg) hi hj

/-- Among structs and interfaces with different names, with different names of the methods of each,
the names of layouts differ if and only if they are kept apart. -/
theorem nodup_layoutStructs_iff
    (hnames : (m.structs.map Struct.name ++ m.interfaces.map Interface.name).Nodup)
    (hmethods : ∀ i ∈ m.interfaces, (i.methods.map Method.name).Nodup) :
    (m.layoutStructs.map Struct.name).Nodup ↔ m.LayoutsApart := by
  obtain ⟨hstructs, hinterfaces, -⟩ := List.nodup_append'.1 hnames
  have hparts : ∀ i ∈ m.interfaces, (i.methods.flatMap i.structNames).Nodup :=
    fun i hi => nodup_flatMap_structNames (hmethods i hi)
  rw [map_name_layoutStructs, List.nodup_append', nodup_flatMap_iff hinterfaces]
  constructor
  · rintro ⟨-, ⟨-, happart⟩, hdisjoint⟩
    refine ⟨fun s hs i hi f hf hmem => ?_, fun i hi j hj f hf g hg hoverlaps => ?_⟩
    · exact hdisjoint (List.mem_map_of_mem hs)
        (List.mem_flatMap.2 ⟨i, hi, List.mem_flatMap.2 ⟨f, hf, hmem⟩⟩)
    · exact disjoint_flatMap_structNames_iff.1 (happart i hi j hj hoverlaps.name_ne) f hf g hg
        hoverlaps.stem_eq
  · intro h
    refine ⟨hstructs, ⟨hparts, fun i hi j hj hne => ?_⟩, ?_⟩
    · refine disjoint_flatMap_structNames_iff.2 fun f hf g hg heq => ?_
      rcases stem_eq heq with ⟨hname, -⟩ | hoverlaps | hoverlaps
      · exact hne hname
      · exact h.methods i hi j hj f hf g hg hoverlaps
      · exact h.methods j hj i hi g hg f hf hoverlaps
    · intro name hdeclared hjoined
      obtain ⟨s, hs, rfl⟩ := List.mem_map.1 hdeclared
      obtain ⟨i, hi, hmem⟩ := List.mem_flatMap.1 hjoined
      obtain ⟨f, hf, hmem⟩ := List.mem_flatMap.1 hmem
      exact h.declared s hs i hi f hf hmem

/-- Names without underscores keep the layouts apart, whatever the methods are named. -/
theorem LayoutsApart.of_plain (hstructs : ∀ s ∈ m.structs, '_' ∉ s.name.toList)
    (hinterfaces : ∀ i ∈ m.interfaces, '_' ∉ i.name.toList) : m.LayoutsApart := by
  refine ⟨fun s hs i hi f hf hmem => hstructs s hs ?_, fun i hi j hj f hf g hg hoverlaps => ?_⟩
  · rcases mem_structNames.1 hmem with heq | ⟨-, heq⟩ <;> simp [heq, Interface.stem]
  · obtain ⟨x, hname, -⟩ := hoverlaps
    exact hinterfaces j hj (by simp [hname])

/-! ## Modules built from records -/

theorem Resolved.nodup_holderNames {r : Record} {names known : Names}
    (h : Resolved r names known m) :
    (m.structs.map Struct.name ++ m.interfaces.map Interface.name).Nodup := by
  have hnames : m.structs.map Struct.name ++ m.interfaces.map Interface.name =
      r.holders.map Record.Holder.name := by
    have hdecls := congrArg (List.map DeclRef.name) h.map_decl_holders
    rw [List.map_append, List.map_map, List.map_map, List.map_map] at hdecls
    exact hdecls
  rw [hnames]
  exact (List.nodup_append'.1 (List.nodup_append'.1 h.top).1).1

theorem nodup_layoutStructs_iff_of_ofRecord {r : Record} {path : String}
    {imports : List (Import Module)} (hb : ofRecord r path imports = .ok m) :
    (m.layoutStructs.map Struct.name).Nodup ↔ m.LayoutsApart := by
  obtain ⟨known, resolved⟩ := resolved_of_ofRecord hb
  refine nodup_layoutStructs_iff resolved.nodup_holderNames fun i hi => ?_
  obtain ⟨record, -, -, hnested, hbuilt⟩ := resolved.interfaces_nested.exists_left_of_mem hi
  exact (List.nodup_append'.1 (names_of_buildInterface hnested hbuilt).1.members).1

end WireSchema.Module

namespace WireSchema.Workspace

variable {ws : Workspace}

/-- In every module that a compilation returns or keeps, the names of the layouts differ if and only if
no declared struct has the name of a method's struct and no names of methods overlap with those of
their interfaces. So they differ if the structs and interfaces have no underscores in their names. -/
theorem compile_nodup_layoutStructs_iff (h : Used ws) (written : String) (m : Module)
    (hm : (ws.compile written).1 = .ok m ∨ ∃ path, (path, m) ∈ (ws.compile written).2.built) :
    ((m.layoutStructs.map Module.Struct.name).Nodup ↔ m.LayoutsApart) ∧
      ((∀ s ∈ m.structs, '_' ∉ s.name.toList) → (∀ i ∈ m.interfaces, '_' ∉ i.name.toList) →
        (m.layoutStructs.map Module.Struct.name).Nodup) := by
  have hiff : (m.layoutStructs.map Module.Struct.name).Nodup ↔ m.LayoutsApart :=
    h.forall_compiled (fun _ hb _ => Module.nodup_layoutStructs_iff_of_ofRecord hb) hm
  exact ⟨hiff, fun hstructs hinterfaces => hiff.2 (.of_plain hstructs hinterfaces)⟩

/-- Layouts named alike: in `a`, a declared struct and that of a method; in `b`, those of two methods.
In `c`, none. -/
def joinedNames : Workspace where
  sources := { files :=
    [(.ofNames ["a"], .text "struct I_M_Params {}; interface I { M(); };"),
      (.ofNames ["b"], .text "interface A { B_C(); }; interface A_B { C(); };"),
      (.ofNames ["c"], .text "struct A_B { int32 x; }; interface A { B() => (); B_C(bool y); };")] }

/-- Two layouts of `a` have one name, and so do the two layouts of `b`. -/
theorem layouts_of_one_name :
    (∃ m, (joinedNames.compile "/a").1 = .ok m ∧
      m.layoutStructs.map Module.Struct.name = ["I_M_Params", "I_M_Params"]) ∧
    ∃ m, (joinedNames.compile "/b").1 = .ok m ∧
      m.layoutStructs.map Module.Struct.name = ["A_B_C_Params", "A_B_C_Params"] := by
  exact ⟨Except.map_eq_ok.1 (by decide +kernel), Except.map_eq_ok.1 (by decide +kernel)⟩

theorem compile_nodup_layoutStructs_iff_joinedNames :
    Used joinedNames ∧ ∃ m, (joinedNames.compile "/c").1 = .ok m ∧ m.LayoutsApart := by
  have hused : Used joinedNames := .fresh rfl
  obtain ⟨m, hm, hnames⟩ : ∃ m, (joinedNames.compile "/c").1 = .ok m ∧
      m.layoutStructs.map Module.Struct.name =
        ["A_B", "A_B_Params", "A_B_ResponseParams", "A_B_C_Params"] :=
    Except.map_eq_ok.1 (by decide +kernel)
  refine ⟨hused, m, hm, (compile_nodup_layoutStructs_iff hused "/c" m (.inl hm)).1.1 ?_⟩
  rw [hnames]
  decide

end WireSchema.Workspace
