import WireSchema.Proofs.Module.Unambiguous

/-!
# Own values hide imported ones

The keys of the enum values and constants that a record and its imports declare (`memberKeys`,
`constantKeys`) are the keys that are found in its tables. A value name means the first of the names
it can stand for that is an enum value, or the first that is a constant if none is an enum value. If
the record declares that one itself, the name means the record's own declaration, whatever imports
declare under the same key or further out (`own_hides_imported`). A constant of the record hides no
enum value, neither one of the same key nor one further out (`constant_hides_no_member`).
-/

namespace WireSchema.Module

open Names

variable {r : Record} {imports : List Module} {known : Names} {scope before after : List String}
  {name key : String} {top : List Enum} {inStructs inInterfaces : List (List Enum)}

/-! ## The keys of values -/

/-- The keys of the enum values that a record and its imports declare. -/
def memberKeys (r : Record) (imports : List Module) : List String :=
  r.fieldPaths.map (pathKey r.space) ++ (imports.flatMap memberValues).map memberKey

/-- The keys of the constants that a record and its imports declare. -/
def constantKeys (r : Record) (imports : List Module) : List String :=
  r.constantPaths.map (pathKey r.space) ++
    (imports.flatMap constantValues).map fun c => c.1.qualified

theorem isField_ofRecord_iff :
    (Names.ofRecord r imports).isField key = true ↔ key ∈ memberKeys r imports := by
  have hentries : ((imports.flatMap memberValues).map memberEntry).map Prod.fst =
      (imports.flatMap memberValues).map memberKey := by
    rw [List.map_map]
    rfl
  rw [isField, Record.lookup_members_ofRecord, fields_ofRecord, Bool.or_eq_true, lookup_isSome_iff,
    List.map_reverse, List.mem_reverse, memberKeys, List.mem_append, Record.map_fst_ownFields]
  by_cases hown : key ∈ r.fieldPaths.map (pathKey r.space)
  · simp [hown]
  · rw [if_neg hown, lookup_isSome_iff, members_imported, List.map_reverse, List.mem_reverse,
      hentries, or_comm]

theorem isField_ofRecord_eq_false_iff :
    (Names.ofRecord r imports).isField key = false ↔ key ∉ memberKeys r imports := by
  rw [Bool.eq_false_iff, Ne, isField_ofRecord_iff]

theorem isSome_constants_ofRecord_iff :
    ((Names.ofRecord r imports).constants.lookup key).isSome ↔ key ∈ constantKeys r imports := by
  have hentries : ((imports.flatMap constantValues).map importedEntry).map Prod.fst =
      (imports.flatMap constantValues).map fun c => c.1.qualified := by
    rw [List.map_map]
    rfl
  rw [lookup_isSome_iff, constants_ofRecord, constants_imported, List.map_append, List.map_reverse,
    List.map_reverse, hentries, Record.map_fst_ownConstants, List.mem_append, List.mem_reverse,
    List.mem_reverse, constantKeys, List.mem_append]

/-! ## The record's own declarations -/

/-- What is found last under a key is one of the entries. -/
theorem exists_lookup_reverse {α : Type} {entries : List (String × α)}
    (h : key ∈ entries.map Prod.fst) :
    ∃ a, (key, a) ∈ entries ∧ entries.reverse.lookup key = some a := by
  have hsome : (entries.reverse.lookup key).isSome := by
    rwa [lookup_isSome_iff, List.map_reverse, List.mem_reverse]
  obtain ⟨a, ha⟩ := Option.isSome_iff_exists.1 hsome
  exact ⟨a, List.mem_reverse.1 (mem_of_lookup ha), ha⟩

/-- A field of the record is found under its key, and no imported value is. -/
theorem lookup_own_field (imports : List Module) (h : key ∈ r.fieldPaths.map (pathKey r.space)) :
    (Names.ofRecord r imports).members.lookup key = none ∧
      ∃ field, (key, field) ∈ ownFields r ∧
        (Names.ofRecord r imports).fields.lookup key = some field := by
  rw [← Record.map_fst_ownFields] at h
  refine ⟨by rw [Record.lookup_members_ofRecord, if_pos h], ?_⟩
  rw [fields_ofRecord]
  exact exists_lookup_reverse h

/-- A constant of the record is found under its key, and no imported constant is. -/
theorem lookup_own_constant (imports : List Module)
    (h : key ∈ r.constantPaths.map (pathKey r.space)) :
    ∃ decl expr within, (key, .declared decl expr within) ∈ ownConstants r ∧
      (Names.ofRecord r imports).constants.lookup key = some (.declared decl expr within) := by
  rw [← Record.map_fst_ownConstants] at h
  obtain ⟨entry, hmem, hentry⟩ := exists_lookup_reverse h
  obtain ⟨p, -, hp⟩ := List.mem_map.1 hmem
  cases hp
  refine ⟨_, _, _, hmem, ?_⟩
  rw [constants_ofRecord, List.lookup_append, hentry]
  rfl

/-! ## What a name means -/

/-- A name used in a scope means the enum field of the record under a key. No imported value is
found there. At every stage of the build the integer of the name is that of the field, and once the
enums are built, its value is the value of the enum that the record declares, with the integer that
the field denotes. -/
structure MeansOwnField (r : Record) (imports : List Module) (scope : List String)
    (name key : String) : Prop where
  hidden : (Names.ofRecord r imports).members.lookup key = none
  declared : ∃ field, (key, field) ∈ ownFields r ∧
    (Names.ofRecord r imports).fields.lookup key = some field
  integer : ∀ known, (Names.ofRecord r imports).Knows known → ∀ line,
    known.exprLead scope line (.name name) = .ok (.follow (.field key) name line 0)
  value : ∀ known top inStructs inInterfaces,
    EnumsBuilt r (Names.ofRecord r imports) known top inStructs inInterfaces →
    ∃ e ∈ top ++ (inStructs ++ inInterfaces).flatten, ∃ f ∈ e.fields,
      e.decl.qualified ++ "." ++ f.name = key ∧
      (Names.ofRecord r imports).Denotes (.field key) f.value ∧
      ∀ line, known.resolveValue scope line (.name name) = .ok (.member ⟨e.decl, f.name, f.value⟩)

/-- A name used in a scope means the constant of the record under a key: at every stage of the build
its integer is that of the constant, and its value refers to the constant. -/
structure MeansOwnConstant (r : Record) (imports : List Module) (scope : List String)
    (name key : String) : Prop where
  integer : ∀ known, (Names.ofRecord r imports).Knows known → ∀ line,
    known.exprLead scope line (.name name) = .ok (.follow (.constant key) name line 0)
  value : ∃ decl expr within, (key, .declared decl expr within) ∈ ownConstants r ∧
    (Names.ofRecord r imports).constants.lookup key = some (.declared decl expr within) ∧
    ∀ known, (Names.ofRecord r imports).Knows known → ∀ line,
      known.resolveValue scope line (.name name) = .ok (.constant decl)

theorem exprLead_of_selects {t : Target} (hknows : (Names.ofRecord r imports).Knows known)
    (selects : (Names.ofRecord r imports).Selects scope name t) (line : UInt32) :
    known.exprLead scope line (.name name) = .ok (.follow t name line 0) := by
  simp only [exprLead, hknows.target?, selects_iff.1 selects]

theorem candidates_of_knows {names : Names} (hknows : names.Knows known) :
    known.candidates scope name = names.candidates scope name := by
  simp only [candidates, hknows.space]

/-- Where nothing is declared as an enum value, no value is known at any stage. -/
theorem lookup_members_of_not_mem (hknows : (Names.ofRecord r imports).Knows known)
    (h : key ∉ memberKeys r imports) : known.members.lookup key = none := by
  have hfield : known.isField key = false := by
    rw [hknows.isField, isField_ofRecord_eq_false_iff]
    exact h
  rw [isField, Bool.or_eq_false_iff] at hfield
  simpa using hfield.1

/-- Once the enums are built, the value known for a field of the record is that of one of them. -/
theorem EnumsBuilt.lookup_members
    (h : EnumsBuilt r (Names.ofRecord r imports) known top inStructs inInterfaces)
    (hkey : key ∈ r.fieldPaths.map (pathKey r.space)) :
    ∃ v ∈ (top ++ (inStructs ++ inInterfaces).flatten).flatMap Enum.members,
      memberKey v = key ∧ known.members.lookup key = some v := by
  let values := (top ++ (inStructs ++ inInterfaces).flatten).flatMap Enum.members
  have hmem : key ∈ (values.map memberEntry).map Prod.fst := by
    rw [List.map_map]
    change key ∈ values.map memberKey
    rw [(h.perm_memberKey (space_ofRecord r imports)).mem_iff, Record.map_fst_ownFields]
    exact hkey
  obtain ⟨v, hentry, hlookup⟩ := exists_lookup_reverse hmem
  obtain ⟨v', hv', heq⟩ := List.mem_map.1 hentry
  cases heq
  refine ⟨v, hv', rfl, ?_⟩
  rw [h.known_eq, foldl_addMember, learn, List.lookup_append]
  change ((values.map memberEntry).reverse.lookup (memberKey v)).or _ = _
  rw [hlookup]
  rfl

theorem meansOwnField
    (order : (Names.ofRecord r imports).candidates scope name = before ++ key :: after)
    (own : key ∈ r.fieldPaths.map (pathKey r.space))
    (skipped : ∀ k ∈ before, k ∉ memberKeys r imports) :
    MeansOwnField r imports scope name key := by
  obtain ⟨hidden, declared⟩ := lookup_own_field imports own
  have selects : (Names.ofRecord r imports).Selects scope name (.field key) :=
    .field order (fun k hk => isField_ofRecord_eq_false_iff.2 (skipped k hk))
      (isField_ofRecord_iff.2 (List.mem_append_left _ own))
  refine ⟨hidden, declared, fun known hknows => exprLead_of_selects hknows selects, ?_⟩
  intro known top inStructs inInterfaces hbuilt
  obtain ⟨v, hv, hkey, hlookup⟩ := hbuilt.lookup_members own
  obtain ⟨e, he, hve⟩ := List.mem_flatMap.1 hv
  obtain ⟨f, hf, rfl⟩ := List.mem_map.1 hve
  refine ⟨e, he, f, hf, hkey, hbuilt.knows.members hlookup, fun line => ?_⟩
  have hfind : (known.candidates scope name).findSome? (fun k => known.members.lookup k) = some _ :=
    List.findSome?_eq_some_iff.2 ⟨before, key, after,
      (candidates_of_knows hbuilt.knows).trans order, hlookup,
      fun k hk => lookup_members_of_not_mem hbuilt.knows (skipped k hk)⟩
  simp only [resolveValue, hfind]

theorem meansOwnConstant
    (order : (Names.ofRecord r imports).candidates scope name = before ++ key :: after)
    (own : key ∈ r.constantPaths.map (pathKey r.space))
    (skipped : ∀ k ∈ before, k ∉ constantKeys r imports)
    (noMember : ∀ k ∈ before ++ key :: after, k ∉ memberKeys r imports) :
    MeansOwnConstant r imports scope name key := by
  obtain ⟨decl, expr, within, hown, hlookup⟩ := lookup_own_constant imports own
  have hskipped : ∀ k ∈ before, ((Names.ofRecord r imports).constants.lookup k).isSome = false := by
    intro k hk
    rw [Bool.eq_false_iff, Ne, isSome_constants_ofRecord_iff]
    exact skipped k hk
  have selects : (Names.ofRecord r imports).Selects scope name (.constant key) := by
    refine .constant (fun k hk => ?_) order hskipped (by rw [hlookup]; rfl)
    exact isField_ofRecord_eq_false_iff.2 (noMember k (order ▸ hk))
  refine ⟨fun known hknows => exprLead_of_selects hknows selects, decl, expr, within, hown, hlookup,
    fun known hknows line => ?_⟩
  have horder : known.candidates scope name = before ++ key :: after :=
    (candidates_of_knows hknows).trans order
  have hmembers :
      (known.candidates scope name).findSome? (fun k => known.members.lookup k) = none :=
    List.findSome?_eq_none_iff.2 fun k hk =>
      lookup_members_of_not_mem hknows (noMember k (horder ▸ hk))
  have hconstants : (known.candidates scope name).findSome? (fun k => known.constants.lookup k) =
      some (.declared decl expr within) := by
    refine List.findSome?_eq_some_iff.2 ⟨before, key, after, horder, ?_, fun k hk => ?_⟩
    · rw [hknows.constants, hlookup]
    · rw [hknows.constants]
      simpa using hskipped k hk
  simp only [resolveValue, hmembers, hconstants, ConstantEntry.decl]

/-- Own values hide imported ones. Of the names that a name can stand for, innermost first, let
`key` be the first that is declared as an enum value. If the record itself declares it, the name
means the record's enum field, with the integer that is computed for it. If none is declared as an
enum value, let `key` be the first that is declared as a constant. If the record itself declares it,
the name means the record's constant. What imports declare under `key` or under the names after it
does not matter. -/
theorem own_hides_imported (r : Record) (imports : List Module) (scope : List String)
    (name : String) (before after : List String) (key : String)
    (order : (Names.ofRecord r imports).candidates scope name = before ++ key :: after) :
    (key ∈ r.fieldPaths.map (pathKey r.space) → (∀ k ∈ before, k ∉ memberKeys r imports) →
      MeansOwnField r imports scope name key) ∧
    (key ∈ r.constantPaths.map (pathKey r.space) → (∀ k ∈ before, k ∉ constantKeys r imports) →
      (∀ k ∈ before ++ key :: after, k ∉ memberKeys r imports) →
      MeansOwnConstant r imports scope name key) :=
  ⟨meansOwnField order, meansOwnConstant order⟩

/-- `enum E { X = 5 }; const int32 C = 3;` -/
def outer : Record where
  name := "p"
  space := ""
  attributes := ∅
  imports := []
  structs := []
  interfaces := []
  enums := [⟨1, "E", ∅, [⟨1, "X", some (.integer "5")⟩]⟩]
  constants := [⟨1, "C", "i32", .integer "3", ∅⟩]

def outerModule : Module where
  name := "p"
  space := ""
  path := "/p"
  attributes := ∅
  imports := []
  structs := []
  interfaces := []
  enums := [⟨"E", "", none, [⟨"X", 5⟩], ∅⟩]
  constants := [⟨"C", .basic .int32, .literal (.integer "3"), ∅⟩]
  kinds := kindMap [.basic .int32]

def outerImport : List (Import Module) :=
  [⟨"p", "", ⟨true, [.down "p"]⟩, outerModule⟩]

/-- `import "p"; module m; enum E { X = 1 }; const int32 C = 2;` and with these
`const int32 K = E.X; const int32 L = C;` -/
def inner : Record where
  name := "a"
  space := "m"
  attributes := ∅
  imports := [⟨1, "p"⟩]
  structs := []
  interfaces := []
  enums := [⟨1, "E", ∅, [⟨1, "X", some (.integer "1")⟩]⟩]
  constants :=
    [⟨1, "C", "i32", .integer "2", ∅⟩, ⟨1, "K", "i32", .name "E.X", ∅⟩,
      ⟨1, "L", "i32", .name "C", ∅⟩]

/-- In `inner`, `E.X` and `C` mean what the record declares, and not what it imports. -/
theorem own_hides_imported_inner :
    (MeansOwnField inner [outerModule] [] "E.X" "m.E.X" ∧
      MeansOwnConstant inner [outerModule] [] "C" "m.C") ∧
    (ofRecord inner "/a" outerImport).map (fun m => m.constants.map Constant.value) =
      .ok [.literal (.integer "2"), .member ⟨⟨"m", "E"⟩, "X", 1⟩, .constant ⟨"m", "C"⟩] := by
  refine ⟨⟨?_, ?_⟩, by decide +kernel⟩
  · exact (own_hides_imported inner [outerModule] [] "E.X" [] ["E.X"] "m.E.X" (by decide)).1
      (by decide) (by decide)
  · exact (own_hides_imported inner [outerModule] [] "C" [] ["C"] "m.C" (by decide)).2
      (by decide) (by decide) (by decide)

/-- `import "p"; module m; interface E { const int32 X = 1; };` and with it
`const int32 K = E.X; enum F { V = E.X };` -/
def holding : Record where
  name := "a"
  space := "m"
  attributes := ∅
  imports := [⟨1, "p"⟩]
  structs := []
  interfaces := [⟨1, "E", ∅, [], [], [⟨1, "X", "i32", .integer "1", ∅⟩]⟩]
  enums := [⟨1, "F", ∅, [⟨1, "V", some (.name "E.X")⟩]⟩]
  constants := [⟨1, "K", "i32", .name "E.X", ∅⟩]

/-- A constant of the record does not hide an imported enum value. In `holding`, the first
declaration that `E.X` can stand for is the record's own constant, but the name means the imported
enum value further out, both as a value and as an integer. -/
theorem constant_hides_no_member :
    (ofRecord outer "/p" []).map (fun m => (m.space, m.enums, m.constants)) =
        .ok (outerModule.space, outerModule.enums, outerModule.constants) ∧
      (Names.ofRecord holding [outerModule]).candidates [] "E.X" = ["m.E.X", "E.X"] ∧
      "m.E.X" ∈ holding.constantPaths.map (pathKey holding.space) ∧
      (ofRecord holding "/a" outerImport).map
          (fun m => (m.constants.map Constant.value, m.enums.map Enum.fields)) =
        .ok ([.member ⟨⟨"", "E"⟩, "X", 5⟩], [[⟨"V", 5⟩]]) := by
  refine ⟨by decide +kernel, by decide, by decide, by decide +kernel⟩

end WireSchema.Module
