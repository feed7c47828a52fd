import WireSchema.Proofs.Module.Hiding

/-!
# Constants of imported modules

The value of a constant may refer to another constant, of the same module or of one that this module
imports. `Chain` follows such references where they are declared, down to an integer. A module that
imports the constant follows them again, in its own tables and by qualified names alone. So it comes
to the same integer where these tables hold the constants of the chain (`Visible`), and no key of
the chain is that of the enum field that is being built (`integer_of_imported_constant`). Otherwise
it may fail or come to another integer (`imported_constant_differs`).
-/

namespace WireSchema.Module

open Names

variable {r : Record} {imports : List Module} {names known : Names} {m m' : Module} {key : String}
  {value : Value} {links : List (String × Value)} {n : Int} {top : List Enum}
  {inStructs inInterfaces : List (List Enum)}

/-! ## Chains of references -/

/-- The constant that a reference in a module means, with the module that declares it: a constant of
the module itself or, if it has none under the key, that of the last import that has one. -/
inductive Finds (m : Module) (key : String) : Module → Value → Prop where
  | own {decl : DeclRef} {value : Value} (declares : (decl, value) ∈ m.constantValues)
    (qualified : decl.qualified = key) : Finds m key m value
  | imported {before after : List (Import Module)} {i : Import Module} {decl : DeclRef}
    {value : Value} (notOwn : ∀ c ∈ m.constantValues, c.1.qualified ≠ key)
    (order : m.imports = before ++ i :: after) (declares : (decl, value) ∈ i.target.constantValues)
    (qualified : decl.qualified = key)
    (last : ∀ j ∈ after, ∀ c ∈ j.target.constantValues, c.1.qualified ≠ key) :
    Finds m key i.target value

/-- `Chain m value links n`: in the module `m` the value comes to the integer `n`, through
references to constants with the keys and values of `links`, each followed in the module that
declares it. -/
inductive Chain : Module → Value → List (String × Value) → Int → Prop where
  | member (m : Module) (v : EnumMember) : Chain m (.member v) [] v.value
  | integer {m : Module} {text : String} {n : Int} (read : Text.readInteger? text = some n) :
    Chain m (.literal (.integer text)) [] n
  | constant {m m' : Module} {decl : DeclRef} {value : Value} {links : List (String × Value)}
    {n : Int} (found : m.Finds decl.qualified m' value) (rest : Chain m' value links n) :
    Chain m (.constant decl) ((decl.qualified, value) :: links) n

/-- In a record with imports an imported constant with the given value is found under a key: the
record itself declares no constant there, and the last that its imports declare there has the
value. -/
def Visible (r : Record) (imports : List Module) (key : String) (value : Value) : Prop :=
  key ∉ r.constantPaths.map (pathKey r.space) ∧
    ((imports.flatMap constantValues).map fun c => (c.1.qualified, c.2)).reverse.lookup key =
      some value

instance (r : Record) (imports : List Module) (key : String) (value : Value) :
    Decidable (Visible r imports key value) :=
  inferInstanceAs (Decidable (_ ∧ _))

/-- The tables hold an imported constant with the given value. -/
def Names.Holds (names : Names) (key : String) (value : Value) : Prop :=
  ∃ decl, names.constants.lookup key = some (.imported decl value)

theorem lookup_importedEntry {cs : List (DeclRef × Value)}
    (h : (cs.map fun c => (c.1.qualified, c.2)).lookup key = some value) :
    ∃ decl, (cs.map importedEntry).lookup key = some (.imported decl value) := by
  induction cs with
  | nil => cases h
  | cons c rest ih =>
    rw [List.map_cons, List.lookup_cons] at h ⊢
    cases hkey : key == c.1.qualified with
    | true =>
      simp only [hkey, Option.some.injEq] at h
      simp only [importedEntry, hkey, h]
      exact ⟨c.1, rfl⟩
    | false =>
      simp only [hkey] at h
      simp only [importedEntry, hkey]
      exact ih h

theorem Visible.holds (h : Visible r imports key value) :
    (Names.ofRecord r imports).Holds key value := by
  obtain ⟨notOwn, himports⟩ := h
  rw [← Record.map_fst_ownConstants] at notOwn
  have hnone : (ownConstants r).reverse.lookup key = none := by
    rw [← Option.not_isSome_iff_eq_none, lookup_isSome_iff, List.map_reverse, List.mem_reverse]
    exact notOwn
  rw [← List.map_reverse] at himports
  obtain ⟨decl, hdecl⟩ := lookup_importedEntry himports
  refine ⟨decl, ?_⟩
  rw [constants_ofRecord, List.lookup_append, hnone, constants_imported, ← List.map_reverse, hdecl]
  rfl

/-! ## Following a chain in other tables -/

/-- Tables that hold all constants of a chain give its integer. -/
theorem Chain.denotes (h : Chain m value links n) (holds : names.Holds key value)
    (hlinks : ∀ link ∈ links, names.Holds link.1 link.2) : names.Denotes (.constant key) n := by
  induction h generalizing key with
  | member m v =>
    obtain ⟨decl, declared⟩ := holds
    exact .known (.imported declared (.member v)) trivial
  | integer read =>
    obtain ⟨decl, declared⟩ := holds
    exact .known (.imported declared (.integer read)) trivial
  | @constant m m' ref value links n found rest ih =>
    obtain ⟨decl, declared⟩ := holds
    obtain ⟨hhead, htail⟩ := List.forall_mem_cons.1 hlinks
    have hfollow := Denotes.follow (.imported declared (.constant ref)) (ih hhead htail) trivial
    rwa [Int.add_zero] at hfollow

theorem Names.Holds.equation_of_refers (h : names.Holds key value) {u : Target}
    (refers : names.Refers (.constant key) u) : ∃ more, ValueEquation value (some u) more := by
  obtain ⟨decl, declared⟩ := h
  obtain ⟨more, equation⟩ := refers
  cases equation with
  | imported declared' equation =>
    cases declared.symm.trans declared'
    exact ⟨more, equation⟩
  | constant declared' => cases declared.symm.trans declared'

/-- A constant that has an integer is not one of those that led to it. -/
theorem not_mem_passed {start : String} {passed : List String}
    (h : names.Denotes (.constant key) n) (hkey : key ≠ start)
    (hpassed : ∀ k ∈ passed, k = start ∨
      Relation.TransGen names.Refers (.constant k) (.constant key)) : key ∉ passed := by
  intro mem
  obtain rfl | hcycle := hpassed key mem
  · exact hkey rfl
  · exact h.not_cyclic hcycle

/-- A chain whose keys are not that of the enum field where the lookup began comes back to no key:
the other keys that were passed are those of constants before it on the chain. -/
theorem Chain.not_returns (h : Chain m value links n) {start : String}
    (holds : names.Holds key value) (hlinks : ∀ link ∈ links, names.Holds link.1 link.2)
    (hkey : key ≠ start) (hkeys : ∀ link ∈ links, link.1 ≠ start) {passed : List String}
    (hpassed : ∀ k ∈ passed, k = start ∨
      Relation.TransGen names.Refers (.constant k) (.constant key)) :
    ¬ names.Returns passed (.constant key) := by
  intro returns
  have hdenotes := h.denotes holds hlinks
  induction h generalizing key passed with
  | member | integer =>
    cases returns with
    | back _ mem => exact not_mem_passed hdenotes hkey hpassed mem
    | follow refers =>
      obtain ⟨more, equation⟩ := holds.equation_of_refers refers
      cases equation
  | constant found rest ih =>
    cases returns with
    | back _ mem => exact not_mem_passed hdenotes hkey hpassed mem
    | follow refers returns =>
      obtain ⟨more, equation⟩ := holds.equation_of_refers refers
      cases equation
      obtain ⟨hhead, htail⟩ := List.forall_mem_cons.1 hlinks
      obtain ⟨khead, ktail⟩ := List.forall_mem_cons.1 hkeys
      refine ih hhead htail khead ktail (List.forall_mem_cons.2 ⟨?_, fun k hk => ?_⟩) returns
        (rest.denotes hhead htail)
      · exact .inr (.single refers)
      · exact (hpassed k hk).imp_right fun hchain => hchain.tail refers

/-! ## Enum fields -/

theorem Names.Denotes.eq_add {t u : Target} {k more : Int} (h : names.Denotes t k)
    (equation : names.Equation t (some u) more) (hu : names.Denotes u n) : k = n + more := by
  cases h with
  | known equation' => cases (equation'.unique equation).1
  | follow equation' denotes =>
    obtain ⟨hbase, rfl⟩ := equation'.unique equation
    cases hbase
    rw [denotes.unique hu]

/-- The tables of a record hold the constants of a chain, under keys that are not the given one. -/
def Follows (r : Record) (imports : List Module) (start : String) (links : List (String × Value)) :
    Prop :=
  ∀ link ∈ links, Visible r imports link.1 link.2 ∧ link.1 ≠ start

instance (r : Record) (imports : List Module) (start : String) (links : List (String × Value)) :
    Decidable (Follows r imports start links) :=
  inferInstanceAs (Decidable (∀ link ∈ links, _))

/-- A name that selects a constant selects none with the key of an enum field. -/
theorem ne_of_selects {scope : List String} {name start : String}
    (selects : names.Selects scope name (.constant key)) (hstart : names.isField start = true) :
    key ≠ start := by
  rintro rfl
  cases selects with
  | constant noField order =>
    have hfield := noField key (order ▸ by simp)
    rw [hstart] at hfield
    cases hfield

/-- The value of an enum that is built is denoted by the field that has its key. -/
theorem EnumsValued.denotes_of_mem (h : EnumsValued r names top inStructs inInterfaces)
    {v : EnumMember} (hv : v ∈ (top ++ (inStructs ++ inInterfaces).flatten).flatMap Enum.members) :
    names.Denotes (.field (memberKey v)) v.value := by
  obtain ⟨e, he, hve⟩ := List.mem_flatMap.1 hv
  obtain ⟨f, hf, rfl⟩ := List.mem_map.1 hve
  obtain ⟨p, -, -, hvalued⟩ := h.scoped.exists_left_of_mem (List.perm_append_comm.mem_iff.1 he)
  obtain ⟨record, -, -, hname, hdenotes⟩ := hvalued.fields.exists_left_of_mem hf
  rw [fieldKey, ← hvalued.decl, ← hname] at hdenotes
  exact hdenotes

section Field

variable {field : LocalField} {start name : String}

/-- At every stage of the build, an enum field that is written as the name of an imported constant
has the integer of the constant's chain, if that is in range. -/
theorem integerAt_of_chain (chain : Chain m value links n)
    (declared : (Names.ofRecord r imports).fields.lookup start = some field)
    (written : field.written = some (.name name))
    (selects : (Names.ofRecord r imports).Selects field.scope name (.constant key))
    (visible : Visible r imports key value) (follows : Follows r imports start links)
    (hknows : (Names.ofRecord r imports).Knows known) (unknown : known.members.lookup start = none)
    (blamed : String) (line : UInt32) :
    known.integerAt [] (.field start) blamed line = checkRange field n := by
  have hstart : (Names.ofRecord r imports).isField start = true := by simp [isField, declared]
  have hlinks : ∀ link ∈ links, (Names.ofRecord r imports).Holds link.1 link.2 :=
    fun link hlink => (follows link hlink).1.holds
  have hholds : ∀ {k v}, (Names.ofRecord r imports).Holds k v → known.Holds k v := by
    rintro k v ⟨decl, hdecl⟩
    exact ⟨decl, (hknows.constants k).trans hdecl⟩
  have hreturns : ¬ known.Returns [start] (.constant key) :=
    chain.not_returns (hholds visible.holds) (fun link hlink => hholds (hlinks link hlink))
      (ne_of_selects selects hstart) (fun link hlink => (follows link hlink).2)
      (fun k hk => .inl (List.mem_singleton.1 hk))
  have hconstant := integerAt_of_denotes (hknows.denotes_of (chain.denotes visible.holds hlinks))
    hreturns name field.line
  have hlead : known.lead (.field start) blamed line =
      .ok (.follow (.constant key) name field.line 0) := by
    rw [hknows.lead, lead]
    simp only [declared, fieldLead, written]
    exact exprLead_of_selects (.refl _) selects field.line
  rw [integerAt_eq (by rw [known?, unknown]; rfl) (fun _ => List.not_mem_nil), hlead]
  change (known.integerAt [start] (.constant key) name field.line >>= fun k =>
    known.check (.field start) (k + 0)) = _
  rw [hconstant]
  simp only [bind, Except.bind, Int.add_zero, check, hknows.fields, declared]

/-- In a module that is built, such a field has the integer of the chain, which is in range. -/
theorem Resolved.value_of_chain (h : Resolved r (Names.ofRecord r imports) known m')
    (chain : Chain m value links n)
    (declared : (Names.ofRecord r imports).fields.lookup start = some field)
    (written : field.written = some (.name name))
    (selects : (Names.ofRecord r imports).Selects field.scope name (.constant key))
    (visible : Visible r imports key value) (follows : Follows r imports start links) :
    InRange n ∧ (∃ v ∈ m'.memberValues, memberKey v = start) ∧
      ∀ v ∈ m'.memberValues, memberKey v = start → v.value = n := by
  have hown : start ∈ r.fieldPaths.map (pathKey r.space) := by
    rw [← Record.map_fst_ownFields, ← List.mem_reverse, ← List.map_reverse,
      ← fields_ofRecord r imports]
    exact mem_keys_of_lookup declared
  have unknown := (lookup_own_field imports hown).1
  have hconstant : (Names.ofRecord r imports).Denotes (.constant key) n :=
    chain.denotes visible.holds fun link hlink => (follows link hlink).1.holds
  have equation := Equation.written unknown declared written (.name selects)
  have hvalue : ∀ v ∈ m'.memberValues, memberKey v = start → v.value = n ∧ InRange v.value := by
    intro v hv hkey
    rw [memberValues, allEnums_eq] at hv
    have hdenotes := h.built.denotes_of_mem hv
    rw [hkey] at hdenotes
    refine ⟨?_, hdenotes.fits unknown⟩
    rw [hdenotes.eq_add equation hconstant, Int.add_zero]
  obtain ⟨v, hv, hkey, -⟩ := h.built.lookup_members hown
  rw [← allEnums_eq] at hv
  obtain ⟨heq, hrange⟩ := hvalue v hv hkey
  exact ⟨heq ▸ hrange, ⟨v, hv, hkey⟩, fun v hv hkey => (hvalue v hv hkey).1⟩

end Field

/-- A constant means the same integer in an importing module as in its own, as far as the importing
module sees it. Let a name written for an enum field select the constant of an import, and let the
constant come to the integer `n` in its module. If every constant that is passed on the way is the
one that the importing module finds under its key, and none has the key of the field, then the field
has the value `n` or, if that is out of range, its lookup fails for this reason and no module is
built. A constant that is a literal or an enum value passes no other constant. -/
theorem integer_of_imported_constant (r : Record) (path : String) (imports : List (Import Module)) :
    let targets := imports.map Import.target
    let names := Names.ofRecord r targets
    ∀ i ∈ imports, ∀ decl value links n, (decl, value) ∈ i.target.constantValues →
      Chain i.target value links n →
    ∀ key field name, names.fields.lookup key = some field → field.written = some (.name name) →
      names.Selects field.scope name (.constant decl.qualified) →
      Visible r targets decl.qualified value → Follows r targets key links →
      (∀ known, names.Knows known → known.members.lookup key = none → ∀ blamed line,
        known.integerAt [] (.field key) blamed line = checkRange field n) ∧
      ∀ m, ofRecord r path imports = .ok m →
        InRange n ∧ (∃ v ∈ m.memberValues, memberKey v = key) ∧
          ∀ v ∈ m.memberValues, memberKey v = key → v.value = n := by
  intro targets names i _ decl value links n _ chain key field name declared written selects visible
    follows
  refine ⟨fun known hknows unknown => ?_, fun m hm => ?_⟩
  · exact integerAt_of_chain chain declared written selects visible follows hknows unknown
  · obtain ⟨known, resolved⟩ := resolved_of_ofRecord hm
    exact resolved.value_of_chain chain declared written selects visible follows

/-- `module c; const int32 Y = 5;` -/
def source : Record where
  name := "c"
  space := "c"
  attributes := ∅
  imports := []
  structs := []
  interfaces := []
  enums := []
  constants := [⟨1, "Y", "i32", .integer "5", ∅⟩]

def sourceModule : Module where
  name := "c"
  space := "c"
  path := "/c"
  attributes := ∅
  imports := []
  structs := []
  interfaces := []
  enums := []
  constants := [⟨"Y", .basic .int32, .literal (.integer "5"), ∅⟩]
  kinds := kindMap [.basic .int32]

def sourceImport : Import Module :=
  ⟨"c", "c", ⟨true, [.down "c"]⟩, sourceModule⟩

/-- `import "c"; module b; const int32 X = c.Y; const int32 Z = X;` -/
def relay : Record where
  name := "b"
  space := "b"
  attributes := ∅
  imports := [⟨1, "c"⟩]
  structs := []
  interfaces := []
  enums := []
  constants := [⟨1, "X", "i32", .name "c.Y", ∅⟩, ⟨1, "Z", "i32", .name "X", ∅⟩]

def relayModule : Module where
  name := "b"
  space := "b"
  path := "/b"
  attributes := ∅
  imports := [sourceImport]
  structs := []
  interfaces := []
  enums := []
  constants :=
    [⟨"X", .basic .int32, .constant ⟨"c", "Y"⟩, ∅⟩, ⟨"Z", .basic .int32, .constant ⟨"b", "X"⟩, ∅⟩]
  kinds := kindMap [.basic .int32, .basic .int32]

def relayImport : Import Module :=
  ⟨"b", "b", ⟨true, [.down "b"]⟩, relayModule⟩

theorem chain_relay :
    Chain relayModule (.constant ⟨"c", "Y"⟩) [("c.Y", .literal (.integer "5"))] 5 := by
  have hfound : relayModule.Finds "c.Y" sourceModule (.literal (.integer "5")) := by
    have hdeclares :
        (⟨"c", "Y"⟩, .literal (.integer "5")) ∈ sourceImport.target.constantValues := by decide
    have horder : relayModule.imports = [] ++ sourceImport :: [] := rfl
    exact .imported (by decide) horder hdeclares rfl (List.forall_mem_nil _)
  exact .constant hfound (.integer (by decide))

/-- `import "b"; import "c"; enum E { V = b.X };` -/
def reader : Record where
  name := "a"
  space := ""
  attributes := ∅
  imports := [⟨1, "b"⟩, ⟨1, "c"⟩]
  structs := []
  interfaces := []
  enums := [⟨1, "E", ∅, [⟨1, "V", some (.name "b.X")⟩]⟩]
  constants := []

/-- Through `b` and `c`, which `reader` both imports, `b.X` comes to the integer 5. -/
theorem integer_of_imported_constant_reader :
    Chain relayModule (.constant ⟨"c", "Y"⟩) [("c.Y", .literal (.integer "5"))] 5 ∧
      Visible reader [relayModule, sourceModule] "b.X" (.constant ⟨"c", "Y"⟩) ∧
      Follows reader [relayModule, sourceModule] "E.V" [("c.Y", .literal (.integer "5"))] ∧
      ∃ m, ofRecord reader "/a" [relayImport, sourceImport] = .ok m ∧
        (∃ v ∈ m.memberValues, memberKey v = "E.V") ∧
        ∀ v ∈ m.memberValues, memberKey v = "E.V" → v.value = 5 := by
  have hvisible : Visible reader [relayModule, sourceModule] "b.X" (.constant ⟨"c", "Y"⟩) := by
    decide
  have hfollows : Follows reader [relayModule, sourceModule] "E.V"
      [("c.Y", .literal (.integer "5"))] := by decide
  have hok : (ofRecord reader "/a" [relayImport, sourceImport]).isOk = true := by decide +kernel
  refine ⟨chain_relay, hvisible, hfollows, ?_⟩
  obtain ⟨m, hm⟩ := Except.exists_of_isOk hok
  have hvalue := integer_of_imported_constant reader "/a" [relayImport, sourceImport] relayImport
    List.mem_cons_self ⟨"b", "X"⟩ _ _ _ (by decide) chain_relay "E.V"
    ⟨"V", 1, some (.name "b.X"), none, ["E"]⟩ "b.X" (by decide) rfl
    (selects_iff.2 (by decide)) hvisible hfollows
  exact ⟨m, hm, (hvalue.2 m hm).2⟩

/-- `import "b"; enum E { V = b.X };` -/
def shortReader : Record :=
  { reader with imports := [⟨1, "b"⟩] }

/-- `import "b"; import "c"; module b; const int32 X = 7; enum E { V = Z };` -/
def hidingReader : Record :=
  { reader with
    space := "b"
    enums := [⟨1, "E", ∅, [⟨1, "V", some (.name "Z")⟩]⟩]
    constants := [⟨1, "X", "i32", .integer "7", ∅⟩] }

/-- `import "p"; enum E { X = E.Y };` -/
def clashingReader : Record :=
  { reader with imports := [⟨1, "p"⟩], enums := [⟨1, "E", ∅, [⟨1, "X", some (.name "E.Y")⟩]⟩] }

/-- The constants of `relay` and of `fives` come to the integer 5 in their modules. An importing
module fails where it does not import what the constant refers to, comes to another integer where it
declares something else under the same name, and takes the chain for a cycle where one of its keys
is that of the enum field. -/
theorem imported_constant_differs :
    (ofRecord source "/c" [] = .ok sourceModule ∧
      ofRecord relay "/b" [sourceImport] = .ok relayModule ∧
      ofRecord fives "/p" [] = .ok fivesModule) ∧
    ((∃ links, Chain relayModule (.constant ⟨"c", "Y"⟩) links 5) ∧
      (ofRecord shortReader "/a" [relayImport]).map (fun _ => ()) =
        .error (.resolution 1 (.unknownValue "b.X"))) ∧
    ((∃ links, Chain relayModule (.constant ⟨"b", "X"⟩) links 5) ∧
      (ofRecord hidingReader "/a" [relayImport, sourceImport]).map
        (fun m => m.enums.map Enum.fields) = .ok [[⟨"V", 7⟩]]) ∧
    (∃ links, Chain fivesModule (.constant ⟨"E", "X"⟩) links 5) ∧
      (ofRecord clashingReader "/a" fivesImport).map (fun _ => ()) =
        .error (.resolution 1 (.notAnInteger "E.Y")) := by
  have hrelayed : (⟨"b", "X"⟩, .constant ⟨"c", "Y"⟩) ∈ relayModule.constantValues := by decide
  have hfives : (⟨"E", "X"⟩, .literal (.integer "5")) ∈ fivesModule.constantValues := by decide
  refine ⟨⟨rfl, rfl, rfl⟩, ⟨⟨_, chain_relay⟩, by decide +kernel⟩,
    ⟨⟨_, .constant (.own hrelayed rfl) chain_relay⟩, by decide +kernel⟩,
    ⟨_, .constant (.own hfives rfl) (.integer (by decide))⟩, by decide +kernel⟩

end WireSchema.Module
