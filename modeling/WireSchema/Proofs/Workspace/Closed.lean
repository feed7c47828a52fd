import WireSchema.Proofs.Module.Unambiguous
import WireSchema.Proofs.Workspace.Loading

/-!
# Compiled modules are closed

What holds of every module that is built from a text holds of every module that `Workspace.compile`
returns or keeps, whatever was compiled and changed before (`Workspace.compile_forall`). So all of
these are closed: their references point to declarations of the module itself or of its direct
imports. And none of them uses a name twice.
-/

namespace WireSchema.Workspace

variable {ws ws' : Workspace} {stack : List SourcePath} {built : Built} {path : SourcePath}
  {written : String}

/-- The workspaces that a fresh one becomes by compilations, successful or not, and by any change of
its files, search directories or source root. -/
inductive Used : Workspace → Prop where
  | fresh {ws : Workspace} (empty : ws.built = []) : Used ws
  | compile {ws : Workspace} (used : Used ws) (written : String) : Used (ws.compile written).2
  | change {ws ws' : Workspace} (used : Used ws) (kept : ws'.built = ws.built) : Used ws'

/-! ## What holds of every module that is built -/

section Built

variable {P : Module → Prop}

theorem exists_text_of_readRecord {contents : FileText} {record : Record}
    (h : ws.readRecord path contents = .ok record) :
    ∃ text, Record.ofSource (ws.displayPath path) text = .ok record := by
  cases contents with
  | text text => exact ⟨text, h⟩
  | binary => cases h

section Imports

variable (hP : ∀ {file text : String} {record : Record} {imports : List (Module.Import Module)}
  {m : Module}, Record.ofSource file text = .ok record →
    Module.ofRecord record file imports = .ok m → (∀ i ∈ imports, P i.target) → P m)

include hP

/-- What holds of every module that is built from a text and from imports of which it holds, holds of
the modules that a run of the loader keeps and returns, if it holds of those it starts with. -/
theorem load_and_loadImports_forall (ws : Workspace) :
    (∀ stack built path, (∀ entry ∈ built, P entry.2) →
      (∀ entry ∈ (ws.load stack built path).2, P entry.2) ∧
      ∀ m, (ws.load stack built path).1 = .ok m → P m) ∧
    ∀ stack built importer is, (∀ entry ∈ built, P entry.2) →
      (∀ entry ∈ (ws.loadImports stack built importer is).2, P entry.2) ∧
      ∀ imports, (ws.loadImports stack built importer is).1 = .ok imports →
        ∀ i ∈ imports, P i.target := by
  apply load_induction ws
    (P := fun _ built _ result built' => (∀ entry ∈ built, P entry.2) →
      (∀ entry ∈ built', P entry.2) ∧ ∀ m, result = .ok m → P m)
    (Q := fun _ built _ _ result built' => (∀ entry ∈ built, P entry.2) →
      (∀ entry ∈ built', P entry.2) ∧ ∀ imports, result = .ok imports → ∀ i ∈ imports, P i.target)
  case circular =>
    intro stack built path hs h
    exact ⟨h, by rintro _ ⟨⟩⟩
  case cached =>
    intro stack built path m hs hm h
    obtain ⟨before, after, rfl, -⟩ := List.lookup_eq_some_iff.1 hm
    exact ⟨h, by rintro _ ⟨⟩; exact h (path, m) (by simp)⟩
  case missing =>
    intro stack built path hs hb hf h
    exact ⟨h, by rintro _ ⟨⟩⟩
  case unread =>
    intro stack built path contents fault hs hb hf hr h
    exact ⟨h, by rintro _ ⟨⟩⟩
  case stopped =>
    intro stack built path contents record halt built' hs hb hf hr _ ih h
    exact ⟨(ih h).1, by rintro _ ⟨⟩⟩
  case unbuilt =>
    intro stack built path contents record imports built' fault hs hb hf hr _ ih hm h
    exact ⟨(ih h).1, by rintro _ ⟨⟩⟩
  case finished =>
    intro stack built path contents record imports built' m hs hb hf hr _ ih hm h
    obtain ⟨text, htext⟩ := exists_text_of_readRecord hr
    obtain ⟨hbuilt, himports⟩ := ih h
    have hm : P m := hP htext (built_of_buildModule hm).1 (himports imports rfl)
    refine ⟨List.forall_mem_cons.2 ⟨hm, hbuilt⟩, ?_⟩
    rintro _ ⟨⟩
    exact hm
  case nil =>
    intro stack built importer h
    refine ⟨h, ?_⟩
    rintro _ ⟨⟩
    exact List.forall_mem_nil _
  case notFound =>
    intro stack built importer i rest hf h
    exact ⟨h, by rintro _ ⟨⟩⟩
  case headStopped =>
    intro stack built importer i rest path halt built' hf _ ih h
    exact ⟨(ih h).1, by rintro _ ⟨⟩⟩
  case tailStopped =>
    intro stack built importer i rest path m built' halt built'' hf _ ihl iht h
    exact ⟨(iht (ihl h).1).1, by rintro _ ⟨⟩⟩
  case cons =>
    intro stack built importer i rest path m built' others built'' hf _ ihl iht h
    obtain ⟨hbuilt, hm⟩ := ihl h
    obtain ⟨hbuilt', hothers⟩ := iht hbuilt
    refine ⟨hbuilt', ?_⟩
    rintro _ ⟨⟩
    exact List.forall_mem_cons.2 ⟨hm m rfl, hothers others rfl⟩

theorem compile_forall_of_imports (h : ∀ entry ∈ ws.built, P entry.2) (written : String) :
    (∀ entry ∈ (ws.compile written).2.built, P entry.2) ∧
      ∀ m, (ws.compile written).1 = .ok m → P m := by
  cases hr : ws.sources.resolve? (.ofString written) with
  | none =>
    rw [compile_of_resolve?_eq_none hr]
    exact ⟨h, by rintro _ ⟨⟩⟩
  | some path =>
    obtain ⟨hbuilt, hloaded⟩ := (load_and_loadImports_forall hP ws).1 [] ws.built path h
    rw [compile_of_resolve?_eq_some hr]
    refine ⟨hbuilt, fun m hm => hloaded m ?_⟩
    cases hl : (ws.load [] ws.built path).1 with
    | error halt => simp [hl, Except.mapError] at hm
    | ok m' => simpa [hl, Except.mapError] using hm

theorem Used.forall_built_of_imports (h : Used ws) : ∀ entry ∈ ws.built, P entry.2 := by
  induction h with
  | fresh empty =>
    rw [empty]
    exact List.forall_mem_nil _
  | compile _ written ih => exact (compile_forall_of_imports hP ih written).1
  | change _ kept ih => exact kept ▸ ih

theorem Used.forall_compiled (h : Used ws) {m : Module}
    (hm : (ws.compile written).1 = .ok m ∨ ∃ path, (path, m) ∈ (ws.compile written).2.built) :
    P m := by
  obtain ⟨hbuilt, hcompiled⟩ :=
    compile_forall_of_imports hP (h.forall_built_of_imports hP) written
  rcases hm with hm | ⟨path, hm⟩
  · exact hcompiled m hm
  · exact hbuilt (path, m) hm

end Imports

variable (hP : ∀ {file text : String} {record : Record} {imports : List (Module.Import Module)}
  {m : Module}, Record.ofSource file text = .ok record →
    Module.ofRecord record file imports = .ok m → P m)

include hP

theorem compile_forall (h : ∀ entry ∈ ws.built, P entry.2) (written : String) :
    (∀ entry ∈ (ws.compile written).2.built, P entry.2) ∧
      ∀ m, (ws.compile written).1 = .ok m → P m :=
  compile_forall_of_imports (fun hr hb _ => hP hr hb) h written

theorem Used.forall_built (h : Used ws) : ∀ entry ∈ ws.built, P entry.2 :=
  h.forall_built_of_imports fun hr hb _ => hP hr hb

end Built

/-! ## Closed modules -/

/-- All the modules built so far are closed. -/
def AllClosed (built : Built) : Prop :=
  ∀ entry ∈ built, entry.2.Closed

theorem AllClosed.compile (h : AllClosed ws.built) (written : String) :
    AllClosed (ws.compile written).2.built ∧
      ∀ m, (ws.compile written).1 = .ok m → m.Closed :=
  compile_forall (fun _ hb => Module.closed_of_ofRecord hb) h written

theorem Used.allClosed (h : Used ws) : AllClosed ws.built :=
  h.forall_built fun _ hb => Module.closed_of_ofRecord hb

/-- Every module that a compilation returns or keeps is closed. -/
theorem compile_closed (h : Used ws) (written : String) :
    (∀ m, (ws.compile written).1 = .ok m → m.Closed) ∧
      ∀ entry ∈ (ws.compile written).2.built, entry.2.Closed := by
  obtain ⟨hbuilt, hclosed⟩ := h.allClosed.compile written
  exact ⟨hclosed, hbuilt⟩

/-- Two files: the client, the kinds and the values of the interface in `a` come from `b`. -/
def peers : Workspace where
  sources := { files :=
    [(.ofNames ["a"], .text ("import \"b\"; [Client=b.P] interface I " ++
        "{ const b.E C = b.E.V; const b.E D = C; };")),
      (.ofNames ["b"], .text "module b; enum E { V }; interface P {};")] }

theorem isOk_compile_peers : (peers.compile "/a").1.isOk = true := by decide +kernel

theorem compile_closed_peers :
    Used peers ∧ ∃ m, (peers.compile "/a").1 = .ok m ∧ m.Closed := by
  have hused : Used peers := .fresh rfl
  obtain ⟨m, hm⟩ := Except.exists_of_isOk isOk_compile_peers
  exact ⟨hused, m, hm, (compile_closed hused "/a").1 m hm⟩

/-! ## Unambiguous modules -/

theorem unambiguous_of_text {file text path : String} {record : Record}
    {imports : List (Module.Import Module)} {m : Module}
    (hr : Record.ofSource file text = .ok record)
    (hb : Module.ofRecord record path imports = .ok m) : m.Unambiguous :=
  Module.unambiguous_of_ofRecord (Record.plain_of_ofSource hr) hb

/-- In every module that a compilation returns or keeps, no two declarations have one qualified
name, no two members of a struct or interface and no two parameters of a list have one name, and no
two methods of an interface have one ordinal. -/
theorem compile_unambiguous (h : Used ws) (written : String) :
    (∀ m, (ws.compile written).1 = .ok m → m.Unambiguous) ∧
      ∀ entry ∈ (ws.compile written).2.built, entry.2.Unambiguous := by
  obtain ⟨hbuilt, hcompiled⟩ :=
    compile_forall unambiguous_of_text (h.forall_built unambiguous_of_text) written
  exact ⟨hcompiled, hbuilt⟩

/-- Names that are used in several places, but never twice in one. -/
def homonyms : Workspace where
  sources := { files :=
    [(.ofNames ["a"], .text ("module a; enum E { A, B = E.A }; const int32 A = 1; " ++
      "interface I { enum E { A }; const int32 A = 2; };"))] }

theorem isOk_compile_homonyms : (homonyms.compile "/a").1.isOk = true := by decide +kernel

theorem compile_unambiguous_homonyms :
    Used homonyms ∧ ∃ m, (homonyms.compile "/a").1 = .ok m ∧ m.Unambiguous := by
  have hused : Used homonyms := .fresh rfl
  obtain ⟨m, hm⟩ := Except.exists_of_isOk isOk_compile_homonyms
  exact ⟨hused, m, hm, (compile_unambiguous hused "/a").1 m hm⟩

end WireSchema.Workspace
