import WireSchema.Proofs.Workspace.Blame
import WireSchema.Proofs.Workspace.Paths

/-!
# Paths as they are shown

The path of a file below the source root is shown by the steps from there, and that of any other
file in full. Either way the root joined with the shown text is the path
(`SourcePath.join_relativeTo`), so no two files are shown alike (`Workspace.displayPath_inj`). A
session names files by how they are shown: in the paths of its modules, in its faults, and in the
lists of files in progress. Each of these names identifies its file
(`Session.names_identify_files`).
-/

namespace WireSchema

namespace SourcePath

variable {p q root : SourcePath} {rest : List Step}

/-! ## Paths of files -/

/-- The path of a file from the root on, in normal form. The root itself is no file. -/
structure IsFilePath (p : SourcePath) : Prop where
  absolute : p.absolute = true
  normal : p.IsNormal
  readable : ∀ s ∈ p.steps, Readable s
  steps_ne : p.steps ≠ []

/-- The paths of files are the normal forms of written paths from the root, the root apart. -/
theorem isFilePath_iff : p.IsFilePath ↔
    p.steps ≠ [] ∧ ∃ text, (ofString text).absolute = true ∧ (ofString text).normalize = p := by
  constructor
  · intro h
    refine ⟨h.steps_ne, p.text, ?_, ?_⟩
    · rw [ofString_text h.steps_ne h.readable, h.absolute]
    · rw [normalize_ofString_text h.readable, h.normal.normalize_eq]
  · rintro ⟨hne, text, habsolute, rfl⟩
    refine ⟨habsolute, isNormal_normalize _, fun s hs => ?_, hne⟩
    exact readable_of_mem_ofString (mem_of_mem_normalize hs)

theorem IsFilePath.ofString_text (h : p.IsFilePath) : ofString p.text = p :=
  SourcePath.ofString_text h.steps_ne h.readable

/-! ## Shown paths -/

theorem IsNormal.here_not_mem (h : p.IsNormal) : Step.here ∉ p.steps := by
  obtain ⟨ups, names, hsteps, -⟩ := h
  rw [hsteps]
  simp

theorem filter_ne_here {steps : List Step} (h : Step.here ∉ steps) :
    steps.filter (· ≠ .here) = steps :=
  List.filter_eq_self.2 fun s hs => by
    have hne : s ≠ .here := by
      rintro rfl
      exact h hs
    simpa using hne

theorem IsNormal.components_eq (h : p.IsNormal) : p.components = p := by
  have hhere := h.here_not_mem
  unfold components
  split
  · exact absurd List.mem_cons_self hhere
  · rw [filter_ne_here hhere]

theorem stripSteps_eq_some_iff {before steps : List Step} :
    stripSteps before steps = some rest ↔ steps = before ++ rest := by
  induction before generalizing steps with
  | nil => simp [stripSteps]
  | cons s before ih =>
    cases steps with
    | nil => simp [stripSteps]
    | cons t steps =>
      by_cases hst : s = t
      · subst hst
        simp [stripSteps, ih]
      · simp [stripSteps, hst, Ne.symm hst]

theorem below?_eq_some (hp : p.IsNormal) (hroot : root.IsNormal)
    (hsame : root.absolute = p.absolute) (hsteps : p.steps = root.steps ++ rest) :
    p.below? root = some ⟨false, rest⟩ := by
  rw [below?, hp.components_eq, hroot.components_eq, if_pos hsame,
    stripSteps_eq_some_iff.2 hsteps]
  rfl

/-- What is shown of a path that does not lie below the root. -/
theorem getD_below? (hp : p.IsNormal) (hroot : root.IsNormal)
    (hnot : ¬ (root.absolute = p.absolute ∧ root.steps <+: p.steps)) :
    (p.below? root).getD p.components = p := by
  rw [below?, hp.components_eq, hroot.components_eq]
  split
  · next hsame =>
    cases hstrip : stripSteps root.steps p.steps with
    | none => rfl
    | some rest => exact absurd ⟨hsame, rest, (stripSteps_eq_some_iff.1 hstrip).symm⟩ hnot
  · split <;> rfl

/-- A file below the root is shown by the steps from there. -/
theorem relativeTo_of_below (hp : p.IsFilePath) (hroot : root.IsNormal)
    (habsolute : root.absolute = true) (hsteps : p.steps = root.steps ++ rest) :
    p.relativeTo root = stepsText rest := by
  have hhere : Step.here ∉ rest := fun hmem =>
    hp.normal.here_not_mem (hsteps ▸ List.mem_append_right _ hmem)
  have hbelow := below?_eq_some hp.normal hroot (habsolute.trans hp.absolute.symm) hsteps
  simp only [relativeTo, hbelow, Option.getD_some, filter_ne_here hhere, stepsText]
  rfl

/-- Any other file is shown in full. -/
theorem relativeTo_of_not_below (hp : p.IsFilePath) (hroot : root.IsNormal)
    (hnot : ¬ (root.absolute = true ∧ root.steps <+: p.steps)) : p.relativeTo root = p.text := by
  have hshown : (p.below? root).getD p.components = p :=
    getD_below? hp.normal hroot (by rwa [hp.absolute])
  have hfilter := filter_ne_here hp.normal.here_not_mem
  obtain ⟨s, rest, hsteps⟩ := List.exists_cons_of_ne_nil hp.steps_ne
  simp only [relativeTo, hshown, hfilter, text, hp.absolute, if_true, stepsText]
  rw [hsteps, List.map_cons, String.intercalate_cons_cons, String.empty_append]

theorem ofString_stepsText (h : ∀ s ∈ rest, Readable s) :
    ofString (stepsText rest) = ⟨false, rest⟩ := by
  by_cases hne : rest = []
  · subst hne
    rfl
  · exact SourcePath.ofString_text (p := ⟨false, rest⟩) hne h

/-- The root joined with what is shown of a file is the path of the file. -/
theorem join_relativeTo (hp : p.IsFilePath) (hroot : root.IsNormal)
    (habsolute : root.absolute = true) : root.join (ofString (p.relativeTo root)) = p := by
  by_cases hbelow : root.steps <+: p.steps
  · obtain ⟨rest, hsteps⟩ := hbelow
    have hreadable : ∀ s ∈ rest, Readable s := fun s hs =>
      hp.readable s (hsteps ▸ List.mem_append_right _ hs)
    rw [relativeTo_of_below hp hroot habsolute hsteps.symm, ofString_stepsText hreadable, join,
      if_neg Bool.false_ne_true, hsteps, habsolute, ← hp.absolute]
  · rw [relativeTo_of_not_below hp hroot (fun h => hbelow h.2), hp.ofString_text, join,
      if_pos hp.absolute]

theorem relativeTo_inj (hp : p.IsFilePath) (hq : q.IsFilePath) (hroot : root.IsNormal)
    (h : p.relativeTo root = q.relativeTo root) : p = q := by
  cases habsolute : root.absolute with
  | true => rw [← join_relativeTo hp hroot habsolute, h, join_relativeTo hq hroot habsolute]
  | false =>
    have hnot : ∀ p : SourcePath, ¬ (root.absolute = true ∧ root.steps <+: p.steps) := by
      simp [habsolute]
    rw [relativeTo_of_not_below hp hroot (hnot p), relativeTo_of_not_below hq hroot (hnot q)] at h
    rw [← hp.ofString_text, h, hq.ofString_text]

end SourcePath

namespace Workspace

open SourcePath

variable {ws : Workspace} {stack : List SourcePath} {built : Built} {p q root : SourcePath}
  {m : Module} {written name : String}

theorem isNormal_empty : IsNormal ⟨false, []⟩ :=
  ⟨0, [], rfl, fun _ => rfl⟩

/-- No two files are shown alike. -/
theorem displayPath_inj (hp : p.IsFilePath) (hq : q.IsFilePath)
    (h : ws.displayPath p = ws.displayPath q) : p = q := by
  unfold displayPath at h
  split at h
  · exact relativeTo_inj hp hq (isNormal_normalize _) h
  · exact relativeTo_inj hp hq isNormal_empty h

/-! ## Modules -/

/-- Every module has the path by which its file is shown. -/
def Labelled (ws : Workspace) (built : Built) : Prop :=
  ∀ entry ∈ built, entry.2.path = ws.displayPath entry.1

theorem path_of_buildModule {file : String} {record : Record}
    {imports : List (Module.Import Module)} (h : buildModule file record imports = .ok m) :
    m.path = file := by
  have hm := (built_of_buildModule h).1
  simp only [Module.ofRecord, Except.bind_eq_ok, Except.pure_eq_ok] at hm
  obtain ⟨-, -, -, -, -, -, -, -, -, -, -, -, -, -, rfl⟩ := hm
  rfl

theorem Labelled.load (h : Labelled ws built) (stack : List SourcePath) (path : SourcePath) :
    Labelled ws (ws.load stack built path).2 := by
  have key := load_induction ws
    (P := fun _ built _ _ built' => Labelled ws built → Labelled ws built')
    (Q := fun _ built _ _ _ built' => Labelled ws built → Labelled ws built')
    ?circular ?cached ?missing ?unread ?stopped ?unbuilt ?finished ?nil ?notFound ?headStopped
    ?tailStopped ?cons
  · exact key.1 stack built path h
  case circular => exact fun _ _ _ _ h => h
  case cached => exact fun _ _ _ _ _ _ h => h
  case missing => exact fun _ _ _ _ _ _ h => h
  case unread => exact fun _ _ _ _ _ _ _ _ _ h => h
  case stopped =>
    intro stack built path contents record halt built' hs hb hf hr _ ih h
    exact ih h
  case unbuilt =>
    intro stack built path contents record imports built' fault hs hb hf hr _ ih hm h
    exact ih h
  case finished =>
    intro stack built path contents record imports built' m hs hb hf hr _ ih hm h
    exact List.forall_mem_cons.2 ⟨path_of_buildModule hm, ih h⟩
  case nil => exact fun _ _ _ h => h
  case notFound => exact fun _ _ _ _ _ _ h => h
  case headStopped =>
    intro stack built importer i rest path halt built' hf _ ih h
    exact ih h
  case tailStopped =>
    intro stack built importer i rest path m built' halt built'' hf _ ihl iht h
    exact iht (ihl h)
  case cons =>
    intro stack built importer i rest path m built' others built'' hf _ ihl iht h
    exact iht (ihl h)

theorem Labelled.compile (h : Labelled ws ws.built) (written : String) :
    Labelled (ws.compile written).2 (ws.compile written).2.built := by
  cases hr : ws.sources.resolve? (.ofString written) with
  | none => rwa [compile_of_resolve?_eq_none hr]
  | some root =>
    rw [compile_of_resolve?_eq_some hr]
    exact h.load [] root

theorem Labelled.path_of_lookup (h : Labelled ws built) (hm : built.lookup p = some m) :
    m.path = ws.displayPath p := by
  obtain ⟨before, after, rfl, -⟩ := List.lookup_eq_some_iff.1 hm
  exact h (p, m) (by simp)

/-- The module that a compilation returns is kept for its root. -/
theorem lookup_compile (hlinked : Linked ws.built)
    (hr : ws.sources.resolve? (.ofString written) = some root)
    (hm : (ws.compile written).1 = .ok m) : (ws.compile written).2.built.lookup root = some m := by
  have hend := (kept_load_and_loadImports ws).1 [] ws.built root hlinked (List.forall_mem_nil _)
  rw [compile_of_resolve?_eq_some hr] at hm ⊢
  cases hl : (ws.load [] ws.built root).1 with
  | error halt => simp [hl, Except.mapError] at hm
  | ok n =>
    obtain rfl : n = m := by simpa [hl, Except.mapError] using hm
    exact hend.returned n hl

theorem Labelled.path_of_compile (h : Labelled ws ws.built) (hlinked : Linked ws.built)
    (hr : ws.sources.resolve? (.ofString written) = some root)
    (hm : (ws.compile written).1 = .ok m) : m.path = ws.displayPath root := by
  have hlookup := lookup_compile hlinked hr hm
  have hload := h.load [] root
  rw [compile_of_resolve?_eq_some hr] at hlookup
  exact hload.path_of_lookup hlookup

/-! ## Names of files -/

/-- The file is shown by this name, and no other file is. -/
structure Identifies (ws : Workspace) (name : String) (p : SourcePath) : Prop where
  shown : name = ws.displayPath p
  only : p.IsFilePath → ∀ q : SourcePath, q.IsFilePath → ws.displayPath q = name → q = p

theorem identifies (h : name = ws.displayPath p) : Identifies ws name p :=
  ⟨h, fun hp _ hq hname => displayPath_inj hq hp (hname.trans h)⟩

theorem forall₂_identifies {names : List String} {files : List SourcePath}
    (h : names = files.map ws.displayPath) : List.Forall₂ (Identifies ws) names files := by
  subst h
  rw [List.forall₂_map_left_iff, List.forall₂_same]
  exact fun _ _ => identifies rfl

end Workspace

namespace Session

open Workspace SourcePath

variable {s : Session}

theorem labelled_run (h : Labelled s.workspace s.workspace.built) (hidle : s.Idle)
    (steps : List Step) : Labelled (s.run steps).workspace (s.run steps).workspace.built := by
  induction steps generalizing s with
  | nil => exact h
  | cons step rest ih =>
    refine ih ?_ (hidle.perform step)
    cases step with
    | add written text => exact h
    | compile written =>
      rw [perform, compile_eq hidle.importStack]
      exact h.compile written

/-- Shown paths identify files. A root joined with what is shown of a file relative to it is the
path of the file, wherever the file lies. In every session that a new one becomes by compilations,
successful or not, and by adding sources, the path of a module identifies its file, and so does
every name of a failure: the names of the files in progress, the file that the fault is told of, and
the names of a circle of imports. -/
theorem names_identify_files (sources : Sources) (searchDirs : List SourcePath)
    (sourceRoot : Option SourcePath) (steps : List Step) :
    let s := (start sources searchDirs sourceRoot).run steps
    (∀ root p : SourcePath, root.absolute = true → root.IsNormal → p.IsFilePath →
      root.join (ofString (p.relativeTo root)) = p) ∧
    (∀ p m, (p, m) ∈ s.workspace.built → Identifies s.workspace m.path p) ∧
    ∀ written root, s.workspace.sources.resolve? (.ofString written) = some root →
      (∀ m, (s.compile written).1 = .ok m → Identifies s.workspace m.path root) ∧
      ∀ fault, (s.compile written).1 = .error fault →
        ∃ files, Blames s.workspace root fault files ∧
          List.Forall₂ (Identifies s.workspace) fault.stack files ∧
          (∀ file, fault.fault.file? = some file → ∃ last, files.getLast? = some last ∧
            Faulty s.workspace last fault.fault ∧ Identifies s.workspace file last) ∧
          ∀ chain, fault.fault = .circular chain →
            ∃ again ∈ files, List.Forall₂ (Identifies s.workspace) chain (files ++ [again]) := by
  intro s
  have hidle : s.Idle := (idle_start sources searchDirs sourceRoot).run steps
  have hstart : Labelled (start sources searchDirs sourceRoot).workspace [] :=
    List.forall_mem_nil _
  have hlabelled : Labelled s.workspace s.workspace.built :=
    labelled_run hstart (idle_start sources searchDirs sourceRoot) steps
  refine ⟨fun root p habsolute hroot hp => join_relativeTo hp hroot habsolute,
    fun p m hm => identifies (hlabelled (p, m) hm), fun written root hr => ⟨?_, ?_⟩⟩
  · intro m hm
    rw [compile_eq hidle.importStack] at hm
    exact identifies (hlabelled.path_of_compile hidle.linked hr hm)
  · intro fault hfault
    rw [compile_eq hidle.importStack] at hfault
    obtain ⟨hnone, -⟩ | ⟨root', halt, hroot, halts, rfl⟩ := halts_of_compile hfault
    · cases hnone.symm.trans hr
    obtain rfl := Option.some.inj (hroot.symm.trans hr)
    have hblames := halts.blames
    refine ⟨_, hblames, forall₂_identifies hblames.stack, fun file hfile => ?_,
      fun chain hchain => ?_⟩
    · obtain ⟨last, hlast, hfaulty⟩ := hblames.faulty fun chain hc => by
        rw [hc] at hfile
        cases hfile
      exact ⟨last, hlast, hfaulty, identifies (hfaulty.eq_displayPath hfile)⟩
    · obtain ⟨last, again, -, hmem, -, hchain⟩ := hblames.circular chain hchain
      refine ⟨again, hmem, forall₂_identifies ?_⟩
      rw [hchain, hblames.stack, List.map_append]
      rfl

/-- Files of one name in directories whose names begin alike. One imports the other, which has no
module. -/
def neighbours : Workspace where
  sources := { files :=
    [(.ofNames ["src", "a"], .text "import \"../src2/a\"; module a {}"),
     (.ofNames ["src2", "a"], .text ""),
     (.ofNames ["a"], .text "module a;")] }
  sourceRoot := some (.ofNames ["src"])

/-- Below `/src`, the files `/src/a`, `/src2/a` and `/a` are shown as `a`, `/src2/a` and `/a`. -/
theorem names_identify_neighbours :
    (SourcePath.ofNames ["src2", "a"]).relativeTo (.ofNames ["src"]) = "/src2/a" ∧
    (SourcePath.ofNames ["src"]).join (ofString "/src2/a") = .ofNames ["src2", "a"] ∧
    (∃ m, (neighbours.compile "/a").1 = .ok m ∧ m.path = "/a" ∧
      Identifies neighbours "/a" (.ofNames ["a"])) ∧
    (neighbours.compile "/src/a").1 = .error ⟨.record "/src2/a" .noModule, ["a", "/src2/a"]⟩ ∧
    ∃ files, List.Forall₂ (Identifies neighbours) ["a", "/src2/a"] files ∧
      ∃ last, files.getLast? = some last ∧ Identifies neighbours "/src2/a" last := by
  obtain ⟨hjoin, -, hcompile⟩ :=
    names_identify_files neighbours.sources [] neighbours.sourceRoot []
  have hsame (written : String) :
      (((start neighbours.sources [] neighbours.sourceRoot).run []).compile written).1 =
        (neighbours.compile written).1 := by
    rw [compile_eq rfl]
    rfl
  have hpath : IsFilePath (.ofNames ["src2", "a"]) :=
    isFilePath_iff.2 ⟨by decide, "/src2/a", rfl, rfl⟩
  have hroot : IsNormal (.ofNames ["src"]) := ⟨0, ["src"], rfl, fun _ => rfl⟩
  have hshown : (SourcePath.ofNames ["src2", "a"]).relativeTo (.ofNames ["src"]) = "/src2/a" := by
    decide
  have hbroken :
      neighbours.sources.resolve? (.ofString "/src/a") = some (.ofNames ["src", "a"]) := by
    decide +kernel
  have hwhole : neighbours.sources.resolve? (.ofString "/a") = some (.ofNames ["a"]) := by
    decide +kernel
  have hfault : (neighbours.compile "/src/a").1 =
      .error ⟨.record "/src2/a" .noModule, ["a", "/src2/a"]⟩ :=
    (Except.map_eq_error (g := fun _ => ())).1 (by decide +kernel)
  obtain ⟨m, hm, hmpath⟩ : ∃ m, (neighbours.compile "/a").1 = .ok m ∧ m.path = "/a" :=
    Except.map_eq_ok.1 (by decide +kernel)
  refine ⟨hshown, hshown ▸ hjoin _ _ rfl hroot hpath, ⟨m, hm, hmpath, ?_⟩, hfault, ?_⟩
  · exact hmpath ▸ (hcompile "/a" _ hwhole).1 m ((hsame _).trans hm)
  · obtain ⟨files, -, hstack, hfile, -⟩ :=
      (hcompile "/src/a" _ hbroken).2 _ ((hsame _).trans hfault)
    obtain ⟨last, hlast, -, hlast'⟩ := hfile "/src2/a" rfl
    exact ⟨files, hstack, last, hlast, hlast'⟩

end Session

end WireSchema
