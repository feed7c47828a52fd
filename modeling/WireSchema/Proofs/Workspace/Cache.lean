import WireSchema.Proofs.Workspace.Loading

/-!
# Modules built so far

The loader keeps the modules it has built, and a build that meets one of their files takes the
module as it is. `Workspace.loadAnew` is the loader that keeps nothing and builds every file again
wherever it is imported. `Workspace.Justified` says where the kept modules come from: each was built
from the text of its file and from modules kept before it. A run keeps this (`Workspace.run_load`),
whatever modules it starts with and whether it succeeds or fails, so a run that may use kept modules
gives what building anew gives (`Workspace.load_fst`).

`Workspace.Reached` describes the workspaces that compilations and changes of texts lead to from a
fresh one. `Workspace.compile_fst_eq_fresh` says that in each of them a compilation gives what it
gives in a fresh workspace with the same sources, as long as the files of kept modules have the texts
that the modules were built from.
-/

namespace WireSchema.Workspace

variable {ws ws' : Workspace} {stack : List SourcePath} {built built' : Built}
  {path importer q : SourcePath} {texts texts' : SourcePath → Option FileText} {m : Module}
  {record : Record} {imports : List (Module.Import Module)} {written text : String}

/-! ## Building anew -/

mutual

/-- Builds the module of a canonical path, with everything it imports. `stack` holds the files in
progress, latest first. -/
def loadAnew (ws : Workspace) (stack : List SourcePath) (path : SourcePath) : Except Halt Module :=
  if _ : path ∈ stack then
    .error ⟨.circular ((path :: stack).reverse.map ws.displayPath), stack⟩
  else
    match _ : ws.sources.files.lookup path with
    | none => .error ⟨.unreadable path.text (path.text ++ " does not exist"), path :: stack⟩
    | some contents =>
      match ws.readRecord path contents with
      | .error fault => .error ⟨fault, path :: stack⟩
      | .ok record =>
        match loadImportsAnew ws (path :: stack) path record.imports with
        | .error halt => .error halt
        | .ok imports =>
          (buildModule (ws.displayPath path) record imports).mapError (⟨·, path :: stack⟩)
termination_by (remaining (ws.sources.files.map Prod.fst) stack, 0)
decreasing_by
  · exact .left _ _ (remaining_cons_lt (mem_keys_of_lookup ‹_›) ‹_›)

/-- Builds the modules that the file `importer` imports, in order. -/
def loadImportsAnew (ws : Workspace) (stack : List SourcePath) (importer : SourcePath)
    (imports : List Record.Import) : Except Halt (List (Module.Import Module)) :=
  match imports with
  | [] => .ok []
  | i :: rest =>
    match ws.findImport? importer i.filename with
    | none =>
      .error ⟨.build (ws.displayPath importer)
        (.resolution i.line (.importNotFound i.filename)), stack⟩
    | some path =>
      match loadAnew ws stack path with
      | .error halt => .error halt
      | .ok m => (loadImportsAnew ws stack importer rest).map (⟨i.filename, m.space, path, m⟩ :: ·)
termination_by (remaining (ws.sources.files.map Prod.fst) stack, imports.length + 1)
decreasing_by
  · exact .right _ (Nat.zero_lt_succ _)
  · exact .right _ (by simp)

end

theorem loadAnew_of_mem (h : path ∈ stack) :
    ws.loadAnew stack path =
      .error ⟨.circular ((path :: stack).reverse.map ws.displayPath), stack⟩ := by
  rw [loadAnew, dif_pos h]

theorem loadAnew_of_lookup_eq_none (hs : path ∉ stack) (hf : ws.sources.files.lookup path = none) :
    ws.loadAnew stack path =
      .error ⟨.unreadable path.text (path.text ++ " does not exist"), path :: stack⟩ := by
  rw [loadAnew, dif_neg hs]
  split
  · rfl
  · simp_all

theorem loadAnew_of_lookup_eq_some {contents : FileText} (hs : path ∉ stack)
    (hf : ws.sources.files.lookup path = some contents) :
    ws.loadAnew stack path =
      match ws.readRecord path contents with
      | .error fault => .error ⟨fault, path :: stack⟩
      | .ok record =>
        match ws.loadImportsAnew (path :: stack) path record.imports with
        | .error halt => .error halt
        | .ok imports =>
          (buildModule (ws.displayPath path) record imports).mapError (⟨·, path :: stack⟩) := by
  rw [loadAnew, dif_neg hs]
  split
  · simp_all
  · next h =>
    obtain rfl := Option.some.inj (hf.symm.trans h)
    rfl

/-- Builds the module of the file at a path, with everything it imports. -/
def compileAnew (ws : Workspace) (written : String) : Except CompileFault Module :=
  match ws.sources.resolve? (.ofString written) with
  | none => .error ⟨.unreadable written "No such file", []⟩
  | some path => (ws.loadAnew [] path).mapError fun halt =>
      ⟨halt.fault, halt.stack.reverse.map ws.displayPath⟩

/-- Building anew reads the sources and the places of imports, and no kept module. -/
theorem compileAnew_withBuilt (ws : Workspace) (built : Built) :
    ({ ws with built } : Workspace).compileAnew = ws.compileAnew := by
  with_unfolding_all rfl

/-! ## Where kept modules come from -/

theorem lookup_cons_of_ne (h : q ≠ path) : List.lookup q ((path, m) :: built) = built.lookup q := by
  rw [List.lookup_cons, beq_eq_false_iff_ne.2 h]

/-- What the file at a path holds now. -/
abbrev textAt (ws : Workspace) (path : SourcePath) : Option FileText :=
  ws.sources.files.lookup path

/-- Imports in order, each with the kept module of the file it leads to. -/
def Imported (ws : Workspace) (built : Built) (importer : SourcePath) :
    List Record.Import → List (Module.Import Module) → Prop :=
  List.Forall₂ fun i j => ∃ path m, ws.findImport? importer i.filename = some path ∧
    built.lookup path = some m ∧ j = ⟨i.filename, m.space, path, m⟩

/-- Each module was built from the text that `texts` gives for its file and from modules that were
kept before. -/
inductive Justified (ws : Workspace) (texts : SourcePath → Option FileText) : Built → Prop where
  | nil : Justified ws texts []
  | cons {built : Built} {path : SourcePath} {contents : FileText} {record : Record}
    {imports : List (Module.Import Module)} {m : Module} (rest : Justified ws texts built)
    (fresh : built.lookup path = none) (text : texts path = some contents)
    (read : ws.readRecord path contents = .ok record)
    (imported : Imported ws built path record.imports imports)
    (build : buildModule (ws.displayPath path) record imports = .ok m) :
    Justified ws texts ((path, m) :: built)

/-- Every module of the first list is kept in the second. -/
def Extends (built built' : Built) : Prop :=
  ∀ q m, built.lookup q = some m → built'.lookup q = some m

theorem Extends.refl (built : Built) : Extends built built :=
  fun _ _ h => h

theorem Extends.trans {built'' : Built} (h : Extends built built') (h' : Extends built' built'') :
    Extends built built'' :=
  fun q m hm => h' q m (h q m hm)

theorem Extends.lookup_eq_none (h : Extends built built') (hq : built'.lookup q = none) :
    built.lookup q = none := by
  cases hb : built.lookup q with
  | none => rfl
  | some m => rw [h q m hb] at hq; cases hq

theorem extends_cons (h : built.lookup path = none) : Extends built ((path, m) :: built) := by
  intro q n hn
  have hne : q ≠ path := by rintro rfl; rw [h] at hn; cases hn
  rwa [lookup_cons_of_ne hne]

/-- Where modules come from depends on the workspace through the names it shows, the places of
imports, and the texts of the kept files. -/
theorem Justified.congr (h : Justified ws texts built) (hshow : ws'.sourceRoot = ws.sourceRoot)
    (hfind : ws'.findImport? = ws.findImport?)
    (htexts : ∀ q m, built.lookup q = some m → texts' q = texts q) :
    Justified ws' texts' built := by
  have hdisplay : ws'.displayPath = ws.displayPath := by
    funext path
    rw [displayPath, displayPath, hshow]
  have hread : ws'.readRecord = ws.readRecord := by
    funext path contents
    cases contents <;> simp only [readRecord, hdisplay]
  induction h with
  | nil => exact .nil
  | cons rest fresh text read imported build ih =>
    refine .cons (ih fun q m hq => htexts q m (extends_cons fresh q m hq)) fresh
      ((htexts _ _ List.lookup_cons_self).trans text) (by rw [hread, read]) ?_
      (by rw [hdisplay, build])
    rw [Imported, hfind]
    exact imported

/-- The loader's state: kept modules are justified by texts that are, for files without a module, the
current ones, and no file in progress has a module. -/
structure Ready (ws : Workspace) (texts : SourcePath → Option FileText) (stack : List SourcePath)
    (built : Built) : Prop where
  justified : Justified ws texts built
  current : ∀ q, built.lookup q = none → texts q = ws.textAt q
  apart : ∀ q ∈ stack, built.lookup q = none

/-- A run begins with no file in progress. -/
theorem Justified.ready (h : Justified ws texts built)
    (current : ∀ q, built.lookup q = none → texts q = ws.textAt q) : Ready ws texts [] built :=
  ⟨h, current, List.forall_mem_nil _⟩

theorem Ready.push (h : Ready ws texts stack built) (hb : built.lookup path = none) :
    Ready ws texts (path :: stack) built :=
  ⟨h.justified, h.current, List.forall_mem_cons.2 ⟨hb, h.apart⟩⟩

theorem Ready.pop (h : Ready ws texts (path :: stack) built) : Ready ws texts stack built :=
  ⟨h.justified, h.current, (List.forall_mem_cons.1 h.apart).2⟩

/-- Keeps the module of the latest file in progress. -/
theorem Ready.keep {contents : FileText} (h : Ready ws texts (path :: stack) built)
    (hs : path ∉ stack) (hf : ws.sources.files.lookup path = some contents)
    (hr : ws.readRecord path contents = .ok record)
    (hi : Imported ws built path record.imports imports)
    (hm : buildModule (ws.displayPath path) record imports = .ok m) :
    Ready ws texts stack ((path, m) :: built) := by
  have hb : built.lookup path = none := h.apart path List.mem_cons_self
  refine ⟨.cons h.justified hb ((h.current path hb).trans hf) hr hi hm, ?_, ?_⟩
  · intro q hq
    exact h.current q ((extends_cons hb).lookup_eq_none hq)
  · intro q hq
    have hne : q ≠ path := by rintro rfl; exact hs hq
    rw [lookup_cons_of_ne hne]
    exact h.pop.apart q hq

/-! ## What a run keeps -/

/-- What a run does to the kept modules: it drops none and adds justified ones. -/
structure Run (ws : Workspace) (texts : SourcePath → Option FileText) (stack : List SourcePath)
    (built built' : Built) : Prop where
  ready : Ready ws texts stack built'
  extend : Extends built built'

theorem run_load_and_loadImports (ws : Workspace) (texts : SourcePath → Option FileText) :
    (∀ stack built path, Ready ws texts stack built →
      Run ws texts stack built (ws.load stack built path).2 ∧
      ∀ m, (ws.load stack built path).1 = .ok m →
        (ws.load stack built path).2.lookup path = some m) ∧
    ∀ stack built importer is, Ready ws texts stack built →
      Run ws texts stack built (ws.loadImports stack built importer is).2 ∧
      ∀ imports, (ws.loadImports stack built importer is).1 = .ok imports →
        Imported ws (ws.loadImports stack built importer is).2 importer is imports := by
  apply load_induction ws
    (P := fun stack built path result built' => Ready ws texts stack built →
      Run ws texts stack built built' ∧ ∀ m, result = .ok m → built'.lookup path = some m)
    (Q := fun stack built importer is result built' => Ready ws texts stack built →
      Run ws texts stack built built' ∧
        ∀ imports, result = .ok imports → Imported ws built' importer is imports)
  case circular =>
    intro stack built path hs h
    exact ⟨⟨h, .refl _⟩, by rintro _ ⟨⟩⟩
  case cached =>
    intro stack built path m hs hm h
    exact ⟨⟨h, .refl _⟩, by rintro _ ⟨⟩; exact hm⟩
  case missing =>
    intro stack built path hs hb hf h
    exact ⟨⟨h, .refl _⟩, by rintro _ ⟨⟩⟩
  case unread =>
    intro stack built path contents fault hs hb hf hr h
    exact ⟨⟨h, .refl _⟩, by rintro _ ⟨⟩⟩
  case stopped =>
    intro stack built path contents record halt built' hs hb hf hr _ ih h
    obtain ⟨run, -⟩ := ih (h.push hb)
    exact ⟨⟨run.ready.pop, run.extend⟩, by rintro _ ⟨⟩⟩
  case unbuilt =>
    intro stack built path contents record imports built' fault hs hb hf hr _ ih hm h
    obtain ⟨run, -⟩ := ih (h.push hb)
    exact ⟨⟨run.ready.pop, run.extend⟩, by rintro _ ⟨⟩⟩
  case finished =>
    intro stack built path contents record imports built' m hs hb hf hr _ ih hm h
    obtain ⟨run, imported⟩ := ih (h.push hb)
    have hb' : built'.lookup path = none := run.ready.apart path List.mem_cons_self
    refine ⟨⟨run.ready.keep hs hf hr (imported imports rfl) hm,
      run.extend.trans (extends_cons hb')⟩, ?_⟩
    rintro _ ⟨⟩
    exact List.lookup_cons_self
  case nil =>
    intro stack built importer h
    exact ⟨⟨h, .refl _⟩, by rintro _ ⟨⟩; exact .nil⟩
  case notFound =>
    intro stack built importer i rest hf h
    exact ⟨⟨h, .refl _⟩, by rintro _ ⟨⟩⟩
  case headStopped =>
    intro stack built importer i rest path halt built' hf _ ih h
    exact ⟨(ih h).1, by rintro _ ⟨⟩⟩
  case tailStopped =>
    intro stack built importer i rest path m built' halt built'' hf _ ihl iht h
    obtain ⟨run, -⟩ := ihl h
    obtain ⟨run', -⟩ := iht run.ready
    exact ⟨⟨run'.ready, run.extend.trans run'.extend⟩, by rintro _ ⟨⟩⟩
  case cons =>
    intro stack built importer i rest path m built' others built'' hf _ ihl iht h
    obtain ⟨run, kept⟩ := ihl h
    obtain ⟨run', imported⟩ := iht run.ready
    refine ⟨⟨run'.ready, run.extend.trans run'.extend⟩, ?_⟩
    rintro _ ⟨⟩
    exact .cons ⟨path, m, hf, run'.extend path m (kept m rfl), rfl⟩ (imported others rfl)

theorem run_load (h : Ready ws texts stack built) (path : SourcePath) :
    Run ws texts stack built (ws.load stack built path).2 :=
  ((run_load_and_loadImports ws texts).1 stack built path h).1

/-- A module that a run gives is kept. -/
theorem lookup_load (h : Ready ws texts stack built) (hm : (ws.load stack built path).1 = .ok m) :
    (ws.load stack built path).2.lookup path = some m :=
  ((run_load_and_loadImports ws texts).1 stack built path h).2 m hm

/-! ## Kept modules are what building anew gives -/

theorem loadImportsAnew_of_imported {is : List Record.Import}
    (h : Imported ws built importer is imports)
    (hload : ∀ q m, built.lookup q = some m → ws.loadAnew stack q = .ok m) :
    ws.loadImportsAnew stack importer is = .ok imports := by
  induction h with
  | nil => rw [loadImportsAnew]
  | cons hi _ ih =>
    obtain ⟨path, m, hf, hm, rfl⟩ := hi
    rw [loadImportsAnew]
    simp only [hf, hload path m hm, ih, Except.map]

/-- Building the file of a kept module anew gives the module, under any files in progress. -/
theorem Justified.loadAnew (h : Justified ws ws.textAt built)
    (hs : ∀ q ∈ stack, built.lookup q = none) (hq : built.lookup q = some m) :
    ws.loadAnew stack q = .ok m := by
  -- The files in progress differ between the module and its imports.
  induction h generalizing stack q m with
  | nil => simp at hq
  | @cons built path contents record imports n rest fresh text read imported build ih =>
    have hs' : ∀ q ∈ stack, built.lookup q = none :=
      fun q hq => (extends_cons fresh).lookup_eq_none (hs q hq)
    by_cases hp : q = path
    · subst hp
      obtain rfl := Option.some.inj (List.lookup_cons_self.symm.trans hq)
      have hnot : q ∉ stack := fun hmem => by
        have := hs q hmem
        rw [List.lookup_cons_self] at this
        cases this
      have himports : ws.loadImportsAnew (q :: stack) q record.imports = .ok imports :=
        loadImportsAnew_of_imported imported fun _ _ =>
          ih (List.forall_mem_cons.2 ⟨fresh, hs'⟩)
      rw [loadAnew_of_lookup_eq_some hnot text]
      simp only [read, himports, build, Except.mapError]
    · rw [lookup_cons_of_ne hp] at hq
      exact ih hs' hq

theorem load_fst_and_loadImports_fst (ws : Workspace) :
    (∀ stack built path, Ready ws ws.textAt stack built →
      ws.loadAnew stack path = (ws.load stack built path).1) ∧
    ∀ stack built importer is, Ready ws ws.textAt stack built →
      ws.loadImportsAnew stack importer is = (ws.loadImports stack built importer is).1 := by
  apply load_induction ws
    (P := fun stack built path result _ => Ready ws ws.textAt stack built →
      ws.loadAnew stack path = result)
    (Q := fun stack built importer is result _ => Ready ws ws.textAt stack built →
      ws.loadImportsAnew stack importer is = result)
  case circular =>
    intro stack built path hs h
    exact loadAnew_of_mem hs
  case cached =>
    intro stack built path m hs hm h
    exact h.justified.loadAnew h.apart hm
  case missing =>
    intro stack built path hs hb hf h
    exact loadAnew_of_lookup_eq_none hs hf
  case unread =>
    intro stack built path contents fault hs hb hf hr h
    rw [loadAnew_of_lookup_eq_some hs hf, hr]
  case stopped =>
    intro stack built path contents record halt built' hs hb hf hr _ ih h
    rw [loadAnew_of_lookup_eq_some hs hf]
    simp only [hr, ih (h.push hb)]
  case unbuilt =>
    intro stack built path contents record imports built' fault hs hb hf hr _ ih hm h
    rw [loadAnew_of_lookup_eq_some hs hf]
    simp only [hr, ih (h.push hb), hm, Except.mapError]
  case finished =>
    intro stack built path contents record imports built' m hs hb hf hr _ ih hm h
    rw [loadAnew_of_lookup_eq_some hs hf]
    simp only [hr, ih (h.push hb), hm, Except.mapError]
  case nil =>
    intro stack built importer h
    rw [loadImportsAnew]
  case notFound =>
    intro stack built importer i rest hf h
    rw [loadImportsAnew]
    simp only [hf]
  case headStopped =>
    intro stack built importer i rest path halt built' hf _ ih h
    rw [loadImportsAnew]
    simp only [hf, ih h]
  case tailStopped =>
    intro stack built importer i rest path m built' halt built'' hf hl ihl iht h
    have hready : Ready ws ws.textAt stack built' := by
      simpa only [hl] using (run_load h path).ready
    rw [loadImportsAnew]
    simp only [hf, ihl h, iht hready, Except.map]
  case cons =>
    intro stack built importer i rest path m built' others built'' hf hl ihl iht h
    have hready : Ready ws ws.textAt stack built' := by
      simpa only [hl] using (run_load h path).ready
    rw [loadImportsAnew]
    simp only [hf, ihl h, iht hready, Except.map]

/-- A run that may use kept modules gives what building anew gives. -/
theorem load_fst (h : Ready ws ws.textAt stack built) (path : SourcePath) :
    (ws.load stack built path).1 = ws.loadAnew stack path :=
  ((load_fst_and_loadImports_fst ws).1 stack built path h).symm

/-! ## Replacing texts -/

theorem lookup_add (s : Sources) (written text : String) (q : SourcePath) :
    (s.add written text).files.lookup q =
      if q = (SourcePath.ofString written).normalize then some (.text text)
      else s.files.lookup q := by
  by_cases hq : q = (SourcePath.ofString written).normalize
  · rw [if_pos hq, hq]
    exact List.lookup_cons_self
  · rw [if_neg hq, Sources.add]
    simp only [List.lookup_cons, beq_eq_false_iff_ne.2 hq]
    exact lookup_filter (fun _ => by simpa using hq) s.files

/-- Replacing the text of a file leaves every path leading where it led. -/
theorem resolve?_addSource (h : (ws.textAt (SourcePath.ofString written).normalize).isSome) :
    (ws.addSource written text).sources.resolve? = ws.sources.resolve? := by
  have hsome : ∀ q, ((ws.sources.add written text).files.lookup q).isSome =
      (ws.sources.files.lookup q).isSome := by
    intro q
    rw [lookup_add]
    split
    · next hq => rw [hq, h]; rfl
    · rfl
  funext path
  have haddr : (ws.addSource written text).sources.addressing = ws.sources.addressing := rfl
  unfold Sources.resolve?
  rw [haddr]
  simp only [addSource, hsome]

theorem findImport?_addSource (h : (ws.textAt (SourcePath.ofString written).normalize).isSome) :
    (ws.addSource written text).findImport? = ws.findImport? := by
  funext importer name
  rw [findImport?, resolve?_addSource h]
  rfl

/-! ## Workspaces in use -/

/-- The texts that modules were built from, after one more compilation: a module that was kept stays
as it is, and any other is built from what its file holds now. -/
def originsAfter (ws : Workspace) (origins : SourcePath → Option FileText) (path : SourcePath) :
    Option FileText :=
  if (ws.built.lookup path).isSome then origins path else ws.textAt path

/-- The workspaces that a fresh one becomes by compilations, successful or not, and by replacing the
texts of its files, each with the texts that its modules were built from. -/
inductive Reached : Workspace → (SourcePath → Option FileText) → Prop where
  | fresh {ws : Workspace} (empty : ws.built = []) : Reached ws fun _ => none
  | compile {ws : Workspace} {origins : SourcePath → Option FileText} (reached : Reached ws origins)
    (written : String) : Reached (ws.compile written).2 (ws.originsAfter origins)
  | replace {ws : Workspace} {origins : SourcePath → Option FileText} {written : String}
    (reached : Reached ws origins)
    (known : (ws.textAt (SourcePath.ofString written).normalize).isSome) (text : String) :
    Reached (ws.addSource written text) origins

/-- A compilation starts from kept modules and current texts. -/
theorem Justified.ready_originsAfter (h : Justified ws texts ws.built) :
    Ready ws (ws.originsAfter texts) [] ws.built := by
  refine Justified.ready (h.congr rfl rfl fun q m hq => ?_) fun q hq => ?_
  · rw [originsAfter, hq]
    rfl
  · rw [originsAfter, hq]
    rfl

theorem Justified.compile (h : Justified ws texts ws.built) (written : String) :
    Justified (ws.compile written).2 (ws.originsAfter texts) (ws.compile written).2.built := by
  cases hr : ws.sources.resolve? (.ofString written) with
  | none =>
    rw [compile_of_resolve?_eq_none hr]
    exact h.ready_originsAfter.justified
  | some path =>
    rw [compile_of_resolve?_eq_some hr]
    exact (run_load h.ready_originsAfter path).ready.justified.congr rfl rfl fun _ _ _ => rfl

theorem Reached.justified {origins : SourcePath → Option FileText} (h : Reached ws origins) :
    Justified ws origins ws.built := by
  induction h with
  | fresh empty =>
    rw [empty]
    exact .nil
  | compile _ written ih => exact ih.compile written
  | replace _ known text ih => exact ih.congr rfl (findImport?_addSource known) fun _ _ _ => rfl

/-- A compilation gives what building anew gives, if the kept modules are those of the current
texts. -/
theorem Justified.compile_fst (h : Justified ws ws.textAt ws.built) (written : String) :
    (ws.compile written).1 = ws.compileAnew written := by
  cases hr : ws.sources.resolve? (.ofString written) with
  | none => rw [compile_of_resolve?_eq_none hr, compileAnew, hr]
  | some path =>
    have hready : Ready ws ws.textAt [] ws.built := h.ready fun _ _ => rfl
    simp only [compile_of_resolve?_eq_some hr, compileAnew, hr, load_fst hready path]

/-- Whatever was compiled and replaced before, a compilation gives the module, or the fault with its
files in progress, that a fresh workspace with the same sources gives, as long as every file with a
kept module holds the text the module was built from. -/
theorem compile_fst_eq_fresh {origins : SourcePath → Option FileText} (h : Reached ws origins)
    (same : ∀ q m, ws.built.lookup q = some m → ws.textAt q = origins q) (written : String) :
    (ws.compile written).1 = (({ ws with built := [] } : Workspace).compile written).1 := by
  have hjust : Justified ws ws.textAt ws.built := h.justified.congr rfl rfl same
  calc (ws.compile written).1
    _ = ws.compileAnew written := hjust.compile_fst written
    _ = ({ ws with built := [] } : Workspace).compileAnew written := by
      rw [compileAnew_withBuilt ws []]
    _ = (({ ws with built := [] } : Workspace).compile written).1 :=
      (Justified.compile_fst .nil written).symm

/-- Three files: `a` imports `b`, and `c` imports `a` and itself. -/
def threeFiles : Workspace where
  sources := { files :=
    [(.ofNames ["a"], .text "import \"b\"; module a {}"), (.ofNames ["b"], .text "module b {}"),
      (.ofNames ["c"], .text "import \"a\"; import \"c\"; module c {}")] }

/-- The three files after a failed compilation of `c`, which keeps the modules of `a` and `b`, with
a text for `c` that imports `a` only. -/
def mended : Workspace :=
  (threeFiles.compile "/c").2.addSource "/c" "import \"a\"; module c {}"

theorem keys_mended : mended.built.map Prod.fst = [.ofNames ["a"], .ofNames ["b"]] := by
  decide +kernel

theorem reached_mended : Reached mended (threeFiles.originsAfter fun _ => none) :=
  .replace (.compile (.fresh rfl) "/c") (by decide +kernel) _

theorem compile_fst_eq_fresh_mended :
    (Reached mended (threeFiles.originsAfter fun _ => none) ∧
      ∀ q m, mended.built.lookup q = some m →
        mended.textAt q = threeFiles.originsAfter (fun _ => none) q) ∧
    (mended.compile "/c").1 = (({ mended with built := [] } : Workspace).compile "/c").1 := by
  have same : ∀ q m, mended.built.lookup q = some m →
      mended.textAt q = threeFiles.originsAfter (fun _ => none) q := by
    intro q m hm
    have hq := mem_keys_of_lookup hm
    rw [keys_mended] at hq
    simp only [List.mem_cons, List.not_mem_nil, or_false] at hq
    obtain rfl | rfl := hq
    · decide +kernel
    · decide +kernel
  exact ⟨⟨reached_mended, same⟩, compile_fst_eq_fresh reached_mended same "/c"⟩

end WireSchema.Workspace
