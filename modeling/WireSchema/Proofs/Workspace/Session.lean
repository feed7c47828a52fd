import WireSchema.Proofs.Workspace.Linked

/-!
# Sessions

A session is a workspace in use, seen as a machine: the files in progress and the files of a failure
are part of its state. A file is taken up before it is read and laid down on every way out, so a build
ends with the files in progress that it began with; this is part of its type (`Session.Rejoins`), and
the reason why it ends. The loader hands its stack on as an argument and gives the stack of a failure
as part of its result. `Session.build_eq_load` says that the two agree, so that a session compiles as
its workspace does (`Session.compile_eq`). What every step keeps, every run of steps keeps
(`Session.sound_run`).
-/

namespace WireSchema

/-- A workspace in use, with what a compilation remembers while it is under way. -/
structure Session where
  workspace : Workspace
  /-- The files in progress, latest first. -/
  importStack : List SourcePath
  /-- The files that were in progress at the first failure, latest first. -/
  failedStack : Option (List SourcePath)

namespace Session

open Workspace

variable {s s' s'' : Session} {path : SourcePath} {m : Module}

/-! ## Changes of state -/

/-- Takes up a file. -/
def push (s : Session) (path : SourcePath) : Session :=
  { s with importStack := path :: s.importStack }

/-- Lays down the file that was taken up last. -/
def pop (s : Session) : Session :=
  { s with importStack := s.importStack.tail }

/-- Notes the files in progress, unless a failure is noted already. -/
def noteFailure (s : Session) : Session :=
  { s with failedStack := s.failedStack.or (some s.importStack) }

/-- Keeps the module of a file. -/
def keep (s : Session) (path : SourcePath) (m : Module) : Session :=
  { s with workspace := { s.workspace with built := (path, m) :: s.workspace.built } }

/-- The second session has the sources of the first and the same files in progress. -/
structure Rejoins (s s' : Session) : Prop where
  importStack : s'.importStack = s.importStack
  sources : s'.workspace.sources = s.workspace.sources

namespace Rejoins

theorem refl (s : Session) : s.Rejoins s :=
  ⟨rfl, rfl⟩

theorem trans (h : s.Rejoins s') (h' : s'.Rejoins s'') : s.Rejoins s'' :=
  ⟨h'.importStack.trans h.importStack, h'.sources.trans h.sources⟩

theorem noteFailure (h : s.Rejoins s') : s.Rejoins s'.noteFailure :=
  ⟨h.importStack, h.sources⟩

theorem pop (h : (s.push path).Rejoins s') : s.Rejoins s'.pop :=
  ⟨congrArg List.tail h.importStack, h.sources⟩

theorem keep (h : s.Rejoins s') (path : SourcePath) (m : Module) : s.Rejoins (s'.keep path m) :=
  ⟨h.importStack, h.sources⟩

end Rejoins

/-! ## Compilation -/

mutual

/-- Builds the module of a canonical path, unless it is built already. A file is taken up before it
is read and laid down on every way out. -/
def build (s : Session) (path : SourcePath) :
    Except SchemaFault Module × { s' : Session // s.Rejoins s' } :=
  if _ : path ∈ s.importStack then
    (.error (.circular ((path :: s.importStack).reverse.map s.workspace.displayPath)),
      ⟨s.noteFailure, (Rejoins.refl s).noteFailure⟩)
  else
    match s.workspace.built.lookup path with
    | some m => (.ok m, ⟨s, .refl s⟩)
    | none =>
      match _ : s.workspace.sources.files.lookup path with
      | none =>
        (.error (.unreadable path.text (path.text ++ " does not exist")),
          ⟨(s.push path).noteFailure.pop, (Rejoins.refl (s.push path)).noteFailure.pop⟩)
      | some contents =>
        match s.workspace.readRecord path contents with
        | .error fault =>
          (.error fault,
            ⟨(s.push path).noteFailure.pop, (Rejoins.refl (s.push path)).noteFailure.pop⟩)
        | .ok record =>
          match buildImports (s.push path) path record.imports with
          | (.error fault, ⟨s', h⟩) => (.error fault, ⟨s'.noteFailure.pop, h.noteFailure.pop⟩)
          | (.ok imports, ⟨s', h⟩) =>
            match buildModule (s.workspace.displayPath path) record imports with
            | .error fault => (.error fault, ⟨s'.noteFailure.pop, h.noteFailure.pop⟩)
            | .ok m => (.ok m, ⟨s'.pop.keep path m, h.pop.keep path m⟩)
termination_by (remaining (s.workspace.sources.files.map Prod.fst) s.importStack, 0)
decreasing_by
  · exact .left _ _ (remaining_cons_lt (mem_keys_of_lookup ‹_›) ‹_›)

/-- Builds the modules that the file `importer` imports, in order. -/
def buildImports (s : Session) (importer : SourcePath) (imports : List Record.Import) :
    Except SchemaFault (List (Module.Import Module)) × { s' : Session // s.Rejoins s' } :=
  match imports with
  | [] => (.ok [], ⟨s, .refl s⟩)
  | i :: rest =>
    match s.workspace.findImport? importer i.filename with
    | none =>
      (.error (.build (s.workspace.displayPath importer)
        (.resolution i.line (.importNotFound i.filename))), ⟨s, .refl s⟩)
    | some path =>
      match build s path with
      | (.error fault, s') => (.error fault, s')
      | (.ok m, ⟨s', h⟩) =>
        match buildImports s' importer rest with
        | (.error fault, ⟨s'', h'⟩) => (.error fault, ⟨s'', h.trans h'⟩)
        | (.ok others, ⟨s'', h'⟩) =>
          (.ok (⟨i.filename, m.space, path, m⟩ :: others), ⟨s'', h.trans h'⟩)
termination_by
  (remaining (s.workspace.sources.files.map Prod.fst) s.importStack, imports.length + 1)
decreasing_by
  · exact .right _ (Nat.zero_lt_succ _)
  · rw [h.importStack, h.sources]
    exact .right _ (by simp)

end

/-- Builds the module of the file at a path; the session it ends with still has the files that were
in progress at a failure. -/
def attempt (s : Session) (written : String) : Except SchemaFault Module × Session :=
  let s := { s with failedStack := none }
  match s.workspace.sources.resolve? (.ofString written) with
  | none => (.error (.unreadable written "No such file"), s)
  | some path => ((s.build path).1, (s.build path).2)

/-- Builds the module of the file at a path, and reports the files that were in progress at a
failure. -/
def compile (s : Session) (written : String) : Except CompileFault Module × Session :=
  let (result, s) := s.attempt written
  let failed := s.failedStack.getD []
  (result.mapError fun fault => ⟨fault, failed.reverse.map s.workspace.displayPath⟩,
    { s with failedStack := none })

theorem compile_fst (s : Session) (written : String) :
    (s.compile written).1 = (s.attempt written).1.mapError fun fault =>
      ⟨fault, ((s.attempt written).2.failedStack.getD []).reverse.map
        (s.attempt written).2.workspace.displayPath⟩ :=
  rfl

/-! ## The loader is a session

A session passes its stack on in its state, the loader as an argument. -/

theorem build_of_mem (h : path ∈ s.importStack) :
    s.build path = (.error (.circular ((path :: s.importStack).reverse.map s.workspace.displayPath)),
      ⟨s.noteFailure, (Rejoins.refl s).noteFailure⟩) := by
  rw [build, dif_pos h]

theorem build_of_built (hs : path ∉ s.importStack) (hb : s.workspace.built.lookup path = some m) :
    s.build path = (.ok m, ⟨s, .refl s⟩) := by
  rw [build, dif_neg hs, hb]

theorem build_of_not_built (hs : path ∉ s.importStack) (hb : s.workspace.built.lookup path = none) :
    s.build path =
      match s.workspace.sources.files.lookup path with
      | none =>
        (.error (.unreadable path.text (path.text ++ " does not exist")),
          ⟨(s.push path).noteFailure.pop, (Rejoins.refl (s.push path)).noteFailure.pop⟩)
      | some contents =>
        match s.workspace.readRecord path contents with
        | .error fault =>
          (.error fault,
            ⟨(s.push path).noteFailure.pop, (Rejoins.refl (s.push path)).noteFailure.pop⟩)
        | .ok record =>
          match buildImports (s.push path) path record.imports with
          | (.error fault, ⟨s', h⟩) => (.error fault, ⟨s'.noteFailure.pop, h.noteFailure.pop⟩)
          | (.ok imports, ⟨s', h⟩) =>
            match buildModule (s.workspace.displayPath path) record imports with
            | .error fault => (.error fault, ⟨s'.noteFailure.pop, h.noteFailure.pop⟩)
            | .ok m => (.ok m, ⟨s'.pop.keep path m, h.pop.keep path m⟩) := by
  rw [build, dif_neg hs]
  simp only [hb]
  split
  · next h =>
    rewrite [h]
    rfl
  · next h =>
    rewrite [h]
    rfl

section

variable (ws : Workspace) (built : Built)

/-! What a workspace reads, finds and displays does not depend on the modules it keeps. -/

theorem readRecord_with_built (path : SourcePath) (contents : FileText) :
    ({ ws with built } : Workspace).readRecord path contents = ws.readRecord path contents :=
  rfl

theorem displayPath_with_built (path : SourcePath) :
    ({ ws with built } : Workspace).displayPath path = ws.displayPath path :=
  rfl

theorem findImport?_with_built (importer : SourcePath) (filename : String) :
    ({ ws with built } : Workspace).findImport? importer filename =
      ws.findImport? importer filename :=
  rfl

theorem push_mk (stack : List SourcePath) (noted : Option (List SourcePath)) (path : SourcePath) :
    (Session.mk ws stack noted).push path = ⟨ws, path :: stack, noted⟩ :=
  rfl

end

/-- The stack noted after a run of the loader. -/
def notedAfter {α : Type} (noted : Option (List SourcePath)) :
    Except Halt α → Option (List SourcePath)
  | .ok _ => noted
  | .error halt => noted.or (some halt.stack)

/-- What is noted after the imports of a file, if `noted` was before: nothing new, or what makes the
note of the run's failure complete when the importing file is given up. -/
def NotedImports {α : Type} (stack : List SourcePath) (noted noted' : Option (List SourcePath)) :
    Except Halt α → Prop
  | .ok _ => noted' = noted
  | .error halt => noted'.or (some stack) = noted.or (some halt.stack)

theorem or_or_some (noted : Option (List SourcePath)) (stack stack' : List SourcePath) :
    (noted.or (some stack)).or (some stack') = noted.or (some stack) := by
  cases noted <;> rfl

/-- A session that builds a file ends as a run of the loader does, with the stack it began with. -/
theorem build_eq_load (ws : Workspace) (stack : List SourcePath) (noted : Option (List SourcePath))
    (built : Built) (path : SourcePath) :
    let s : Session := ⟨{ ws with built }, stack, noted⟩
    let run := ws.load stack built path
    (s.build path).1 = run.1.mapError Halt.fault ∧
      (s.build path).2.1 = ⟨{ ws with built := run.2 }, stack, notedAfter noted run.1⟩ := by
  have key := load_induction ws
    (P := fun stack built path result after => ∀ noted, ∃ h,
      (Session.mk { ws with built } stack noted).build path =
        (result.mapError Halt.fault, ⟨⟨{ ws with built := after }, stack, notedAfter noted result⟩, h⟩))
    (Q := fun stack built importer imports result after => ∀ noted, ∃ noted' h,
      (Session.mk { ws with built } stack noted).buildImports importer imports =
        (result.mapError Halt.fault, ⟨⟨{ ws with built := after }, stack, noted'⟩, h⟩) ∧
      NotedImports stack noted noted' result)
    ?circular ?cached ?missing ?unread ?stopped ?unbuilt ?finished ?nil ?notFound ?headStopped
    ?tailStopped ?cons
  · obtain ⟨h, heq⟩ := key.1 stack built path noted
    simp only [heq, and_self]
  case circular =>
    intro stack built path hs noted
    exact ⟨⟨rfl, rfl⟩, build_of_mem hs⟩
  case cached =>
    intro stack built path m hs hm noted
    exact ⟨⟨rfl, rfl⟩, build_of_built hs hm⟩
  case missing =>
    intro stack built path hs hb hf noted
    refine ⟨⟨rfl, rfl⟩, ?_⟩
    rw [build_of_not_built hs hb]
    simp only [hf]
    rfl
  case unread =>
    intro stack built path contents fault hs hb hf hr noted
    refine ⟨⟨rfl, rfl⟩, ?_⟩
    rw [build_of_not_built hs hb]
    simp only [hf, readRecord_with_built, hr]
    rfl
  case stopped =>
    intro stack built path contents record halt after hs hb hf hr _ ih noted
    obtain ⟨noted', h, heq, hnoted⟩ := ih noted
    refine ⟨⟨rfl, rfl⟩, ?_⟩
    rw [build_of_not_built hs hb]
    simp only [hf, readRecord_with_built, hr, push_mk, heq, Except.mapError, noteFailure, pop,
      hnoted.symm, notedAfter]
    rfl
  case unbuilt =>
    intro stack built path contents record imports after fault hs hb hf hr _ ih hm noted
    obtain ⟨noted', h, heq, rfl⟩ := ih noted
    refine ⟨⟨rfl, rfl⟩, ?_⟩
    rw [build_of_not_built hs hb]
    simp only [hf, readRecord_with_built, hr, push_mk, heq, displayPath_with_built, hm,
      Except.mapError]
    rfl
  case finished =>
    intro stack built path contents record imports after m hs hb hf hr _ ih hm noted
    obtain ⟨noted', h, heq, rfl⟩ := ih noted
    refine ⟨⟨rfl, rfl⟩, ?_⟩
    rw [build_of_not_built hs hb]
    simp only [hf, readRecord_with_built, hr, push_mk, heq, displayPath_with_built, hm,
      Except.mapError]
    rfl
  case nil =>
    intro stack built importer noted
    refine ⟨noted, ⟨rfl, rfl⟩, ?_, rfl⟩
    rw [buildImports]
    rfl
  case notFound =>
    intro stack built importer i rest hf noted
    refine ⟨noted, ⟨rfl, rfl⟩, ?_, rfl⟩
    rw [buildImports]
    simp only [findImport?_with_built, hf]
    rfl
  case headStopped =>
    intro stack built importer i rest path halt after hf _ ih noted
    obtain ⟨h, heq⟩ := ih noted
    refine ⟨_, ⟨rfl, rfl⟩, ?_, or_or_some noted halt.stack stack⟩
    rw [buildImports]
    simp only [findImport?_with_built, hf, heq, Except.mapError]
    rfl
  case tailStopped =>
    intro stack built importer i rest path m after halt after' hf _ ih iht noted
    obtain ⟨h, heq⟩ := ih noted
    obtain ⟨noted', h', heq', hnoted⟩ := iht noted
    refine ⟨noted', ⟨rfl, rfl⟩, ?_, hnoted⟩
    rw [buildImports]
    simp only [findImport?_with_built, hf, heq, Except.mapError, notedAfter, heq']
  case cons =>
    intro stack built importer i rest path m after others after' hf _ ih iht noted
    obtain ⟨h, heq⟩ := ih noted
    obtain ⟨noted', h', heq', hnoted⟩ := iht noted
    refine ⟨noted', ⟨rfl, rfl⟩, ?_, hnoted⟩
    rw [buildImports]
    simp only [findImport?_with_built, hf, heq, Except.mapError, notedAfter, heq']

/-- With no file in progress a session does what the loader does, and ends with the stack that the
loader stops with. -/
theorem attempt_eq (h : s.importStack = []) {written : String}
    (hr : s.workspace.sources.resolve? (.ofString written) = some path) :
    let run := s.workspace.load [] s.workspace.built path
    s.attempt written = (run.1.mapError Halt.fault,
      ⟨{ s.workspace with built := run.2 }, [], notedAfter none run.1⟩) := by
  obtain ⟨ws, stack, noted⟩ := s
  obtain rfl : stack = [] := h
  obtain ⟨hresult, hafter⟩ := build_eq_load ws [] none ws.built path
  simp only [attempt, hr, hresult, hafter]

/-- With no file in progress a session compiles as its workspace does, and remembers nothing of it
but the modules. -/
theorem compile_eq (h : s.importStack = []) (written : String) :
    s.compile written =
      ((s.workspace.compile written).1, ⟨(s.workspace.compile written).2, [], none⟩) := by
  cases hr : s.workspace.sources.resolve? (.ofString written) with
  | none =>
    rw [compile_of_resolve?_eq_none hr, ← h]
    simp only [compile, attempt, hr]
    rfl
  | some path =>
    rw [compile_of_resolve?_eq_some hr, compile, attempt_eq h hr]
    cases (s.workspace.load [] s.workspace.built path).1 <;> rfl

/-! ## Runs of steps -/

/-- What can be done with a session. -/
inductive Step where
  | compile (written : String)
  | add (written text : String)

def perform (s : Session) : Step → Session
  | .compile written => (s.compile written).2
  | .add written text => { s with workspace := s.workspace.addSource written text }

/-- A new session, in which nothing is built. -/
def start (sources : Sources) (searchDirs : List SourcePath) (sourceRoot : Option SourcePath) :
    Session :=
  ⟨{ sources, searchDirs, sourceRoot }, [], none⟩

def run (s : Session) (steps : List Step) : Session :=
  steps.foldl perform s

/-- No file is in progress, and the modules that are kept are linked. -/
structure Idle (s : Session) : Prop where
  importStack : s.importStack = []
  failedStack : s.failedStack = none
  linked : Linked s.workspace.built

theorem Idle.kept_compile (h : s.Idle) (written : String) :
    Kept s.workspace [] s.workspace.built (s.compile written).2.workspace.built := by
  rw [compile_eq h.importStack]
  cases hr : s.workspace.sources.resolve? (.ofString written) with
  | none =>
    rw [compile_of_resolve?_eq_none hr]
    exact .refl h.linked (List.forall_mem_nil _)
  | some root =>
    rw [compile_of_resolve?_eq_some hr]
    exact ((kept_load_and_loadImports s.workspace).1 [] _ root h.linked (List.forall_mem_nil _)).kept

theorem Idle.perform (h : s.Idle) (step : Step) : (s.perform step).Idle := by
  cases step with
  | compile written =>
    have hkept := h.kept_compile written
    simp only [Session.perform]
    rw [compile_eq h.importStack] at hkept ⊢
    exact ⟨rfl, rfl, hkept.linked⟩
  | add written text => exact ⟨h.importStack, h.failedStack, h.linked⟩

theorem Idle.run (h : s.Idle) (steps : List Step) : (s.run steps).Idle := by
  induction steps generalizing s with
  | nil => exact h
  | cons step rest ih => exact ih (h.perform step)

theorem idle_start (sources : Sources) (searchDirs : List SourcePath)
    (sourceRoot : Option SourcePath) : (start sources searchDirs sourceRoot).Idle :=
  ⟨rfl, rfl, .nil⟩

theorem Idle.extends_perform (h : s.Idle) (step : Step) :
    Extends s.workspace.built (s.perform step).workspace.built := by
  cases step with
  | compile written => exact (h.kept_compile written).extend
  | add written text => exact .refl _

end Session

namespace Workspace

variable {ws : Workspace} {stack : List SourcePath} {root path : SourcePath}

theorem Trail.root_mem (h : Trail ws root stack path) : root ∈ path :: stack := by
  induction h with
  | start => exact List.mem_singleton_self root
  | step _ _ _ ih => exact List.mem_cons_of_mem _ ih

/-- The file that a run began with is in progress when it stops. -/
theorem Halts.root_mem {halt : Halt} (h : Halts ws root halt) : root ∈ halt.stack := by
  cases h with
  | circular trail mem =>
    obtain rfl | hmem := List.mem_cons.1 trail.root_mem
    · exact mem
    · exact hmem
  | missing trail => exact trail.root_mem
  | unread trail => exact trail.root_mem
  | notFound trail => exact trail.root_mem
  | unbuilt trail => exact trail.root_mem

end Workspace

namespace Session

open Workspace

variable {s : Session}

/-- After a failed compilation none of the files that were in progress is kept; the file it began
with is one of them, and the failure reports them. -/
theorem Idle.exists_failedStack (h : s.Idle) {written : String} {root : SourcePath}
    {fault : SchemaFault} (hr : s.workspace.sources.resolve? (.ofString written) = some root)
    (hfault : (s.attempt written).1 = .error fault) :
    ∃ stack, (s.attempt written).2.failedStack = some stack ∧ root ∈ stack ∧
      (s.compile written).1 = .error ⟨fault, stack.reverse.map s.workspace.displayPath⟩ ∧
      ∀ q ∈ stack, (s.compile written).2.workspace.built.lookup q = none := by
  have hend := (kept_load_and_loadImports s.workspace).1 [] s.workspace.built root h.linked
    (List.forall_mem_nil _)
  have hattempt := attempt_eq h.importStack hr
  rw [compile_eq h.importStack, compile_of_resolve?_eq_some hr]
  cases hl : (s.workspace.load [] s.workspace.built root).1 with
  | ok m =>
    rw [hattempt, hl] at hfault
    cases hfault
  | error halt =>
    rw [hattempt, hl] at hfault
    cases hfault
    refine ⟨halt.stack, ?_, (halts_of_load .start hl).root_mem, rfl, hend.stopped halt hl⟩
    rw [hattempt, hl]
    rfl

/-- What holds of a session between its steps. No file is in progress and no failure is noted. What
a kept module imports is the module kept under the path that the import leads to, and imports never
lead back. Every struct of a kept module packs. -/
structure Sound (s : Session) : Prop where
  importStack : s.importStack = []
  failedStack : s.failedStack = none
  imports : ∀ q m, s.workspace.built.lookup q = some m →
    ∀ i ∈ m.imports, s.workspace.built.lookup i.source = some i.target
  acyclic : ∀ q, ¬ Relation.TransGen (Leads s.workspace.built) q q
  packs : ∀ q m, s.workspace.built.lookup q = some m → ∀ struct ∈ m.layoutStructs, Packs struct

/-- Every session that a new one becomes by compilations, successful or not, and by adding sources is
sound. A step replaces no module that is kept. A compilation does what that of the workspace does;
the imports of the modules it adds lead where the workspace says, and if it fails, none of the files
in progress at the failure is kept. -/
theorem sound_run (sources : Sources) (searchDirs : List SourcePath)
    (sourceRoot : Option SourcePath) (steps : List Step) :
    let s := (start sources searchDirs sourceRoot).run steps
    s.Sound ∧
    (∀ step, Extends s.workspace.built (s.perform step).workspace.built) ∧
    ∀ written,
      s.compile written =
        ((s.workspace.compile written).1, ⟨(s.workspace.compile written).2, [], none⟩) ∧
      (∀ q m, (s.compile written).2.workspace.built.lookup q = some m →
        s.workspace.built.lookup q = none →
        ∀ i ∈ m.imports, s.workspace.findImport? q i.filename = some i.source) ∧
      ∀ root fault, s.workspace.sources.resolve? (.ofString written) = some root →
        (s.attempt written).1 = .error fault →
        ∃ stack, (s.attempt written).2.failedStack = some stack ∧ root ∈ stack ∧
          (s.compile written).1 = .error ⟨fault, stack.reverse.map s.workspace.displayPath⟩ ∧
          ∀ q ∈ stack, (s.compile written).2.workspace.built.lookup q = none := by
  intro s
  have hidle : s.Idle := (idle_start sources searchDirs sourceRoot).run steps
  refine ⟨⟨hidle.importStack, hidle.failedStack, fun _ _ => hidle.linked.lookup_imports,
    hidle.linked.not_cyclic, fun _ _ => hidle.linked.packs_of_lookup⟩, hidle.extends_perform,
    fun written => ⟨compile_eq hidle.importStack written, fun q m hm hnew => ?_,
      fun root fault => hidle.exists_failedStack⟩⟩
  obtain hold | hfound := (hidle.kept_compile written).found q m hm
  · rw [hnew] at hold
    cases hold
  · exact hfound

/-- Of `threeFiles`, `c` imports itself after `a`: its compilation keeps the modules of `a` and `b`
and fails with `c` in progress. -/
theorem sound_run_threeFiles :
    let s := start threeFiles.sources [] none
    (s.run [.compile "/c"]).Sound ∧
      ∃ stack, (s.attempt "/c").2.failedStack = some stack ∧ .ofNames ["c"] ∈ stack ∧
        ∀ q ∈ stack, (s.compile "/c").2.workspace.built.lookup q = none := by
  obtain ⟨-, -, hcompile⟩ := sound_run threeFiles.sources [] none []
  obtain ⟨hsame, -, hfailed⟩ := hcompile "/c"
  have hroot : threeFiles.sources.resolve? (.ofString "/c") = some (.ofNames ["c"]) := by
    decide +kernel
  have hfault : (threeFiles.compile "/c").1 = .error ⟨.circular ["/c", "/c"], ["/c"]⟩ :=
    (Except.map_eq_error (g := fun _ => ())).1 (by decide +kernel)
  have hresult : (threeFiles.compile "/c").1 = ((start threeFiles.sources [] none).compile "/c").1 :=
    (congrArg Prod.fst hsame).symm
  refine ⟨(sound_run threeFiles.sources [] none [.compile "/c"]).1, ?_⟩
  cases hattempt : ((start threeFiles.sources [] none).attempt "/c").1 with
  | ok m =>
    rw [hfault, compile_fst, hattempt] at hresult
    cases hresult
  | error fault =>
    obtain ⟨stack, hstack, hmem, -, hnone⟩ := hfailed _ fault hroot hattempt
    exact ⟨stack, hstack, hmem, hnone⟩

end Session

end WireSchema
