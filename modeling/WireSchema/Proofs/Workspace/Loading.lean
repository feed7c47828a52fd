import Mathlib.Data.List.Chain
import Mathlib.Logic.Relation
import WireSchema.Workspace

/-!
# Loading files

`Workspace.load_induction` is induction along a run of the loader: one case for each way in which the
build of a file, or of a list of imports, can end. `Workspace.Imports` is the graph of imports,
`Workspace.Trail` says that the files in progress are a path in it without repetitions, and
`Workspace.Halts` lists the faults that stop a run, each at the file it comes from. Every failed
compilation stops in one of these ways (`Workspace.halts_of_compile`).
-/

namespace WireSchema.Workspace

variable {ws : Workspace} {stack : List SourcePath} {built : Built} {root path u v : SourcePath}
  {record : Record} {halt : Halt} {written : String}

/-! ## Induction along a run -/

/-- Builds the modules that the file `importer` imports while `stack` is in progress. -/
def loadImports (ws : Workspace) (stack : List SourcePath) (built : Built) (importer : SourcePath)
    (imports : List Record.Import) : Except Halt (List (Module.Import Module)) × Built :=
  ws.loadEach (ws.load stack) stack built importer imports

theorem loadImports_nil (importer : SourcePath) :
    ws.loadImports stack built importer [] = (.ok [], built) :=
  rfl

theorem loadImports_cons (importer : SourcePath) (i : Record.Import) (rest : List Record.Import) :
    ws.loadImports stack built importer (i :: rest) =
      match ws.findImport? importer i.filename with
      | none =>
        (.error ⟨.build (ws.displayPath importer)
          (.resolution i.line (.importNotFound i.filename)), stack⟩, built)
      | some path =>
        match ws.load stack built path with
        | (.error halt, built) => (.error halt, built)
        | (.ok m, built) =>
          match ws.loadImports stack built importer rest with
          | (.error halt, built) => (.error halt, built)
          | (.ok others, built) => (.ok (⟨i.filename, m.space, path, m⟩ :: others), built) :=
  rfl

theorem load_of_mem (h : path ∈ stack) :
    ws.load stack built path =
      (.error ⟨.circular ((path :: stack).reverse.map ws.displayPath), stack⟩, built) := by
  rw [load, dif_pos h]

theorem load_of_built {m : Module} (hs : path ∉ stack) (hb : built.lookup path = some m) :
    ws.load stack built path = (.ok m, built) := by
  rw [load, dif_neg hs, hb]

theorem load_of_not_built (hs : path ∉ stack) (hb : built.lookup path = none) :
    ws.load stack built path =
      match ws.sources.files.lookup path with
      | none =>
        (.error ⟨.unreadable path.text (path.text ++ " does not exist"), path :: stack⟩, built)
      | some contents =>
        match ws.readRecord path contents with
        | .error fault => (.error ⟨fault, path :: stack⟩, built)
        | .ok record =>
          match ws.loadImports (path :: stack) built path record.imports with
          | (.error halt, built) => (.error halt, built)
          | (.ok imports, built) =>
            match buildModule (ws.displayPath path) record imports with
            | .error fault => (.error ⟨fault, path :: stack⟩, built)
            | .ok m => (.ok m, (path, m) :: built) := by
  rw [load, dif_neg hs]
  simp only [hb]
  split
  · next h =>
    rewrite [h]
    rfl
  · next h =>
    rewrite [h]
    rfl

/-- What holds of every way to build a file, and of every way to build its imports, holds of every
run. The last two arguments of `P` and `Q` are the result of the run and what is built after it. -/
theorem load_induction (ws : Workspace)
    {P : List SourcePath → Built → SourcePath → Except Halt Module → Built → Prop}
    {Q : List SourcePath → Built → SourcePath → List Record.Import →
      Except Halt (List (Module.Import Module)) → Built → Prop}
    (circular : ∀ stack built path, path ∈ stack →
      P stack built path
        (.error ⟨.circular ((path :: stack).reverse.map ws.displayPath), stack⟩) built)
    (cached : ∀ stack built path m, path ∉ stack → built.lookup path = some m →
      P stack built path (.ok m) built)
    (missing : ∀ stack built path, path ∉ stack → built.lookup path = none →
      ws.sources.files.lookup path = none →
      P stack built path
        (.error ⟨.unreadable path.text (path.text ++ " does not exist"), path :: stack⟩) built)
    (unread : ∀ stack built path contents fault, path ∉ stack → built.lookup path = none →
      ws.sources.files.lookup path = some contents → ws.readRecord path contents = .error fault →
      P stack built path (.error ⟨fault, path :: stack⟩) built)
    (stopped : ∀ stack built path contents record halt built', path ∉ stack →
      built.lookup path = none → ws.sources.files.lookup path = some contents →
      ws.readRecord path contents = .ok record →
      ws.loadImports (path :: stack) built path record.imports = (.error halt, built') →
      Q (path :: stack) built path record.imports (.error halt) built' →
      P stack built path (.error halt) built')
    (unbuilt : ∀ stack built path contents record imports built' fault, path ∉ stack →
      built.lookup path = none → ws.sources.files.lookup path = some contents →
      ws.readRecord path contents = .ok record →
      ws.loadImports (path :: stack) built path record.imports = (.ok imports, built') →
      Q (path :: stack) built path record.imports (.ok imports) built' →
      buildModule (ws.displayPath path) record imports = .error fault →
      P stack built path (.error ⟨fault, path :: stack⟩) built')
    (finished : ∀ stack built path contents record imports built' m, path ∉ stack →
      built.lookup path = none → ws.sources.files.lookup path = some contents →
      ws.readRecord path contents = .ok record →
      ws.loadImports (path :: stack) built path record.imports = (.ok imports, built') →
      Q (path :: stack) built path record.imports (.ok imports) built' →
      buildModule (ws.displayPath path) record imports = .ok m →
      P stack built path (.ok m) ((path, m) :: built'))
    (nil : ∀ stack built importer, Q stack built importer [] (.ok []) built)
    (notFound : ∀ stack built importer i rest, ws.findImport? importer i.filename = none →
      Q stack built importer (i :: rest)
        (.error ⟨.build (ws.displayPath importer)
          (.resolution i.line (.importNotFound i.filename)), stack⟩) built)
    (headStopped : ∀ stack built importer i rest path halt built',
      ws.findImport? importer i.filename = some path →
      ws.load stack built path = (.error halt, built') → P stack built path (.error halt) built' →
      Q stack built importer (i :: rest) (.error halt) built')
    (tailStopped : ∀ stack built importer i rest path m built' halt built'',
      ws.findImport? importer i.filename = some path →
      ws.load stack built path = (.ok m, built') → P stack built path (.ok m) built' →
      Q stack built' importer rest (.error halt) built'' →
      Q stack built importer (i :: rest) (.error halt) built'')
    (cons : ∀ stack built importer i rest path m built' others built'',
      ws.findImport? importer i.filename = some path →
      ws.load stack built path = (.ok m, built') → P stack built path (.ok m) built' →
      Q stack built' importer rest (.ok others) built'' →
      Q stack built importer (i :: rest) (.ok (⟨i.filename, m.space, path, m⟩ :: others)) built'') :
    (∀ stack built path,
      P stack built path (ws.load stack built path).1 (ws.load stack built path).2) ∧
    ∀ stack built importer imports,
      Q stack built importer imports (ws.loadImports stack built importer imports).1
        (ws.loadImports stack built importer imports).2 := by
  -- With the files in progress fixed, the imports of a file are built from left to right.
  have himports : ∀ stack, (∀ built path,
      P stack built path (ws.load stack built path).1 (ws.load stack built path).2) →
      ∀ built importer imports, Q stack built importer imports
        (ws.loadImports stack built importer imports).1
        (ws.loadImports stack built importer imports).2 := by
    intro stack hload built importer imports
    induction imports generalizing built with
    | nil => exact nil stack built importer
    | cons i rest ih =>
      rw [loadImports_cons]
      cases hf : ws.findImport? importer i.filename with
      | none => exact notFound stack built importer i rest hf
      | some path =>
        have hP := hload built path
        rcases hl : ws.load stack built path with ⟨halt | m, built'⟩ <;> simp only [hl] at hP ⊢
        · exact headStopped stack built importer i rest path halt built' hf hl hP
        · have hQ := ih built'
          rcases ht : ws.loadImports stack built' importer rest with ⟨halt | others, built''⟩ <;>
            simp only [ht] at hQ ⊢
          · exact tailStopped stack built importer i rest path m built' halt built'' hf hl hP hQ
          · exact cons stack built importer i rest path m built' others built'' hf hl hP hQ
  -- They are built with one more file in progress than the file itself, so fewer remain.
  have hload : ∀ stack built path,
      P stack built path (ws.load stack built path).1 (ws.load stack built path).2 := by
    intro stack
    induction h : remaining (ws.sources.files.map Prod.fst) stack using Nat.strongRecOn
      generalizing stack with
    | ind n ih =>
      subst h
      intro built path
      by_cases hs : path ∈ stack
      · rw [load_of_mem hs]
        exact circular stack built path hs
      cases hb : built.lookup path with
      | some m =>
        rw [load_of_built hs hb]
        exact cached stack built path m hs hb
      | none =>
        rw [load_of_not_built hs hb]
        cases hf : ws.sources.files.lookup path with
        | none => exact missing stack built path hs hb hf
        | some contents =>
          simp only
          cases hr : ws.readRecord path contents with
          | error fault => exact unread stack built path contents fault hs hb hf hr
          | ok record =>
            have hQ := himports (path :: stack)
              (ih _ (remaining_cons_lt (mem_keys_of_lookup hf) hs) _ rfl) built path record.imports
            simp only
            rcases hi : ws.loadImports (path :: stack) built path record.imports with
              ⟨halt | imports, built'⟩ <;> rw [hi] at hQ
            · exact stopped stack built path contents record halt built' hs hb hf hr hi hQ
            · simp only
              cases hm : buildModule (ws.displayPath path) record imports with
              | error fault =>
                exact unbuilt stack built path contents record imports built' fault hs hb hf hr hi
                  hQ hm
              | ok m =>
                exact finished stack built path contents record imports built' m hs hb hf hr hi
                  hQ hm
  exact ⟨hload, fun stack => himports stack (hload stack)⟩

/-! ## The graph of imports -/

/-- The file at a path has a record. -/
def Reads (ws : Workspace) (path : SourcePath) (record : Record) : Prop :=
  ∃ contents, ws.sources.files.lookup path = some contents ∧
    ws.readRecord path contents = .ok record

/-- A file has a record with an import that leads to another file. -/
def Imports (ws : Workspace) (u v : SourcePath) : Prop :=
  ∃ record, ws.Reads u record ∧ ∃ i ∈ record.imports, ws.findImport? u i.filename = some v

theorem Reads.unique {record' : Record} (h : ws.Reads path record) (h' : ws.Reads path record') :
    record = record' := by
  obtain ⟨contents, hf, hr⟩ := h
  obtain ⟨contents', hf', hr'⟩ := h'
  obtain rfl : contents = contents' := Option.some.inj (hf.symm.trans hf')
  exact Except.ok.inj (hr.symm.trans hr')

/-- `Trail ws root stack path`: a run that began at `root` has come to `path`, with the files of
`stack` in progress. -/
inductive Trail (ws : Workspace) (root : SourcePath) : List SourcePath → SourcePath → Prop where
  | start : Trail ws root [] root
  | step {stack : List SourcePath} {u v : SourcePath} (trail : Trail ws root stack u)
    (fresh : u ∉ stack) (imports : ws.Imports u v) : Trail ws root (u :: stack) v

namespace Trail

theorem nodup (h : Trail ws root stack path) : stack.Nodup := by
  induction h with
  | start => exact List.nodup_nil
  | step _ fresh _ ih => exact List.nodup_cons.2 ⟨fresh, ih⟩

/-- From the root on, each file imports the next. -/
theorem isChain (h : Trail ws root stack path) : (path :: stack).reverse.IsChain ws.Imports := by
  rw [List.isChain_reverse]
  induction h with
  | start => exact List.isChain_singleton _
  | step _ _ imports ih => exact List.isChain_cons_cons.2 ⟨imports, ih⟩

theorem head?_reverse (h : Trail ws root stack path) : (path :: stack).reverse.head? = some root := by
  rw [List.head?_reverse]
  induction h with
  | start => rfl
  | step _ _ _ ih => rw [List.getLast?_cons_cons, ih]

end Trail

/-! ## How a run stops -/

/-- A text that has no record has a fault of its own, which is told of its file. -/
theorem fault_of_readRecord {contents : FileText} {fault : SchemaFault}
    (h : ws.readRecord path contents = .error fault) :
    (∃ d, d.file = ws.displayPath path ∧ fault = .scan d) ∨
      (∃ d, d.file = ws.displayPath path ∧ fault = .grammar d) ∨
      (∃ cause, fault = .record (ws.displayPath path) cause) ∨
      ∃ reason, fault = .unreadable path.text reason := by
  cases contents with
  | binary => exact .inr (.inr (.inr ⟨_, (Except.error.inj h).symm⟩))
  | text text =>
    simp only [readRecord, Record.ofSource, bind, Except.bind] at h
    cases ht : Tree.ofSource (ws.displayPath path) text with
    | error fault' =>
      simp only [ht, Except.error.injEq] at h
      subst h
      unfold Tree.ofSource at ht
      split at ht
      · exact .inl ⟨_, rfl, (Except.error.inj ht).symm⟩
      · split at ht
        · exact .inr (.inl ⟨_, rfl, (Except.error.inj ht).symm⟩)
        · cases ht
    | ok tree =>
      simp only [ht] at h
      cases hr : Record.ofTree (ws.displayPath path) tree with
      | error cause =>
        simp only [hr, throw, throwThe, MonadExceptOf.throw, Except.error.injEq] at h
        exact .inr (.inr (.inl ⟨cause, h.symm⟩))
      | ok record => simp [hr, pure, Except.pure] at h

theorem fault_of_buildModule {file : String} {imports : List (Module.Import Module)}
    {fault : SchemaFault} (h : buildModule file record imports = .error fault) :
    (∃ cause, fault = .build file cause) ∨
      ∃ m cause, checkLayouts (Module.layoutStructs m) = .error cause ∧ fault = .layout cause := by
  unfold buildModule at h
  cases hm : Module.ofRecord record file imports with
  | error cause =>
    simp only [hm, Except.error.injEq] at h
    exact .inl ⟨cause, h.symm⟩
  | ok m =>
    cases hc : checkLayouts m.layoutStructs with
    | error cause =>
      simp only [hm, hc, Except.error.injEq] at h
      exact .inr ⟨m, cause, hc, h.symm⟩
    | ok _ => simp [hm, hc] at h

/-- A module that is built is that of its record, with layouts that pass their checks. -/
theorem built_of_buildModule {file : String} {imports : List (Module.Import Module)} {m : Module}
    (h : buildModule file record imports = .ok m) :
    Module.ofRecord record file imports = .ok m ∧ checkLayouts m.layoutStructs = .ok () := by
  unfold buildModule at h
  cases hm : Module.ofRecord record file imports with
  | error fault => simp [hm] at h
  | ok n =>
    cases hc : checkLayouts n.layoutStructs with
    | error cause => simp [hm, hc] at h
    | ok _ =>
      simp only [hm, hc, Except.ok.injEq] at h
      exact h ▸ ⟨rfl, hc⟩

/-- The faults that stop a run that began at `root`, with the files in progress. -/
inductive Halts (ws : Workspace) (root : SourcePath) : Halt → Prop where
  | circular {stack : List SourcePath} {path : SourcePath} (trail : Trail ws root stack path)
    (mem : path ∈ stack) :
    Halts ws root ⟨.circular ((path :: stack).reverse.map ws.displayPath), stack⟩
  | missing {stack : List SourcePath} {path : SourcePath} (trail : Trail ws root stack path)
    (fresh : path ∉ stack) (none : ws.sources.files.lookup path = none) :
    Halts ws root ⟨.unreadable path.text (path.text ++ " does not exist"), path :: stack⟩
  | unread {stack : List SourcePath} {path : SourcePath} {contents : FileText}
    {fault : SchemaFault} (trail : Trail ws root stack path) (fresh : path ∉ stack)
    (some : ws.sources.files.lookup path = some contents)
    (error : ws.readRecord path contents = .error fault) : Halts ws root ⟨fault, path :: stack⟩
  | notFound {stack : List SourcePath} {path : SourcePath} {record : Record} {i : Record.Import}
    (trail : Trail ws root stack path) (fresh : path ∉ stack) (reads : ws.Reads path record)
    (mem : i ∈ record.imports) (none : ws.findImport? path i.filename = none) :
    Halts ws root ⟨.build (ws.displayPath path)
      (.resolution i.line (.importNotFound i.filename)), path :: stack⟩
  | unbuilt {stack : List SourcePath} {path : SourcePath} {record : Record} {fault : SchemaFault}
    {imports : List (Module.Import Module)} (trail : Trail ws root stack path)
    (fresh : path ∉ stack) (reads : ws.Reads path record)
    (error : buildModule (ws.displayPath path) record imports = .error fault) :
    Halts ws root ⟨fault, path :: stack⟩

theorem halts_of_load (ht : Trail ws root stack path)
    (h : (ws.load stack built path).1 = .error halt) : Halts ws root halt := by
  have key := load_induction ws
    (P := fun stack _ path result _ => Trail ws root stack path →
      ∀ halt, result = .error halt → Halts ws root halt)
    (Q := fun stack _ importer imports result _ => ∀ before record, stack = importer :: before →
      Trail ws root before importer → importer ∉ before → ws.Reads importer record →
      imports ⊆ record.imports → ∀ halt, result = .error halt → Halts ws root halt)
    ?circular ?cached ?missing ?unread ?stopped ?unbuilt ?finished ?nil ?notFound ?headStopped
    ?tailStopped ?cons
  · exact key.1 stack built path ht halt h
  case circular =>
    rintro stack built path hs ht _ ⟨⟩
    exact .circular ht hs
  case cached =>
    rintro stack built path m hs hm ht _ ⟨⟩
  case missing =>
    rintro stack built path hs hb hf ht _ ⟨⟩
    exact .missing ht hs hf
  case unread =>
    rintro stack built path contents fault hs hb hf hr ht _ ⟨⟩
    exact .unread ht hs hf hr
  case stopped =>
    rintro stack built path contents record halt built' hs hb hf hr - ih ht _ ⟨⟩
    exact ih stack record rfl ht hs ⟨contents, hf, hr⟩ (List.Subset.refl _) halt rfl
  case unbuilt =>
    rintro stack built path contents record imports built' fault hs hb hf hr - ih hm ht _ ⟨⟩
    exact .unbuilt ht hs ⟨contents, hf, hr⟩ hm
  case finished =>
    rintro stack built path contents record imports built' m hs hb hf hr - ih hm ht _ ⟨⟩
  case nil =>
    rintro stack built importer before record hst ht hs hr hsub _ ⟨⟩
  case notFound =>
    rintro stack built importer i rest hf before record rfl ht hs hr hsub _ ⟨⟩
    exact .notFound ht hs hr (hsub List.mem_cons_self) hf
  case headStopped =>
    rintro stack built importer i rest path halt built' hf - ih before record rfl ht hs hr hsub _ ⟨⟩
    exact ih (ht.step hs ⟨record, hr, i, hsub List.mem_cons_self, hf⟩) halt rfl
  case tailStopped =>
    rintro stack built importer i rest path m built' halt built'' hf - - ih before record rfl ht hs
      hr hsub _ ⟨⟩
    exact ih before record rfl ht hs hr (List.subset_of_cons_subset hsub) halt rfl
  case cons =>
    rintro stack built importer i rest path m built' others built'' hf - - ih before record rfl ht hs
      hr hsub _ ⟨⟩

/-! ## Compilations -/

theorem compile_of_resolve?_eq_some (h : ws.sources.resolve? (.ofString written) = some path) :
    ws.compile written =
      ((ws.load [] ws.built path).1.mapError fun halt =>
          ⟨halt.fault, halt.stack.reverse.map ws.displayPath⟩,
        { ws with built := (ws.load [] ws.built path).2 }) := by
  unfold compile
  rw [h]
  cases hl : ws.load [] ws.built path with
  | mk result built => cases result <;> simp [hl, Except.mapError]

theorem compile_of_resolve?_eq_none (h : ws.sources.resolve? (.ofString written) = none) :
    ws.compile written = (.error ⟨.unreadable written "No such file", []⟩, ws) := by
  unfold compile
  rw [h]

/-- A compilation fails at its root, or as a run that began there. -/
theorem halts_of_compile {fault : CompileFault} (h : (ws.compile written).1 = .error fault) :
    ws.sources.resolve? (.ofString written) = none ∧
        fault = ⟨.unreadable written "No such file", []⟩ ∨
      ∃ root halt, ws.sources.resolve? (.ofString written) = some root ∧ Halts ws root halt ∧
        fault = ⟨halt.fault, halt.stack.reverse.map ws.displayPath⟩ := by
  cases hr : ws.sources.resolve? (.ofString written) with
  | none =>
    rw [compile_of_resolve?_eq_none hr] at h
    exact .inl ⟨rfl, (Except.error.inj h).symm⟩
  | some root =>
    rw [compile_of_resolve?_eq_some hr] at h
    cases hl : (ws.load [] ws.built root).1 with
    | ok m => simp [hl, Except.mapError] at h
    | error halt =>
      simp only [hl, Except.mapError, Except.error.injEq] at h
      exact .inr ⟨root, halt, rfl, halts_of_load .start hl, h.symm⟩

end WireSchema.Workspace
