import WireSchema.Proofs.Workspace.Session

/-!
# Which file a failure blames

`Workspace.Faulty` lists what can be wrong with a file of its own. A run of the loader stops at such
a file, or at an import of a file that is in progress (`Workspace.Halts.faulty_or_circular`). The
files in progress are then a path of imports from the root, and the fault names the last of them
(`Workspace.Blames`). This holds of every compilation in a session, whatever was compiled or failed
before (`Session.blames_run`).
-/

namespace WireSchema

/-- The file that a fault names as its place. -/
def SchemaFault.file? : SchemaFault → Option String
  | scan d | grammar d => some d.file
  | record file _ | build file _ => some file
  | circular _ | layout _ | unreadable _ _ => none

namespace Workspace

variable {ws : Workspace} {stack : List SourcePath} {root path : SourcePath} {written : String}
  {fault : SchemaFault} {halt : Halt}

/-- What is wrong with the file at a path: it is not there, it has no record, one of its imports
leads nowhere, or its declarations are refused. -/
inductive Faulty (ws : Workspace) (path : SourcePath) : SchemaFault → Prop where
  | missing (none : ws.sources.files.lookup path = none) :
    Faulty ws path (.unreadable path.text (path.text ++ " does not exist"))
  | unread {contents : FileText} {fault : SchemaFault}
    (some : ws.sources.files.lookup path = some contents)
    (error : ws.readRecord path contents = .error fault) : Faulty ws path fault
  | notFound {record : Record} {i : Record.Import} (reads : ws.Reads path record)
    (mem : i ∈ record.imports) (none : ws.findImport? path i.filename = none) :
    Faulty ws path (.build (ws.displayPath path) (.resolution i.line (.importNotFound i.filename)))
  | unbuilt {record : Record} {imports : List (Module.Import Module)} {fault : SchemaFault}
    (reads : ws.Reads path record)
    (error : buildModule (ws.displayPath path) record imports = .error fault) : Faulty ws path fault

namespace Faulty

/-- The fault of a file names no other file. -/
theorem eq_displayPath (h : Faulty ws path fault) {file : String} (hf : fault.file? = some file) :
    file = ws.displayPath path := by
  cases h with
  | missing => cases hf
  | unread _ error =>
    obtain ⟨d, hd, rfl⟩ | ⟨d, hd, rfl⟩ | ⟨cause, rfl⟩ | ⟨reason, rfl⟩ := fault_of_readRecord error
    · exact (Option.some.inj hf).symm.trans hd
    · exact (Option.some.inj hf).symm.trans hd
    · exact (Option.some.inj hf).symm
    · cases hf
  | notFound => exact (Option.some.inj hf).symm
  | unbuilt _ error =>
    obtain ⟨cause, rfl⟩ | ⟨m, cause, -, rfl⟩ := fault_of_buildModule error
    · exact (Option.some.inj hf).symm
    · cases hf

theorem ne_circular (h : Faulty ws path fault) (chain : List String) : fault ≠ .circular chain := by
  cases h with
  | missing => exact nofun
  | unread _ error =>
    obtain ⟨d, -, rfl⟩ | ⟨d, -, rfl⟩ | ⟨cause, rfl⟩ | ⟨reason, rfl⟩ := fault_of_readRecord error <;>
      exact nofun
  | notFound => exact nofun
  | unbuilt _ error =>
    obtain ⟨cause, rfl⟩ | ⟨m, cause, -, rfl⟩ := fault_of_buildModule error <;> exact nofun

end Faulty

/-- A run stops at a faulty file, or where a file imports one that is in progress. -/
theorem Halts.faulty_or_circular (h : Halts ws root halt) :
    ∃ stack path, Trail ws root stack path ∧ path ∉ stack ∧
      ((∃ fault, Faulty ws path fault ∧ halt = ⟨fault, path :: stack⟩) ∨
        ∃ again ∈ path :: stack, ws.Imports path again ∧ halt =
          ⟨.circular ((again :: path :: stack).reverse.map ws.displayPath), path :: stack⟩) := by
  cases h with
  | circular trail mem =>
    cases trail with
    | start => cases mem
    | step trail fresh imports => exact ⟨_, _, trail, fresh, .inr ⟨_, mem, imports, rfl⟩⟩
  | missing trail fresh none => exact ⟨_, _, trail, fresh, .inl ⟨_, .missing none, rfl⟩⟩
  | unread trail fresh some error => exact ⟨_, _, trail, fresh, .inl ⟨_, .unread some error, rfl⟩⟩
  | notFound trail fresh reads mem none =>
    exact ⟨_, _, trail, fresh, .inl ⟨_, .notFound reads mem none, rfl⟩⟩
  | unbuilt trail fresh reads error =>
    exact ⟨_, _, trail, fresh, .inl ⟨_, .unbuilt reads error, rfl⟩⟩

/-- `files` are the files that a failure is blamed on: a path of imports that begins at the root.
The failure shows them in this order. It is a fault of the last of them, and names no other file, or
the last of them imports one that is in progress already, and the failure shows that one once
more. -/
structure Blames (ws : Workspace) (root : SourcePath) (fault : CompileFault)
    (files : List SourcePath) : Prop where
  stack : fault.stack = files.map ws.displayPath
  head : files.head? = some root
  chain : files.IsChain ws.Imports
  nodup : files.Nodup
  faulty : (∀ chain, fault.fault ≠ .circular chain) →
    ∃ last, files.getLast? = some last ∧ Faulty ws last fault.fault
  file : ∀ file, fault.fault.file? = some file → fault.stack.getLast? = some file
  circular : ∀ chain, fault.fault = .circular chain →
    ∃ last again, files.getLast? = some last ∧ again ∈ files ∧ ws.Imports last again ∧
      chain = fault.stack ++ [ws.displayPath again]

theorem Halts.blames (h : Halts ws root halt) :
    Blames ws root ⟨halt.fault, halt.stack.reverse.map ws.displayPath⟩ halt.stack.reverse := by
  obtain ⟨stack, path, trail, fresh, hend⟩ := h.faulty_or_circular
  have hnodup : (path :: stack).reverse.Nodup :=
    List.nodup_reverse.2 (List.nodup_cons.2 ⟨fresh, trail.nodup⟩)
  obtain ⟨fault, faulty, rfl⟩ | ⟨again, mem, imports, rfl⟩ := hend
  · refine ⟨rfl, trail.head?_reverse, trail.isChain, hnodup, fun _ => ?_, fun file hf => ?_,
      fun chain hc => absurd hc (faulty.ne_circular chain)⟩
    · exact ⟨path, List.getLast?_reverse, faulty⟩
    · rw [faulty.eq_displayPath hf, List.getLast?_map, List.getLast?_reverse]
      rfl
  · refine ⟨rfl, trail.head?_reverse, trail.isChain, hnodup, fun hc => absurd rfl (hc _), ?_, ?_⟩
    · rintro _ ⟨⟩
    rintro _ ⟨⟩
    refine ⟨path, again, List.getLast?_reverse, List.mem_reverse.2 mem, imports, ?_⟩
    rw [List.reverse_cons, List.map_append]
    rfl

end Workspace

namespace Session

open Workspace

/-- In every session that a new one becomes by compilations, successful or not, and by adding
sources, a compilation fails without a file in progress exactly if its path leads nowhere. Every
other failure blames a path of imports from its root. -/
theorem blames_run (sources : Sources) (searchDirs : List SourcePath)
    (sourceRoot : Option SourcePath) (steps : List Step) (written : String) :
    let s := (start sources searchDirs sourceRoot).run steps
    (s.compile written).1 = (s.workspace.compile written).1 ∧
    (s.workspace.sources.resolve? (.ofString written) = none →
      (s.compile written).1 = .error ⟨.unreadable written "No such file", []⟩) ∧
    ∀ root fault, s.workspace.sources.resolve? (.ofString written) = some root →
      (s.compile written).1 = .error fault →
      fault.stack ≠ [] ∧ ∃ files, Blames s.workspace root fault files := by
  intro s
  have hidle : s.Idle := (idle_start sources searchDirs sourceRoot).run steps
  have hsame : (s.compile written).1 = (s.workspace.compile written).1 := by
    rw [compile_eq hidle.importStack]
  refine ⟨hsame, fun hr => ?_, fun root fault hr hfault => ?_⟩
  · rw [hsame, compile_of_resolve?_eq_none hr]
  · rw [hsame] at hfault
    obtain ⟨hnone, -⟩ | ⟨root', halt, hroot, halts, rfl⟩ := halts_of_compile hfault
    · cases hnone.symm.trans hr
    · obtain rfl := Option.some.inj (hroot.symm.trans hr)
      refine ⟨?_, _, halts.blames⟩
      rw [Ne, List.map_eq_nil_iff, List.reverse_eq_nil_iff]
      exact List.ne_nil_of_mem halts.root_mem

/-- A file, and one without a module that it imports. -/
def brokenImport : Workspace where
  sources := { files :=
    [(.ofNames ["d"], .text "import \"e\"; module d {}"), (.ofNames ["e"], .text "")] }

/-- A failure is not remembered. -/
theorem run_brokenImport :
    (start brokenImport.sources [] none).run [.compile "/e"] = ⟨brokenImport, [], none⟩ := by
  have hkept : (brokenImport.compile "/e").2 = brokenImport := by
    with_unfolding_all rfl
  rw [run, List.foldl_cons, List.foldl_nil, perform, compile_eq rfl]
  exact congrArg (fun ws => (⟨ws, [], none⟩ : Session)) hkept

/-- After a failed compilation of `e`, that of `d` blames `e`, which `d` imports. -/
theorem blames_run_brokenImport :
    let s := (start brokenImport.sources [] none).run [.compile "/e"]
    let fault : CompileFault := ⟨.record "/e" .noModule, ["/d", "/e"]⟩
    s.workspace.sources.resolve? (.ofString "/d") = some (.ofNames ["d"]) ∧
      (s.compile "/d").1 = .error fault ∧
      ∃ files, Blames s.workspace (.ofNames ["d"]) fault files := by
  obtain ⟨hsame, -, hfailed⟩ := blames_run brokenImport.sources [] none [.compile "/e"] "/d"
  rw [run_brokenImport] at hsame hfailed ⊢
  have hroot : brokenImport.sources.resolve? (.ofString "/d") = some (.ofNames ["d"]) := by
    decide +kernel
  have hfault : (brokenImport.compile "/d").1 = .error ⟨.record "/e" .noModule, ["/d", "/e"]⟩ :=
    (Except.map_eq_error (g := fun _ => ())).1 (by decide +kernel)
  rw [hfault] at hsame
  exact ⟨hroot, hsame, (hfailed _ _ hroot hsame).2⟩

end Session

end WireSchema
