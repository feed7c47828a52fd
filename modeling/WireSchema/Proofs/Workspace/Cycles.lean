import WireSchema.Proofs.Fallible
import WireSchema.Proofs.Workspace.Cache

/-!
# Import cycles

`Workspace.loadWithin` is the loader with a bound on how deep builds nest. With a bound above the
number of files it gives what the loader gives (`Workspace.loadWithin_eq_load`), since no file is in
progress twice. Kept modules are closed under imports, and no file among them leads back to itself
(`Workspace.Justified.isSome_of_reachable`, `Workspace.Justified.not_cyclic`). Together with the ways
in which a run stops this makes the detection of import cycles exact
(`Workspace.compile_detects_cycles`).
-/

namespace WireSchema.Workspace

variable {ws : Workspace} {stack : List SourcePath} {built : Built}
  {path importer root u v : SourcePath} {m : Module} {written : String}

/-! ## Builds of bounded depth -/

/-- Builds the modules that the file `importer` imports, in order, each with `load`; `none` if `load`
gives up. -/
def importsWithin (ws : Workspace)
    (load : Built → SourcePath → Option (Except Halt Module × Built)) (stack : List SourcePath)
    (importer : SourcePath) :
    Built → List Record.Import → Option (Except Halt (List (Module.Import Module)) × Built)
  | built, [] => some (.ok [], built)
  | built, i :: rest =>
    match ws.findImport? importer i.filename with
    | none =>
      let fault := BuildFault.resolution i.line (.importNotFound i.filename)
      some (.error ⟨.build (ws.displayPath importer) fault, stack⟩, built)
    | some path =>
      match load built path with
      | none => none
      | some (.error halt, built) => some (.error halt, built)
      | some (.ok m, built) =>
        match importsWithin ws load stack importer built rest with
        | none => none
        | some (.error halt, built) => some (.error halt, built)
        | some (.ok others, built) => some (.ok (⟨i.filename, m.space, path, m⟩ :: others), built)

/-- Builds the module of a canonical path, unless it is built already; `none` if builds would nest
deeper than the bound. -/
def loadWithin (ws : Workspace) :
    Nat → List SourcePath → Built → SourcePath → Option (Except Halt Module × Built)
  | 0, _, _, _ => none
  | depth + 1, stack, built, path =>
    if path ∈ stack then
      some (.error ⟨.circular ((path :: stack).reverse.map ws.displayPath), stack⟩, built)
    else
      match built.lookup path with
      | some m => some (.ok m, built)
      | none =>
        match ws.sources.files.lookup path with
        | none =>
          let fault := SchemaFault.unreadable path.text (path.text ++ " does not exist")
          some (.error ⟨fault, path :: stack⟩, built)
        | some contents =>
          match ws.readRecord path contents with
          | .error fault => some (.error ⟨fault, path :: stack⟩, built)
          | .ok record =>
            match importsWithin ws (loadWithin ws depth (path :: stack)) (path :: stack) path built
              record.imports with
            | none => none
            | some (.error halt, built) => some (.error halt, built)
            | some (.ok imports, built) =>
              match buildModule (ws.displayPath path) record imports with
              | .error fault => some (.error ⟨fault, path :: stack⟩, built)
              | .ok m => some (.ok m, (path, m) :: built)

/-- The files that are not in progress. -/
abbrev idle (ws : Workspace) (stack : List SourcePath) : Nat :=
  remaining (ws.sources.files.map Prod.fst) stack

/-- Taking up a file leaves fewer files, and so a bound that suffices for its imports. -/
theorem idle_cons_lt {contents : FileText} {depth : Nat}
    (hf : ws.sources.files.lookup path = some contents) (hs : path ∉ stack)
    (hd : ws.idle stack < depth + 1) : ws.idle (path :: stack) < depth :=
  Nat.lt_of_lt_of_le (remaining_cons_lt (mem_keys_of_lookup hf) hs) (Nat.le_of_lt_succ hd)

/-- A bound above the number of files that are not in progress does not show. -/
theorem loadWithin_eq_load {depth : Nat} (hd : ws.idle stack < depth) :
    ws.loadWithin depth stack built path = some (ws.load stack built path) := by
  have key := load_induction ws
    (P := fun stack built path result built' => ∀ depth, ws.idle stack < depth →
      ws.loadWithin depth stack built path = some (result, built'))
    (Q := fun stack built importer is result built' => ∀ depth, ws.idle stack < depth →
      importsWithin ws (ws.loadWithin depth stack) stack importer built is = some (result, built'))
    ?circular ?cached ?missing ?unread ?stopped ?unbuilt ?finished ?nil ?notFound ?headStopped
    ?tailStopped ?cons
  · exact key.1 stack built path depth hd
  case circular =>
    rintro stack built path hs (_ | depth) hd
    · omega
    · rw [loadWithin, if_pos hs]
  case cached =>
    rintro stack built path m hs hm (_ | depth) hd
    · omega
    · rw [loadWithin, if_neg hs, hm]
  case missing =>
    rintro stack built path hs hb hf (_ | depth) hd
    · omega
    · rw [loadWithin, if_neg hs, hb, hf]
  case unread =>
    rintro stack built path contents fault hs hb hf hr (_ | depth) hd
    · omega
    · rw [loadWithin, if_neg hs, hb, hf]
      simp only [hr]
  case stopped =>
    rintro stack built path contents record halt built' hs hb hf hr - ih (_ | depth) hd
    · omega
    · rw [loadWithin, if_neg hs, hb, hf]
      simp only [hr, ih depth (idle_cons_lt hf hs hd)]
  case unbuilt =>
    rintro stack built path contents record imports built' fault hs hb hf hr - ih hm (_ | depth) hd
    · omega
    · rw [loadWithin, if_neg hs, hb, hf]
      simp only [hr, ih depth (idle_cons_lt hf hs hd), hm]
  case finished =>
    rintro stack built path contents record imports built' m hs hb hf hr - ih hm (_ | depth) hd
    · omega
    · rw [loadWithin, if_neg hs, hb, hf]
      simp only [hr, ih depth (idle_cons_lt hf hs hd), hm]
  case nil =>
    intro stack built importer depth hd
    rw [importsWithin]
  case notFound =>
    intro stack built importer i rest hf depth hd
    rw [importsWithin]
    simp only [hf]
  case headStopped =>
    intro stack built importer i rest path halt built' hf _ ih depth hd
    rw [importsWithin]
    simp only [hf, ih depth hd]
  case tailStopped =>
    intro stack built importer i rest path m built' halt built'' hf _ ihl iht depth hd
    rw [importsWithin]
    simp only [hf, ihl depth hd, iht depth hd]
  case cons =>
    intro stack built importer i rest path m built' others built'' hf _ ihl iht depth hd
    rw [importsWithin]
    simp only [hf, ihl depth hd, iht depth hd]

/-- Builds the module of the file at a path, with a bound on how deep builds nest. -/
def compileWithin (ws : Workspace) (depth : Nat) (written : String) :
    Option (Except CompileFault Module × Workspace) :=
  match ws.sources.resolve? (.ofString written) with
  | none => some (.error ⟨.unreadable written "No such file", []⟩, ws)
  | some path =>
    match ws.loadWithin depth [] ws.built path with
    | none => none
    | some (result, built) =>
      some (result.mapError fun halt => ⟨halt.fault, halt.stack.reverse.map ws.displayPath⟩,
        { ws with built })

/-- A compilation nests at most as many builds as there are files, and one that it refuses. -/
theorem compileWithin_eq_compile {depth : Nat} (hd : ws.sources.files.length < depth)
    (written : String) : ws.compileWithin depth written = some (ws.compile written) := by
  cases hr : ws.sources.resolve? (.ofString written) with
  | none => rw [compileWithin, compile_of_resolve?_eq_none hr, hr]
  | some path =>
    have hidle : ws.idle [] < depth := by
      have hle : ws.idle [] ≤ (ws.sources.files.map Prod.fst).length := List.countP_le_length
      rw [List.length_map] at hle
      omega
    simp only [compileWithin, compile_of_resolve?_eq_some hr, hr, loadWithin_eq_load hidle]

/-! ## Kept modules and the graph of imports -/

theorem Imported.isSome_lookup {is : List Record.Import} {imports : List (Module.Import Module)}
    {i : Record.Import} (h : Imported ws built importer is imports) (hi : i ∈ is)
    (hv : ws.findImport? importer i.filename = some v) : (built.lookup v).isSome := by
  induction h with
  | nil => simp at hi
  | cons hj _ ih =>
    obtain rfl | hi := List.mem_cons.1 hi
    · obtain ⟨path, m, hf, hm, -⟩ := hj
      obtain rfl : v = path := Option.some.inj (hv.symm.trans hf)
      rw [hm]
      rfl
    · exact ih hi

/-- The imports of a file are those that its module was built from. -/
theorem Imported.isSome_of_imports {contents : FileText} {record : Record}
    {imports : List (Module.Import Module)} (h : Imported ws built u record.imports imports)
    (text : ws.textAt u = some contents) (read : ws.readRecord u contents = .ok record)
    (hv : ws.Imports u v) : (built.lookup v).isSome := by
  obtain ⟨record', reads, i, hi, hf⟩ := hv
  obtain rfl := Reads.unique reads ⟨contents, text, read⟩
  exact h.isSome_lookup hi hf

theorem isSome_lookup_cons {path : SourcePath} :
    (List.lookup u ((path, m) :: built)).isSome ↔ u = path ∨ (built.lookup u).isSome := by
  by_cases hu : u = path
  · simp [hu]
  · rw [lookup_cons_of_ne hu]
    simp [hu]

/-- A file that a kept file imports is kept. -/
theorem Justified.isSome_of_imports (h : Justified ws ws.textAt built)
    (hu : (built.lookup u).isSome) (hv : ws.Imports u v) : (built.lookup v).isSome := by
  induction h with
  | nil => simp at hu
  | cons _ _ text read imported _ ih =>
    obtain rfl | hu := isSome_lookup_cons.1 hu
    · exact isSome_lookup_cons.2 (.inr (imported.isSome_of_imports text read hv))
    · exact isSome_lookup_cons.2 (.inr (ih hu))

theorem Justified.isSome_of_reachable (h : Justified ws ws.textAt built)
    (hu : (built.lookup u).isSome) (hv : Relation.ReflTransGen ws.Imports u v) :
    (built.lookup v).isSome := by
  induction hv with
  | refl => exact hu
  | tail _ hstep ih => exact h.isSome_of_imports ih hstep

/-- No kept file leads back to itself: what it imports was kept before it, with all that leads on
from there. -/
theorem Justified.not_cyclic (h : Justified ws ws.textAt built) (hu : (built.lookup u).isSome) :
    ¬ Relation.TransGen ws.Imports u u := by
  induction h with
  | nil => simp at hu
  | cons rest fresh text read imported _ ih =>
    obtain rfl | hu := isSome_lookup_cons.1 hu
    · intro hcycle
      obtain ⟨v, hv, hback⟩ := Relation.TransGen.head'_iff.1 hcycle
      have hkept := rest.isSome_of_reachable (imported.isSome_of_imports text read hv) hback
      rw [fresh] at hkept
      cases hkept
    · exact ih hu

/-! ## Detection -/

/-- A path of imports from `root` that visits no file twice until it ends where it was before. -/
structure CircularPath (ws : Workspace) (root : SourcePath) (nodes : List SourcePath) : Prop where
  head?_eq : nodes.head? = some root
  isChain : nodes.IsChain ws.Imports
  nodup : nodes.dropLast.Nodup
  getLast?_mem : ∃ last ∈ nodes.dropLast, nodes.getLast? = some last

theorem Trail.circularPath (h : Trail ws root stack path) (hs : path ∈ stack) :
    CircularPath ws root (path :: stack).reverse where
  head?_eq := h.head?_reverse
  isChain := h.isChain
  nodup := by
    rw [List.reverse_cons, List.dropLast_concat]
    exact (List.reverse_perm stack).nodup_iff.2 h.nodup
  getLast?_mem := by
    rw [List.reverse_cons, List.dropLast_concat, List.getLast?_concat]
    exact ⟨path, List.mem_reverse.2 hs, rfl⟩

/-- Of the faults that stop a run only a file that is in progress is a circular import. -/
theorem Halts.circularPath {halt : Halt} {chain : List String} (h : Halts ws root halt)
    (hc : halt.fault = .circular chain) :
    ∃ nodes, chain = nodes.map ws.displayPath ∧ CircularPath ws root nodes := by
  cases h with
  | circular trail mem => exact ⟨_, (SchemaFault.circular.inj hc).symm, trail.circularPath mem⟩
  | missing => cases hc
  | unread _ _ _ error =>
    obtain ⟨d, -, rfl⟩ | ⟨d, -, rfl⟩ | ⟨cause, rfl⟩ | ⟨reason, rfl⟩ := fault_of_readRecord error <;>
      cases hc
  | notFound => cases hc
  | unbuilt _ _ _ error =>
    obtain ⟨cause, rfl⟩ | ⟨m, cause, -, rfl⟩ := fault_of_buildModule error <;> cases hc

theorem circularPath_of_compile {chain stack : List String}
    (h : (ws.compile written).1 = .error ⟨.circular chain, stack⟩) :
    ∃ root nodes, ws.sources.resolve? (.ofString written) = some root ∧
      chain = nodes.map ws.displayPath ∧ CircularPath ws root nodes := by
  obtain ⟨-, hfault⟩ | ⟨root, halt, hroot, halts, hfault⟩ := halts_of_compile h
  · cases hfault
  · have hc : halt.fault = .circular chain := by
      rw [CompileFault.mk.injEq] at hfault
      exact hfault.1.symm
    obtain ⟨nodes, hchain, hpath⟩ := halts.circularPath hc
    exact ⟨root, nodes, hroot, hchain, hpath⟩

/-- A compilation that succeeds keeps the module of its root. -/
theorem isSome_of_compile (h : Justified ws ws.textAt ws.built)
    (hm : (ws.compile written).1 = .ok m) :
    ∃ root, ws.sources.resolve? (.ofString written) = some root ∧
      Justified ws ws.textAt (ws.compile written).2.built ∧
      ((ws.compile written).2.built.lookup root).isSome := by
  have hready : Ready ws ws.textAt [] ws.built := h.ready fun _ _ => rfl
  cases hr : ws.sources.resolve? (.ofString written) with
  | none =>
    rw [compile_of_resolve?_eq_none hr] at hm
    cases hm
  | some root =>
    rw [compile_of_resolve?_eq_some hr] at hm ⊢
    cases hl : (ws.load [] ws.built root).1 with
    | error halt => simp [hl, Except.mapError] at hm
    | ok n =>
      refine ⟨root, rfl, (run_load hready root).ready.justified, ?_⟩
      rw [lookup_load hready hl]
      rfl

/-- In a fresh workspace every compilation ends, with builds nested no deeper than there are files.
If it succeeds, everything that imports lead to from its root is kept, and nothing there leads back
to itself. If it reports a circular import, the files it names are a path of imports from its root
that ends where it was before. -/
theorem compile_detects_cycles (fresh : ws.built = []) (written : String) :
    (∀ depth, ws.sources.files.length < depth →
      ws.compileWithin depth written = some (ws.compile written)) ∧
    (∀ m, (ws.compile written).1 = .ok m →
      ∃ root, ws.sources.resolve? (.ofString written) = some root ∧
        ∀ v, Relation.ReflTransGen ws.Imports root v →
          ((ws.compile written).2.built.lookup v).isSome ∧ ¬ Relation.TransGen ws.Imports v v) ∧
    (∀ chain stack, (ws.compile written).1 = .error ⟨.circular chain, stack⟩ →
      ∃ root nodes, ws.sources.resolve? (.ofString written) = some root ∧
        chain = nodes.map ws.displayPath ∧ CircularPath ws root nodes) := by
  refine ⟨fun depth hd => compileWithin_eq_compile hd written, fun m hm => ?_,
    fun chain stack hc => circularPath_of_compile hc⟩
  have hjust : Justified ws ws.textAt ws.built := by
    rw [fresh]
    exact .nil
  obtain ⟨root, hroot, hkept, hmem⟩ := isSome_of_compile hjust hm
  refine ⟨root, hroot, fun v hv => ?_⟩
  have hsome := hkept.isSome_of_reachable hmem hv
  exact ⟨hsome, hkept.not_cyclic hsome⟩

/-- Of `threeFiles`, `a` compiles, and `c` imports itself. -/
theorem compile_detects_cycles_threeFiles :
    (∀ v, Relation.ReflTransGen threeFiles.Imports (.ofNames ["a"]) v →
      ((threeFiles.compile "/a").2.built.lookup v).isSome ∧
        ¬ Relation.TransGen threeFiles.Imports v v) ∧
    ∃ nodes, nodes.map threeFiles.displayPath = ["/c", "/c"] ∧
      CircularPath threeFiles (.ofNames ["c"]) nodes := by
  constructor
  · have hok : (threeFiles.compile "/a").1.isOk = true := by decide +kernel
    obtain ⟨m, hm⟩ := Except.exists_of_isOk hok
    obtain ⟨root, hroot, h⟩ := (compile_detects_cycles rfl "/a").2.1 m hm
    have hroot' : threeFiles.sources.resolve? (.ofString "/a") = some (.ofNames ["a"]) := by
      decide +kernel
    obtain rfl := Option.some.inj (hroot.symm.trans hroot')
    exact h
  · have hc : (threeFiles.compile "/c").1 = .error ⟨.circular ["/c", "/c"], ["/c"]⟩ :=
      (Except.map_eq_error (g := fun _ => ())).1 (by decide +kernel)
    obtain ⟨root, nodes, hroot, hchain, h⟩ := (compile_detects_cycles rfl "/c").2.2 _ _ hc
    have hroot' : threeFiles.sources.resolve? (.ofString "/c") = some (.ofNames ["c"]) := by
      decide +kernel
    obtain rfl := Option.some.inj (hroot.symm.trans hroot')
    exact ⟨nodes, hchain.symm, h⟩

end WireSchema.Workspace
