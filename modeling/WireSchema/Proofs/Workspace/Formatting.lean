import WireSchema.Proofs.Module.Lines
import WireSchema.Proofs.Workspace.Loading

/-!
# Compilation and formatting

Two workspaces are reformatted forms of each other if they hold the same files with the same symbols:
blanks, comments and line breaks may differ. `Workspace.load_reformatted` follows the two runs of the
loader side by side: they read the same records up to lines, so they go to the same files in the same
order, build equal modules and stop for the same reason. The result is
`Workspace.compile_reformatted`: equal modules, or faults that differ in lines and snippets alone.
-/

namespace WireSchema

/-! ## Faults without lines -/

/-- The message without the line it blames and the text of that line. -/
def Diagnostic.unlined (d : Diagnostic) : Diagnostic :=
  { d with line := d.line.map fun _ => 0, snippet := none }

/-- The fault without lines and snippets. -/
def SchemaFault.unlined : SchemaFault → SchemaFault
  | scan d => scan d.unlined
  | grammar d => grammar d.unlined
  | build file fault => build file fault.unlined
  | record file cause => record file cause
  | circular chain => circular chain
  | layout fault => layout fault
  | unreadable path reason => unreadable path reason

def Workspace.Halt.unlined (h : Workspace.Halt) : Workspace.Halt :=
  { h with fault := h.fault.unlined }

def CompileFault.unlined (f : CompileFault) : CompileFault :=
  { f with fault := f.fault.unlined }

section

variable {ε ε' α β : Type} {u : ε → ε'} {f : α → β} {x y : Except ε α}

/-- Two results that are the same under a view of values and of faults. -/
theorem cases_of_map_mapError (h : (x.map f).mapError u = (y.map f).mapError u) :
    (∃ a b, x = .ok a ∧ y = .ok b ∧ f a = f b) ∨ ∃ d e, x = .error d ∧ y = .error e ∧ u d = u e := by
  cases x <;> cases y <;> simp_all [Except.map, Except.mapError]

theorem eq_ok_of_mapError {a : α} (h : (Except.ok a).mapError u = x.mapError u) : x = .ok a := by
  cases x <;> cases h
  rfl

theorem exists_error_of_mapError {d : ε} (h : (Except.error d).mapError u = x.mapError u) :
    ∃ e, x = .error e ∧ u d = u e := by
  cases x with
  | ok _ => cases h
  | error e => exact ⟨e, rfl, Except.error.inj h⟩

end

/-! ## Records -/

/-- The symbols of a text, if it scans without a fault. -/
def FileText.symbols? : FileText → Option (List Symbol)
  | .text contents => (Token.scan contents).toExcept.toOption.map (List.map Token.symbol)
  | .binary => none

/-- Two texts that scan to the same symbols. -/
def FileText.Alike (file file' : FileText) : Prop :=
  file.symbols?.isSome ∧ file.symbols? = file'.symbols?

theorem FileText.exists_of_symbols? {file : FileText} {symbols : List Symbol}
    (h : file.symbols? = some symbols) : ∃ contents tokens, file = .text contents ∧
      (Token.scan contents).toExcept = .ok tokens ∧ tokens.map Token.symbol = symbols := by
  cases file with
  | binary => cases h
  | text contents =>
    obtain ⟨tokens, htokens, hsymbols⟩ := Option.map_eq_some_iff.1 h
    refine ⟨contents, tokens, rfl, ?_, hsymbols⟩
    cases hscan : (Token.scan contents).toExcept with
    | error f => rw [hscan] at htokens; cases htokens
    | ok tokens' => rw [hscan] at htokens; cases htokens; rfl

theorem Record.unlined_ofSource {contents contents' : String} {tokens tokens' : List Token}
    (hscan : (Token.scan contents).toExcept = .ok tokens)
    (hscan' : (Token.scan contents').toExcept = .ok tokens')
    (hsymbols : tokens.map Token.symbol = tokens'.map Token.symbol) (file : String) :
    ((Record.ofSource file contents).map Record.unlined).mapError SchemaFault.unlined =
      ((Record.ofSource file contents').map Record.unlined).mapError SchemaFault.unlined := by
  simp only [Record.ofSource, Tree.ofSource, hscan, hscan']
  obtain ⟨tree, tree', ht, ht', htree⟩ | ⟨f, f', ht, ht', hf⟩ :=
    cases_of_map_mapError (Tree.unlined_ofTokens hsymbols)
  · have hrecord : (Record.ofTree file tree).map Record.unlined =
        (Record.ofTree file tree').map Record.unlined := by
      rw [← Record.ofTree_unlined, ← Record.ofTree_unlined, htree]
    rw [ht, ht']
    cases hr : Record.ofTree file tree <;> cases hr' : Record.ofTree file tree' <;>
      simp_all [bind, Except.bind, Except.map, Except.mapError, throw, throwThe, MonadExceptOf.throw,
        pure, Except.pure]
  · have hcause : f.cause = f'.cause := by
      simpa [GrammarFault.unlined] using hf
    rw [ht, ht']
    simp [bind, Except.bind, Except.map, Except.mapError, SchemaFault.unlined, Diagnostic.unlined,
      Diagnostic.atLine, hcause]

theorem Workspace.buildModule_unlined (file : String) (r : Record)
    (imports : List (Module.Import Module)) :
    buildModule file r.unlined imports =
      (buildModule file r imports).mapError SchemaFault.unlined := by
  rw [buildModule, Module.ofRecord_unlined, buildModule]
  cases Module.ofRecord r file imports with
  | error fault => rfl
  | ok m =>
    simp only [Except.mapError]
    cases checkLayouts m.layoutStructs <;> rfl

namespace Workspace

/-! ## Two runs -/

/-- The same files with the same symbols, searched in the same places. -/
structure Reformatted (ws ws' : Workspace) : Prop where
  files : ∀ path, Option.Rel FileText.Alike (ws.sources.files.lookup path)
    (ws'.sources.files.lookup path)
  addressing : ws.sources.addressing = ws'.sources.addressing
  searchDirs : ws.searchDirs = ws'.searchDirs
  sourceRoot : ws.sourceRoot = ws'.sourceRoot
  built : ws.built = ws'.built

variable {ws ws' : Workspace}

namespace Reformatted

theorem displayPath (h : ws.Reformatted ws') : ws.displayPath = ws'.displayPath := by
  funext path
  rw [Workspace.displayPath, h.sourceRoot]
  rfl

theorem cases_lookup (h : ws.Reformatted ws') (path : SourcePath) :
    ws.sources.files.lookup path = none ∧ ws'.sources.files.lookup path = none ∨
      ∃ contents contents', ws.sources.files.lookup path = some contents ∧
        ws'.sources.files.lookup path = some contents' ∧ contents.Alike contents' := by
  have hfiles := h.files path
  generalize ws.sources.files.lookup path = file at hfiles
  generalize ws'.sources.files.lookup path = file' at hfiles
  cases hfiles with
  | some halike => exact .inr ⟨_, _, rfl, rfl, halike⟩
  | none => exact .inl ⟨rfl, rfl⟩

theorem isSome_lookup (h : ws.Reformatted ws') (path : SourcePath) :
    (ws.sources.files.lookup path).isSome = (ws'.sources.files.lookup path).isSome := by
  obtain ⟨hf, hf'⟩ | ⟨contents, contents', hf, hf', -⟩ := h.cases_lookup path
  · rw [hf, hf']
  · rw [hf, hf', Option.isSome_some, Option.isSome_some]

theorem lookup_eq_none (h : ws.Reformatted ws') {path : SourcePath}
    (hf : ws.sources.files.lookup path = none) : ws'.sources.files.lookup path = none := by
  simpa [hf] using h.isSome_lookup path

theorem resolve? (h : ws.Reformatted ws') : ws.sources.resolve? = ws'.sources.resolve? := by
  funext path
  simp only [Sources.resolve?, h.addressing, h.isSome_lookup]

theorem findImport? (h : ws.Reformatted ws') : ws.findImport? = ws'.findImport? := by
  funext importer written
  simp only [Workspace.findImport?, importPlaces, h.resolve?, h.searchDirs]

theorem readRecord (h : ws.Reformatted ws') {path : SourcePath} {contents contents' : FileText}
    (halike : contents.Alike contents') :
    ((ws.readRecord path contents).map Record.unlined).mapError SchemaFault.unlined =
      ((ws'.readRecord path contents').map Record.unlined).mapError SchemaFault.unlined := by
  obtain ⟨symbols, hsymbols⟩ := Option.isSome_iff_exists.1 halike.1
  obtain ⟨text, tokens, rfl, hscan, rfl⟩ := FileText.exists_of_symbols? hsymbols
  obtain ⟨text', tokens', rfl, hscan', heq⟩ :=
    FileText.exists_of_symbols? (halike.2.symm.trans hsymbols)
  simp only [Workspace.readRecord, h.displayPath]
  exact Record.unlined_ofSource hscan hscan' heq.symm _

/-- A file that is there has the same record in both workspaces, or the same fault, up to lines. -/
theorem cases_readRecord (h : ws.Reformatted ws') {path : SourcePath} {contents : FileText}
    (hf : ws.sources.files.lookup path = some contents) :
    ∃ contents', ws'.sources.files.lookup path = some contents' ∧
      ((∃ r r', ws.readRecord path contents = .ok r ∧ ws'.readRecord path contents' = .ok r' ∧
          r.unlined = r'.unlined) ∨
        ∃ e e', ws.readRecord path contents = .error e ∧ ws'.readRecord path contents' = .error e' ∧
          e.unlined = e'.unlined) := by
  obtain ⟨hf₁, -⟩ | ⟨contents₁, contents', hf₁, hf', halike⟩ := h.cases_lookup path
  · rw [hf] at hf₁
    cases hf₁
  · obtain rfl : contents = contents₁ := Option.some.inj (hf.symm.trans hf₁)
    exact ⟨contents', hf', cases_of_map_mapError (h.readRecord halike)⟩

theorem exists_record (h : ws.Reformatted ws') {path : SourcePath} {contents : FileText} {r : Record}
    (hf : ws.sources.files.lookup path = some contents)
    (hr : ws.readRecord path contents = .ok r) :
    ∃ contents' r', ws'.sources.files.lookup path = some contents' ∧
      ws'.readRecord path contents' = .ok r' ∧ r.unlined = r'.unlined := by
  obtain ⟨contents', hf', ⟨r₁, r', hr₁, hr', heq⟩ | ⟨e, e', he, -⟩⟩ := h.cases_readRecord hf
  · obtain rfl : r = r₁ := Except.ok.inj (hr.symm.trans hr₁)
    exact ⟨contents', r', hf', hr', heq⟩
  · rw [hr] at he
    cases he

theorem buildModule (h : ws.Reformatted ws') {r r' : Record} (hr : r.unlined = r'.unlined)
    (path : SourcePath) (imports : List (Module.Import Module)) :
    (buildModule (ws.displayPath path) r imports).mapError SchemaFault.unlined =
      (Workspace.buildModule (ws'.displayPath path) r' imports).mapError SchemaFault.unlined := by
  rw [← buildModule_unlined, ← buildModule_unlined, hr, h.displayPath]

end Reformatted

/-- Two runs end alike: with equal results or faults that are equal up to lines, and with the same
modules built. -/
structure EndAlike {α : Type} (run run' : Except Halt α × Built) : Prop where
  result : run.1.mapError Halt.unlined = run'.1.mapError Halt.unlined
  built : run.2 = run'.2

namespace EndAlike

variable {α : Type} {a : α} {halt : Halt} {after : Built} {run : Except Halt α × Built}

theorem eq_of_ok (h : EndAlike (.ok a, after) run) : run = (.ok a, after) :=
  Prod.ext (eq_ok_of_mapError h.result) h.built.symm

theorem exists_of_error (h : EndAlike (.error halt, after) run) :
    ∃ halt', run = (.error halt', after) ∧ halt.unlined = halt'.unlined := by
  obtain ⟨halt', hrun, hhalt⟩ := exists_error_of_mapError h.result
  exact ⟨halt', Prod.ext hrun h.built.symm, hhalt⟩

theorem error {halt' : Halt} (h : halt.unlined = halt'.unlined) :
    EndAlike (.error halt, after) ((.error halt', after) : Except Halt α × Built) :=
  ⟨congrArg Except.error h, rfl⟩

end EndAlike

theorem exists_cons_of_unlined {i : Record.Import} {rest imports : List Record.Import}
    (h : (i :: rest).map Record.Import.unlined = imports.map Record.Import.unlined) :
    ∃ i' rest', imports = i' :: rest' ∧ i.filename = i'.filename ∧
      rest.map Record.Import.unlined = rest'.map Record.Import.unlined := by
  obtain ⟨i', rest', rfl, hi, hrest⟩ := List.map_eq_cons_iff.1 h.symm
  have hname : i.unlined.filename = i'.unlined.filename := by rw [hi]
  exact ⟨i', rest', rfl, hname, hrest.symm⟩

/-- Two runs of the loader from the same place, on reformatted files, take the same way. -/
theorem load_reformatted (h : ws.Reformatted ws') (stack : List SourcePath) (built : Built)
    (path : SourcePath) : EndAlike (ws.load stack built path) (ws'.load stack built path) := by
  have key := load_induction ws
    (P := fun stack built path result after =>
      EndAlike (result, after) (ws'.load stack built path))
    (Q := fun stack built importer imports result after => ∀ imports' : List Record.Import,
      imports.map Record.Import.unlined = imports'.map Record.Import.unlined →
      EndAlike (result, after) (ws'.loadImports stack built importer imports'))
    ?circular ?cached ?missing ?unread ?stopped ?unbuilt ?finished ?nil ?notFound ?headStopped
    ?tailStopped ?cons
  · exact key.1 stack built path
  case circular =>
    intro stack built path hs
    rw [load_of_mem hs, h.displayPath]
    exact ⟨rfl, rfl⟩
  case cached =>
    intro stack built path m hs hm
    rw [load_of_built hs hm]
    exact ⟨rfl, rfl⟩
  case missing =>
    intro stack built path hs hb hf
    rw [load_of_not_built hs hb, h.lookup_eq_none hf]
    exact ⟨rfl, rfl⟩
  case unread =>
    intro stack built path contents fault hs hb hf hr
    obtain ⟨contents', hf', ⟨r, r', hr₁, -⟩ | ⟨e, e', he, he', heq⟩⟩ := h.cases_readRecord hf
    · rw [hr] at hr₁
      cases hr₁
    · obtain rfl : fault = e := Except.error.inj (hr.symm.trans he)
      rw [load_of_not_built hs hb, hf']
      simp only [he']
      exact .error (by rw [Halt.unlined, Halt.unlined, heq])
  case stopped =>
    intro stack built path contents record halt after hs hb hf hr _ ih
    obtain ⟨contents', record', hf', hr', heq⟩ := h.exists_record hf hr
    obtain ⟨halt', hrun, hhalt⟩ := (ih record'.imports (congrArg Record.imports heq)).exists_of_error
    rw [load_of_not_built hs hb, hf']
    simp only [hr', hrun]
    exact .error hhalt
  case unbuilt =>
    intro stack built path contents record imports after fault hs hb hf hr _ ih hm
    obtain ⟨contents', record', hf', hr', heq⟩ := h.exists_record hf hr
    have hrun := (ih record'.imports (congrArg Record.imports heq)).eq_of_ok
    rw [load_of_not_built hs hb, hf']
    simp only [hr', hrun]
    obtain ⟨fault', hm', hfault⟩ :=
      exists_error_of_mapError (hm ▸ h.buildModule heq path imports)
    simp only [hm']
    exact .error (by rw [Halt.unlined, Halt.unlined, hfault])
  case finished =>
    intro stack built path contents record imports after m hs hb hf hr _ ih hm
    obtain ⟨contents', record', hf', hr', heq⟩ := h.exists_record hf hr
    have hrun := (ih record'.imports (congrArg Record.imports heq)).eq_of_ok
    rw [load_of_not_built hs hb, hf']
    simp only [hr', hrun]
    have hm' := eq_ok_of_mapError (hm ▸ h.buildModule heq path imports)
    simp only [hm']
    exact ⟨rfl, rfl⟩
  case nil =>
    intro stack built importer imports' himports
    rw [List.map_eq_nil_iff.1 himports.symm, loadImports_nil]
    exact ⟨rfl, rfl⟩
  case notFound =>
    intro stack built importer i rest hf imports' himports
    obtain ⟨i', rest', rfl, hname, -⟩ := exists_cons_of_unlined himports
    rw [h.findImport?, hname] at hf
    rw [loadImports_cons]
    simp only [hf, hname, h.displayPath]
    exact .error rfl
  case headStopped =>
    intro stack built importer i rest path halt after hf _ ih imports' himports
    obtain ⟨i', rest', rfl, hname, -⟩ := exists_cons_of_unlined himports
    rw [h.findImport?, hname] at hf
    obtain ⟨halt', hrun, hhalt⟩ := ih.exists_of_error
    rw [loadImports_cons]
    simp only [hf, hrun]
    exact .error hhalt
  case tailStopped =>
    intro stack built importer i rest path m after halt after' hf _ ih iht imports' himports
    obtain ⟨i', rest', rfl, hname, hrest⟩ := exists_cons_of_unlined himports
    rw [h.findImport?, hname] at hf
    obtain ⟨halt', hrun, hhalt⟩ := (iht rest' hrest).exists_of_error
    rw [loadImports_cons]
    simp only [hf, ih.eq_of_ok, hrun]
    exact .error hhalt
  case cons =>
    intro stack built importer i rest path m after others after' hf _ ih iht imports' himports
    obtain ⟨i', rest', rfl, hname, hrest⟩ := exists_cons_of_unlined himports
    rw [h.findImport?, hname] at hf
    rw [loadImports_cons]
    simp only [hf, ih.eq_of_ok, (iht rest' hrest).eq_of_ok, hname]
    exact ⟨rfl, rfl⟩

/-- Compilation does not depend on formatting: reformatted workspaces give equal modules, or faults
that differ in lines and snippets alone, and stay reformatted forms of each other. -/
theorem compile_reformatted (h : ws.Reformatted ws') (written : String) :
    (ws.compile written).1.mapError CompileFault.unlined =
        (ws'.compile written).1.mapError CompileFault.unlined ∧
      (ws.compile written).2.Reformatted (ws'.compile written).2 := by
  cases hr : ws.sources.resolve? (.ofString written) with
  | none =>
    have hr' : ws'.sources.resolve? (.ofString written) = none := by rw [← h.resolve?, hr]
    rw [compile_of_resolve?_eq_none hr, compile_of_resolve?_eq_none hr']
    exact ⟨rfl, h⟩
  | some path =>
    have hr' : ws'.sources.resolve? (.ofString written) = some path := by rw [← h.resolve?, hr]
    have hload := load_reformatted h [] ws.built path
    rw [compile_of_resolve?_eq_some hr, compile_of_resolve?_eq_some hr', ← h.built]
    refine ⟨?_, h.files, h.addressing, h.searchDirs, h.sourceRoot, hload.built⟩
    cases hresult : ws.load [] ws.built path with
    | mk result after =>
      rw [hresult] at hload
      cases result with
      | ok m =>
        rw [hload.eq_of_ok]
        rfl
      | error halt =>
        obtain ⟨halt', hrun, hhalt⟩ := hload.exists_of_error
        obtain ⟨hfault, hstack⟩ : halt.fault.unlined = halt'.fault.unlined ∧
            halt.stack = halt'.stack := by
          simpa [Halt.unlined] using hhalt
        rw [hrun]
        simp only [Except.mapError, CompileFault.unlined, hfault, hstack, h.displayPath]

theorem rel_lookup_of_forall₂ {files files' : List (SourcePath × FileText)}
    (h : List.Forall₂ (fun p q => p.1 = q.1 ∧ p.2.Alike q.2) files files') (path : SourcePath) :
    Option.Rel FileText.Alike (files.lookup path) (files'.lookup path) := by
  induction h with
  | nil => exact .none
  | @cons p q files files' hpq _ ih =>
    obtain ⟨place, contents⟩ := p
    obtain ⟨_, contents'⟩ := q
    obtain ⟨rfl, halike⟩ := hpq
    simp only [List.lookup_cons]
    cases path == place
    · exact ih
    · exact .some halike

/-- A file that imports another one, with blanks and comments. -/
def spread : Workspace where
  sources := { files := [
    (.ofNames ["a"], .text "import \"b\"; // colours\n\nconst b.E C =\n  b.E.V;\n"),
    (.ofNames ["b"], .text "module b;\n\nenum E \x7b\n  V // the only one\n\x7d;\n")] }

/-- The files of `spread` on one line each. -/
def packed : Workspace where
  sources := { files := [
    (.ofNames ["a"], .text "import\"b\";const b.E C=b.E.V;"),
    (.ofNames ["b"], .text "module b;enum E{V};")] }

theorem reformatted_spread : spread.Reformatted packed where
  files := by
    refine rel_lookup_of_forall₂ (.cons ⟨rfl, ?_, ?_⟩ (.cons ⟨rfl, ?_, ?_⟩ .nil))
    all_goals decide +kernel
  addressing := rfl
  searchDirs := rfl
  sourceRoot := rfl
  built := rfl

theorem isOk_compile_packed : (packed.compile "/a").1.isOk = true := by decide +kernel

theorem compile_reformatted_spread :
    spread.Reformatted packed ∧
      ∃ m, (spread.compile "/a").1 = .ok m ∧ (packed.compile "/a").1 = .ok m := by
  obtain ⟨hresult, -⟩ := compile_reformatted reformatted_spread "/a"
  obtain ⟨m, hm⟩ := Except.exists_of_isOk isOk_compile_packed
  rw [hm] at hresult
  exact ⟨reformatted_spread, m, eq_ok_of_mapError hresult.symm, hm⟩

end Workspace

end WireSchema
