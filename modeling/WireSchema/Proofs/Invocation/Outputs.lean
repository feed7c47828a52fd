import Mathlib.Data.Set.List
import WireSchema.Invocation
import WireSchema.Proofs.Invocation.Writes
import WireSchema.Proofs.Workspace.Shown

/-!
# Output files

The output of a module is named after the path by which its file is shown: the steps below the root
or, for a file outside the root, all steps (`SourcePath.outputSteps`). Two files of different paths
share a name exactly if one lies below the root just as the other lies below `/`
(`SourcePath.Mirrors`). A run writes the documents one after another, and a name holds what was
written to it last (`Invocation.readText_generateAll`); so of such files the one given last has its
document in the output, and that of the other is lost.
-/

namespace WireSchema

open SourcePath

/-! ## Names of output files -/

namespace SourcePath

variable {p q root : SourcePath} {steps : List Step} {name : String}

/-- The steps in the name of a file's output: those below the root, or all. -/
def outputSteps (root p : SourcePath) : List Step :=
  (stripSteps root.steps p.steps).getD p.steps

/-- The file `q` lies below the root just as `p`, which does not, lies below `/`. -/
structure Mirrors (root p q : SourcePath) : Prop where
  outside : ¬ root.steps <+: p.steps
  inside : q.steps = root.steps ++ p.steps

theorem outputSteps_of_below {rest : List Step} (h : p.steps = root.steps ++ rest) :
    outputSteps root p = rest := by
  rw [outputSteps, stripSteps_eq_some_iff.2 h]
  rfl

theorem outputSteps_of_not_below (h : ¬ root.steps <+: p.steps) :
    outputSteps root p = p.steps := by
  unfold outputSteps
  cases hstrip : stripSteps root.steps p.steps with
  | none => rfl
  | some rest => exact absurd ⟨rest, (stripSteps_eq_some_iff.1 hstrip).symm⟩ h

theorem outputSteps_subset (root p : SourcePath) : outputSteps root p ⊆ p.steps := by
  by_cases hbelow : root.steps <+: p.steps
  · obtain ⟨rest, hsteps⟩ := hbelow
    rw [outputSteps_of_below hsteps.symm, ← hsteps]
    exact List.subset_append_right _ _
  · rw [outputSteps_of_not_below hbelow]
    exact List.Subset.refl _

theorem IsFilePath.readable_outputSteps (hp : p.IsFilePath) (root : SourcePath) :
    ∀ s ∈ outputSteps root p, Readable s :=
  fun s hs => hp.readable s (outputSteps_subset root p hs)

theorem IsFilePath.eq_of_steps (hp : p.IsFilePath) (hq : q.IsFilePath) (h : p.steps = q.steps) :
    p = q := by
  have habsolute : p.absolute = q.absolute := hp.absolute.trans hq.absolute.symm
  cases p
  cases q
  simp_all

/-- Two files share their output steps only if one mirrors the other. -/
theorem outputSteps_eq_iff (hp : p.IsFilePath) (hq : q.IsFilePath) :
    outputSteps root p = outputSteps root q ↔ p = q ∨ Mirrors root p q ∨ Mirrors root q p := by
  have hmirrored {p q : SourcePath} (h : Mirrors root p q) :
      outputSteps root p = outputSteps root q := by
    rw [outputSteps_of_not_below h.outside, outputSteps_of_below h.inside]
  constructor
  · intro h
    by_cases hpb : root.steps <+: p.steps <;> by_cases hqb : root.steps <+: q.steps
    · obtain ⟨⟨rest, hrest⟩, ⟨rest', hrest'⟩⟩ := hpb, hqb
      rw [outputSteps_of_below hrest.symm, outputSteps_of_below hrest'.symm] at h
      exact .inl (hp.eq_of_steps hq (by rw [← hrest, h, hrest']))
    · obtain ⟨rest, hrest⟩ := hpb
      rw [outputSteps_of_below hrest.symm, outputSteps_of_not_below hqb] at h
      exact .inr (.inr ⟨hqb, by rw [← hrest, h]⟩)
    · obtain ⟨rest, hrest⟩ := hqb
      rw [outputSteps_of_not_below hpb, outputSteps_of_below hrest.symm] at h
      exact .inr (.inl ⟨hpb, by rw [← hrest, h]⟩)
    · rw [outputSteps_of_not_below hpb, outputSteps_of_not_below hqb] at h
      exact .inl (hp.eq_of_steps hq h)
  · rintro (rfl | h | h)
    · rfl
    · exact hmirrored h
    · exact (hmirrored h).symm

/-! ### Their texts -/

theorem stepsText_inj {steps' : List Step} (h : ∀ s ∈ steps, Readable s)
    (h' : ∀ s ∈ steps', Readable s) (heq : stepsText steps = stepsText steps') :
    steps = steps' := by
  have hread := ofString_stepsText h
  rw [heq, ofString_stepsText h'] at hread
  exact (SourcePath.mk.inj hread).2.symm

theorem stepsText_cons (s : Step) (hne : steps ≠ []) :
    stepsText (s :: steps) = s.text ++ "/" ++ stepsText steps := by
  obtain ⟨t, rest, rfl⟩ := List.exists_cons_of_ne_nil hne
  exact String.intercalate_cons_cons

/-- The text of steps does not start with a slash. -/
theorem dropWhile_stepsText (h : ∀ s ∈ steps, Readable s) :
    (stepsText steps).toList.dropWhile (· = '/') = (stepsText steps).toList := by
  cases steps with
  | nil => rfl
  | cons s rest =>
    have hs := h s List.mem_cons_self
    obtain ⟨c, cs, hc⟩ : ∃ c cs, s.text.toList = c :: cs :=
      List.exists_cons_of_ne_nil (by simpa using hs.text_ne)
    have hslash : c ≠ '/' := by
      rintro rfl
      exact hs.no_slash (hc ▸ List.mem_cons_self)
    obtain ⟨more, hmore⟩ : ∃ more, (stepsText (s :: rest)).toList = c :: more := by
      by_cases hne : rest = []
      · exact ⟨cs, by simpa [stepsText, hne] using hc⟩
      · exact ⟨cs ++ '/' :: (stepsText rest).toList, by simp [stepsText_cons s hne, hc]⟩
    rw [hmore, List.dropWhile_cons_of_neg (by simpa using hslash)]

/-- The name of a file's output is the text of its output steps with the ending of the format. -/
theorem outputName_relativeTo (hp : p.IsFilePath) (hroot : root.IsNormal)
    (habsolute : root.absolute = true) (format : OutputFormat) :
    outputName (p.relativeTo root) format =
      stepsText (outputSteps root p) ++ "." ++ format.ending := by
  have htrimmed : (p.relativeTo root).toList.dropWhile (· = '/') =
      (stepsText (outputSteps root p)).toList := by
    rw [← dropWhile_stepsText (hp.readable_outputSteps root)]
    by_cases hbelow : root.steps <+: p.steps
    · obtain ⟨rest, hsteps⟩ := hbelow
      rw [relativeTo_of_below hp hroot habsolute hsteps.symm, outputSteps_of_below hsteps.symm]
    · rw [relativeTo_of_not_below hp hroot (fun h => hbelow h.2), outputSteps_of_not_below hbelow,
        text, if_pos hp.absolute, String.toList_append]
      rfl
  rw [outputName, htrimmed, String.ofList_toList]

theorem length_ending (format : OutputFormat) : format.ending.length = 4 := by
  cases format <;> decide +kernel

theorem append_ending_inj {format format' : OutputFormat} {front front' : String}
    (h : front ++ "." ++ format.ending = front' ++ "." ++ format'.ending) :
    front = front' ∧ format = format' := by
  have hlist := congrArg String.toList h
  rw [String.toList_append, String.toList_append (s := front' ++ ".")] at hlist
  have hlength : format.ending.toList.length = format'.ending.toList.length := by
    rw [String.length_toList, String.length_toList, length_ending, length_ending]
  obtain ⟨hfront, hending⟩ := List.append_inj' hlist hlength
  refine ⟨?_, ?_⟩
  · rw [String.toList_append, String.toList_append (s := front')] at hfront
    exact String.toList_inj.1 (List.append_cancel_right hfront)
  · have hending := String.toList_inj.1 hending
    cases format <;> cases format' <;> first | rfl | exact absurd hending (by decide)

theorem ofPart_of_lt_length {part : String} (h : 2 < part.length) :
    Step.ofPart part = .down part := by
  unfold Step.ofPart
  split
  · exact absurd h (by decide)
  · exact absurd h (by decide)
  · rfl

/-- A name with an ending is a step down. -/
theorem readable_append_ending (format : OutputFormat) (h : '/' ∉ name.toList) :
    Readable (.down (name ++ "." ++ format.ending)) := by
  have hlength : 2 < (name ++ "." ++ format.ending).length := by
    rw [String.length_append, length_ending]
    omega
  refine ⟨fun hempty => ?_, ?_, ofPart_of_lt_length hlength⟩
  · rw [Step.text] at hempty
    rw [hempty] at hlength
    cases hlength
  · cases format <;> simpa [Step.text, OutputFormat.ending] using h

theorem stepsText_concat (front : List Step) (name ending : String) :
    stepsText (front ++ [.down name]) ++ ending =
      stepsText (front ++ [.down (name ++ ending)]) := by
  induction front with
  | nil => simp [stepsText, Step.text]
  | cons s front ih =>
    have hne (name : String) : front ++ [.down name] ≠ [] := by simp
    rw [List.cons_append, List.cons_append, stepsText_cons _ (hne _), stepsText_cons _ (hne _),
      ← ih, String.append_assoc]

/-- The name of a file's output is read as steps down. -/
theorem exists_ofString_outputName (hp : p.IsFilePath) (hroot : root.IsNormal)
    (habsolute : root.absolute = true) (format : OutputFormat) :
    ∃ below : List String, outputName (p.relativeTo root) format = stepsText (below.map .down) ∧
      ofString (outputName (p.relativeTo root) format) = ⟨false, below.map .down⟩ := by
  have hdown : ∀ s ∈ outputSteps root p, ∃ name, Step.down name = s := by
    obtain ⟨ups, names, hsteps, hups⟩ := hp.normal
    intro s hs
    have hmem := outputSteps_subset root p hs
    rw [hsteps, hups hp.absolute, List.replicate_zero, List.nil_append, List.mem_map] at hmem
    obtain ⟨name, -, hname⟩ := hmem
    exact ⟨name, hname⟩
  have hreadable := hp.readable_outputSteps root
  obtain ⟨names, hnames⟩ : outputSteps root p ∈ Set.range (List.map Step.down) := by
    rw [Set.range_list_map]
    exact hdown
  obtain ⟨below, hbelow, hread⟩ : ∃ below : List String,
      stepsText (names.map .down) ++ ("." ++ format.ending) = stepsText (below.map .down) ∧
        ∀ s ∈ below.map Step.down, Readable s := by
    rw [← hnames] at hreadable
    rcases names.eq_nil_or_concat with rfl | ⟨front, last, rfl⟩
    · refine ⟨["" ++ "." ++ format.ending], stepsText_concat [] "" ("." ++ format.ending), ?_⟩
      simpa using @readable_append_ending "" format (by simp)
    · rw [List.concat_eq_append, List.map_append, List.forall_mem_append] at hreadable
      have hlast : '/' ∉ last.toList := (hreadable.2 (.down last) List.mem_cons_self).no_slash
      refine ⟨front ++ [last ++ "." ++ format.ending], ?_, ?_⟩
      · rw [List.concat_eq_append, List.map_append, List.map_append, String.append_assoc]
        exact stepsText_concat _ _ _
      · rw [List.map_append, List.forall_mem_append]
        exact ⟨hreadable.1, by simpa using readable_append_ending format hlast⟩
  rw [outputName_relativeTo hp hroot habsolute, ← hnames, String.append_assoc, hbelow]
  exact ⟨below, rfl, ofString_stepsText hread⟩

end SourcePath

/-- The generator that writes a format. -/
def OutputFormat.generator : OutputFormat → Generator
  | json => .json
  | yaml => .yaml

theorem OutputFormat.generator_inj {format format' : OutputFormat}
    (h : format.generator = format'.generator) : format = format' := by
  cases format <;> cases format' <;> first | rfl | cases h

namespace Folder

variable {f : Folder} {path p root : SourcePath}

/-- Files have names that a text can hold. -/
def WellFormed (f : Folder) : Prop :=
  ∀ entry ∈ f.files, entry.1 ≠ [] ∧ ∀ name ∈ entry.1, Readable (.down name)

instance (s : Step) : Decidable (Readable s) :=
  decidable_of_iff (s.text ≠ "" ∧ '/' ∉ s.text.toList ∧ Step.ofPart s.text = s)
    ⟨fun h => ⟨h.1, h.2.1, h.2.2⟩, fun h => ⟨h.text_ne, h.no_slash, h.ofPart_text⟩⟩

instance (f : Folder) : Decidable f.WellFormed :=
  inferInstanceAs (Decidable (∀ entry ∈ f.files, _ ∧ ∀ name ∈ entry.1, _))

theorem isNormal_ofNames (names : List String) : (SourcePath.ofNames names).IsNormal :=
  ⟨0, names, rfl, fun _ => rfl⟩

/-- A path that leads to a file has the path of that file as its canonical path. -/
theorem WellFormed.isFilePath_of_resolve? (hf : f.WellFormed)
    (h : f.sources.resolve? path = some p) : p.IsFilePath := by
  have haddressing : f.sources.addressing = .walked f.cwd f.directories := rfl
  unfold Sources.resolve? at h
  rw [haddressing] at h
  dsimp only at h
  split at h
  case h_2 => cases h
  case h_1 names _ =>
    obtain ⟨hsome, hp⟩ := Option.ite_none_right_eq_some.1 h
    obtain rfl := Option.some.inj hp
    obtain ⟨contents, hcontents⟩ := Option.isSome_iff_exists.1 hsome
    obtain ⟨entry, hentry, hnames⟩ := List.mem_map.1 (mem_keys_of_lookup hcontents)
    obtain ⟨file, hfile, rfl⟩ := List.mem_map.1 hentry
    obtain rfl : file.1 = names :=
      List.map_injective_iff.2 (fun _ _ h => Step.down.inj h) (SourcePath.mk.inj hnames).2
    obtain ⟨hne, hreadable⟩ := hf file hfile
    exact ⟨rfl, isNormal_ofNames _, by simpa [SourcePath.ofNames] using hreadable,
      by simpa [SourcePath.ofNames] using hne⟩

theorem exists_names_of_canonical (h : f.canonical path = .ok root) :
    ∃ names, root = .ofNames names := by
  unfold canonical at h
  cases hlocate : f.locate path with
  | error e => simp [hlocate, bind, Except.bind] at h
  | ok names =>
    simp only [hlocate, bind, Except.bind] at h
    split at h
    · exact ⟨names, (Except.ok.inj h).symm⟩
    · cases h

end Folder

namespace Invocation

open Workspace

variable {f : Folder} {ws : Workspace} {settings : CommandLine} {typemap : Typemap}
  {modules : List (String × Module)} {files : List String} {m : Module} {c c' : Console}
  {outputDir name text : String} {format : OutputFormat} {jobs : List (Module × Generator)}
  {document : Document} {host : Host}

/-! ## Compiled inputs -/

/-- The modules of the inputs are those kept for their files at the end. -/
theorem exists_built_of_compileAll (hlinked : Linked ws.built) (hlabelled : Labelled ws ws.built)
    (h : compileAll ws files = .ok modules) :
    ∃ built, Linked built ∧ Labelled ws built ∧ Extends ws.built built ∧
      ∀ e ∈ modules, ∃ p, ws.sources.resolve? (.ofString e.1) = some p ∧
        built.lookup p = some e.2 := by
  induction files generalizing ws modules with
  | nil =>
    obtain rfl := Except.ok.inj h
    exact ⟨ws.built, hlinked, hlabelled, .refl _, List.forall_mem_nil _⟩
  | cons file rest ih =>
    cases hcompile : ws.compile file with
    | mk result after =>
      cases result with
      | error fault => simp [compileAll, hcompile] at h
      | ok m =>
        simp only [compileAll, hcompile] at h
        obtain ⟨others, hothers, hmodules⟩ := Except.bind_eq_ok.1 h
        obtain rfl := Except.pure_eq_ok.1 hmodules
        obtain ⟨root, hroot⟩ : ∃ root, ws.sources.resolve? (.ofString file) = some root := by
          cases hresolve : ws.sources.resolve? (.ofString file) with
          | none =>
            rw [compile_of_resolve?_eq_none hresolve] at hcompile
            cases hcompile
          | some root => exact ⟨root, rfl⟩
        have hkept := ((kept_load_and_loadImports ws).1 [] ws.built root hlinked
          (List.forall_mem_nil _)).kept
        have hlookup := lookup_compile hlinked hroot (congrArg Prod.fst hcompile)
        rw [compile_of_resolve?_eq_some hroot] at hcompile hlookup
        obtain ⟨-, rfl⟩ := Prod.mk.inj hcompile
        obtain ⟨built, hlinked', hlabelled', hextends, hrest⟩ :=
          ih hkept.linked (hlabelled.load [] root) hothers
        -- What this compilation kept, the compilations of the other files leave in place.
        refine ⟨built, hlinked', hlabelled', hkept.extend.trans hextends, ?_⟩
        exact List.forall_mem_cons.2 ⟨⟨root, hroot, hextends _ _ hlookup⟩, hrest⟩

/-- The workspace in which a run compiles its inputs. -/
def start (f : Folder) (settings : CommandLine) (root : SourcePath) : Workspace where
  sources := f.sources
  searchDirs := settings.importDirs.map .ofString
  sourceRoot := some root

theorem exists_root_of_prepare (h : prepare f settings = .ok (typemap, modules)) :
    ∃ root, f.canonical (.ofString settings.depth) = .ok root ∧
      compileAll (start f settings root) settings.files = .ok modules := by
  unfold prepare at h
  obtain ⟨typemap', -, h⟩ := Except.bind_eq_ok.1 h
  cases hcanonical : f.canonical (.ofString settings.depth) with
  | error fault =>
    simp [hcanonical, bind, Except.bind, throw, throwThe, MonadExceptOf.throw] at h
  | ok root =>
    simp only [hcanonical, pure_bind] at h
    obtain ⟨modules', hmodules, h⟩ := Except.bind_eq_ok.1 h
    obtain ⟨-, rfl⟩ := Prod.mk.inj (Except.pure_eq_ok.1 h)
    exact ⟨root, rfl, hmodules⟩

/-- What is known of the inputs of a run when all have compiled. -/
structure Compiled (f : Folder) (root : SourcePath) (modules : List (String × Module)) : Prop where
  normal : root.IsNormal
  absolute : root.absolute = true
  leads : ∀ e ∈ modules, ∃ p, f.sources.resolve? (.ofString e.1) = some p
  path : ∀ e ∈ modules, ∀ p, f.sources.resolve? (.ofString e.1) = some p →
    p.IsFilePath ∧ e.2.path = p.relativeTo root
  same : ∀ e ∈ modules, ∀ e' ∈ modules,
    f.sources.resolve? (.ofString e.1) = f.sources.resolve? (.ofString e'.1) → e.2 = e'.2
  document : ∀ e ∈ modules, ∀ typemap, ∃ document, e.2.emitterDocument typemap = .ok document

theorem exists_emitterDocument (h : ∀ s ∈ m.layoutStructs, Packs s) (typemap : Typemap) :
    ∃ document, m.emitterDocument typemap = .ok document := by
  obtain ⟨layouts, hlayouts⟩ : ∃ layouts, m.layouts = .ok layouts := by
    refine List.exists_mapM fun s hs => ?_
    obtain ⟨layout, -, hlayout, -⟩ := h s hs
    exact ⟨layout, hlayout⟩
  rw [Module.emitterDocument, hlayouts]
  exact ⟨_, rfl⟩

theorem compiled_of_prepare (hf : f.WellFormed)
    (h : prepare f settings = .ok (typemap, modules)) :
    ∃ root, f.canonical (.ofString settings.depth) = .ok root ∧ Compiled f root modules := by
  obtain ⟨root, hcanonical, hall⟩ := exists_root_of_prepare h
  have hroot : root.IsNormal ∧ root.absolute = true := by
    obtain ⟨names, rfl⟩ := Folder.exists_names_of_canonical hcanonical
    exact ⟨Folder.isNormal_ofNames names, rfl⟩
  have hlinked : Linked (start f settings root).built := .nil
  have hlabelled : Labelled (start f settings root) (start f settings root).built :=
    List.forall_mem_nil _
  obtain ⟨built, hlinked, hlabelled, -, hbuilt⟩ :=
    exists_built_of_compileAll hlinked hlabelled hall
  have hlookup : ∀ e ∈ modules, ∀ p, f.sources.resolve? (.ofString e.1) = some p →
      built.lookup p = some e.2 := by
    intro e he p hp
    obtain ⟨p', hp', hm⟩ := hbuilt e he
    obtain rfl := Option.some.inj (hp.symm.trans hp')
    exact hm
  refine ⟨root, hcanonical, hroot.1, hroot.2, ?_, ?_, ?_, ?_⟩
  · intro e he
    obtain ⟨p, hp, -⟩ := hbuilt e he
    exact ⟨p, hp⟩
  · intro e he p hp
    refine ⟨hf.isFilePath_of_resolve? hp, (hlabelled.path_of_lookup (hlookup e he p hp)).trans ?_⟩
    exact congrArg p.relativeTo hroot.1.normalize_eq
  · intro e he e' he' heq
    obtain ⟨p, hp, hm⟩ := hbuilt e he
    exact Option.some.inj (hm.symm.trans (hlookup e' he' p (heq ▸ hp)))
  · intro e he typemap
    obtain ⟨p, -, hm⟩ := hbuilt e he
    exact exists_emitterDocument (hlinked.packs_of_lookup hm) typemap

/-- The name is read as steps down. -/
def NamesFile (name : String) : Prop :=
  ∃ below : List String, name = stepsText (below.map .down) ∧
    ofString name = ⟨false, below.map .down⟩

section

variable {e e' : String × Module} {format' : OutputFormat} {root p p' : SourcePath}

theorem Compiled.namesFile (h : Compiled f root modules) (he : e ∈ modules)
    (format : OutputFormat) : NamesFile (outputName e.2.path format) := by
  obtain ⟨p, hp⟩ := h.leads e he
  obtain ⟨hfile, hpath⟩ := h.path e he p hp
  rw [hpath]
  exact exists_ofString_outputName hfile h.normal h.absolute format

theorem Compiled.outputName_eq_iff (h : Compiled f root modules) (he : e ∈ modules)
    (he' : e' ∈ modules)
    (hp : f.sources.resolve? (.ofString e.1) = some p)
    (hp' : f.sources.resolve? (.ofString e'.1) = some p') :
    outputName e.2.path format = outputName e'.2.path format' ↔
      format = format' ∧ (p = p' ∨ Mirrors root p p' ∨ Mirrors root p' p) := by
  obtain ⟨hfile, hpath⟩ := h.path e he p hp
  obtain ⟨hfile', hpath'⟩ := h.path e' he' p' hp'
  rw [hpath, hpath', outputName_relativeTo hfile h.normal h.absolute,
    outputName_relativeTo hfile' h.normal h.absolute, ← outputSteps_eq_iff hfile hfile']
  constructor
  · intro heq
    obtain ⟨htext, hformat⟩ := append_ending_inj heq
    exact ⟨hformat, stepsText_inj (hfile.readable_outputSteps root)
      (hfile'.readable_outputSteps root) htext⟩
  · rintro ⟨rfl, hsteps⟩
    rw [hsteps]

end

/-! ## Running the generators -/

theorem generate_format (format : OutputFormat) (h : m.emitterDocument typemap = .ok document) :
    generate host format.generator typemap outputDir m c =
      writeDocument format m.path outputDir document c := by
  cases format <;> simp only [generate, h, OutputFormat.generator]

theorem folder_of_writeDocument {modulePath : String}
    (h : writeDocument format modulePath outputDir document c = (.ok (), c')) :
    c.folder.writeBelow (.ofString outputDir) (outputName modulePath format)
      (format.render document) = .ok c'.folder := by
  unfold writeDocument at h
  split at h
  · cases h
  · next folder hwrite =>
    obtain ⟨-, rfl⟩ := Prod.mk.inj h
    exact hwrite

theorem writeDocument_of_writeBelow {folder : Folder} {modulePath : String}
    (h : c.folder.writeBelow (.ofString outputDir) (outputName modulePath format)
      (format.render document) = .ok folder) :
    writeDocument format modulePath outputDir document c = (.ok (), { c with folder }) := by
  unfold writeDocument
  rw [h]

theorem writeDocument_of_error {access : AccessFault} {modulePath : String}
    (h : c.folder.writeBelow (.ofString outputDir) (outputName modulePath format)
      (format.render document) = .error access) :
    writeDocument format modulePath outputDir document c =
      (.error (.unusable outputDir access), c) := by
  unfold writeDocument
  rw [h]

theorem unusable_of_writeDocument {fault : RunFault} {modulePath : String}
    (h : writeDocument format modulePath outputDir document c = (.error fault, c')) :
    ∃ access, fault = .unusable outputDir access := by
  unfold writeDocument at h
  split at h
  · next access _ => exact ⟨access, (Except.error.inj (Prod.mk.inj h).1).symm⟩
  · cases h

/-- A job that is done has written a document. -/
theorem writeBelow_of_generate
    (h : generate host format.generator typemap outputDir m c = (.ok (), c')) :
    ∃ document, m.emitterDocument typemap = .ok document ∧
      c.folder.writeBelow (.ofString outputDir) (outputName m.path format)
        (format.render document) = .ok c'.folder := by
  cases hdocument : m.emitterDocument typemap with
  | error fault => simp [generate, hdocument] at h
  | ok document =>
    rw [generate_format format hdocument] at h
    exact ⟨document, rfl, folder_of_writeDocument h⟩

/-- A job that writes to another name leaves what a name holds. -/
theorem readText_generate_of_ne
    (h : generate host format.generator typemap outputDir m c = (.ok (), c'))
    (hwritten : NamesFile (outputName m.path format)) (hname : NamesFile name)
    (hne : outputName m.path format ≠ name)
    (hread : c.folder.readText ((ofString outputDir).join (ofString name)) = .ok text) :
    c'.folder.readText ((ofString outputDir).join (ofString name)) = .ok text := by
  obtain ⟨document, -, hwrite⟩ := writeBelow_of_generate h
  obtain ⟨below, htext, hsteps⟩ := hwritten
  obtain ⟨below', htext', hsteps'⟩ := hname
  refine Folder.readText_writeBelow_of_ne hwrite hsteps hsteps' ?_ hread
  rintro rfl
  exact hne (htext.trans htext'.symm)

/-- The jobs write documents to names below the output directory. -/
def Writes (jobs : List (Module × Generator)) : Prop :=
  ∀ job ∈ jobs, ∃ format : OutputFormat, job.2 = format.generator ∧
    NamesFile (outputName job.1.path format)

/-- If all the jobs that write to a name write one text, the name holds that text at the end,
provided that it held the text before or there is such a job. -/
theorem readText_generateAll (hjobs : Writes jobs) (hname : NamesFile name)
    (hsame : ∀ m format, (m, format.generator) ∈ jobs → outputName m.path format = name →
      ∀ document, m.emitterDocument typemap = .ok document → format.render document = text)
    (hstart : c.folder.readText ((ofString outputDir).join (ofString name)) = .ok text ∨
      ∃ m format, (m, format.generator) ∈ jobs ∧ outputName m.path format = name)
    (h : generateAll host typemap outputDir c jobs = (.ok (), c')) :
    c'.folder.readText ((ofString outputDir).join (ofString name)) = .ok text := by
  -- At every job the name holds the text already, or a job that writes it is still to come.
  induction jobs generalizing c with
  | nil =>
    obtain ⟨-, rfl⟩ := Prod.mk.inj h
    exact hstart.resolve_right (by simp)
  | cons job rest ih =>
    obtain ⟨m, g⟩ := job
    obtain ⟨⟨format, hformat, hwritten⟩, hrest⟩ := List.forall_mem_cons.1 hjobs
    obtain rfl : g = format.generator := hformat
    simp only [generateAll] at h
    split at h
    · cases h
    · next c₁ hjob =>
      refine ih hrest (fun m format hmem => hsame m format (List.mem_cons_of_mem _ hmem)) ?_ h
      by_cases hhere : outputName m.path format = name
      · obtain ⟨document, hdocument, hwrite⟩ := writeBelow_of_generate hjob
        have hread := Folder.readText_writeBelow hwrite
        rw [hhere, hsame m format List.mem_cons_self hhere document hdocument] at hread
        exact .inl hread
      · rcases hstart with hread | ⟨m', format', hmem, hthere⟩
        · exact .inl (readText_generate_of_ne hjob hwritten hname hhere hread)
        · refine .inr ⟨m', format', (List.mem_cons.1 hmem).resolve_left fun heq => ?_, hthere⟩
          obtain ⟨rfl, hgenerator⟩ := Prod.mk.inj heq
          obtain rfl := OutputFormat.generator_inj hgenerator
          exact hhere hthere

theorem generateAll_cons_of_writeBelow {folder : Folder}
    (hdocument : m.emitterDocument typemap = .ok document)
    (hwrite : c.folder.writeBelow (.ofString outputDir) (outputName m.path format)
      (format.render document) = .ok folder) :
    generateAll host typemap outputDir c ((m, format.generator) :: jobs) =
      generateAll host typemap outputDir { c with folder } jobs := by
  rw [generateAll, generate_format format hdocument, writeDocument_of_writeBelow hwrite]

theorem generateAll_cons_of_error {access : AccessFault}
    (hdocument : m.emitterDocument typemap = .ok document)
    (hwrite : c.folder.writeBelow (.ofString outputDir) (outputName m.path format)
      (format.render document) = .error access) :
    generateAll host typemap outputDir c ((m, format.generator) :: jobs) =
      (.error (.unusable outputDir access), c) := by
  rw [generateAll, generate_format format hdocument, writeDocument_of_error hwrite]

/-- Jobs done one after another are done in two parts. -/
theorem exists_generateAll_of_append {rest : List (Module × Generator)}
    (h : generateAll host typemap outputDir c (jobs ++ rest) = (.ok (), c')) :
    ∃ c₁, generateAll host typemap outputDir c₁ rest = (.ok (), c') := by
  induction jobs generalizing c with
  | nil => exact ⟨c, h⟩
  | cons job jobs ih =>
    simp only [List.cons_append, generateAll] at h
    split at h
    · cases h
    · exact ih h

/-- Jobs that have their documents fail only where the output directory cannot be used. -/
theorem unusable_of_generateAll {fault : RunFault}
    (hjobs : ∀ job ∈ jobs, (∃ format : OutputFormat, job.2 = format.generator) ∧
      ∃ document, job.1.emitterDocument typemap = .ok document)
    (h : generateAll host typemap outputDir c jobs = (.error fault, c')) :
    ∃ access, fault = .unusable outputDir access := by
  induction jobs generalizing c with
  | nil => cases h
  | cons job rest ih =>
    obtain ⟨m, g⟩ := job
    obtain ⟨⟨⟨format, hformat⟩, document, hdocument⟩, hrest⟩ := List.forall_mem_cons.1 hjobs
    obtain rfl : g = format.generator := hformat
    simp only [generateAll] at h
    split at h
    · next fault' c₁ hjob =>
      obtain rfl := Except.error.inj (Prod.mk.inj h).1
      dsimp only at hdocument
      rw [generate_format format hdocument] at hjob
      exact unusable_of_writeDocument hjob
    · exact ih hrest h

/-! ## What the output files hold -/

/-- The jobs of a run. -/
def jobsOf (settings : CommandLine) (modules : List (String × Module)) :
    List (Module × Generator) :=
  modules.flatMap fun e => settings.generators.map fun g => (e.2, g)

theorem mem_jobsOf {job : Module × Generator} :
    job ∈ jobsOf settings modules ↔ ∃ e ∈ modules, e.2 = job.1 ∧ job.2 ∈ settings.generators := by
  obtain ⟨m, g⟩ := job
  simp [jobsOf, and_comm]

/-- A run with compiled inputs that ends well has done its jobs. -/
theorem exists_generateAll_of_perform (h : prepare f settings = .ok (typemap, modules))
    (hperform : perform host f settings = (.ok (), c')) :
    ∃ c, generateAll host typemap settings.outputDir c (jobsOf settings modules) =
      (.ok (), c') := by
  simp only [perform, h] at hperform
  split at hperform
  · cases hperform
  · exact ⟨_, hperform⟩

/-- A run with compiled inputs that prints nothing does its jobs. -/
theorem perform_eq_generateAll (h : prepare f settings = .ok (typemap, modules))
    (hemit : settings.emit = none) :
    perform host f settings =
      generateAll host typemap settings.outputDir { folder := f } (jobsOf settings modules) := by
  simp only [perform, h, hemit]
  rfl

/-- At the end of a run the name of an input's output holds the input's document, unless a later
input mirrors it. -/
theorem Compiled.readText {root p : SourcePath} {before after : List (String × Module)}
    {e : String × Module} (hc : Compiled f root modules)
    (hbuiltin : ∀ g ∈ settings.generators, ∃ format : OutputFormat, g = format.generator)
    (hmodules : modules = before ++ e :: after)
    (hp : f.sources.resolve? (.ofString e.1) = some p)
    (hafter : ∀ e' ∈ after, ∀ p', f.sources.resolve? (.ofString e'.1) = some p' →
      ¬ Mirrors root p p' ∧ ¬ Mirrors root p' p)
    (hformat : format.generator ∈ settings.generators)
    (hdocument : e.2.emitterDocument typemap = .ok document)
    (h : generateAll host typemap outputDir c (jobsOf settings modules) = (.ok (), c')) :
    c'.folder.readText ((ofString outputDir).join (ofString (outputName e.2.path format))) =
      .ok (format.render document) := by
  have hmem : ∀ e' ∈ e :: after, e' ∈ modules := fun e' he' =>
    hmodules ▸ List.mem_append_right before he'
  have he : e ∈ modules := hmem e List.mem_cons_self
  have hjobs :
      jobsOf settings modules = jobsOf settings before ++ jobsOf settings (e :: after) := by
    rw [hmodules, jobsOf, List.flatMap_append]
    rfl
  -- Whatever the jobs of the inputs before have written, the input's own job comes after them.
  obtain ⟨c₁, hrun⟩ := exists_generateAll_of_append (hjobs ▸ h)
  refine readText_generateAll ?_ (hc.namesFile he format) ?_
    (.inr ⟨e.2, format, mem_jobsOf.2 ⟨e, List.mem_cons_self, rfl, hformat⟩, rfl⟩) hrun
  · intro job hjob
    obtain ⟨e', he', hm, hg⟩ := mem_jobsOf.1 hjob
    obtain ⟨format', hformat'⟩ := hbuiltin job.2 hg
    exact ⟨format', hformat', hm ▸ hc.namesFile (hmem e' he') format'⟩
  · intro m' format' hjob hname document' hdocument'
    obtain ⟨e', he', rfl, -⟩ := mem_jobsOf.1 hjob
    obtain ⟨p', hp'⟩ := hc.leads e' (hmem e' he')
    obtain ⟨rfl, hplace⟩ :=
      (hc.outputName_eq_iff (hmem e' he') he hp' hp).1 hname
    have hsame : e'.2 = e.2 := by
      obtain rfl | hlater := List.mem_cons.1 he'
      · rfl
      · obtain rfl : p' = p :=
          hplace.resolve_right (not_or.2 (hafter e' hlater p' hp').symm)
        exact hc.same e' (hmem e' he') e he (hp'.trans hp.symm)
    rw [hsame] at hdocument'
    rw [Except.ok.inj (hdocument'.symm.trans hdocument)]

/-- Once all inputs have compiled, the names of their outputs are relative, and two of them are
equal only for one format and one file, or for files that mirror each other below the root. With the
formats alone as generators, a run can then only fail at the output directory. After a run that ends
well every input that no later one mirrors has its document in its output. -/
theorem outputs_of_compiled_inputs (hf : f.WellFormed)
    (h : prepare f settings = .ok (typemap, modules)) :
    ∃ root, f.canonical (.ofString settings.depth) = .ok root ∧
      (∀ e ∈ modules, ∃ p, f.sources.resolve? (.ofString e.1) = some p) ∧
      (∀ e ∈ modules, ∀ format, NamesFile (outputName e.2.path format)) ∧
      (∀ e ∈ modules, ∀ e' ∈ modules, ∀ p p', f.sources.resolve? (.ofString e.1) = some p →
        f.sources.resolve? (.ofString e'.1) = some p' → ∀ format format',
          outputName e.2.path format = outputName e'.2.path format' ↔
            format = format' ∧ (p = p' ∨ Mirrors root p p' ∨ Mirrors root p' p)) ∧
      ((∀ g ∈ settings.generators, ∃ format : OutputFormat, g = format.generator) → ∀ host : Host,
        (settings.emit = none → ∀ fault c, perform host f settings = (.error fault, c) →
          ∃ access, fault = .unusable settings.outputDir access) ∧
        ∀ c, perform host f settings = (.ok (), c) →
          ∀ before e after, modules = before ++ e :: after →
          ∀ p, f.sources.resolve? (.ofString e.1) = some p →
          (∀ e' ∈ after, ∀ p', f.sources.resolve? (.ofString e'.1) = some p' →
            ¬ Mirrors root p p' ∧ ¬ Mirrors root p' p) →
          ∀ format : OutputFormat, format.generator ∈ settings.generators →
            ∃ document, e.2.emitterDocument typemap = .ok document ∧
              c.folder.readText ((ofString settings.outputDir).join
                (ofString (outputName e.2.path format))) = .ok (format.render document)) := by
  obtain ⟨root, hcanonical, hc⟩ := compiled_of_prepare hf h
  refine ⟨root, hcanonical, hc.leads, fun e he => hc.namesFile he,
    fun e he e' he' p p' hp hp' format format' =>
      hc.outputName_eq_iff he he' hp hp', fun hbuiltin host => ⟨?_, ?_⟩⟩
  · intro hemit fault c hperform
    rw [perform_eq_generateAll h hemit] at hperform
    refine unusable_of_generateAll (fun job hjob => ?_) hperform
    obtain ⟨e, he, hm, hg⟩ := mem_jobsOf.1 hjob
    exact ⟨hbuiltin job.2 hg, hm ▸ hc.document e he typemap⟩
  · intro c hperform before e after hmodules p hp hafter format hformat
    obtain ⟨c₀, hrun⟩ := exists_generateAll_of_perform h hperform
    obtain ⟨document, hdocument⟩ := hc.document e (by simp [hmodules]) typemap
    exact ⟨document, hdocument,
      hc.readText hbuiltin hmodules hp hafter hformat hdocument hrun⟩

/-- Two files, of which one lies below the working directory as the other lies below `/`. -/
def mirrored : Folder where
  cwd := ["w"]
  files := [(["w", "x", "a"], .text "module inner;"), (["x", "a"], .text "module outer;")]
  directories := [[], ["w"], ["w", "x"], ["x"]]

/-- Two files, of which one lies in a directory that has the name of the other's output. -/
def nested : Folder where
  cwd := ["w"]
  files := [(["w", "a"], .text "module a;"), (["w", "a.json", "b"], .text "module b;")]
  directories := [[], ["w"], ["w", "a.json"]]

/-- Documents are asked for in one format. -/
def plain (files : List String) : CommandLine where
  files := files
  depth := "."
  outputDir := "out"
  generators := [.json]
  importDirs := []
  typemaps := []
  emit := none
  logLevel := none

/-- A module without declarations. -/
def bare (name space path : String) : Module where
  name := name
  space := space
  path := path
  attributes := ∅
  imports := []
  structs := []
  interfaces := []
  enums := []
  constants := []
  kinds := ∅

theorem prepare_mirrored : prepare mirrored (plain ["x/a", "/x/a"]) =
    .ok (∅, [("x/a", bare "a" "inner" "x/a"), ("/x/a", bare "a" "outer" "/x/a")]) := by
  with_unfolding_all rfl

theorem prepare_nested : prepare nested (plain ["a", "a.json/b"]) =
    .ok (∅, [("a", bare "a" "a" "a"), ("a.json/b", bare "b" "b" "a.json/b")]) := by
  with_unfolding_all rfl

theorem exists_emitterDocument_bare (name space path : String) :
    ∃ document, (bare name space path).emitterDocument ∅ = .ok document :=
  ⟨_, rfl⟩

theorem resolve?_mirrored :
    mirrored.sources.resolve? (.ofString "x/a") = some (.ofNames ["w", "x", "a"]) ∧
      mirrored.sources.resolve? (.ofString "/x/a") = some (.ofNames ["x", "a"]) := by
  decide +kernel

/-- The run with both files ends well, and leaves the document of the second. -/
theorem exists_perform_mirrored (host : Host) :
    ∃ c document, perform host mirrored (plain ["x/a", "/x/a"]) = (.ok (), c) ∧
      (bare "a" "outer" "/x/a").emitterDocument ∅ = .ok document ∧
      c.folder.readText ((ofString "out").join (ofString (outputName "/x/a" .json))) =
        .ok document.json := by
  have hwrites (text text' : String) :
      ((mirrored.writeBelow (.ofString "out") (outputName "x/a" .json) text >>= fun f =>
        f.writeBelow (.ofString "out") (outputName "/x/a" .json) text').isOk) = true :=
    rfl
  obtain ⟨document, hdocument⟩ := exists_emitterDocument_bare "a" "inner" "x/a"
  obtain ⟨document', hdocument'⟩ := exists_emitterDocument_bare "a" "outer" "/x/a"
  obtain ⟨f', hf'⟩ := Except.exists_of_isOk (hwrites document.json document'.json)
  obtain ⟨f, hf, hf'⟩ := Except.bind_eq_ok.1 hf'
  refine ⟨{ folder := f' }, document', ?_, hdocument', Folder.readText_writeBelow hf'⟩
  calc perform host mirrored (plain ["x/a", "/x/a"])
    _ = generateAll host ∅ "out" { folder := mirrored }
          [(bare "a" "inner" "x/a", OutputFormat.json.generator),
            (bare "a" "outer" "/x/a", OutputFormat.json.generator)] :=
        perform_eq_generateAll prepare_mirrored rfl
    _ = generateAll host ∅ "out" { folder := f }
          [(bare "a" "outer" "/x/a", OutputFormat.json.generator)] :=
        generateAll_cons_of_writeBelow hdocument hf
    _ = (.ok (), { folder := f' }) := generateAll_cons_of_writeBelow hdocument' hf'

/-- Of the two files, the one that is given last has its document in the file of their one name. -/
theorem outputs_of_compiled_inputs_mirrored :
    mirrored.WellFormed ∧
    prepare mirrored (plain ["x/a", "/x/a"]) =
      .ok (∅, [("x/a", bare "a" "inner" "x/a"), ("/x/a", bare "a" "outer" "/x/a")]) ∧
    outputName "x/a" .json = outputName "/x/a" .json ∧
    ∀ host : Host, ∃ c document, perform host mirrored (plain ["x/a", "/x/a"]) = (.ok (), c) ∧
      (bare "a" "outer" "/x/a").emitterDocument ∅ = .ok document ∧
      c.folder.readText ((ofString "out").join (ofString (outputName "/x/a" .json))) =
        .ok document.json := by
  have hfolder : mirrored.WellFormed := by decide
  obtain ⟨root, hcanonical, -, -, hnames, hrun⟩ :=
    outputs_of_compiled_inputs hfolder prepare_mirrored
  have hroot : mirrored.canonical (.ofString ".") = .ok (.ofNames ["w"]) := by
    decide +kernel
  obtain rfl := Except.ok.inj (hcanonical.symm.trans hroot)
  obtain ⟨hinner, houter⟩ := resolve?_mirrored
  have hmirrors : Mirrors (.ofNames ["w"]) (.ofNames ["x", "a"]) (.ofNames ["w", "x", "a"]) :=
    ⟨by decide, rfl⟩
  refine ⟨hfolder, prepare_mirrored, ?_, fun host => ?_⟩
  · exact (hnames _ List.mem_cons_self _ (List.mem_cons_of_mem _ List.mem_cons_self) _ _ hinner
      houter .json .json).2 ⟨rfl, .inr (.inr hmirrors)⟩
  · obtain ⟨c, -, hdone, -⟩ := exists_perform_mirrored host
    obtain ⟨document, hdocument, hread⟩ :=
      (hrun (List.forall_mem_singleton.2 ⟨.json, rfl⟩) host).2 c hdone
        [("x/a", bare "a" "inner" "x/a")] _ [] rfl _ houter (List.forall_mem_nil _) .json
        List.mem_cons_self
    exact ⟨c, document, hdone, hdocument, hread⟩

/-- The run with a file below the name of the other's output fails, and that file has no output. -/
theorem exists_perform_nested (host : Host) :
    ∃ c, perform host nested (plain ["a", "a.json/b"]) =
        (.error (.unusable "out" .alreadyThere), c) ∧
      c.folder.readText ((ofString "out").join (ofString (outputName "a.json/b" .json))) =
        .error .notDirectory := by
  have hfirst (text : String) :
      (nested.writeBelow (.ofString "out") (outputName "a" .json) text).isOk = true :=
    rfl
  have hsecond (text text' : String) :
      (nested.writeBelow (.ofString "out") (outputName "a" .json) text >>= fun f =>
        f.writeBelow (.ofString "out") (outputName "a.json/b" .json) text') =
          .error .alreadyThere :=
    rfl
  have hread (text : String) :
      (nested.writeBelow (.ofString "out") (outputName "a" .json) text >>= fun f =>
        f.readText ((ofString "out").join (ofString (outputName "a.json/b" .json)))) =
          .error .notDirectory :=
    rfl
  obtain ⟨document, hdocument⟩ := exists_emitterDocument_bare "a" "a" "a"
  obtain ⟨document', hdocument'⟩ := exists_emitterDocument_bare "b" "b" "a.json/b"
  obtain ⟨f, hf⟩ := Except.exists_of_isOk (hfirst document.json)
  have hf' := hsecond document.json document'.json
  have hread := hread document.json
  rw [hf] at hf' hread
  refine ⟨{ folder := f }, ?_, hread⟩
  calc perform host nested (plain ["a", "a.json/b"])
    _ = generateAll host ∅ "out" { folder := nested }
          [(bare "a" "a" "a", OutputFormat.json.generator),
            (bare "b" "b" "a.json/b", OutputFormat.json.generator)] :=
        perform_eq_generateAll prepare_nested rfl
    _ = generateAll host ∅ "out" { folder := f }
          [(bare "b" "b" "a.json/b", OutputFormat.json.generator)] :=
        generateAll_cons_of_writeBelow hdocument hf
    _ = (.error (.unusable "out" .alreadyThere), { folder := f }) :=
        generateAll_cons_of_error hdocument' hf'

/-- Files of different paths can have outputs of one name, and then one document is lost. Where the
name of one output is that of a directory around another, the run fails. -/
theorem output_overwritten :
    (∀ host : Host, ∃ c document document', prepare mirrored (plain ["x/a", "/x/a"]) =
        .ok (∅, [("x/a", bare "a" "inner" "x/a"), ("/x/a", bare "a" "outer" "/x/a")]) ∧
      mirrored.sources.resolve? (.ofString "x/a") ≠ mirrored.sources.resolve? (.ofString "/x/a") ∧
      outputName "x/a" .json = outputName "/x/a" .json ∧
      (bare "a" "inner" "x/a").emitterDocument ∅ = .ok document ∧
      (bare "a" "outer" "/x/a").emitterDocument ∅ = .ok document' ∧
      perform host mirrored (plain ["x/a", "/x/a"]) = (.ok (), c) ∧
      c.folder.readText ((ofString "out").join (ofString (outputName "x/a" .json))) =
        .ok document'.json ∧
      document.json ≠ document'.json) ∧
    ∀ host : Host, ∃ c, prepare nested (plain ["a", "a.json/b"]) =
        .ok (∅, [("a", bare "a" "a" "a"), ("a.json/b", bare "b" "b" "a.json/b")]) ∧
      perform host nested (plain ["a", "a.json/b"]) =
        (.error (.unusable "out" .alreadyThere), c) ∧
      c.folder.readText ((ofString "out").join (ofString (outputName "a.json/b" .json))) =
        .error .notDirectory := by
  refine ⟨fun host => ?_, fun host => ?_⟩
  · obtain ⟨c, document', hdone, hdocument', hread⟩ := exists_perform_mirrored host
    have hname : outputName "x/a" .json = outputName "/x/a" .json := by decide
    refine ⟨c, _, document', prepare_mirrored, ?_, hname, rfl, hdocument', hdone, hname ▸ hread, ?_⟩
    · rw [resolve?_mirrored.1, resolve?_mirrored.2]
      decide
    · obtain rfl := Except.ok.inj hdocument'
      decide
  · obtain ⟨c, hfailed, hread⟩ := exists_perform_nested host
    exact ⟨c, prepare_nested, hfailed, hread⟩

end Invocation

end WireSchema
