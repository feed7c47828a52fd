import Mathlib.Data.List.Basic
import WireSchema.Workspace.Sources

/-!
# Normal forms of paths

A normal form has no step `.`, and steps `..` only at its start, if it is relative
(`SourcePath.IsNormal`). `SourcePath.normalize` takes the steps of a path one by one; what it has
taken is normal at every point (`SourcePath.Settled`), and a normal path is taken as it is. So the
steps before a join may be normalized first or not (`SourcePath.normalize_join`). The text of a
normal form is read back as that normal form (`SourcePath.normalize_ofString_text`). Files kept in
memory are found by normal forms, which are therefore their own canonical paths
(`Sources.canonical_of_inMemory`).
-/

namespace WireSchema

namespace SourcePath

variable {absolute : Bool} {trail : List Step} {p q : SourcePath}

/-! ## Taking steps -/

/-- Steps up, then steps down by name; there are no steps up from the root. -/
def IsNormal (p : SourcePath) : Prop :=
  ∃ (ups : Nat) (names : List String),
    p.steps = List.replicate ups .up ++ names.map .down ∧ (p.absolute = true → ups = 0)

/-- What is taken of a normal path, latest step first. -/
def Settled (absolute : Bool) (trail : List Step) : Prop :=
  ∃ (ups : Nat) (names : List String),
    trail = names.map .down ++ List.replicate ups .up ∧ (absolute = true → ups = 0)

theorem settled_nil : Settled absolute [] :=
  ⟨0, [], rfl, fun _ => rfl⟩

/-- Each step leaves a place that is reached by a normal path. -/
theorem Settled.takeStep (h : Settled absolute trail) (step : Step) :
    Settled absolute (takeStep absolute trail step) := by
  obtain ⟨ups, names, rfl, hroot⟩ := h
  cases step with
  | here => exact ⟨ups, names, rfl, hroot⟩
  | down name => exact ⟨ups, name :: names, rfl, hroot⟩
  | up =>
    cases names with
    | cons name names => exact ⟨ups, names, rfl, hroot⟩
    | nil =>
      cases absolute with
      | true =>
        obtain rfl : ups = 0 := hroot rfl
        exact settled_nil
      | false =>
        refine ⟨ups + 1, [], ?_, by simp⟩
        cases ups <;> rfl

theorem Settled.foldl (h : Settled absolute trail) (steps : List Step) :
    Settled absolute (steps.foldl (SourcePath.takeStep absolute) trail) := by
  induction steps generalizing trail with
  | nil => exact h
  | cons step rest ih => exact ih (h.takeStep step)

theorem isNormal_normalize (p : SourcePath) : p.normalize.IsNormal := by
  have hstart : Settled p.absolute [] := settled_nil
  obtain ⟨ups, names, htrail, hroot⟩ := hstart.foldl p.steps
  refine ⟨ups, names.reverse, ?_, hroot⟩
  rw [normalize, htrail, List.reverse_append, List.reverse_replicate, List.map_reverse]

theorem foldl_takeStep_down (names : List String) :
    (names.map Step.down).foldl (takeStep absolute) trail =
      (names.map Step.down).reverse ++ trail := by
  induction names generalizing trail with
  | nil => rfl
  | cons name names ih =>
    rw [List.map_cons, List.foldl_cons, ih, List.reverse_cons, List.append_assoc]
    rfl

theorem foldl_takeStep_up (ups n : Nat) :
    (List.replicate ups Step.up).foldl (takeStep false) (List.replicate n .up) =
      List.replicate (n + ups) .up := by
  induction ups generalizing n with
  | zero => rfl
  | succ ups ih =>
    have hstep : takeStep false (List.replicate n .up) .up = List.replicate (n + 1) .up := by
      cases n <;> rfl
    rw [List.replicate_succ, List.foldl_cons, hstep, ih, Nat.add_right_comm, Nat.add_assoc]

/-- The steps of a normal path are all kept. -/
theorem IsNormal.foldl_takeStep (h : p.IsNormal) :
    p.steps.foldl (takeStep p.absolute) [] = p.steps.reverse := by
  obtain ⟨ups, names, hsteps, hroot⟩ := h
  have hups : (List.replicate ups Step.up).foldl (takeStep p.absolute) [] =
      List.replicate ups .up := by
    cases habsolute : p.absolute with
    | true =>
      rw [hroot habsolute]
      rfl
    | false => simpa using foldl_takeStep_up ups 0
  rw [hsteps, List.foldl_append, hups, foldl_takeStep_down, List.reverse_append,
    List.reverse_replicate]

theorem IsNormal.normalize_eq (h : p.IsNormal) : p.normalize = p := by
  rw [normalize, h.foldl_takeStep, List.reverse_reverse]

/-- What comes after a join is taken from the same place, whether the path before is normalized
first or not. -/
theorem normalize_join (p q : SourcePath) :
    (p.normalize.join q).normalize = (p.join q).normalize := by
  unfold join
  by_cases hq : q.absolute = true
  · rw [if_pos hq, if_pos hq]
  · have htaken : p.normalize.steps.foldl (takeStep p.absolute) [] =
        p.steps.foldl (takeStep p.absolute) [] :=
      (isNormal_normalize p).foldl_takeStep.trans (List.reverse_reverse _)
    rw [if_neg hq, if_neg hq]
    simp only [normalize, List.foldl_append] at htaken ⊢
    rw [htaken]

/-! ## Paths and their texts -/

/-- A step that can be read from its text. -/
structure Readable (step : Step) : Prop where
  text_ne : step.text ≠ ""
  no_slash : '/' ∉ step.text.toList
  ofPart_text : Step.ofPart step.text = step

theorem text_ofPart (part : String) : (Step.ofPart part).text = part := by
  unfold Step.ofPart
  split <;> rfl

theorem readable_ofPart {part : String} (hne : part ≠ "") (hslash : '/' ∉ part.toList) :
    Readable (Step.ofPart part) :=
  ⟨by rwa [text_ofPart], by rwa [text_ofPart], by rw [text_ofPart]⟩

theorem splitSlashes_eq_splitOn (cs : List Char) : splitSlashes cs = cs.splitOn '/' := by
  fun_induction splitSlashes cs with
  | case1 => rfl
  | case2 rest ih =>
    rw [ih, List.splitOn, List.splitOn, List.splitOnP_cons_eq_if_modifyHead]
    rfl
  | case3 c rest hc part parts hparts ih =>
    rw [List.splitOn, List.splitOnP_cons_eq_if_modifyHead, if_neg (by simpa using hc),
      ← List.splitOn, ← ih, hparts]
    rfl
  | case4 c rest hc hparts ih =>
    rw [hparts] at ih
    exact absurd ih.symm (List.splitOnP_ne_nil _ _)

theorem no_slash_of_mem_splitSlashes {cs part : List Char} (h : part ∈ splitSlashes cs) :
    '/' ∉ part := by
  fun_induction splitSlashes cs generalizing part with
  | case1 => simp_all
  | case2 rest ih =>
    rcases List.mem_cons.1 h with rfl | h
    · simp
    · exact ih h
  | case3 c rest hc head parts hparts ih =>
    rw [hparts] at ih
    rcases List.mem_cons.1 h with rfl | h
    · rw [List.mem_cons, not_or]
      exact ⟨fun heq => hc heq.symm, ih List.mem_cons_self⟩
    · exact ih (List.mem_cons_of_mem _ h)
  | case4 c rest hc =>
    obtain rfl := List.mem_singleton.1 h
    simpa [eq_comm] using hc

theorem mem_stepsOfParts {parts : List (List Char)} {step : Step} (h : step ∈ stepsOfParts parts) :
    step = .here ∨ ∃ part ∈ parts, part ≠ [] ∧ step = Step.ofPart (String.ofList part) := by
  fun_induction stepsOfParts parts with
  | case1 => simp at h
  | case2 => exact .inl (by simpa using h)
  | case3 parts _ ih =>
    obtain hstep | ⟨part, hpart, hne, hstep⟩ := ih h
    · exact .inl hstep
    · exact .inr ⟨part, List.mem_cons_of_mem _ hpart, hne, hstep⟩
  | case4 part parts _ hne ih =>
    rcases List.mem_cons.1 h with rfl | h
    · exact .inr ⟨part, List.mem_cons_self, hne, rfl⟩
    · obtain hstep | ⟨part', hpart, hne', hstep⟩ := ih h
      · exact .inl hstep
      · exact .inr ⟨part', List.mem_cons_of_mem _ hpart, hne', hstep⟩

theorem readable_of_mem_stepsOfParts {cs : List Char} {step : Step}
    (h : step ∈ stepsOfParts (splitSlashes cs)) : Readable step := by
  obtain rfl | ⟨part, hpart, hne, rfl⟩ := mem_stepsOfParts h
  · exact ⟨by decide, by decide, rfl⟩
  · refine readable_ofPart (fun hempty => hne ?_) ?_
    · simpa using congrArg String.toList hempty
    · rw [String.toList_ofList]
      exact no_slash_of_mem_splitSlashes hpart

theorem readable_of_mem_ofString {text : String} {step : Step}
    (h : step ∈ (ofString text).steps) : Readable step := by
  unfold ofString at h
  split at h
  · simp at h
  · exact readable_of_mem_stepsOfParts h
  · exact readable_of_mem_stepsOfParts h

theorem mem_takeStep {step s : Step} (h : s ∈ takeStep absolute trail step) :
    s ∈ trail ∨ s = step := by
  unfold takeStep at h
  split at h
  · exact .inl h
  · exact (List.mem_cons.1 h).symm
  · split at h
    · exact .inl (List.mem_cons_of_mem _ h)
    · split at h
      · exact .inl h
      · exact (List.mem_cons.1 h).symm

theorem mem_foldl_takeStep {steps : List Step} {s : Step}
    (h : s ∈ steps.foldl (takeStep absolute) trail) : s ∈ trail ∨ s ∈ steps := by
  induction steps generalizing trail with
  | nil => exact .inl h
  | cons step rest ih =>
    rcases ih h with h | h
    · rcases mem_takeStep h with h | rfl
      · exact .inl h
      · exact .inr List.mem_cons_self
    · exact .inr (List.mem_cons_of_mem _ h)

theorem mem_of_mem_normalize {s : Step} (h : s ∈ p.normalize.steps) : s ∈ p.steps := by
  rw [normalize, List.mem_reverse] at h
  exact (mem_foldl_takeStep h).resolve_left (by simp)

/-! ### Reading the text of a path -/

theorem stepsOfParts_of_readable {steps : List Step} (h : ∀ s ∈ steps, Readable s) :
    stepsOfParts (steps.map fun s => s.text.toList) = steps := by
  induction steps with
  | nil => rfl
  | cons s rest ih =>
    obtain ⟨hs, hrest⟩ := List.forall_mem_cons.1 h
    have hne : s.text.toList ≠ [] := by simpa using hs.text_ne
    rw [List.map_cons, stepsOfParts, ih hrest, String.ofList_toList, hs.ofPart_text]
    all_goals simp [hne]

theorem splitSlashes_stepsText {steps : List Step} (hne : steps ≠ [])
    (h : ∀ s ∈ steps, Readable s) :
    splitSlashes (stepsText steps).toList = steps.map fun s => s.text.toList := by
  rw [splitSlashes_eq_splitOn, stepsText, String.toList_intercalate, List.map_map]
  refine List.splitOn_intercalate '/' ?_ (by simpa using hne)
  simpa using fun s hs => (h s hs).no_slash

/-- The text of a path with steps is read back as that path. -/
theorem ofString_text (hne : p.steps ≠ []) (h : ∀ s ∈ p.steps, Readable s) :
    ofString p.text = p := by
  obtain ⟨absolute, steps⟩ := p
  have hparts := splitSlashes_stepsText hne h
  have hsteps := stepsOfParts_of_readable h
  rw [← hparts] at hsteps
  cases absolute with
  | true =>
    have htext : (text ⟨true, steps⟩).toList = '/' :: (stepsText steps).toList :=
      String.toList_append
    simp only [ofString, htext, hsteps]
  | false =>
    -- The text starts with the first step, so neither is it empty nor does it start with a slash.
    have hfirst : [] ∉ splitSlashes (stepsText steps).toList := by
      rw [hparts, List.mem_map]
      rintro ⟨s, hs, hempty⟩
      exact (h s hs).text_ne (String.toList_eq_nil_iff.1 hempty)
    have htext : (text ⟨false, steps⟩).toList = (stepsText steps).toList := rfl
    rw [ofString, htext]
    split
    · next hnil => exact absurd (by simp [hnil, splitSlashes]) hfirst
    · next rest hslash => exact absurd (by simp [hslash, splitSlashes]) hfirst
    · rw [hsteps]

/-- The text of a path is read back as a path with the same normal form. -/
theorem normalize_ofString_text (h : ∀ s ∈ p.steps, Readable s) :
    (ofString p.text).normalize = p.normalize := by
  by_cases hne : p.steps = []
  · obtain ⟨absolute, steps⟩ := p
    subst hne
    cases absolute <;> rfl
  · rw [ofString_text hne h]

end SourcePath

/-! ## Files kept in memory -/

namespace Sources

open SourcePath

variable {s : Sources} {path canonical : SourcePath}

/-- Texts that are addressed lexically. -/
structure InMemory (s : Sources) : Prop where
  lexical : s.addressing = .lexical
  texts : ∀ file ∈ s.files, ∃ text, file.2 = .text text

theorem inMemory_empty : InMemory {} :=
  ⟨rfl, by simp⟩

theorem InMemory.add (h : s.InMemory) (written text : String) : (s.add written text).InMemory := by
  refine ⟨h.lexical, List.forall_mem_cons.2 ⟨⟨text, rfl⟩, fun file hfile => ?_⟩⟩
  exact h.texts file (List.mem_of_mem_filter hfile)

theorem InMemory.resolve?_eq_some_iff (h : s.InMemory) :
    s.resolve? path = some canonical ↔
      canonical = path.normalize ∧ ∃ text, s.files.lookup canonical = some (.text text) := by
  simp only [resolve?, h.lexical]
  constructor
  · intro hresolve
    split at hresolve
    · next hsome =>
      obtain rfl := Option.some.inj hresolve
      obtain ⟨file, hfile⟩ := Option.isSome_iff_exists.1 hsome
      obtain ⟨before, after, hfiles, -⟩ := List.lookup_eq_some_iff.1 hfile
      obtain ⟨text, rfl⟩ := h.texts (path.normalize, file) (by simp [hfiles])
      exact ⟨rfl, text, hfile⟩
    · cases hresolve
  · rintro ⟨rfl, text, hfile⟩
    rw [if_pos (by simp [hfile])]

theorem InMemory.resolve?_congr (h : s.InMemory) {path' : SourcePath}
    (hsame : path.normalize = path'.normalize) : s.resolve? path = s.resolve? path' := by
  simp only [resolve?, h.lexical, hsame]

theorem read_eq_ok {written text : String}
    (h : s.files.lookup (SourcePath.ofString written).normalize = some (.text text)) :
    s.read written = .ok text := by
  rw [read, h]

/-- Lexical normal forms are canonical paths. A normal form has no step `.`, and steps `..` only at
the start of a relative path; it is its own normal form, also when it is written and read again, and
takes the place of the path before a join. In files kept in memory, the canonical path of a file
leads to that file, and paths with one normal form lead to one canonical path. -/
theorem canonical_of_inMemory (s : Sources) (h : s.InMemory) :
    (∀ p q : SourcePath, p.normalize.normalize = p.normalize ∧
      (p.normalize.join q).normalize = (p.join q).normalize ∧
      p.normalize.IsNormal ∧ p.normalize.absolute = p.absolute) ∧
    (∀ written, (ofString (ofString written).normalize.text).normalize =
      (ofString written).normalize) ∧
    (∀ path canonical, s.resolve? path = some canonical →
      s.resolve? canonical = some canonical) ∧
    (∀ written canonical, s.resolve? (ofString written) = some canonical →
      ∃ text, s.read written = .ok text ∧ s.read canonical.text = .ok text) ∧
    ∀ path path' : SourcePath, path.normalize = path'.normalize →
      s.resolve? path = s.resolve? path' := by
  have htext : ∀ written, (ofString (ofString written).normalize.text).normalize =
      (ofString written).normalize := by
    intro written
    have hreadable : ∀ step ∈ (ofString written).normalize.steps, Readable step :=
      fun _ hstep => readable_of_mem_ofString (mem_of_mem_normalize hstep)
    rw [normalize_ofString_text hreadable, (isNormal_normalize _).normalize_eq]
  refine ⟨fun p q => ?_, htext, fun path canonical hresolve => ?_,
    fun written canonical hresolve => ?_, fun path path' => h.resolve?_congr⟩
  · exact ⟨(isNormal_normalize p).normalize_eq, normalize_join p q, isNormal_normalize p, rfl⟩
  · obtain ⟨rfl, hfile⟩ := h.resolve?_eq_some_iff.1 hresolve
    exact h.resolve?_eq_some_iff.2 ⟨(isNormal_normalize path).normalize_eq.symm, hfile⟩
  · obtain ⟨rfl, text, hfile⟩ := h.resolve?_eq_some_iff.1 hresolve
    exact ⟨text, read_eq_ok hfile, read_eq_ok (by rwa [htext])⟩

/-- A single file, added by a path that climbs above its start. -/
def neighbour : Sources :=
  Sources.add {} "lib/../../shared//./a" "module a;"

/-- The file of `neighbour` is also found by another path, under one canonical path for both. -/
theorem canonical_neighbour :
    neighbour.InMemory ∧
    neighbour.resolve? (ofString "../shared/x/../a") = some (ofString "../shared/a") ∧
    neighbour.resolve? (ofString "../shared/a") = some (ofString "../shared/a") ∧
    (∃ text, neighbour.read "../shared/x/../a" = .ok text ∧
      neighbour.read (ofString "../shared/a").text = .ok text) ∧
    ((ofString "../shared/x").normalize.join (ofString "../a")).normalize =
      ((ofString "../shared/x").join (ofString "../a")).normalize := by
  have hmemory : neighbour.InMemory := inMemory_empty.add _ _
  have hresolve : neighbour.resolve? (ofString "../shared/x/../a") =
      some (ofString "../shared/a") := by decide
  obtain ⟨hnormal, -, hcanonical, hread, -⟩ := canonical_of_inMemory neighbour hmemory
  exact ⟨hmemory, hresolve, hcanonical _ _ hresolve, hread _ _ hresolve, (hnormal _ _).2.1⟩

end Sources

end WireSchema
