import Mathlib.Data.List.Basic
import WireSchema.Folder
import WireSchema.Remaining

/-!
# Writing files

A file that is written below a directory first gets the directories around it. These take the place
of no file (`Folder.Grows`), so every file that could be read can still be read. What is written is
read back (`Folder.readText_writeBelow`), and a file of another name below the same directory stays
as it was (`Folder.readText_writeBelow_of_ne`).
-/

namespace WireSchema.Folder

variable {f f' f'' : Folder} {path dir : SourcePath} {place names names' : List String}
  {text text' name other : String}

/-! ## Walking -/

theorem walk_append (place : List String) (steps rest : List Step) :
    f.walk place (steps ++ rest) = f.walk place steps >>= fun place => f.walk place rest := by
  induction steps generalizing place with
  | nil => rfl
  | cons step steps ih =>
    simp only [List.cons_append, walk]
    split
    · cases step <;> exact ih _
    · split <;> rfl

theorem eq_of_walk_down {below : List String}
    (h : f.walk place (below.map .down) = .ok names) : names = place ++ below := by
  induction below generalizing place with
  | nil =>
    rw [List.append_nil]
    exact (Except.ok.inj h).symm
  | cons first below ih =>
    simp only [List.map_cons, walk] at h
    split at h
    · rw [ih h, List.append_assoc, List.singleton_append]
    · split at h <;> cases h

/-- Files of different names below one directory are at different places. -/
theorem ne_of_locate_join {below below' : List String}
    (h : f.locate (dir.join ⟨false, below.map .down⟩) = .ok names)
    (h' : f.locate (dir.join ⟨false, below'.map .down⟩) = .ok names') (hne : below ≠ below') :
    names ≠ names' := by
  have hplace {below names : List String}
      (h : f.locate (dir.join ⟨false, below.map .down⟩) = .ok names) :
      ∃ place, f.walk (if dir.absolute then [] else f.cwd) dir.steps = .ok place ∧
        names = place ++ below := by
    unfold locate at h
    split at h
    · cases h
    · simp only [SourcePath.join, Bool.false_eq_true, if_false, walk_append] at h
      cases hdir : f.walk (if dir.absolute then [] else f.cwd) dir.steps with
      | error e => simp [hdir, bind, Except.bind] at h
      | ok place =>
        simp only [hdir, bind, Except.bind] at h
        exact ⟨place, rfl, eq_of_walk_down h⟩
  obtain ⟨place, hwalk, rfl⟩ := hplace h
  obtain ⟨place', hwalk', rfl⟩ := hplace h'
  obtain rfl := Except.ok.inj (hwalk.symm.trans hwalk')
  exact fun heq => hne (List.append_cancel_left heq)

/-! ## Reading and writing a file -/

theorem readText_eq_ok : f.readText path = .ok text ↔ ∃ names, f.locate path = .ok names ∧
    f.isDirectory names = false ∧ f.get? names = some (.text text) := by
  unfold readText
  cases f.locate path with
  | error e => simp [bind, Except.bind]
  | ok names =>
    cases hdir : f.isDirectory names with
    | true => simp [bind, Except.bind, throw, throwThe, MonadExceptOf.throw, hdir]
    | false =>
      cases hget : f.get? names with
      | none => simp [bind, Except.bind, throw, throwThe, MonadExceptOf.throw, hdir, hget]
      | some contents =>
        cases contents <;>
          simp [bind, Except.bind, throw, throwThe, MonadExceptOf.throw, pure, Except.pure, hdir,
            hget]

theorem writeText_eq_ok : f.writeText path text = .ok f' ↔ ∃ names, f.locate path = .ok names ∧
    f.isDirectory names = false ∧ f.put names (.text text) = f' := by
  unfold writeText
  cases f.locate path with
  | error e => simp [bind, Except.bind]
  | ok names =>
    cases hdir : f.isDirectory names <;>
      simp [bind, Except.bind, throw, throwThe, MonadExceptOf.throw, pure, Except.pure, hdir]

theorem get?_put_self (f : Folder) (names : List String) (contents : FileText) :
    (f.put names contents).get? names = some contents :=
  List.lookup_cons_self

theorem get?_put_of_ne (f : Folder) (contents : FileText) (hne : names' ≠ names) :
    (f.put names contents).get? names' = f.get? names' := by
  simp only [get?, put, List.lookup_cons, beq_eq_false_iff_ne.2 hne]
  exact lookup_filter (fun _ => by simpa using hne) f.files

/-- What a path leads to depends on the directories only. -/
theorem locate_of_directories (hcwd : f'.cwd = f.cwd)
    (hkept : ∀ names, f.isDirectory names = true → f'.isDirectory names = true)
    (h : f.locate path = .ok names) : f'.locate path = .ok names := by
  have hwalk {place : List String} {steps : List Step} (h : f.walk place steps = .ok names) :
      f'.walk place steps = .ok names := by
    induction steps generalizing place with
    | nil => exact h
    | cons step steps ih =>
      simp only [walk] at h ⊢
      split at h
      · next hdir =>
        rw [if_pos (hkept _ hdir)]
        cases step <;> exact ih h
      · split at h <;> cases h
  unfold locate at h ⊢
  split at h
  · cases h
  · next hne =>
    rw [if_neg hne, hcwd]
    exact hwalk h

theorem locate_put (place : List String) (contents : FileText) (h : f.locate path = .ok names) :
    (f.put place contents).locate path = .ok names :=
  locate_of_directories (f := f) rfl (fun _ hdir => hdir) h

/-! ## Making directories -/

/-- Directories were added, none of them where a file is. -/
structure Grows (f f' : Folder) : Prop where
  cwd : f'.cwd = f.cwd
  files : f'.files = f.files
  kept : ∀ names, f.isDirectory names = true → f'.isDirectory names = true
  apart : ∀ names, f'.isDirectory names = true → f.isDirectory names = true ∨ f.get? names = none

namespace Grows

theorem refl (f : Folder) : Grows f f :=
  ⟨rfl, rfl, fun _ h => h, fun _ h => .inl h⟩

theorem trans (h : Grows f f') (h' : Grows f' f'') : Grows f f'' where
  cwd := h'.cwd.trans h.cwd
  files := h'.files.trans h.files
  kept names hdir := h'.kept names (h.kept names hdir)
  apart names hdir := by
    obtain hdir | hnone := h'.apart names hdir
    · exact h.apart names hdir
    · rw [get?, h.files] at hnone
      exact .inr hnone

theorem readText (h : Grows f f') (hread : f.readText path = .ok text) :
    f'.readText path = .ok text := by
  obtain ⟨names, hlocate, hdir, hget⟩ := readText_eq_ok.1 hread
  refine readText_eq_ok.2 ⟨names, locate_of_directories h.cwd h.kept hlocate, ?_, ?_⟩
  · cases hdir' : f'.isDirectory names with
    | false => rfl
    | true =>
      obtain hold | hnone := h.apart names hdir'
      · cases hdir.symm.trans hold
      · cases hnone.symm.trans hget
  · rw [get?, h.files]
    exact hget

end Grows

theorem makeDirectory_grows (h : f.makeDirectory path = .ok f') : Grows f f' := by
  unfold makeDirectory at h
  cases hlocate : f.locate path with
  | error e => simp [hlocate, bind, Except.bind] at h
  | ok names =>
    simp only [hlocate, bind, Except.bind] at h
    split at h
    · cases h
    · next hfree =>
      obtain ⟨-, hget⟩ : f.isDirectory names = false ∧ f.get? names = none := by
        simpa using hfree
      obtain rfl := Except.ok.inj h
      refine ⟨rfl, rfl, fun other hother => ?_, fun other hother => ?_⟩
      · simp_all [isDirectory]
      · by_cases hsame : other = names
        · exact .inr (hsame ▸ hget)
        · simp_all [isDirectory]

theorem makeDirectories_grows {absolute : Bool} {steps : List Step}
    (h : f.makeDirectories absolute steps = .ok f') : Grows f f' := by
  induction steps generalizing f f' with
  | nil => exact Except.ok.inj h ▸ .refl f
  | cons step before ih =>
    simp only [makeDirectories] at h
    split at h
    · split at h
      · next f₁ hbefore =>
        refine (ih hbefore).trans ?_
        split at h
        · next hmade => exact Except.ok.inj h ▸ makeDirectory_grows hmade
        · split at h
          · exact Except.ok.inj h ▸ .refl f₁
          · cases h
      · cases h
    · split at h
      · next hmade => exact Except.ok.inj h ▸ makeDirectory_grows hmade
      · split at h
        · exact Except.ok.inj h ▸ .refl f
        · cases h

/-! ## Files below a directory -/

/-- A file is written after the directories around it are made. -/
theorem exists_grows_of_writeBelow (h : f.writeBelow dir name text = .ok f') :
    ∃ f₁, Grows f f₁ ∧ f₁.writeText (dir.join (.ofString name)) text = .ok f' := by
  unfold writeBelow at h
  cases hparent : (dir.join (.ofString name)).parent? with
  | none =>
    simp only [hparent, bind, Except.bind, pure, Except.pure] at h
    exact ⟨f, .refl f, h⟩
  | some parent =>
    simp only [hparent, bind, Except.bind] at h
    cases hmade : f.makeDirectories parent.absolute parent.steps.reverse with
    | error e => simp [hmade] at h
    | ok f₁ =>
      simp only [hmade] at h
      exact ⟨f₁, makeDirectories_grows hmade, h⟩

/-- What is written can be read. -/
theorem readText_writeBelow (h : f.writeBelow dir name text = .ok f') :
    f'.readText (dir.join (.ofString name)) = .ok text := by
  obtain ⟨f₁, -, hwrite⟩ := exists_grows_of_writeBelow h
  obtain ⟨names, hlocate, hdir, rfl⟩ := writeText_eq_ok.1 hwrite
  exact readText_eq_ok.2 ⟨names, locate_put _ _ hlocate, hdir, get?_put_self _ _ _⟩

/-- A file of another name stays as it was. -/
theorem readText_writeBelow_of_ne {below below' : List String}
    (h : f.writeBelow dir name text = .ok f')
    (hname : SourcePath.ofString name = ⟨false, below.map .down⟩)
    (hother : SourcePath.ofString other = ⟨false, below'.map .down⟩) (hne : below' ≠ below)
    (hread : f.readText (dir.join (.ofString other)) = .ok text') :
    f'.readText (dir.join (.ofString other)) = .ok text' := by
  obtain ⟨f₁, hgrows, hwrite⟩ := exists_grows_of_writeBelow h
  obtain ⟨names, hlocate, -, rfl⟩ := writeText_eq_ok.1 hwrite
  obtain ⟨names', hlocate', hdir, hget⟩ := readText_eq_ok.1 (hgrows.readText hread)
  have hplaces : names' ≠ names :=
    ne_of_locate_join (hother ▸ hlocate') (hname ▸ hlocate) hne
  refine readText_eq_ok.2 ⟨names', locate_put _ _ hlocate', hdir, ?_⟩
  exact (get?_put_of_ne _ _ hplaces).trans hget

end WireSchema.Folder
