import Mathlib.Control.Monad.Basic
import Mathlib.Data.List.Forall2

/-!
# Computations that can fail

Inversion of computations in `Except`: where a sequence of steps succeeds, each of its steps does.
For `mapM` this pairs the items of a list with what is made of them, so the lemmas on such pairs
(`List.Forall₂`) are here too.
-/

namespace Except

variable {ε α β : Type} {x : Except ε α} {f : α → Except ε β} {g : α → β} {b : β} {e : ε}

theorem bind_eq_ok : (x >>= f) = .ok b ↔ ∃ a, x = .ok a ∧ f a = .ok b := by
  cases x <;> simp [bind, Except.bind]

theorem pure_eq_ok {a c : α} : (pure a : Except ε α) = .ok c ↔ a = c := by
  simp [pure, Except.pure]

theorem map_eq_ok : x.map g = .ok b ↔ ∃ a, x = .ok a ∧ g a = b := by
  cases x <;> simp [Except.map]

theorem map_eq_error : x.map g = .error e ↔ x = .error e := by
  cases x <;> simp [Except.map]

theorem exists_of_isOk (h : x.isOk = true) : ∃ a, x = .ok a := by
  cases x with
  | ok a => exact ⟨a, rfl⟩
  | error e => cases h

end Except

theorem Option.exists_of_mapM {ε α β : Type} {f : α → Except ε β} {x : Option α} {y : Option β}
    {b : β} (h : x.mapM f = .ok y) (hb : b ∈ y) : ∃ a ∈ x, f a = .ok b := by
  cases x with
  | none =>
    cases h
    cases hb
  | some a =>
    simp only [Option.mapM_some, Except.bind_eq_ok, map_eq_pure_bind, Except.pure_eq_ok] at h
    obtain ⟨b', hb', rfl⟩ := h
    cases hb
    exact ⟨a, rfl, hb'⟩

namespace List

section Pairs

variable {α β γ : Type} {R S : α → β → Prop} {xs : List α} {ys : List β}

theorem Forall₂.exists_right_of_mem {x : α} (h : Forall₂ R xs ys) (hx : x ∈ xs) :
    ∃ y, (x, y) ∈ xs.zip ys ∧ y ∈ ys ∧ R x y := by
  induction h with
  | nil => simp at hx
  | @cons a b _ _ hab _ ih =>
    rcases mem_cons.1 hx with rfl | hx
    · exact ⟨b, by simp, by simp, hab⟩
    · obtain ⟨y, hzip, hy, hxy⟩ := ih hx
      exact ⟨y, by simp [hzip], by simp [hy], hxy⟩

theorem Forall₂.exists_left_of_mem {y : β} (h : Forall₂ R xs ys) (hy : y ∈ ys) :
    ∃ x, (x, y) ∈ xs.zip ys ∧ x ∈ xs ∧ R x y := by
  induction h with
  | nil => simp at hy
  | @cons a b _ _ hab _ ih =>
    rcases mem_cons.1 hy with rfl | hy
    · exact ⟨a, by simp, by simp, hab⟩
    · obtain ⟨x, hzip, hx, hxy⟩ := ih hy
      exact ⟨x, by simp [hzip], by simp [hx], hxy⟩

theorem Forall₂.imp_of_mem (h : Forall₂ R xs ys) (hRS : ∀ x ∈ xs, ∀ y, R x y → S x y) :
    Forall₂ S xs ys := by
  induction h with
  | nil => exact .nil
  | cons hxy _ ih =>
    obtain ⟨hx, hxs⟩ := forall_mem_cons.1 hRS
    exact .cons (hx _ hxy) (ih hxs)

theorem Forall₂.map_eq {f : α → γ} {g : β → γ} (h : Forall₂ R xs ys)
    (hR : ∀ x y, R x y → g y = f x) : ys.map g = xs.map f := by
  induction h with
  | nil => rfl
  | cons hxy _ ih => rw [map_cons, map_cons, hR _ _ hxy, ih]

end Pairs

section Runs

variable {ε α β : Type} {f : α → Except ε β} {xs : List α} {ys : List β}

theorem exists_mapM (h : ∀ x ∈ xs, ∃ y, f x = .ok y) : ∃ ys, xs.mapM f = .ok ys := by
  induction xs with
  | nil => exact ⟨[], rfl⟩
  | cons x rest ih =>
    obtain ⟨⟨y, hy⟩, hrest⟩ := forall_mem_cons.1 h
    obtain ⟨ys, hys⟩ := ih hrest
    simp only [mapM_cons, Except.bind_eq_ok, Except.pure_eq_ok]
    exact ⟨y :: ys, y, hy, ys, hys, rfl⟩

/-- Each item is made, in order. -/
theorem forall₂_of_mapM (h : xs.mapM f = .ok ys) : Forall₂ (fun x y => f x = .ok y) xs ys := by
  induction xs generalizing ys with
  | nil =>
    rw [mapM_nil, Except.pure_eq_ok] at h
    subst h
    exact .nil
  | cons x xs ih =>
    simp only [mapM_cons, Except.bind_eq_ok, Except.pure_eq_ok] at h
    obtain ⟨y, hy, ys, hys, rfl⟩ := h
    exact .cons hy (ih hys)

end Runs

end List
