/-!
# What remains of a list

The number of elements of a list not yet seen. It shrinks whenever a new element is seen, so it
bounds searches that never visit an element twice.
-/

namespace WireSchema

variable {α : Type} [DecidableEq α]

/-- How many places of `all` hold an element that is not in `seen`. -/
def remaining (all seen : List α) : Nat :=
  all.countP (· ∉ seen)

theorem remaining_cons_lt {all seen : List α} {a : α} (ha : a ∈ all) (hs : a ∉ seen) :
    remaining all (a :: seen) < remaining all seen := by
  unfold remaining
  induction all with
  | nil => simp at ha
  | cons b rest ih =>
    have hle : rest.countP (· ∉ a :: seen) ≤ rest.countP (· ∉ seen) :=
      List.countP_mono_left fun x _ hx => by simp_all
    rw [List.countP_cons, List.countP_cons]
    by_cases hb : b = a
    · subst hb
      rw [if_neg (by simp), if_pos (by simp [hs])]
      omega
    · have hmem : a ∈ rest := (List.mem_cons.1 ha).resolve_left fun h => hb h.symm
      have heq : decide (b ∉ a :: seen) = decide (b ∉ seen) := by simp [hb]
      rw [heq]
      exact Nat.add_lt_add_right (ih hmem) _

theorem mem_keys_of_lookup {β : Type} {a : α} {b : β} {entries : List (α × β)}
    (h : entries.lookup a = some b) : a ∈ entries.map Prod.fst := by
  induction entries with
  | nil => simp at h
  | cons e rest ih =>
    rw [List.lookup_cons] at h
    split at h
    · simp_all
    · exact List.mem_cons_of_mem _ (ih h)

/-- Entries of other keys do not matter for a lookup. -/
theorem lookup_filter {κ β : Type} [BEq κ] [LawfulBEq κ] {p : κ × β → Bool} {a : κ}
    (h : ∀ b, p (a, b) = true) (entries : List (κ × β)) :
    (entries.filter p).lookup a = entries.lookup a := by
  induction entries with
  | nil => rfl
  | cons entry rest ih =>
    obtain ⟨key, b⟩ := entry
    rw [List.filter_cons]
    split
    · simp only [List.lookup_cons, ih]
    · rename_i hdropped
      have hne : a ≠ key := by
        intro heq
        subst heq
        exact hdropped (h b)
      rw [ih, List.lookup_cons, beq_eq_false_iff_ne.2 hne]

end WireSchema
