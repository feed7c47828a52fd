import Mathlib.Data.List.Chain
import Mathlib.Order.Bounds.Basic
import WireSchema.Layout

/-!
# Placing one field after the other

A field is placed among others by `Placed.insert`. `Placed.insert_split` says all that an insertion
can do: it puts the field directly behind one that is there, and moves nothing. From it follows what
an insertion keeps: the fields stay well placed and in order (`Arranged.insert`), and none is lost
(`perm_insert`). `Layout.place` keeps what every insertion keeps.
-/

namespace WireSchema

/-! ## Padding -/

theorem padding_of_dvd {offset alignment : Nat} (h : alignment ∣ offset) :
    padding offset alignment = 0 := by
  unfold padding
  rw [Nat.mod_eq_zero_of_dvd h, Nat.sub_zero, Nat.mod_self]

theorem padding_of_not_dvd {offset alignment : Nat} (ha : 0 < alignment)
    (h : ¬ alignment ∣ offset) : padding offset alignment = alignment - offset % alignment := by
  have hpos : 0 < offset % alignment := Nat.pos_of_ne_zero fun h0 => h (Nat.dvd_of_mod_eq_zero h0)
  exact Nat.mod_eq_of_lt (by omega)

theorem dvd_add_padding (offset : Nat) {alignment : Nat} (ha : 0 < alignment) :
    alignment ∣ offset + padding offset alignment := by
  by_cases h : alignment ∣ offset
  · rwa [padding_of_dvd h]
  · rw [padding_of_not_dvd ha h]
    have hlt := Nat.mod_lt offset ha
    have hdiv := Nat.div_add_mod offset alignment
    refine ⟨offset / alignment + 1, ?_⟩
    rw [Nat.mul_add, Nat.mul_one]
    omega

theorem padding_lt (offset : Nat) {alignment : Nat} (ha : 0 < alignment) :
    padding offset alignment < alignment :=
  Nat.mod_lt _ ha

/-- No multiple of the alignment lies between an offset and its padded form. -/
theorem add_padding_le {offset alignment n : Nat} (ha : 0 < alignment) (hn : alignment ∣ n)
    (hle : offset ≤ n) : offset + padding offset alignment ≤ n := by
  by_contra hlt
  have hpad := padding_lt offset ha
  have hdvd : alignment ∣ offset + padding offset alignment - n :=
    Nat.dvd_sub (dvd_add_padding offset ha) hn
  have := Nat.le_of_dvd (by omega) hdvd
  omega

theorem add_padding_mono {a b alignment : Nat} (ha : 0 < alignment) (h : a ≤ b) :
    a + padding a alignment ≤ b + padding b alignment :=
  add_padding_le ha (dvd_add_padding b ha) (by omega)

/-! ## Well placed fields -/

namespace Placed

variable {a b c p q last : Placed} {l : List Placed}

/-- A field with the size of its kind at a multiple of its size, on one of eight bits; only bools
use bits other than 0. -/
structure WellPlaced (p : Placed) : Prop where
  size_eq : p.size = p.field.kind.size
  dvd_offset : p.size ∣ p.offset
  bit_le : p.bit ≤ 7
  bit_eq_zero : p.isBool = false → p.bit = 0

/-- One field ends before the other begins, or both are bools of one byte, on increasing bits. -/
def Before (a b : Placed) : Prop :=
  a.stop ≤ b.offset ∨ a.isBool ∧ b.isBool ∧ a.offset = b.offset ∧ a.bit < b.bit

theorem size_pos_of_size_eq (h : p.size = p.field.kind.size) : 0 < p.size := by
  rw [h]
  exact p.field.kind.size_pos

theorem size_eq_one (h : p.size = p.field.kind.size) (hb : p.isBool) : p.size = 1 := by
  have hk : p.field.kind = .basic .bool := by simpa [isBool, Kind.isBool] using hb
  rw [h, hk]
  rfl

theorem WellPlaced.size_pos (h : p.WellPlaced) : 0 < p.size :=
  size_pos_of_size_eq h.size_eq

theorem WellPlaced.offset_lt_stop (h : p.WellPlaced) : p.offset < p.stop := by
  have := h.size_pos
  unfold stop
  omega

theorem Before.offset_le (h : Before a b) : a.offset ≤ b.offset := by
  rcases h with h | ⟨-, -, h, -⟩
  · unfold stop at h
    omega
  · exact h.le

/-- Fields of one byte end together. -/
theorem Before.stop_le (ha : a.WellPlaced) (hb : b.WellPlaced) (h : Before a b) :
    a.stop ≤ b.stop := by
  rcases h with h | ⟨h₁, h₂, h, -⟩
  · exact h.trans hb.offset_lt_stop.le
  · unfold stop
    rw [size_eq_one ha.size_eq h₁, size_eq_one hb.size_eq h₂, h]

theorem Before.trans (ha : a.WellPlaced) (hb : b.WellPlaced) (h₁ : Before a b)
    (h₂ : Before b c) : Before a c := by
  rcases h₂ with h₂ | ⟨hb₂, hc, ho, hbit⟩
  · exact .inl ((h₁.stop_le ha hb).trans h₂)
  · rcases h₁ with h₁ | ⟨ha₁, -, ho', hbit'⟩
    · exact .inl (h₁.trans ho.le)
    · exact .inr ⟨ha₁, hc, ho'.trans ho, hbit'.trans hbit⟩

/-! ## Placing a field behind another -/

theorem after_of_shares (h : p.isBool && last.isBool && last.bit < 7) :
    after last p = { p with offset := last.offset, bit := last.bit + 1 } :=
  if_pos h

theorem after_of_not_shares (h : ¬ (p.isBool && last.isBool && last.bit < 7)) :
    after last p = { p with offset := last.stop + padding last.stop p.size, bit := 0 } :=
  if_neg h

/-- The field without its place. -/
def unplaced (p : Placed) : Placed :=
  { p with offset := 0, bit := 0 }

@[simp] theorem unplaced_after (last p : Placed) : (after last p).unplaced = p.unplaced := by
  unfold after
  split <;> rfl

@[simp] theorem ordinal_after (last p : Placed) : (after last p).ordinal = p.ordinal := by
  unfold after
  split <;> rfl

theorem before_after (last p : Placed) : Before last (after last p) := by
  by_cases h : p.isBool && last.isBool && last.bit < 7
  · rw [after_of_shares h]
    simp only [Bool.and_eq_true, decide_eq_true_eq] at h
    exact .inr ⟨h.1.2, h.1.1, rfl, Nat.lt_succ_self _⟩
  · rw [after_of_not_shares h]
    exact .inl (Nat.le_add_right _ _)

theorem wellPlaced_after (last : Placed) (hp : p.size = p.field.kind.size) :
    (after last p).WellPlaced := by
  by_cases h : p.isBool && last.isBool && last.bit < 7
  · rw [after_of_shares h]
    simp only [Bool.and_eq_true, decide_eq_true_eq] at h
    obtain ⟨⟨hb, -⟩, hbit⟩ := h
    exact
      { size_eq := hp
        dvd_offset := by
          change p.size ∣ last.offset
          rw [size_eq_one hp hb]
          exact Nat.one_dvd _
        bit_le := hbit
        bit_eq_zero := fun hn => absurd (hb.symm.trans hn) (by decide) }
  · rw [after_of_not_shares h]
    exact
      { size_eq := hp
        dvd_offset := dvd_add_padding _ (size_pos_of_size_eq hp)
        bit_le := Nat.zero_le _
        bit_eq_zero := fun _ => rfl }

/-! ## Inserting a field -/

/-- An insertion puts the field directly behind one of those placed, if there is one. The field
ends before the next one begins, and it would not have done so behind any field before. -/
theorem insert_split (p : Placed) (hl : l ≠ []) :
    ∃ front last rest, l = front ++ last :: rest ∧
      p.insert l = front ++ last :: after last p :: rest ∧
      (∀ next ∈ rest.head?, (after last p).stop ≤ next.offset) ∧
      (front ++ [last]).IsChain fun a b => b.offset < (after a p).stop := by
  induction l with
  | nil => exact absurd rfl hl
  | cons a tail ih =>
    cases tail with
    | nil => exact ⟨[], a, [], rfl, rfl, by simp, .singleton a⟩
    | cons b rest =>
      rw [insert]
      by_cases h : (after a p).stop ≤ b.offset
      · refine ⟨[], a, b :: rest, rfl, if_pos h, ?_, .singleton a⟩
        rintro next ⟨⟩
        exact h
      · obtain ⟨front, last, rest', heq, hins, hnext, hchain⟩ := ih (by simp)
        refine ⟨a :: front, last, rest', by rw [heq, List.cons_append], ?_, hnext, ?_⟩
        · rw [if_neg h, hins, List.cons_append]
        · have hhead : (front ++ [last]).head? = some b := by
            cases front with
            | nil => exact congrArg List.head? heq.symm
            | cons c front => exact congrArg List.head? heq.symm
          rw [List.cons_append, List.isChain_cons, hhead]
          exact ⟨by rintro _ ⟨⟩; exact not_le.1 h, hchain⟩

/-- Well placed fields, each before all that follow. -/
structure Arranged (l : List Placed) : Prop where
  wellPlaced : ∀ p ∈ l, p.WellPlaced
  ordered : l.Pairwise Before

theorem arranged_nil : Arranged [] :=
  ⟨by simp, .nil⟩

/-- Arranged fields stay arranged when one is put behind another and before the next. -/
theorem Arranged.put {front rest : List Placed} (h : Arranged (front ++ last :: rest))
    (hq : q.WellPlaced) (hlast : Before last q) (hnext : ∀ next ∈ rest.head?, q.stop ≤ next.offset) :
    Arranged (front ++ last :: q :: rest) := by
  obtain ⟨hw, ho⟩ := h
  obtain ⟨hfront, htail, hcross⟩ := List.pairwise_append.1 ho
  obtain ⟨hbehind, hrest⟩ := List.pairwise_cons.1 htail
  have hlw : last.WellPlaced := hw last (by simp)
  have hq_before : ∀ r ∈ rest, Before q r := by
    intro r hr
    cases rest with
    | nil => simp at hr
    | cons next more =>
      have hstop := hnext next rfl
      rcases List.mem_cons.1 hr with rfl | hr
      · exact .inl hstop
      · exact .inl (hstop.trans ((List.pairwise_cons.1 hrest).1 r hr).offset_le)
  constructor
  · intro r hr
    simp only [List.mem_append, List.mem_cons] at hr
    rcases hr with hr | rfl | rfl | hr
    · exact hw r (by simp [hr])
    · exact hlw
    · exact hq
    · exact hw r (by simp [hr])
  · refine List.pairwise_append.2 ⟨hfront, ?_, ?_⟩
    · refine List.pairwise_cons.2 ⟨?_, List.pairwise_cons.2 ⟨hq_before, hrest⟩⟩
      intro r hr
      rcases List.mem_cons.1 hr with rfl | hr
      · exact hlast
      · exact hbehind r hr
    · intro x hx r hr
      have hxl : Before x last := hcross x hx last (by simp)
      simp only [List.mem_cons] at hr
      rcases hr with rfl | rfl | hr
      · exact hxl
      · exact hxl.trans (hw x (by simp [hx])) hlw hlast
      · exact hcross x hx r (by simp [hr])

theorem Arranged.insert (hp : p.size = p.field.kind.size) (h : Arranged l) :
    Arranged (p.insert l) := by
  by_cases hl : l = []
  · subst hl
    refine ⟨fun q hq => ?_, List.pairwise_singleton _ _⟩
    obtain rfl := List.mem_singleton.1 hq
    exact ⟨hp, Nat.dvd_zero _, Nat.zero_le _, fun _ => rfl⟩
  · obtain ⟨front, last, rest, rfl, hins, hnext, -⟩ := insert_split p hl
    rw [hins]
    exact h.put (wellPlaced_after last hp) (before_after last p) hnext

/-- An insertion adds the field and keeps the others. -/
theorem perm_insert (p : Placed) (l : List Placed) :
    ((p.insert l).map unplaced).Perm (p.unplaced :: l.map unplaced) := by
  by_cases hl : l = []
  · subst hl
    exact .refl _
  · obtain ⟨front, last, rest, rfl, hins, -⟩ := insert_split p hl
    rw [hins]
    simp only [List.map_append, List.map_cons, unplaced_after]
    rw [← List.cons_append]
    refine (List.perm_append_comm_assoc _ [last.unplaced] _).trans ?_
    refine .trans ?_ (List.perm_append_comm_assoc [last.unplaced] _ _)
    exact .append_left _ List.perm_middle

end Placed

/-! ## Placing all fields -/

namespace Layout

open Placed

variable {fields : List Placed}

theorem arranged_foldl_insert {l : List Placed} (hf : ∀ p ∈ fields, p.size = p.field.kind.size)
    (h : Arranged l) : Arranged (fields.foldl (fun placed p => p.insert placed) l) := by
  induction fields generalizing l with
  | nil => exact h
  | cons p rest ih =>
    exact ih (fun q hq => hf q (List.mem_cons_of_mem _ hq)) (h.insert (hf p List.mem_cons_self))

theorem arranged_place (hf : ∀ p ∈ fields, p.size = p.field.kind.size) : Arranged (place fields) :=
  arranged_foldl_insert hf arranged_nil

theorem perm_foldl_insert (fields l : List Placed) :
    ((fields.foldl (fun placed p => p.insert placed) l).map unplaced).Perm
      (fields.map unplaced ++ l.map unplaced) := by
  induction fields generalizing l with
  | nil => exact .refl _
  | cons p rest ih =>
    refine (ih (p.insert l)).trans ?_
    rw [List.map_cons, List.cons_append]
    exact ((perm_insert p l).append_left _).trans List.perm_middle

theorem perm_place (fields : List Placed) :
    ((place fields).map unplaced).Perm (fields.map unplaced) := by
  have h := perm_foldl_insert fields []
  rwa [List.map_nil, List.append_nil] at h

end Layout

end WireSchema
