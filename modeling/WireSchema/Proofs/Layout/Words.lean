import Mathlib.Algebra.Group.Nat.Defs
import WireSchema.Proofs.Layout.Greedy

/-!
# Layouts in machine words

Offsets and sizes are kept in words of 32 bits and bits of a byte in words of 8 bits. `Checked` does
the arithmetic of a layout in such words: a step whose result does not fit, goes below zero or
divides by zero gives nothing. The places that are only tried are computed in the same way. The
invariant is that `k` fields end within `8 * k` bytes whatever gaps they leave or fill. So below
`2 ^ 29` fields every step gives the number that is meant (`Layout.ofStruct_fits`).
-/

namespace WireSchema

/-! ## Arithmetic that can fail -/

namespace Checked

/-- The sum, unless it needs more than the given number of bits. -/
def add? (bits a b : Nat) : Option Nat :=
  if a + b < 2 ^ bits then some (a + b) else none

/-- The difference, unless it is negative. -/
def sub? (a b : Nat) : Option Nat :=
  if b ≤ a then some (a - b) else none

/-- The remainder, unless the divisor is zero. -/
def mod? (a b : Nat) : Option Nat :=
  if b = 0 then none else some (a % b)

theorem add?_eq_some {bits a b : Nat} (h : a + b < 2 ^ bits) : add? bits a b = some (a + b) :=
  if_pos h

theorem sub?_eq_some {a b : Nat} (h : b ≤ a) : sub? a b = some (a - b) :=
  if_pos h

theorem mod?_eq_some {a b : Nat} (h : 0 < b) : mod? a b = some (a % b) :=
  if_neg h.ne'

/-- The number of bytes from `offset` up to a multiple of `alignment`. -/
def padding? (offset alignment : Nat) : Option Nat := do
  let excess ← mod? offset alignment
  let short ← sub? alignment excess
  mod? short alignment

theorem padding?_eq_some (offset : Nat) {alignment : Nat} (h : 0 < alignment) :
    padding? offset alignment = some (padding offset alignment) := by
  have hle : offset % alignment ≤ alignment := (Nat.mod_lt offset h).le
  simp only [padding?, Option.bind_eq_bind, mod?_eq_some h, sub?_eq_some hle, Option.bind_some,
    padding]

/-- The first byte after a field. -/
def stop? (p : Placed) : Option Nat :=
  add? 32 p.offset p.size

/-- Places a field directly after another. -/
def after? (last p : Placed) : Option Placed :=
  if p.isBool && last.isBool && last.bit < 7 then do
    let bit ← add? 8 last.bit 1
    return { p with offset := last.offset, bit }
  else do
    let stop ← stop? last
    let offset ← add? 32 stop (← padding? stop p.size)
    return { p with offset, bit := 0 }

/-- Puts a field among those placed. -/
def insert? (p : Placed) : List Placed → Option (List Placed)
  | [] => some [{ p with offset := 0, bit := 0 }]
  | [last] => do return [last, ← after? last p]
  | last :: next :: rest => do
    let tried ← after? last p
    if (← stop? tried) ≤ next.offset then return last :: tried :: next :: rest
    else return last :: (← insert? p (next :: rest))

/-- Places fields one after the other. -/
def place? (fields : List Placed) : Option (List Placed) :=
  fields.foldlM (fun placed p => insert? p placed) []

/-- The size of a struct. -/
def totalSize? (l : Layout) : Option Nat := do
  let used := (← l.fields.mapM stop?).foldl max 0
  add? 32 used (← padding? used 8)

end Checked

/-! ## Where fields end -/

theorem Kind.size_dvd_eight (k : Kind) : k.size ∣ 8 := by
  cases k with
  | basic k => cases k <;> decide
  | _ => simp [size]

namespace Placed

variable {p q last : Placed} {l : List Placed} {n : Nat}

theorem size_dvd_eight (hp : p.size = p.field.kind.size) : p.size ∣ 8 :=
  hp ▸ p.field.kind.size_dvd_eight

theorem size_le_eight (hp : p.size = p.field.kind.size) : p.size ≤ 8 :=
  Nat.le_of_dvd (by decide) (size_dvd_eight hp)

/-- A field aligned behind others that end by a multiple of 8 begins by then. -/
theorem offset_after_le (hp : p.size = p.field.kind.size) (hn : 8 ∣ n) (hlast : last.stop ≤ n) :
    (after last p).offset ≤ n := by
  by_cases h : p.isBool && last.isBool && last.bit < 7
  · rw [after_of_shares h]
    exact (offset_le_stop last).trans hlast
  · rw [after_of_not_shares h]
    have hdvd : p.size ∣ n := Nat.dvd_trans (size_dvd_eight hp) hn
    exact add_padding_le (size_pos_of_size_eq hp) hdvd hlast

theorem stop_after_le (hp : p.size = p.field.kind.size) (hn : 8 ∣ n) (hlast : last.stop ≤ n) :
    (after last p).stop ≤ n + 8 := by
  have hoffset := offset_after_le hp hn hlast
  have hsize := size_le_eight hp
  rw [stop_after]
  omega

/-- One more field ends at most 8 bytes further, whether it fills a gap or comes last. -/
theorem stop_le_of_mem_insert (hp : p.size = p.field.kind.size) (hn : 8 ∣ n)
    (hl : ∀ r ∈ l, r.stop ≤ n) (hq : q ∈ p.insert l) : q.stop ≤ n + 8 := by
  by_cases hnil : l = []
  · subst hnil
    obtain rfl := List.mem_singleton.1 hq
    have hsize := size_le_eight hp
    change 0 + p.size ≤ n + 8
    omega
  · obtain ⟨front, last, rest, rfl, hins, -⟩ := insert_split p hnil
    rw [hins] at hq
    have hold : q = after last p ∨ q ∈ front ++ last :: rest := by
      simp only [List.mem_append, List.mem_cons] at hq ⊢
      tauto
    rcases hold with rfl | hq
    · exact stop_after_le hp hn (hl last (by simp))
    · exact (hl q hq).trans (Nat.le_add_right n 8)

end Placed

namespace Layout

open Placed

variable {fields : List Placed}

/-- Fields end within 8 bytes for each of them. -/
theorem stop_le_of_mem_place (hf : ∀ p ∈ fields, p.size = p.field.kind.size) :
    ∀ q ∈ place fields, q.stop ≤ 8 * fields.length := by
  induction fields using List.reverseRecOn with
  | nil => simp [place]
  | append_singleton fields p ih =>
    intro q hq
    rw [place_concat] at hq
    rw [List.length_append, List.length_singleton, Nat.mul_add, Nat.mul_one]
    exact stop_le_of_mem_insert (hf p (by simp)) (Nat.dvd_mul_right 8 _)
      (ih fun r hr => hf r (List.mem_append_left _ hr)) hq

end Layout

/-! ## Every step fits -/

namespace Checked

open Placed Layout

variable {p last : Placed} {l fields : List Placed} {n : Nat}

theorem after?_eq_some (hp : p.size = p.field.kind.size) (hn : 8 ∣ n) (hfit : n + 8 < 2 ^ 32)
    (hlast : last.stop ≤ n) : after? last p = some (after last p) := by
  have hoffset := offset_after_le hp hn hlast
  unfold after?
  by_cases h : p.isBool && last.isBool && last.bit < 7
  · have hbit : last.bit < 7 := by simpa using (Bool.and_eq_true_iff.1 h).2
    rw [if_pos h, after_of_shares h, add?_eq_some (by omega)]
    rfl
  · rw [after_of_not_shares h] at hoffset
    have hstop : stop? last = some last.stop := add?_eq_some (by unfold stop at hlast; omega)
    have hpad := padding?_eq_some last.stop (size_pos_of_size_eq hp)
    have hsum : add? 32 last.stop (padding last.stop p.size) = some _ :=
      add?_eq_some (by simp only at hoffset; omega)
    rw [if_neg h, after_of_not_shares h, hstop]
    simp only [Option.bind_eq_bind, Option.bind_some, hpad, hsum]
    rfl

theorem stop?_after (hp : p.size = p.field.kind.size) (hn : 8 ∣ n) (hfit : n + 8 < 2 ^ 32)
    (hlast : last.stop ≤ n) : stop? (after last p) = some (after last p).stop := by
  have hstop := stop_after_le hp hn hlast
  unfold stop at hstop
  exact add?_eq_some (by omega)

/-- No place that is tried for a field is out of range. -/
theorem insert?_eq_some (hp : p.size = p.field.kind.size) (hn : 8 ∣ n) (hfit : n + 8 < 2 ^ 32)
    (hl : ∀ q ∈ l, q.stop ≤ n) : insert? p l = some (p.insert l) := by
  fun_induction Placed.insert p l with
  | case1 => rfl
  | case2 last =>
    rw [insert?, after?_eq_some hp hn hfit (hl last (by simp))]
    rfl
  | case3 last next rest hgap =>
    have hlast := hl last (by simp)
    rw [insert?, after?_eq_some hp hn hfit hlast]
    simp only [Option.bind_eq_bind, Option.bind_some, stop?_after hp hn hfit hlast, if_pos hgap]
    rfl
  | case4 last next rest hgap ih =>
    have hlast := hl last (by simp)
    rw [insert?, after?_eq_some hp hn hfit hlast, ih fun q hq => hl q (List.mem_cons_of_mem _ hq)]
    simp only [Option.bind_eq_bind, Option.bind_some, stop?_after hp hn hfit hlast, if_neg hgap]
    rfl

theorem place?_concat (l : List Placed) (p : Placed) :
    place? (l ++ [p]) = (place? l).bind (insert? p) := by
  rw [place?, List.foldlM_append]
  simp [place?]

theorem place?_eq_some (hf : ∀ p ∈ fields, p.size = p.field.kind.size)
    (hfit : 8 * fields.length < 2 ^ 32) : place? fields = some (place fields) := by
  induction fields using List.reverseRecOn with
  | nil => rfl
  | append_singleton fields p ih =>
    have hsizes : ∀ q ∈ fields, q.size = q.field.kind.size :=
      fun q hq => hf q (List.mem_append_left _ hq)
    rw [List.length_append, List.length_singleton] at hfit
    rw [place?_concat, place_concat, ih hsizes (by omega), Option.bind_some]
    exact insert?_eq_some (hf p (by simp)) (Nat.dvd_mul_right 8 _) (by omega)
      (stop_le_of_mem_place hsizes)

theorem mapM_stop? {n : Nat} (hn : n < 2 ^ 32) (hl : ∀ q ∈ l, q.stop ≤ n) :
    l.mapM stop? = some (l.map Placed.stop) := by
  induction l with
  | nil => rfl
  | cons q l ih =>
    have hstop : stop? q = some q.stop :=
      add?_eq_some (Nat.lt_of_le_of_lt (hl q List.mem_cons_self) hn)
    rw [List.mapM_cons, hstop, ih fun r hr => hl r (List.mem_cons_of_mem _ hr)]
    rfl

theorem totalSize?_eq_some {layout : Layout} (hn : 8 ∣ n) (hfit : n < 2 ^ 32)
    (hl : ∀ q ∈ layout.fields, q.stop ≤ n) : totalSize? layout = some layout.totalSize := by
  have htotal : layout.totalSize ≤ n := (isLeast_totalSize layout).2 ⟨hn, hl⟩
  rw [totalSize?, mapM_stop? hfit hl]
  simp only [Option.bind_eq_bind, Option.bind_some, padding?_eq_some _ (show 0 < 8 by decide)]
  exact add?_eq_some (Nat.lt_of_le_of_lt htotal hfit)

end Checked

namespace Layout

open Placed

variable {s : Module.Struct} {layout : Layout}

/-- A layout of fewer than `2 ^ 29` fields is computed without a step that does not fit: the places
of its fields, all that are tried for them, and its size. Its fields and its size are within 8 bytes
for each field. -/
theorem ofStruct_fits (h : ofStruct s = .ok layout) (hn : s.fields.length < 2 ^ 29) :
    (∃ assigned, assignOrdinals (some 0) s.fields = .ok assigned ∧
      Checked.place? (byOrdinal assigned) = some layout.fields) ∧
    Checked.totalSize? layout = some layout.totalSize ∧
    (∀ p ∈ layout.fields, p.stop ≤ 8 * s.fields.length) ∧
    layout.totalSize ≤ 8 * s.fields.length := by
  obtain ⟨assigned, ha, -, hplaced⟩ := assigned_of_ofStruct h
  have hsizes : ∀ p ∈ byOrdinal assigned, p.size = p.field.kind.size := fun p hp =>
    (numbered_of_assignOrdinals ha p ((perm_byOrdinal assigned).mem_iff.1 hp)).1
  have hlength : (byOrdinal assigned).length = s.fields.length := by
    rw [(perm_byOrdinal assigned).length_eq, ← map_field_of_assignOrdinals ha, List.length_map]
  have hstop : ∀ p ∈ layout.fields, p.stop ≤ 8 * s.fields.length := by
    rw [hplaced, ← hlength]
    exact stop_le_of_mem_place hsizes
  have hdvd : 8 ∣ 8 * s.fields.length := Nat.dvd_mul_right 8 _
  refine ⟨⟨assigned, ha, ?_⟩, ?_, hstop, (isLeast_totalSize layout).2 ⟨hdvd, hstop⟩⟩
  · rw [hplaced]
    exact Checked.place?_eq_some hsizes (by omega)
  · exact Checked.totalSize?_eq_some hdvd (by omega) hstop

/-- The second bool of `header` shares the byte of the first, and its last field is tried there too
before it goes into the gap. -/
theorem fits_header :
    ofStruct header = .ok headerLayout ∧ header.fields.length < 2 ^ 29 ∧
    (∃ assigned, assignOrdinals (some 0) header.fields = .ok assigned ∧
      Checked.place? (byOrdinal assigned) = some headerLayout.fields) ∧
    Checked.totalSize? headerLayout = some headerLayout.totalSize ∧
    (∀ p ∈ headerLayout.fields, p.stop ≤ 8 * header.fields.length) ∧
    headerLayout.totalSize ≤ 8 * header.fields.length :=
  ⟨ofStruct_header, by decide, ofStruct_fits ofStruct_header (by decide)⟩

end Layout

end WireSchema
