import WireSchema.Proofs.Layout.Stability

/-!
# Every field gets the lowest place there is

Placing looks at neighbours in a list of fields, not at bytes. `Placed.Greedy` says in terms of
bytes where a field goes among those placed before it: to the lowest place that is free or, for a
bool, that it can share. An insertion into fields without needless gaps (`Placed.Compact`) finds this
place and leaves none (`Placed.Compact.insert`), so each field of a layout has the lowest place that
the fields with smaller ordinals leave to it (`Layout.greedy_of_ofStruct`).
-/

namespace WireSchema

namespace Placed

variable {a b p q last : Placed} {l front rest : List Placed} {byte o : Nat}

/-! ## Bytes -/

/-- No field covers the byte. -/
def Free (l : List Placed) (byte : Nat) : Prop :=
  ∀ q ∈ l, q.covers byte = false

/-- The bools in a byte. -/
def boolsAt (l : List Placed) (byte : Nat) : List Placed :=
  l.filter fun q => q.isBool && q.covers byte

/-- Only bools cover the byte, and fewer than it has bits. -/
def Shareable (l : List Placed) (byte : Nat) : Prop :=
  (∀ q ∈ l, q.covers byte = true → q.isBool = true) ∧ (boolsAt l byte).length < 8

/-- The field has the lowest place that those placed before leave to it. A bool goes into the first
byte that is free or that it can share, onto the first bit that is not taken. -/
structure Greedy (earlier : List Placed) (p : Placed) : Prop where
  aligned : p.isBool = false → p.bit = 0 ∧ IsLeast
    {o | p.size ∣ o ∧ ∀ byte, o ≤ byte → byte < o + p.size → Free earlier byte} p.offset
  shared : p.isBool = true → p.bit = (boolsAt earlier p.offset).length ∧ IsLeast
    {byte | Free earlier byte ∨ Shareable earlier byte} p.offset

theorem WellPlaced.stop_eq (h : p.WellPlaced) (hb : p.isBool = true) : p.stop = p.offset + 1 := by
  rw [stop, size_eq_one h.size_eq hb]

theorem WellPlaced.covers_iff_offset (h : p.WellPlaced) (hb : p.isBool = true) :
    p.covers byte = true ↔ p.offset = byte := by
  rw [covers_iff, h.stop_eq hb]
  omega

theorem WellPlaced.covers_offset (h : p.WellPlaced) : p.covers p.offset = true :=
  covers_iff.2 ⟨le_rfl, h.offset_lt_stop⟩

theorem mem_boolsAt : q ∈ boolsAt l byte ↔ q ∈ l ∧ q.isBool = true ∧ q.covers byte = true := by
  simp [boolsAt]

/-! ## Fields without needless gaps -/

/-- Arranged fields from byte 0 on, where the bools of a byte are on its first bits, in order. -/
structure Compact (l : List Placed) : Prop extends Arranged l where
  starts : ∀ q ∈ l.head?, q.offset = 0
  bits : ∀ byte, (boolsAt l byte).map Placed.bit = List.range (boolsAt l byte).length

theorem compact_nil : Compact [] :=
  ⟨arranged_nil, by simp, fun _ => rfl⟩

/-- A byte with a bool on its last bit is full. -/
theorem Compact.not_shareable (h : Compact l) (hq : q ∈ l) (hb : q.isBool = true)
    (hbit : ¬ q.bit < 7) (hcovers : q.covers byte = true) : ¬ Shareable l byte := by
  rintro ⟨-, hlength⟩
  have hmem : q.bit ∈ (boolsAt l byte).map Placed.bit :=
    List.mem_map_of_mem (mem_boolsAt.2 ⟨hq, hb, hcovers⟩)
  rw [h.bits, List.mem_range] at hmem
  omega

/-- A byte that a bool on its last bit or another field covers is neither free nor shareable. -/
theorem Compact.not_available (h : Compact l) (hq : q ∈ l) (hcovers : q.covers byte = true)
    (hfull : q.isBool = true → ¬ q.bit < 7) : ¬ (Free l byte ∨ Shareable l byte) := by
  rintro (hfree | hshare)
  · exact absurd hcovers (by simp [hfree q hq])
  · have hb := hshare.1 q hq hcovers
    exact h.not_shareable hq hb (hfull hb) hcovers hshare

/-! ## Where a field goes -/

@[simp] theorem isBool_after (last p : Placed) : (after last p).isBool = p.isBool := by
  unfold after
  split <;> rfl

@[simp] theorem size_after (last p : Placed) : (after last p).size = p.size := by
  unfold after
  split <;> rfl

theorem stop_after (last p : Placed) : (after last p).stop = (after last p).offset + p.size := by
  rw [stop, size_after]

theorem offset_after_of_not_bool (hp : p.isBool = false) (last : Placed) :
    (after last p).offset = last.stop + padding last.stop p.size := by
  rw [after_of_not_shares (by simp [hp])]

theorem offset_after_of_shares (hp : p.isBool = true) (h : last.isBool = true ∧ last.bit < 7) :
    (after last p).offset = last.offset := by
  rw [after_of_shares (by simp [hp, h])]

/-- A bool that cannot share the byte before goes directly behind it. -/
theorem offset_after_of_not_shares (hp : p.isBool = true) (hsize : p.size = 1)
    (h : ¬ (last.isBool = true ∧ last.bit < 7)) : (after last p).offset = last.stop := by
  rw [after_of_not_shares (by simpa [hp] using h), hsize]
  simp [padding_of_dvd]

/-- No place below the one where the search ends is free: a field that was passed is in the way. -/
theorem exists_covers_of_chain (hp : p.isBool = false) (hsize : 0 < p.size)
    (hw : ∀ q ∈ front ++ [last], q.WellPlaced)
    (hchain : (front ++ [last]).IsChain fun a b => b.offset < (after a p).stop)
    (hstart : ∀ q ∈ (front ++ [last]).head?, q.offset ≤ o) (hdvd : p.size ∣ o)
    (hend : o < (after last p).offset) :
    ∃ q ∈ front ++ [last], ∃ byte, o ≤ byte ∧ byte < o + p.size ∧ q.covers byte = true := by
  -- Behind a field, the next multiple of the size is the first place there is.
  have hbehind : ∀ q : Placed, o < (after q p).offset → o < q.stop := by
    intro q hlt
    by_contra hle
    rw [offset_after_of_not_bool hp] at hlt
    exact absurd (add_padding_le hsize hdvd (not_lt.1 hle)) (not_le.2 hlt)
  induction front with
  | nil =>
    refine ⟨last, by simp, o, le_rfl, by omega, covers_iff.2 ⟨hstart last rfl, hbehind last hend⟩⟩
  | cons a front ih =>
    rw [List.cons_append] at hw hchain hstart ⊢
    obtain ⟨hwa, hws⟩ := List.forall_mem_cons.1 hw
    obtain ⟨hnext, hrest⟩ := List.isChain_cons.1 hchain
    by_cases hin : o < a.stop
    · exact ⟨a, by simp, o, le_rfl, by omega, covers_iff.2 ⟨hstart a rfl, hin⟩⟩
    have hplace : (after a p).offset ≤ o := not_lt.1 fun hlt => hin (hbehind a hlt)
    obtain ⟨b, hb⟩ : ∃ b, (front ++ [last]).head? = some b := by cases front <;> simp
    have hbstop := hnext b hb
    rw [stop_after] at hbstop
    by_cases hbo : b.offset ≤ o
    · obtain ⟨q, hq, hcovers⟩ := ih hws hrest (by rw [hb]; rintro _ ⟨⟩; exact hbo)
      exact ⟨q, List.mem_cons_of_mem _ hq, hcovers⟩
    · have hmem : b ∈ front ++ [last] := List.mem_of_mem_head? hb
      have hcovers := (hws b hmem).covers_offset
      exact ⟨b, List.mem_cons_of_mem _ hmem, b.offset, by omega, by omega, hcovers⟩

/-- No byte below the one where the search for a bool's place ends can take it. -/
theorem exists_full_of_chain (hp : p.isBool = true) (hsize : p.size = 1)
    (hchain : (front ++ [last]).IsChain fun a b => b.offset < (after a p).stop)
    (hstart : ∀ q ∈ (front ++ [last]).head?, q.offset ≤ o) (hend : o < (after last p).offset) :
    ∃ q ∈ front ++ [last], q.covers o = true ∧ (q.isBool = true → ¬ q.bit < 7) := by
  induction front with
  | nil =>
    have hlast := hstart last rfl
    by_cases hshares : last.isBool = true ∧ last.bit < 7
    · rw [offset_after_of_shares hp hshares] at hend
      omega
    · rw [offset_after_of_not_shares hp hsize hshares] at hend
      exact ⟨last, by simp, covers_iff.2 ⟨hlast, hend⟩, fun hb hbit => hshares ⟨hb, hbit⟩⟩
  | cons a front ih =>
    rw [List.cons_append] at hchain hstart ⊢
    obtain ⟨hnext, hrest⟩ := List.isChain_cons.1 hchain
    have ha : a.offset ≤ o := hstart a rfl
    obtain ⟨b, hb⟩ : ∃ b, (front ++ [last]).head? = some b := by cases front <;> simp
    have hbstop := hnext b hb
    rw [stop_after, hsize] at hbstop
    -- If the next field does not begin above the byte, the search goes on with it.
    have hgo : b.offset ≤ o →
        ∃ q ∈ a :: (front ++ [last]), q.covers o = true ∧ (q.isBool = true → ¬ q.bit < 7) := by
      intro hbo
      obtain ⟨q, hq, hfull⟩ := ih hrest (by rw [hb]; rintro _ ⟨⟩; exact hbo)
      exact ⟨q, List.mem_cons_of_mem _ hq, hfull⟩
    by_cases hshares : a.isBool = true ∧ a.bit < 7
    · rw [offset_after_of_shares hp hshares] at hbstop
      exact hgo (by omega)
    · rw [offset_after_of_not_shares hp hsize hshares] at hbstop
      by_cases hin : o < a.stop
      · exact ⟨a, by simp, covers_iff.2 ⟨ha, hin⟩, fun hb hbit => hshares ⟨hb, hbit⟩⟩
      · exact hgo (by omega)

/-! ## What an insertion finds -/

/-- All that stands before a place ends by then. -/
theorem Arranged.stop_le (h : Arranged (front ++ last :: rest)) (hq : q ∈ front ++ [last]) :
    q.stop ≤ last.stop := by
  rcases List.mem_append.1 hq with hq | hq
  · have hbefore := (List.pairwise_append.1 h.ordered).2.2 q hq last (by simp)
    exact hbefore.stop_le (h.wellPlaced q (by simp [hq])) (h.wellPlaced last (by simp))
  · rw [List.mem_singleton.1 hq]

/-- All that stands behind a place begins after it. -/
theorem Arranged.free_rest (h : Arranged (front ++ last :: rest))
    (hnext : ∀ next ∈ rest.head?, o ≤ next.offset) (hbyte : byte < o) : Free rest byte := by
  have hrest := (List.pairwise_cons.1 (List.pairwise_append.1 h.ordered).2.1).2
  intro q hq
  refine covers_eq_false_iff.2 (.inl (hbyte.trans_le ?_))
  cases rest with
  | nil => simp at hq
  | cons next more =>
    have hle := hnext next rfl
    rcases List.mem_cons.1 hq with rfl | hq
    · exact hle
    · exact hle.trans ((List.pairwise_cons.1 hrest).1 q hq).offset_le

/-- The bytes between a field and the next one are free. -/
theorem Arranged.free_between (h : Arranged (front ++ last :: rest))
    (hnext : ∀ next ∈ rest.head?, o ≤ next.offset) (hle : last.stop ≤ byte) (hlt : byte < o) :
    Free (front ++ last :: rest) byte := by
  intro q hq
  rw [List.append_cons, List.mem_append] at hq
  rcases hq with hq | hq
  · exact covers_eq_false_iff.2 (.inr ((h.stop_le hq).trans hle))
  · exact h.free_rest hnext hlt q hq

/-- Only bools cover the byte of a bool. -/
theorem Arranged.isBool_of_covers (h : Arranged (front ++ last :: rest)) (hb : last.isBool = true)
    (hrest : Free rest last.offset) (hq : q ∈ front ++ last :: rest)
    (hcovers : q.covers last.offset = true) : q.isBool = true := by
  rw [List.append_cons, List.mem_append, List.mem_append, List.mem_singleton] at hq
  rcases hq with (hq | rfl) | hq
  · rcases (List.pairwise_append.1 h.ordered).2.2 q hq last (by simp) with hstop | hbool
    · exact absurd (covers_iff.1 hcovers).2 (not_lt.2 hstop)
    · exact hbool.1
  · exact hb
  · exact absurd hcovers (by simp [hrest q hq])

theorem boolsAt_append (l l' : List Placed) (byte : Nat) :
    boolsAt (l ++ l') byte = boolsAt l byte ++ boolsAt l' byte :=
  List.filter_append l l'

theorem boolsAt_eq_nil (h : Free l byte) : boolsAt l byte = [] :=
  List.filter_eq_nil_iff.2 fun q hq => by simp [h q hq]

theorem boolsAt_cons_of_pos (h : q.isBool = true ∧ q.covers byte = true) (l : List Placed) :
    boolsAt (q :: l) byte = q :: boolsAt l byte :=
  List.filter_cons_of_pos (by simp [h])

theorem boolsAt_cons_of_neg (h : ¬ (q.isBool = true ∧ q.covers byte = true)) (l : List Placed) :
    boolsAt (q :: l) byte = boolsAt l byte :=
  List.filter_cons_of_neg (by simpa using h)

/-- If no field behind a bool is in its byte, the bools there are those on its bit and below. -/
theorem Compact.length_boolsAt (h : Compact (front ++ last :: rest)) (hb : last.isBool = true)
    (hrest : Free rest last.offset) :
    (boolsAt (front ++ last :: rest) last.offset).length = last.bit + 1 := by
  have hcovers := (h.wellPlaced last (by simp)).covers_offset
  have hsplit : boolsAt (front ++ last :: rest) last.offset =
      boolsAt front last.offset ++ [last] := by
    rw [boolsAt_append, boolsAt_cons_of_pos ⟨hb, hcovers⟩, boolsAt_eq_nil hrest]
  have hbits := h.bits last.offset
  rw [hsplit, List.map_append, List.length_append, List.length_singleton, List.range_succ] at hbits
  have hlast := List.append_inj_right hbits (by simp)
  rw [hsplit, List.length_append, List.length_singleton]
  simpa using hlast.symm

theorem Compact.offset_le_of_head (h : Compact (front ++ last :: rest)) (byte : Nat) :
    ∀ q ∈ (front ++ [last]).head?, q.offset ≤ byte := by
  intro q hq
  have hzero : q.offset = 0 := by
    apply h.starts
    cases front <;> simpa using hq
  omega

theorem mem_of_mem_passed (hq : q ∈ front ++ [last]) (rest : List Placed) :
    q ∈ front ++ last :: rest := by
  rw [List.append_cons]
  exact List.mem_append_left _ hq

/-- The place behind the last field that is passed is the lowest there is. -/
theorem Compact.aligned_after (h : Compact (front ++ last :: rest)) (hb : p.isBool = false)
    (hp : p.size = p.field.kind.size)
    (hnext : ∀ next ∈ rest.head?, (after last p).stop ≤ next.offset)
    (hchain : (front ++ [last]).IsChain fun a b => b.offset < (after a p).stop) :
    IsLeast {o | p.size ∣ o ∧
      ∀ byte, o ≤ byte → byte < o + p.size → Free (front ++ last :: rest) byte}
      (after last p).offset := by
  refine ⟨⟨?_, fun byte hle hlt => ?_⟩, ?_⟩
  · simpa using (wellPlaced_after last hp).dvd_offset
  · refine h.free_between hnext (le_trans ?_ hle) (stop_after last p ▸ hlt)
    rw [offset_after_of_not_bool hb]
    exact Nat.le_add_right _ _
  · rintro o ⟨hdvd, hspace⟩
    by_contra hlt
    obtain ⟨q, hq, byte, hle, hlt, hcovers⟩ := exists_covers_of_chain hb (size_pos_of_size_eq hp)
      (fun q hq => h.wellPlaced q (mem_of_mem_passed hq rest)) hchain (h.offset_le_of_head o) hdvd
      (not_le.1 hlt)
    exact absurd hcovers (by simp [hspace byte hle hlt q (mem_of_mem_passed hq rest)])

/-- The byte where the search for a bool's place ends is the lowest that can take it, and the bit is
the first that is left. -/
theorem Compact.shared_after (h : Compact (front ++ last :: rest)) (hb : p.isBool = true)
    (hp : p.size = p.field.kind.size)
    (hnext : ∀ next ∈ rest.head?, (after last p).stop ≤ next.offset)
    (hchain : (front ++ [last]).IsChain fun a b => b.offset < (after a p).stop) :
    (after last p).bit = (boolsAt (front ++ last :: rest) (after last p).offset).length ∧
      IsLeast {byte | Free (front ++ last :: rest) byte ∨ Shareable (front ++ last :: rest) byte}
        (after last p).offset := by
  have hsize := size_eq_one hp hb
  have hin : (after last p).offset < (after last p).stop :=
    (wellPlaced_after last hp).offset_lt_stop
  have hlower : (after last p).offset ∈ lowerBounds
      {byte | Free (front ++ last :: rest) byte ∨ Shareable (front ++ last :: rest) byte} := by
    intro byte havailable
    by_contra hlt
    obtain ⟨q, hq, hcovers, hfull⟩ :=
      exists_full_of_chain hb hsize hchain (h.offset_le_of_head byte) (not_le.1 hlt)
    exact h.not_available (mem_of_mem_passed hq rest) hcovers hfull havailable
  by_cases hshares : last.isBool = true ∧ last.bit < 7
  · have hoffset := offset_after_of_shares hb hshares
    have hrest : Free rest last.offset := h.free_rest hnext (hoffset ▸ hin)
    have hlength := h.length_boolsAt hshares.1 hrest
    rw [hoffset, hlength]
    refine ⟨?_, .inr ⟨fun q => h.isBool_of_covers hshares.1 hrest, ?_⟩, hoffset ▸ hlower⟩
    · rw [after_of_shares (by simp [hb, hshares])]
    · rw [hlength]
      omega
  · have hoffset := offset_after_of_not_shares hb hsize hshares
    have hspace := h.free_between hnext hoffset.ge hin
    refine ⟨?_, .inl hspace, hlower⟩
    rw [boolsAt_eq_nil hspace, after_of_not_shares (by simpa [hb] using hshares)]
    rfl

theorem Compact.greedy_after (h : Compact (front ++ last :: rest)) (hp : p.size = p.field.kind.size)
    (hnext : ∀ next ∈ rest.head?, (after last p).stop ≤ next.offset)
    (hchain : (front ++ [last]).IsChain fun a b => b.offset < (after a p).stop) :
    Greedy (front ++ last :: rest) (after last p) := by
  refine ⟨fun hb => ?_, fun hb => ?_⟩
  · rw [size_after]
    have hbit := (wellPlaced_after last hp).bit_eq_zero hb
    exact ⟨hbit, h.aligned_after (isBool_after last p ▸ hb) hp hnext hchain⟩
  · exact h.shared_after (isBool_after last p ▸ hb) hp hnext hchain

/-- No needless gap comes about where a field is put behind another, if it is on the next bit. -/
theorem Compact.put (h : Compact (front ++ last :: rest)) (hq : q.WellPlaced)
    (hlast : Before last q) (hnext : ∀ next ∈ rest.head?, q.stop ≤ next.offset)
    (hbit : q.isBool = true → q.bit = (boolsAt (front ++ last :: rest) q.offset).length) :
    Compact (front ++ last :: q :: rest) := by
  refine ⟨h.toArranged.put hq hlast hnext, ?_, fun byte => ?_⟩
  · intro r hr
    apply h.starts
    cases front <;> simpa using hr
  · have hold := h.bits byte
    rw [List.append_cons, boolsAt_append] at hold ⊢
    by_cases hin : q.isBool = true ∧ q.covers byte = true
    · obtain rfl := (hq.covers_iff_offset hin.1).1 hin.2
      have hnone := boolsAt_eq_nil (h.free_rest hnext hq.offset_lt_stop)
      have hcount := hbit hin.1
      rw [List.append_cons, boolsAt_append, hnone, List.append_nil] at hcount
      rw [hnone, List.append_nil] at hold
      rw [boolsAt_cons_of_pos hin, hnone, List.map_append, hold, List.length_append,
        List.length_singleton, List.range_succ, ← hcount]
      rfl
    · rw [boolsAt_cons_of_neg hin, hold]

theorem insert_nil (p : Placed) : p.insert [] = [p.unplaced] := rfl

theorem compact_unplaced (hp : p.size = p.field.kind.size) : Compact [p.unplaced] := by
  refine ⟨insert_nil p ▸ arranged_nil.insert hp, ?_, fun byte => ?_⟩
  · rintro _ ⟨⟩
    rfl
  · by_cases hin : p.unplaced.isBool = true ∧ p.unplaced.covers byte = true
    · rw [boolsAt_cons_of_pos hin]
      rfl
    · rw [boolsAt_cons_of_neg hin]
      rfl

/-- The first field goes to the first byte. -/
theorem greedy_unplaced (p : Placed) : Greedy [] p.unplaced := by
  have hfree : ∀ byte, Free [] byte := fun byte q hq => by simp at hq
  refine ⟨fun _ => ⟨rfl, ⟨Nat.dvd_zero _, fun byte _ _ => hfree byte⟩, ?_⟩,
    fun _ => ⟨rfl, .inl (hfree _), ?_⟩⟩
  · exact fun _ _ => Nat.zero_le _
  · exact fun _ _ => Nat.zero_le _

/-- An insertion adds one field, at the lowest place there is. -/
theorem Compact.insert (h : Compact l) (hp : p.size = p.field.kind.size) :
    Compact (p.insert l) ∧
      ∃ q, (p.insert l).Perm (q :: l) ∧ q.ordinal = p.ordinal ∧ Greedy l q := by
  by_cases hl : l = []
  · subst hl
    exact ⟨compact_unplaced hp, p.unplaced, .refl _, rfl, greedy_unplaced p⟩
  · obtain ⟨front, last, rest, rfl, hins, hnext, hchain⟩ := insert_split p hl
    have hgreedy := h.greedy_after hp hnext hchain
    rw [hins]
    refine ⟨?_, after last p, ?_, ordinal_after last p, hgreedy⟩
    · exact h.put (wellPlaced_after last hp) (before_after last p) hnext
        fun hb => (hgreedy.shared hb).1
    · rw [List.append_cons, List.append_cons front last rest]
      exact List.perm_middle

end Placed

namespace Layout

open Placed

variable {l : List Placed}

theorem compact_place (hl : ∀ p ∈ l, p.size = p.field.kind.size) : Compact (place l) := by
  induction l using List.reverseRecOn with
  | nil => exact compact_nil
  | append_singleton l p ih =>
    rw [place_concat]
    exact ((ih fun q hq => hl q (List.mem_append_left _ hq)).insert (hl p (by simp))).1

/-- Every field has the lowest place that those with smaller ordinals leave to it. -/
theorem greedy_place (hl : ∀ p ∈ l, p.size = p.field.kind.size)
    (hsorted : l.Pairwise (fun a b => a.ordinal < b.ordinal)) :
    ∀ p ∈ place l, Greedy ((place l).filter (·.ordinal.toNat < p.ordinal.toNat)) p := by
  -- From the end: the last field comes behind all others, and is not among those below any of them.
  induction l using List.reverseRecOn with
  | nil => simp [place]
  | append_singleton l p ih =>
    obtain ⟨hfront, -, hlast⟩ := List.pairwise_append.1 hsorted
    have hsizes : ∀ q ∈ l, q.size = q.field.kind.size :=
      fun q hq => hl q (List.mem_append_left _ hq)
    have hbelow : ∀ q ∈ place l, q.ordinal.toNat < p.ordinal.toNat := by
      intro q hq
      obtain ⟨r, hr, heq⟩ := ordinal_mem_of_mem_place hq
      exact heq ▸ UInt32.lt_iff_toNat_lt.1 (hlast r hr p (by simp))
    obtain ⟨-, new, hperm, hordinal, hnew⟩ := (compact_place hsizes).insert (hl p (by simp))
    rw [place_concat]
    intro q hq
    rcases List.mem_cons.1 (hperm.mem_iff.1 hq) with rfl | hq
    · rw [hordinal, filter_insert_of_le le_rfl,
        List.filter_eq_self.2 fun r hr => decide_eq_true (hbelow r hr)]
      exact hnew
    · rw [filter_insert_of_le (hbelow q hq).le]
      exact ih hsizes hfront q hq

/-- A layout has the fields of the struct, each with the ordinal it is given and at the lowest place
that the fields with smaller ordinals leave to it. -/
theorem greedy_of_ofStruct {s : Module.Struct} {layout : Layout} (h : ofStruct s = .ok layout) :
    (∃ assigned, assignOrdinals (some 0) s.fields = .ok assigned ∧
      assigned.map Placed.field = s.fields ∧ (layout.fields.map unplaced).Perm assigned) ∧
    ∀ p ∈ layout.fields,
      Greedy (layout.fields.filter (·.ordinal.toNat < p.ordinal.toNat)) p := by
  refine ⟨numbered_of_ofStruct h, ?_⟩
  obtain ⟨assigned, ha, hn, hp⟩ := assigned_of_ofStruct h
  rw [hp]
  refine greedy_place (fun p hp => ?_) ((pairwise_byOrdinal_lt_iff assigned).2 hn)
  exact (numbered_of_assignOrdinals ha p ((perm_byOrdinal assigned).mem_iff.1 hp)).1

/-- The last field of `header` goes into the gap behind the two bools, which share a byte. -/
theorem greedy_header :
    ofStruct header = .ok headerLayout ∧
    (∃ assigned, assignOrdinals (some 0) header.fields = .ok assigned ∧
      assigned.map Placed.field = header.fields ∧
      (headerLayout.fields.map unplaced).Perm assigned) ∧
    ∀ p ∈ headerLayout.fields,
      Greedy (headerLayout.fields.filter (·.ordinal.toNat < p.ordinal.toNat)) p :=
  ⟨ofStruct_header, greedy_of_ofStruct ofStruct_header⟩

end Layout

end WireSchema
