import WireSchema.Layout.Bytes
import WireSchema.Proofs.Layout.Placement

/-!
# Layouts and their bytes

The size of a struct is the least multiple of 8 behind all fields (`Layout.isLeast_totalSize`).
`Layout.fill` enters fields one after the other and compares each with a running limit and with the
one directly before. `Layout.Entered` is what holds of the bytes between two fields, and from it
follows that these comparisons find all overlaps and that no byte marked as padding is covered later
(`Layout.Entered.fill_eq_ok`, `Layout.Entered.fill_eq_error`). Fields that are in order and not in
each other's way pass every check of `Layout.bytes` (`Layout.bytes_eq_ok`), and arranged fields are
such fields.
-/

namespace WireSchema

open Placed

variable {layout : Layout} {fields l : List Placed} {a b p : Placed} {info : ByteInfo}
  {infos : List ByteInfo} {byte n total : Nat}

namespace Placed

/-- Whether a byte lies in a field. -/
def covers (p : Placed) (byte : Nat) : Bool :=
  p.offset ≤ byte && byte < p.stop

theorem covers_iff : p.covers byte = true ↔ p.offset ≤ byte ∧ byte < p.stop := by
  simp [covers]

theorem covers_eq_false_iff : p.covers byte = false ↔ byte < p.offset ∨ p.stop ≤ byte := by
  rw [← Bool.not_eq_true, covers_iff]
  omega

theorem offset_le_stop (p : Placed) : p.offset ≤ p.stop :=
  Nat.le_add_right _ _

/-- The second field begins behind the first, or both are bools that begin at one byte. -/
def Admits (a b : Placed) : Prop :=
  a.stop ≤ b.offset ∨ a.isBool ∧ b.isBool ∧ a.offset = b.offset

/-- Bools on different bits of a byte. -/
structure BitsApart (a b : Placed) : Prop where
  left : a.isBool
  right : b.isBool
  ne : a.bit ≠ b.bit
  left_le : a.bit ≤ 7
  right_le : b.bit ≤ 7

/-- Fields that have a byte in common are bools that begin there, on different bits. -/
def Compatible (a b : Placed) : Prop :=
  ∀ byte, a.covers byte = true → b.covers byte = true → a.offset = b.offset ∧ BitsApart a b

theorem Before.compatible (ha : a.WellPlaced) (hb : b.WellPlaced) (h : Before a b) :
    a.Compatible b := by
  intro byte hca hcb
  rw [covers_iff] at hca hcb
  rcases h with h | ⟨hab, hbb, ho, hbit⟩
  · omega
  · exact ⟨ho, hab, hbb, hbit.ne, ha.bit_le, hb.bit_le⟩

theorem Compatible.admits (h : a.Compatible b) (hb : 0 < b.size) (ho : a.offset ≤ b.offset) :
    a.Admits b := by
  by_cases hstop : a.stop ≤ b.offset
  · exact .inl hstop
  · have hb' : b.offset < b.stop := by
      unfold stop
      omega
    obtain ⟨hsame, hbits⟩ := h b.offset (covers_iff.2 ⟨ho, by omega⟩) (covers_iff.2 ⟨le_rfl, hb'⟩)
    exact .inr ⟨hbits.left, hbits.right, hsame⟩

end Placed

namespace Layout

/-! ## Sizes -/

theorem foldl_max_le_iff {stops : List Nat} {a : Nat} :
    stops.foldl max a ≤ n ↔ a ≤ n ∧ ∀ x ∈ stops, x ≤ n := by
  induction stops generalizing a with
  | nil => simp
  | cons x rest ih =>
    rw [List.foldl_cons, ih, Nat.max_le, List.forall_mem_cons, and_assoc]

theorem usedSize_le_iff : layout.usedSize ≤ n ↔ ∀ p ∈ layout.fields, p.stop ≤ n := by
  unfold usedSize
  rw [foldl_max_le_iff, List.forall_mem_map]
  exact and_iff_right (Nat.zero_le n)

theorem stop_le_totalSize (h : p ∈ layout.fields) : p.stop ≤ layout.totalSize :=
  (usedSize_le_iff.1 le_rfl p h).trans (Nat.le_add_right _ _)

theorem isLeast_totalSize (layout : Layout) :
    IsLeast {n | 8 ∣ n ∧ ∀ p ∈ layout.fields, p.stop ≤ n} layout.totalSize := by
  constructor
  · exact ⟨dvd_add_padding _ (by decide), fun p hp => stop_le_totalSize hp⟩
  · rintro n ⟨hdvd, hn⟩
    exact add_padding_le (by decide) hdvd (usedSize_le_iff.2 hn)

/-! ## Entering fields -/

/-- The contents of a byte. -/
def byteAt (fields : List Placed) (byte : Nat) : ByteInfo where
  isPadding := !fields.any (·.covers byte)
  begins := fields.filter (·.offset = byte)

theorem getElem?_markPadding (start stop byte : Nat) :
    (markPadding start stop infos)[byte]? = infos[byte]?.map fun info =>
      if start ≤ byte ∧ byte < stop then { info with isPadding := true } else info := by
  simp [markPadding, List.getElem?_mapIdx]

theorem getElem?_enter (f : Placed) (byte : Nat) :
    (enter f infos)[byte]? = infos[byte]?.map fun info =>
      if f.offset = byte then { info with begins := info.begins ++ [f] } else info := by
  rw [enter, List.getElem?_modify]
  split <;> simp

/-- What is noted once the fields of `done` are entered, `limit` being their end. -/
structure Entered (total : Nat) (done : List Placed) (limit : Nat) (infos : List ByteInfo) :
    Prop where
  length : infos.length = total
  limit_le_iff : ∀ n, limit ≤ n ↔ ∀ p ∈ done, p.stop ≤ n
  bytes : ∀ byte < total, infos[byte]? =
    some ⟨decide (byte < limit) && !done.any (·.covers byte), done.filter (·.offset = byte)⟩
  /-- From the place of the last field on there is no gap below the limit. -/
  dense : ∀ p ∈ done.getLast?, ∀ byte, p.offset ≤ byte → byte < limit →
    done.any (·.covers byte) = true

namespace Entered

theorem nil (total : Nat) : Entered total [] 0 (List.replicate total {}) := by
  refine ⟨List.length_replicate, by simp, fun byte hbyte => ?_, by simp⟩
  rw [List.getElem?_replicate, if_pos hbyte]
  rfl

theorem stop_le (h : Entered total l n infos) (hp : p ∈ l) : p.stop ≤ n :=
  (h.limit_le_iff n).1 le_rfl p hp

theorem not_covers (h : Entered total l n infos) (hbyte : n ≤ byte) :
    l.any (·.covers byte) = false := by
  rw [List.any_eq_false]
  intro p hp hcovers
  have hstop := h.stop_le hp
  have hlt := (covers_iff.1 hcovers).2
  omega

/-- A field that begins behind all others, or where the last one begins, covers no byte that is
marked as padding. -/
theorem step (h : Entered total l n infos)
    (hp : n ≤ p.offset ∨ ∃ last ∈ l.getLast?, last.offset = p.offset) :
    Entered total (l ++ [p]) (max n p.stop) (enter p (markPadding n p.offset infos)) := by
  have hdense : ∀ byte, p.offset ≤ byte → byte < n → l.any (·.covers byte) = true := by
    intro byte hfrom hto
    rcases hp with hp | ⟨last, hlast, ho⟩
    · omega
    · exact h.dense last hlast byte (ho ▸ hfrom) hto
  have hcovers : ∀ byte,
      (l ++ [p]).any (·.covers byte) = (l.any (·.covers byte) || p.covers byte) := by
    simp
  refine ⟨?_, fun k => ?_, fun byte hbyte => ?_, fun last hlast byte hfrom hto => ?_⟩
  · simp [enter, markPadding, h.length]
  · rw [Nat.max_le, h.limit_le_iff]
    simp [or_imp, forall_and]
  · have hpadding : (decide (byte < max n p.stop) && !(l ++ [p]).any (·.covers byte)) =
        if n ≤ byte ∧ byte < p.offset then true
        else decide (byte < n) && !l.any (·.covers byte) := by
      have hstop := p.offset_le_stop
      rw [hcovers]
      by_cases hn : byte < n
      · rw [if_neg (by omega)]
        by_cases ho : p.offset ≤ byte
        · simp [hdense byte ho hn]
        · simp [hn, covers_eq_false_iff.2 (.inl (Nat.lt_of_not_le ho))]
      · have hfree := h.not_covers (Nat.le_of_not_lt hn)
        by_cases ho : p.offset ≤ byte
        · by_cases hs : byte < p.stop
          · simp [hn, covers_iff.2 ⟨ho, hs⟩, Nat.not_lt.2 ho]
          · simp [hn, hs, Nat.not_lt.2 ho]
        · have hs : byte < p.stop := by omega
          have hp : p.covers byte = false := covers_eq_false_iff.2 (.inl (Nat.lt_of_not_le ho))
          simp [Nat.le_of_not_lt hn, hfree, hp, hs, Nat.lt_of_not_le ho]
    have hbegins : (l ++ [p]).filter (·.offset = byte) =
        if p.offset = byte then l.filter (·.offset = byte) ++ [p]
        else l.filter (·.offset = byte) := by
      split <;> simp_all
    rw [getElem?_enter, getElem?_markPadding, h.bytes byte hbyte, hpadding, hbegins]
    split <;> split <;> simp_all
  · obtain rfl : last = p := by simpa using hlast.symm
    rw [hcovers]
    by_cases hn : byte < n
    · simp [hdense byte hfrom hn]
    · have hs : byte < last.stop := by omega
      simp [covers_iff.2 ⟨hfrom, hs⟩]

/-- When all fields are entered, the padding at the end is marked too. -/
theorem markPadding_eq (h : Entered total l n infos) :
    markPadding n infos.length infos = (List.range total).map (byteAt l) := by
  refine List.ext_getElem? fun byte => ?_
  rw [getElem?_markPadding, List.getElem?_map, h.length]
  by_cases hbyte : byte < total
  · rw [h.bytes byte hbyte, List.getElem?_range hbyte]
    by_cases hn : byte < n
    · simp [byteAt, hn, Nat.not_le.2 hn]
    · simp [byteAt, hn, hbyte, Nat.le_of_not_lt hn, h.not_covers (Nat.le_of_not_lt hn)]
  · rw [List.getElem?_eq_none (by rw [h.length]; omega),
      List.getElem?_eq_none (by rw [List.length_range]; omega)]
    rfl

/-- It is enough to compare a field with the limit and with the last field: a bool that shares the
byte of an earlier one shares it with all fields between. -/
theorem admits_iff (h : Entered total l n infos) (hl : l.Pairwise Admits) :
    (∀ a ∈ l, a.Admits p) ↔
      n ≤ p.offset ∨ ∃ last ∈ l.getLast?, last.isBool ∧ p.isBool ∧ last.offset = p.offset := by
  constructor
  · intro hall
    cases hlast : l.getLast? with
    | none =>
      rw [List.getLast?_eq_none_iff] at hlast
      exact .inl ((h.limit_le_iff _).2 (by simp [hlast]))
    | some last =>
      obtain ⟨front, rfl⟩ := List.getLast?_eq_some_iff.1 hlast
      by_cases hshares : last.isBool ∧ p.isBool ∧ last.offset = p.offset
      · exact .inr ⟨last, rfl, hshares⟩
      have hbehind : last.stop ≤ p.offset := (hall last (by simp)).resolve_right hshares
      refine .inl ((h.limit_le_iff _).2 fun a ha => ?_)
      rcases hall a ha with hstop | ⟨hab, hpb, ho⟩
      · exact hstop
      rcases List.mem_append.1 ha with hfront | hself
      · rcases (List.pairwise_append.1 hl).2.2 a hfront last (by simp) with hstop | ⟨-, hlb, ho'⟩
        · exact hstop.trans (last.offset_le_stop.trans hbehind)
        · exact absurd ⟨hlb, hpb, ho'.symm.trans ho⟩ hshares
      · obtain rfl := List.mem_singleton.1 hself
        exact absurd ⟨hab, hpb, ho⟩ hshares
  · rintro (hn | ⟨last, hlast, hlb, hpb, ho⟩) a ha
    · exact .inl ((h.stop_le ha).trans hn)
    · obtain ⟨front, rfl⟩ := List.getLast?_eq_some_iff.1 hlast
      rcases List.mem_append.1 ha with hfront | hself
      · rcases (List.pairwise_append.1 hl).2.2 a hfront last (by simp) with hstop | ⟨hab, -, ho'⟩
        · exact .inl (ho ▸ hstop)
        · exact .inr ⟨hab, hpb, ho'.trans ho⟩
      · obtain rfl := List.mem_singleton.1 hself
        exact .inr ⟨hlb, hpb, ho⟩

/-- The comparison that `fill` makes. -/
theorem admits_iff_compared (h : Entered total l n infos) (hl : l.Pairwise Admits) :
    (∀ a ∈ l, a.Admits p) ↔ ¬ ((p.offset < n && !l.getLast?.any fun last =>
      last.isBool && p.isBool && last.offset = p.offset) = true) := by
  rw [h.admits_iff hl]
  cases l.getLast? with
  | none => simp
  | some last => simp [or_iff_not_imp_left]

theorem fill_cons (h : Entered total l n infos) (hl : l.Pairwise Admits) (hp : ∀ a ∈ l, a.Admits p)
    (ht : p.offset < total) (rest : List Placed) :
    fill n l.getLast? infos (p :: rest) =
      fill (max n p.stop) (l ++ [p]).getLast? (enter p (markPadding n p.offset infos)) rest := by
  rw [fill, if_neg ((h.admits_iff_compared hl).1 hp), if_neg (by rw [h.length]; omega),
    List.getLast?_concat]

theorem fill_cons_eq_error (h : Entered total l n infos) (hl : l.Pairwise Admits)
    (hp : ¬ ∀ a ∈ l, a.Admits p) (rest : List Placed) :
    ∃ previous, fill n l.getLast? infos (p :: rest) =
      .error (.overlap p.offset p.field.name previous) := by
  rw [h.admits_iff_compared hl, not_not] at hp
  exact ⟨_, by rw [fill, if_pos hp]⟩

theorem concat (h : Entered total l n infos) (hl : l.Pairwise Admits) (hp : ∀ a ∈ l, a.Admits p) :
    Entered total (l ++ [p]) (max n p.stop) (enter p (markPadding n p.offset infos)) :=
  h.step (((h.admits_iff hl).1 hp).imp id fun ⟨last, hlast, _, _, ho⟩ => ⟨last, hlast, ho⟩)

/-- Fields that admit those behind them are all entered. -/
theorem fill_eq_ok {rest : List Placed} (h : Entered total l n infos)
    (hl : (l ++ rest).Pairwise Admits) (ht : ∀ p ∈ rest, p.offset < total) :
    fill n l.getLast? infos rest = .ok (some ((List.range total).map (byteAt (l ++ rest)))) := by
  induction rest generalizing l n infos with
  | nil => rw [fill, h.markPadding_eq, List.append_nil]
  | cons p rest ih =>
    obtain ⟨hfront, -, hcross⟩ := List.pairwise_append.1 hl
    have hp : ∀ a ∈ l, a.Admits p := fun a ha => hcross a ha p List.mem_cons_self
    rw [h.fill_cons hfront hp (ht p List.mem_cons_self)]
    rw [List.append_cons l p rest] at hl ⊢
    exact ih (h.concat hfront hp) hl fun q hq => ht q (List.mem_cons_of_mem _ hq)

/-- A field that another one before it does not admit is found. -/
theorem fill_eq_error {rest : List Placed} (h : Entered total l n infos)
    (hfront : l.Pairwise Admits) (hl : ¬ (l ++ rest).Pairwise Admits)
    (ht : ∀ p ∈ rest, p.offset < total) :
    ∃ offset field previous,
      fill n l.getLast? infos rest = .error (.overlap offset field previous) := by
  induction rest generalizing l n infos with
  | nil => exact absurd (by rwa [List.append_nil]) hl
  | cons p rest ih =>
    by_cases hp : ∀ a ∈ l, a.Admits p
    · rw [h.fill_cons hfront hp (ht p List.mem_cons_self)]
      rw [List.append_cons] at hl
      refine ih (h.concat hfront hp) ?_ hl fun q hq => ht q (List.mem_cons_of_mem _ hq)
      exact List.pairwise_append.2 ⟨hfront, List.pairwise_singleton _ _, by simpa using hp⟩
    · exact ⟨_, _, h.fill_cons_eq_error hfront hp rest⟩

end Entered

/-! ## Fields that begin at one byte -/

theorem distinctBits_iff {taken : List Nat} :
    distinctBits taken l = true ↔
      (∀ p ∈ l, p.isBool ∧ p.bit ≤ 7 ∧ p.bit ∉ taken) ∧ l.Pairwise (fun a b => a.bit ≠ b.bit) := by
  induction l generalizing taken with
  | nil => simp [distinctBits]
  | cons f rest ih =>
    rw [List.forall_mem_cons, List.pairwise_cons]
    simp only [distinctBits, Bool.and_eq_true, decide_eq_true_eq, Bool.not_eq_true',
      List.contains_eq_mem, decide_eq_false_iff_not, ih, List.mem_cons, not_or]
    constructor
    · rintro ⟨⟨⟨hb, h7⟩, ht⟩, hall, hpair⟩
      refine ⟨⟨⟨hb, h7, ht⟩, fun p hp => ?_⟩, fun p hp => ?_, hpair⟩
      · exact ⟨(hall p hp).1, (hall p hp).2.1, (hall p hp).2.2.2⟩
      · exact Ne.symm (hall p hp).2.2.1
    · rintro ⟨⟨⟨hb, h7, ht⟩, hall⟩, hne, hpair⟩
      refine ⟨⟨⟨hb, h7⟩, ht⟩, fun p hp => ?_, hpair⟩
      exact ⟨(hall p hp).1, (hall p hp).2.1, Ne.symm (hne p hp), (hall p hp).2.2⟩

/-- Of several fields, each shares its byte with another. -/
theorem distinctBits_iff_pairwise (hlen : 1 < l.length) :
    distinctBits [] l = true ↔ l.Pairwise BitsApart := by
  rw [distinctBits_iff]
  constructor
  · rintro ⟨hall, hne⟩
    refine hne.imp_of_mem fun {a b} ha hb hab => ?_
    exact ⟨(hall a ha).1, (hall b hb).1, hab, (hall a ha).2.1, (hall b hb).2.1⟩
  · intro h
    refine ⟨fun p hp => ?_, h.imp fun hab => hab.ne⟩
    obtain _ | ⟨a, _ | ⟨b, rest⟩⟩ := l
    · simp at hlen
    · simp at hlen
    have hfirst := (List.pairwise_cons.1 h).1
    rcases List.mem_cons.1 hp with rfl | hp
    · have hab := hfirst b List.mem_cons_self
      exact ⟨hab.left, hab.left_le, List.not_mem_nil⟩
    · have hap := hfirst p hp
      exact ⟨hap.right, hap.right_le, List.not_mem_nil⟩

end Layout

/-- Padding begins no field, and several fields are bools on different bits. -/
def ByteInfo.Consistent (info : ByteInfo) : Prop :=
  (info.isPadding = true → info.begins = []) ∧
    (1 < info.begins.length → Layout.distinctBits [] info.begins = true)

namespace Layout

theorem checkByte_eq_ok_iff (offset : Nat) :
    checkByte offset info = .ok () ↔ info.Consistent := by
  unfold checkByte ByteInfo.Consistent
  by_cases h₁ : (info.isPadding && !info.begins.isEmpty) = true
  · rw [if_pos h₁]
    simp only [Bool.and_eq_true, Bool.not_eq_true', List.isEmpty_eq_false_iff] at h₁
    exact iff_of_false (by simp [throw, throwThe, MonadExceptOf.throw]) fun h => h₁.2 (h.1 h₁.1)
  · rw [if_neg h₁]
    have hpad : info.isPadding = true → info.begins = [] := by simpa using h₁
    by_cases h₂ : (info.begins.length > 1 && !distinctBits [] info.begins) = true
    · rw [if_pos h₂]
      simp only [Bool.and_eq_true, decide_eq_true_eq, Bool.not_eq_true'] at h₂
      refine iff_of_false (by simp [throw, throwThe, MonadExceptOf.throw]) fun h => ?_
      exact absurd (h.2 h₂.1) (by simp [h₂.2])
    · rw [if_neg h₂]
      exact iff_of_true rfl ⟨hpad, by simpa using h₂⟩

theorem checkBytes_eq_ok_iff (offset : Nat) :
    checkBytes offset infos = .ok () ↔ ∀ info ∈ infos, info.Consistent := by
  induction infos generalizing offset with
  | nil => simp [checkBytes]
  | cons info rest ih =>
    rw [checkBytes, List.forall_mem_cons, ← checkByte_eq_ok_iff offset, ← ih (offset + 1)]
    cases checkByte offset info with
    | error cause => simp [bind, Except.bind]
    | ok _ => simp [bind, Except.bind]

theorem covers_of_mem_begins (hp : p ∈ (byteAt fields byte).begins) (hsize : 0 < p.size) :
    p.covers byte = true := by
  have ho : p.offset = byte := by simpa using (List.mem_filter.1 hp).2
  refine covers_iff.2 ⟨ho.le, ?_⟩
  unfold stop
  omega

theorem consistent_byteAt (sized : ∀ p ∈ fields, 0 < p.size) (h : fields.Pairwise Compatible)
    (byte : Nat) : (byteAt fields byte).Consistent := by
  have hsub : (byteAt fields byte).begins.Sublist fields := List.filter_sublist
  have hcovers : ∀ p ∈ (byteAt fields byte).begins, p.covers byte = true := fun p hp =>
    covers_of_mem_begins hp (sized p (hsub.subset hp))
  constructor
  · intro hpad
    refine List.eq_nil_iff_forall_not_mem.2 fun p hp => ?_
    simp only [byteAt, Bool.not_eq_true', List.any_eq_false] at hpad
    exact hpad p (hsub.subset hp) (hcovers p hp)
  · intro hlen
    refine (distinctBits_iff_pairwise hlen).2 ?_
    exact (h.sublist hsub).imp_of_mem fun {a b} ha hb hab =>
      (hab byte (hcovers a ha) (hcovers b hb)).2

theorem offset_lt_totalSize (sized : ∀ p ∈ layout.fields, 0 < p.size) :
    ∀ p ∈ layout.fields, p.offset < layout.totalSize := by
  intro p hp
  have hstop := stop_le_totalSize hp
  have hsize := sized p hp
  unfold stop at hstop
  omega

/-- Fields in order of which no two are in each other's way are described byte by byte. -/
theorem bytes_eq_ok (sized : ∀ p ∈ layout.fields, 0 < p.size)
    (ordered : layout.fields.Pairwise fun a b => a.offset ≤ b.offset)
    (compatible : layout.fields.Pairwise Compatible) :
    layout.bytes = .ok (some ((List.range layout.totalSize).map (byteAt layout.fields))) := by
  have hadmits : layout.fields.Pairwise Admits :=
    (ordered.and compatible).imp_of_mem fun {a b} _ hb h => h.2.admits (sized b hb) h.1
  have hfill := (Entered.nil layout.totalSize).fill_eq_ok hadmits (offset_lt_totalSize sized)
  have hcheck : checkBytes 0 ((List.range layout.totalSize).map (byteAt layout.fields)) = .ok () :=
    (checkBytes_eq_ok_iff 0).2
      (List.forall_mem_map.2 fun byte _ => consistent_byteAt sized compatible byte)
  rw [List.getLast?_nil, List.nil_append] at hfill
  rw [bytes, hfill]
  simp only [hcheck]

theorem bytes_of_arranged (h : Arranged layout.fields) :
    layout.bytes = .ok (some ((List.range layout.totalSize).map (byteAt layout.fields))) := by
  refine bytes_eq_ok (fun p hp => (h.wellPlaced p hp).size_pos) (h.ordered.imp Before.offset_le) ?_
  exact h.ordered.imp_of_mem fun {a b} ha hb hab =>
    hab.compatible (h.wellPlaced a ha) (h.wellPlaced b hb)

end Layout

end WireSchema
