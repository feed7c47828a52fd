import WireSchema.Proofs.Layout.Valid

/-!
# The byte check is exact

A layout may be changed after it was made, so that `Layout.bytes` is asked about any fields at any
places. It accepts exactly the layouts whose fields are in order and not in each other's way, and
describes every byte of them (`Layout.bytes_exact`). The scan and the check of single bytes share
the work: the scan finds fields that overlap, and the bytes tell whether bools that begin together
are on different bits.
-/

namespace WireSchema

open Placed

variable {layout : Layout} {fields : List Placed} {a b : Placed} {infos : List ByteInfo}
  {cause : LayoutCause} {offset : Nat}

namespace Placed

theorem Admits.offset_le (h : a.Admits b) : a.offset ≤ b.offset := by
  rcases h with hstop | ⟨-, -, ho⟩
  · exact a.offset_le_stop.trans hstop
  · exact ho.le

end Placed

namespace Layout

/-- Where every byte is consistent, fields that the scan lets pass are not in each other's way. -/
theorem compatible_of_admits (h : fields.Pairwise Admits)
    (hc : ∀ p ∈ fields, (byteAt fields p.offset).Consistent) : fields.Pairwise Compatible := by
  rw [List.pairwise_iff_forall_sublist]
  intro a b hab byte hca hcb
  rw [covers_iff] at hca hcb
  rcases List.pairwise_iff_forall_sublist.1 h hab with hstop | ⟨-, -, ho⟩
  · omega
  -- The two begin at one byte, so both are among the fields that begin there.
  have hbegins : [a, b].Sublist (byteAt fields a.offset).begins := by
    have hfilter : [a, b].filter (·.offset = a.offset) = [a, b] := by simp [ho]
    exact hfilter ▸ hab.filter _
  have hlen : 1 < (byteAt fields a.offset).begins.length := hbegins.length_le
  have hbits := (distinctBits_iff_pairwise hlen).1 ((hc a (hab.subset (by simp))).2 hlen)
  exact ⟨ho, List.pairwise_iff_forall_sublist.1 hbits hbegins⟩

theorem checkBytes_eq_error (h : checkBytes offset infos = .error cause) :
    (∃ info ∈ infos, info.isPadding = true ∧ info.begins ≠ []) ∨
      ∃ byte names, cause = .sharedByte byte names := by
  induction infos generalizing offset with
  | nil => cases h
  | cons info rest ih =>
    rw [checkBytes] at h
    cases hi : checkByte offset info with
    | ok _ =>
      rw [hi] at h
      rcases ih h with ⟨other, hother, hpad⟩ | hshared
      · exact .inl ⟨other, List.mem_cons_of_mem _ hother, hpad⟩
      · exact .inr hshared
    | error cause' =>
      rw [hi] at h
      cases h
      unfold checkByte at hi
      split at hi
      · next hpad =>
        simp only [Bool.and_eq_true, Bool.not_eq_true', List.isEmpty_eq_false_iff] at hpad
        exact .inl ⟨info, List.mem_cons_self, hpad⟩
      · split at hi
        · cases hi
          exact .inr ⟨_, _, rfl⟩
        · cases hi

/-- A layout is accepted, or refused for fields that overlap or that cannot share a byte. No field
begins outside the struct or at a byte marked as padding. -/
theorem bytes_cases (sized : ∀ p ∈ layout.fields, 0 < p.size) :
    (layout.bytes = .ok (some ((List.range layout.totalSize).map (byteAt layout.fields))) ∧
      layout.fields.Pairwise Admits ∧ layout.fields.Pairwise Compatible) ∨
    (∃ offset field previous,
      layout.bytes = .error ⟨layout.struct.name, .overlap offset field previous⟩) ∨
    ∃ offset names, layout.bytes = .error ⟨layout.struct.name, .sharedByte offset names⟩ := by
  have hinside := offset_lt_totalSize sized
  by_cases hadmits : layout.fields.Pairwise Admits
  · have hfill := (Entered.nil layout.totalSize).fill_eq_ok hadmits hinside
    rw [List.getLast?_nil, List.nil_append] at hfill
    rw [bytes, hfill]
    cases hcheck : checkBytes 0 ((List.range layout.totalSize).map (byteAt layout.fields)) with
    | ok _ =>
      refine .inl ⟨by simp only [hcheck], hadmits, compatible_of_admits hadmits fun p hp => ?_⟩
      exact (checkBytes_eq_ok_iff 0).1 hcheck _
        (List.mem_map_of_mem (List.mem_range.2 (hinside p hp)))
    | error cause =>
      rcases checkBytes_eq_error hcheck with ⟨info, hinfo, hpad, hbegins⟩ | ⟨offset, names, rfl⟩
      · -- A field that begins at a byte covers it, so the byte was not marked.
        obtain ⟨byte, -, rfl⟩ := List.mem_map.1 hinfo
        obtain ⟨p, hp⟩ := List.exists_mem_of_ne_nil _ hbegins
        have hmem : p ∈ layout.fields := (List.mem_filter.1 hp).1
        simp only [byteAt, Bool.not_eq_true', List.any_eq_false] at hpad
        exact absurd (covers_of_mem_begins hp (sized p hmem)) (hpad p hmem)
      · exact .inr (.inr ⟨offset, names, by simp only [hcheck]⟩)
  · obtain ⟨offset, field, previous, hfill⟩ :=
      (Entered.nil layout.totalSize).fill_eq_error .nil hadmits hinside
    rw [List.getLast?_nil] at hfill
    exact .inr (.inl ⟨offset, field, previous, by rw [bytes, hfill]⟩)

/-- The bytes of a layout that is accepted. -/
theorem of_bytes_eq_ok (sized : ∀ p ∈ layout.fields, 0 < p.size)
    (h : layout.bytes = .ok (some infos)) :
    infos = (List.range layout.totalSize).map (byteAt layout.fields) ∧
      layout.fields.Pairwise Admits ∧ layout.fields.Pairwise Compatible := by
  rcases bytes_cases sized with ⟨hok, hfields⟩ | ⟨_, _, _, herror⟩ | ⟨_, _, herror⟩
  · exact ⟨Option.some.inj (Except.ok.inj (h.symm.trans hok)), hfields⟩
  · cases h.symm.trans herror
  · cases h.symm.trans herror

/-- For fields of any places, the byte check accepts a layout exactly if the fields come in the
order of their offsets and any two that have a byte in common are bools that begin there, on
different bits. It then tells of each byte whether no field covers it and which fields begin there.
Otherwise it names an overlap or a byte that cannot be shared. Fields begin and end inside the
struct, so that the scan stays there and comes to a result. -/
theorem bytes_exact (layout : Layout) (sized : ∀ p ∈ layout.fields, 1 ≤ p.size) :
    ((∃ infos, layout.bytes = .ok (some infos)) ↔
      layout.fields.Pairwise (fun a b => a.offset ≤ b.offset) ∧
        layout.fields.Pairwise Compatible) ∧
    (∀ infos, layout.bytes = .ok (some infos) →
      infos.length = layout.totalSize ∧
      ∀ byte info, infos[byte]? = some info →
        (info.isPadding = true ↔ ∀ p ∈ layout.fields, p.covers byte = false) ∧
        info.begins = layout.fields.filter (·.offset = byte)) ∧
    (∀ fault, layout.bytes = .error fault →
      (∃ offset field previous, fault = ⟨layout.struct.name, .overlap offset field previous⟩) ∨
        ∃ offset names, fault = ⟨layout.struct.name, .sharedByte offset names⟩) ∧
    layout.bytes ≠ .ok none ∧
    ∀ p ∈ layout.fields, p.offset < layout.totalSize ∧ p.stop ≤ layout.totalSize := by
  refine ⟨⟨?_, ?_⟩, fun infos h => ?_, fun fault h => ?_, fun h => ?_, fun p hp => ?_⟩
  · rintro ⟨infos, h⟩
    obtain ⟨-, hadmits, hcompatible⟩ := of_bytes_eq_ok sized h
    exact ⟨hadmits.imp Admits.offset_le, hcompatible⟩
  · rintro ⟨hordered, hcompatible⟩
    exact ⟨_, bytes_eq_ok sized hordered hcompatible⟩
  · obtain ⟨rfl, -, -⟩ := of_bytes_eq_ok sized h
    refine ⟨by simp, fun byte info hinfo => ?_⟩
    rw [List.getElem?_map, Option.map_eq_some_iff] at hinfo
    obtain ⟨byte', hbyte, rfl⟩ := hinfo
    obtain rfl : byte = byte' := by
      obtain ⟨hlt, heq⟩ := List.getElem?_eq_some_iff.1 hbyte
      simpa using heq
    exact ⟨by simp [byteAt], rfl⟩
  · rcases bytes_cases sized with
      ⟨hok, -⟩ | ⟨offset, field, previous, herror⟩ | ⟨offset, names, herror⟩
    · cases h.symm.trans hok
    · exact .inl ⟨offset, field, previous, Except.error.inj (h.symm.trans herror)⟩
    · exact .inr ⟨offset, names, Except.error.inj (h.symm.trans herror)⟩
  · rcases bytes_cases sized with ⟨hok, -⟩ | ⟨_, _, _, herror⟩ | ⟨_, _, herror⟩
    · cases h.symm.trans hok
    · cases h.symm.trans herror
    · cases h.symm.trans herror
  · exact ⟨offset_lt_totalSize sized p hp, stop_le_totalSize hp⟩

/-- `headerLayout` with its second bool on the bit of the first. -/
def crowdedLayout : Layout where
  struct := header
  fields := headerLayout.fields.map fun p => { p with bit := 0 }

/-- The layout of `header` is accepted, and is not once its bools are on one bit. -/
theorem bytes_exact_header :
    (∀ p ∈ headerLayout.fields, 1 ≤ p.size) ∧ headerLayout.totalSize = 8 ∧
      (∃ infos, headerLayout.bytes = .ok (some infos) ∧
        infos.length = headerLayout.totalSize) ∧
      (∀ p ∈ crowdedLayout.fields, 1 ≤ p.size) ∧
      ¬ ∃ infos, crowdedLayout.bytes = .ok (some infos) := by
  have hsized : ∀ p ∈ headerLayout.fields, 1 ≤ p.size := by decide
  have hcrowded : ∀ p ∈ crowdedLayout.fields, 1 ≤ p.size := by decide
  have hbytes := bytes_of_arranged (arranged_of_ofStruct ofStruct_header)
  refine ⟨hsized, rfl, ⟨_, hbytes, ((bytes_exact _ hsized).2.1 _ hbytes).1⟩, hcrowded, fun h => ?_⟩
  obtain ⟨-, hcompatible⟩ := (bytes_exact _ hcrowded).1.1 h
  have hbools := (List.pairwise_cons.1 hcompatible).1 _ List.mem_cons_self
  exact (hbools 0 rfl rfl).2.ne rfl

end Layout

end WireSchema
