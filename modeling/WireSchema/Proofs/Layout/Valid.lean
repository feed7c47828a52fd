import WireSchema.Proofs.Layout.Bytes
import WireSchema.Proofs.Layout.Ordinals
import WireSchema.Proofs.Workspace.Loading

/-!
# Layouts are valid

`Layout.Valid` says what the layout of a struct has to be: all fields with their ordinals, aligned,
in the order of their places and apart from each other, in as few bytes as the rules allow. Every
layout of `Layout.ofStruct` is valid and passes the byte check, so a compilation never fails in that
check (`Layout.valid_and_never_inconsistent`).
-/

namespace WireSchema

open Placed

variable {s : Module.Struct} {layout : Layout} {fault : LayoutFault}

namespace Layout

/-- What the layout of a struct has to be. -/
structure Valid (s : Module.Struct) (layout : Layout) : Prop where
  /-- The fields are those of the struct, each with the ordinal it is given. -/
  numbered : ∃ assigned, assignOrdinals (some 0) s.fields = .ok assigned ∧
    assigned.map Placed.field = s.fields ∧ (layout.fields.map unplaced).Perm assigned
  size_eq : ∀ p ∈ layout.fields, p.size = p.field.kind.size
  dvd_offset : ∀ p ∈ layout.fields, p.size ∣ p.offset
  bit_le : ∀ p ∈ layout.fields, p.bit ≤ 7
  bit_eq_zero : ∀ p ∈ layout.fields, p.isBool = false → p.bit = 0
  /-- Offsets increase, and bits where offsets are the same. -/
  increasing : layout.fields.Pairwise fun a b =>
    a.offset < b.offset ∨ a.offset = b.offset ∧ a.bit < b.bit
  /-- No byte lies in two fields, unless they are bools on different bits of it. -/
  disjoint : layout.fields.Pairwise fun a b =>
    (∀ byte, ¬ (a.covers byte ∧ b.covers byte)) ∨
      a.isBool ∧ b.isBool ∧ a.offset = b.offset ∧ a.bit ≠ b.bit
  /-- The size is the least multiple of 8 that no field exceeds. -/
  totalSize : IsLeast {n | 8 ∣ n ∧ ∀ p ∈ layout.fields, p.stop ≤ n} layout.totalSize

theorem arranged_of_ofStruct (h : ofStruct s = .ok layout) : Arranged layout.fields := by
  obtain ⟨assigned, ha, -, hp⟩ := assigned_of_ofStruct h
  rw [hp]
  refine arranged_place fun p hp => (numbered_of_assignOrdinals ha p ?_).1
  exact (perm_byOrdinal assigned).mem_iff.1 hp

theorem numbered_of_ofStruct (h : ofStruct s = .ok layout) :
    ∃ assigned, assignOrdinals (some 0) s.fields = .ok assigned ∧
      assigned.map Placed.field = s.fields ∧ (layout.fields.map unplaced).Perm assigned := by
  obtain ⟨assigned, ha, -, hp⟩ := assigned_of_ofStruct h
  refine ⟨assigned, ha, map_field_of_assignOrdinals ha, ?_⟩
  rw [hp]
  refine (perm_place _).trans (((perm_byOrdinal assigned).map unplaced).trans ?_)
  rw [map_unplaced_of_assignOrdinals ha]

end Layout

namespace Placed

variable {a b : Placed}

theorem Before.increasing (ha : a.WellPlaced) (h : Before a b) :
    a.offset < b.offset ∨ a.offset = b.offset ∧ a.bit < b.bit := by
  rcases h with h | ⟨-, -, ho, hbit⟩
  · exact .inl (ha.offset_lt_stop.trans_le h)
  · exact .inr ⟨ho, hbit⟩

theorem Before.disjoint (h : Before a b) :
    (∀ byte, ¬ (a.covers byte ∧ b.covers byte)) ∨
      a.isBool ∧ b.isBool ∧ a.offset = b.offset ∧ a.bit ≠ b.bit := by
  rcases h with h | ⟨h₁, h₂, ho, hbit⟩
  · left
    rintro byte ⟨hb₁, hb₂⟩
    simp only [covers, Bool.and_eq_true, decide_eq_true_eq] at hb₁ hb₂
    omega
  · exact .inr ⟨h₁, h₂, ho, hbit.ne⟩

end Placed

theorem Layout.valid_of_ofStruct (h : Layout.ofStruct s = .ok layout) : layout.Valid s := by
  have harr := Layout.arranged_of_ofStruct h
  exact
    { numbered := Layout.numbered_of_ofStruct h
      size_eq := fun p hp => (harr.wellPlaced p hp).size_eq
      dvd_offset := fun p hp => (harr.wellPlaced p hp).dvd_offset
      bit_le := fun p hp => (harr.wellPlaced p hp).bit_le
      bit_eq_zero := fun p hp => (harr.wellPlaced p hp).bit_eq_zero
      increasing := harr.ordered.imp_of_mem fun ha _ hab => hab.increasing (harr.wellPlaced _ ha)
      disjoint := harr.ordered.imp fun hab => hab.disjoint
      totalSize := Layout.isLeast_totalSize layout }

/-! ## The byte check never fails -/

/-- The causes that blame a layout and not the ordinals. -/
def LayoutCause.IsInconsistency : LayoutCause → Prop
  | .overlap .. | .sharedByte .. | .paddingConflict .. => True
  | .duplicateOrdinal .. | .ordinalOverflow .. => False

namespace Workspace

theorem checkLayouts_eq_error {structs : List Module.Struct}
    (h : checkLayouts structs = .error fault) :
    ∃ s ∈ structs, Layout.ofStruct s = .error fault := by
  induction structs with
  | nil => simp [checkLayouts] at h
  | cons s rest ih =>
    rw [checkLayouts] at h
    cases hl : Layout.ofStruct s with
    | error fault' =>
      simp only [hl, bind, Except.bind, Except.error.injEq] at h
      exact ⟨s, List.mem_cons_self, h ▸ hl⟩
    | ok layout =>
      simp only [hl, Layout.bytes_of_arranged (Layout.arranged_of_ofStruct hl), bind,
        Except.bind] at h
      obtain ⟨t, ht, hf⟩ := ih h
      exact ⟨t, List.mem_cons_of_mem _ ht, hf⟩

theorem not_isInconsistency_of_ofStruct (h : Layout.ofStruct s = .error fault) :
    ¬ fault.cause.IsInconsistency := by
  unfold Layout.ofStruct at h
  cases hf : Layout.ofFields s.fields with
  | ok fields => simp [hf] at h
  | error cause =>
    simp only [hf, Except.error.injEq] at h
    subst h
    rcases Layout.cause_of_ofFields_eq_error hf with ⟨name, rfl⟩ | ⟨ordinal, first, second, rfl⟩
    · exact id
    · exact id

theorem ofStruct_of_halts {ws : Workspace} {root : SourcePath} {halt : Halt}
    (h : Halts ws root halt) (hf : halt.fault = .layout fault) :
    ∃ s, Layout.ofStruct s = .error fault := by
  cases h with
  | circular trail mem => cases hf
  | missing trail fresh none => cases hf
  | unread trail fresh some error =>
    rcases fault_of_readRecord error with ⟨_, -, rfl⟩ | ⟨_, -, rfl⟩ | ⟨_, rfl⟩ | ⟨_, rfl⟩ <;> cases hf
  | notFound trail fresh reads mem none => cases hf
  | unbuilt trail fresh reads error =>
    rcases fault_of_buildModule error with ⟨_, rfl⟩ | ⟨m, cause, hc, rfl⟩
    · cases hf
    · obtain rfl := SchemaFault.layout.inj hf
      obtain ⟨s, -, hs⟩ := checkLayouts_eq_error hc
      exact ⟨s, hs⟩

end Workspace

/-- Every layout is valid and passes the byte check. So no compilation, whatever was built before,
fails because a layout is inconsistent. -/
theorem Layout.valid_and_never_inconsistent :
    (∀ (s : Module.Struct) (layout : Layout), Layout.ofStruct s = .ok layout →
      layout.Valid s ∧ ∃ infos, layout.bytes = .ok (some infos)) ∧
    ∀ (ws : Workspace) (written struct : String) (cause : LayoutCause) (stack : List String),
      cause.IsInconsistency →
      (ws.compile written).1 ≠ .error ⟨.layout ⟨struct, cause⟩, stack⟩ := by
  constructor
  · intro s layout h
    exact ⟨Layout.valid_of_ofStruct h, _,
      Layout.bytes_of_arranged (Layout.arranged_of_ofStruct h)⟩
  · intro ws written struct cause stack hc h
    rcases Workspace.halts_of_compile h with ⟨-, hf⟩ | ⟨root, halt, -, hhalt, hf⟩
    · cases hf
    · obtain ⟨s, hs⟩ := Workspace.ofStruct_of_halts hhalt (CompileFault.mk.inj hf).1.symm
      exact Workspace.not_isInconsistency_of_ofStruct hs hc

namespace Layout

/-- A struct whose second bool joins the first and whose last field goes into a gap. -/
def header : Module.Struct where
  name := "Header"
  space := "wire"
  attributes := ∅
  fields :=
    [⟨"urgent", .basic .bool, none, none, ∅⟩, ⟨"final", .basic .bool, some 3, none, ∅⟩,
      ⟨"length", .basic .int32, some 1, none, ∅⟩, ⟨"sort", .basic .int16, some 5, none, ∅⟩]
  enums := []
  constants := []

def headerLayout : Layout where
  struct := header
  fields :=
    [⟨⟨"urgent", .basic .bool, none, none, ∅⟩, 0, 1, 0, 0⟩,
      ⟨⟨"final", .basic .bool, some 3, none, ∅⟩, 3, 1, 0, 1⟩,
      ⟨⟨"sort", .basic .int16, some 5, none, ∅⟩, 5, 2, 2, 0⟩,
      ⟨⟨"length", .basic .int32, some 1, none, ∅⟩, 1, 4, 4, 0⟩]

theorem ofStruct_header : ofStruct header = .ok headerLayout := by
  refine ofStruct_eq_ok_iff.2 ⟨rfl, ofFields_eq_ok_iff.2 ⟨_, rfl, by decide, ?_⟩⟩
  rw [byOrdinal_eq_of_perm (by decide) (.cons _ (.swap ..)) (by decide)]
  rfl

theorem valid_header :
    ofStruct header = .ok headerLayout ∧
      (headerLayout.Valid header ∧ ∃ infos, headerLayout.bytes = .ok (some infos)) ∧
      ((Workspace.addSource { sources := {} } "header" "struct Header { bool urgent; };").compile
        "header").1 ≠ .error ⟨.layout ⟨"Header", .paddingConflict 0⟩, []⟩ :=
  ⟨ofStruct_header, valid_and_never_inconsistent.1 _ _ ofStruct_header,
    valid_and_never_inconsistent.2 _ _ _ _ _ trivial⟩

end Layout

end WireSchema
