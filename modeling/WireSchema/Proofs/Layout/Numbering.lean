import Mathlib.Data.List.Nodup
import Mathlib.Data.Nat.Find
import Mathlib.Order.Bounds.Basic
import WireSchema.Proofs.Layout.Ordinals

/-!
# Which ordinals are rejected

`Layout.numbers` counts the ordinals of fields without a bound, and `Layout.holders` lists the fields
that get a given one. A struct is refused for two reasons only: an ordinal that would be counted on
from the largest one (`Layout.Overflows`), or an ordinal that two fields hold. The fault names the
first field of the one sort, or else the first two fields that hold the least ordinal of the other
(`Layout.ofStruct_rejects_exactly`).
-/

namespace WireSchema.Layout

open Placed

variable {next : Option UInt32} {fields : List Module.Field} {assigned l : List Placed}
  {cause : LayoutCause} {o : UInt32}

/-! ## Counting without a bound -/

/-- The ordinals of fields, counted from `next` on: the one written, or else the one after that of
the field before. -/
def numbers (next : Nat) : List Module.Field → List Nat
  | [] => []
  | f :: rest =>
    let number := (f.ordinal.map UInt32.toNat).getD next
    number :: numbers (number + 1) rest

/-- The field after the one at `i` has no ordinal written, and the one at `i` has the largest. -/
def Overflows (fields : List Module.Field) (i : Nat) : Prop :=
  ∃ f, fields[i + 1]? = some f ∧ f.ordinal = none ∧
    (numbers 0 fields)[i]? = some Text.maxOrdinal

/-- The fields that get an ordinal, in the order in which they are declared. -/
def holders (fields : List Module.Field) (o : UInt32) : List Module.Field :=
  ((fields.zip (numbers 0 fields)).filter (·.2 = o.toNat)).map Prod.fst

/-- The number that is next; after the largest ordinal it is one more than that. -/
def nextNumber : Option UInt32 → Nat
  | some o => o.toNat
  | none => Text.maxOrdinal + 1

theorem nextNumber_succ? (o : UInt32) : nextNumber (Ordinal.succ? o) = o.toNat + 1 := by
  have hmax : Text.maxOrdinal = 4294967295 := rfl
  have hsize : o.toNat < 4294967296 := o.toNat_lt
  unfold Ordinal.succ?
  by_cases hlt : o.toNat < Text.maxOrdinal
  · rw [if_pos hlt]
    have hadd : (o + 1).toNat = (o.toNat + 1) % 4294967296 := UInt32.toNat_add o 1
    rw [nextNumber, hadd]
    omega
  · rw [if_neg hlt, nextNumber]
    omega

/-- The number of a field, if there is an ordinal for it. -/
theorem number_of_choose? {f : Module.Field} (h : Ordinal.choose? f.ordinal next = some o) :
    (f.ordinal.map UInt32.toNat).getD (nextNumber next) = o.toNat := by
  cases hf : f.ordinal with
  | some written =>
    rw [hf] at h
    obtain rfl : written = o := Option.some.inj h
    rfl
  | none =>
    rw [hf] at h
    obtain rfl : next = some o := h
    rfl

theorem numbers_eq_of_assignOrdinals (h : assignOrdinals next fields = .ok assigned) :
    numbers (nextNumber next) fields = assigned.map fun p => p.ordinal.toNat := by
  induction fields generalizing next assigned with
  | nil =>
    obtain rfl := Except.ok.inj h
    rfl
  | cons f fields ih =>
    obtain ⟨ordinal, rest, hchoose, hrest, rfl⟩ := assignOrdinals_cons_eq_ok_iff.1 h
    have hrest := ih hrest
    rw [nextNumber_succ?] at hrest
    simp only [numbers, number_of_choose? hchoose, hrest, List.map_cons]

/-! ## Overflow -/

/-- The field at `i` has no ordinal written, and the number next for it is too large. -/
def Exceeds (next : Nat) (fields : List Module.Field) (i : Nat) : Prop :=
  ∃ f, fields[i]? = some f ∧ f.ordinal = none ∧
    (numbers next fields)[i]? = some (Text.maxOrdinal + 1)

theorem exceeds_zero {f : Module.Field} (h : Ordinal.choose? f.ordinal next = none) :
    Exceeds (nextNumber next) (f :: fields) 0 := by
  obtain ⟨hwritten, rfl⟩ : f.ordinal = none ∧ next = none := Option.or_eq_none_iff.1 h
  exact ⟨f, rfl, hwritten, by simp [numbers, hwritten, nextNumber]⟩

theorem not_exceeds_zero_of_number {n : Nat} {f : Module.Field}
    (h : (f.ordinal.map UInt32.toNat).getD n = o.toNat) : ¬ Exceeds n (f :: fields) 0 := by
  have hsize : o.toNat < Text.maxOrdinal + 1 := o.toNat_lt
  rintro ⟨g, -, -, hexceeds⟩
  simp only [numbers, h, List.getElem?_cons_zero, Option.some.injEq] at hexceeds
  omega

theorem exceeds_cons_succ_iff {n : Nat} {f : Module.Field} (i : Nat)
    (h : (f.ordinal.map UInt32.toNat).getD n = o.toNat) :
    Exceeds n (f :: fields) (i + 1) ↔ Exceeds (nextNumber (Ordinal.succ? o)) fields i := by
  simp only [Exceeds, numbers, h, nextNumber_succ?, List.getElem?_cons_succ]

/-- If the first place does not count, the least of those that do is one after the least of those
that do among the others. -/
theorem exists_isLeast_succ_iff {P Q : Nat → Prop} (h : ¬ P 0) :
    (∃ i, IsLeast {i | P i} i ∧ Q i) ↔ ∃ i, IsLeast {i | P (i + 1)} i ∧ Q (i + 1) := by
  constructor
  · rintro ⟨i, ⟨hi, hleast⟩, hQ⟩
    cases i with
    | zero => exact absurd hi h
    | succ i =>
      refine ⟨i, ⟨hi, fun j hj => ?_⟩, hQ⟩
      exact Nat.le_of_succ_le_succ (hleast (show P (j + 1) from hj))
  · rintro ⟨i, ⟨hi, hleast⟩, hQ⟩
    refine ⟨i + 1, ⟨hi, fun j hj => ?_⟩, hQ⟩
    cases j with
    | zero => exact absurd hj h
    | succ j => exact Nat.succ_le_succ (hleast (show P (j + 1) from hj))

theorem assignOrdinals_eq_error_iff :
    assignOrdinals next fields = .error cause ↔
      ∃ i, IsLeast {i | Exceeds (nextNumber next) fields i} i ∧
        ∃ f, fields[i]? = some f ∧ cause = .ordinalOverflow f.name := by
  induction fields generalizing next with
  | nil => simp [assignOrdinals]
  | cons f fields ih =>
    rw [assignOrdinals]
    cases hchoose : Ordinal.choose? f.ordinal next with
    | none =>
      -- The first field exceeds, so it is the least one that does.
      have hzero : Exceeds (nextNumber next) (f :: fields) 0 := exceeds_zero hchoose
      constructor
      · intro h
        refine ⟨0, ⟨hzero, fun _ _ => Nat.zero_le _⟩, f, rfl, ?_⟩
        simpa using h.symm
      · rintro ⟨i, hleast, g, hg, rfl⟩
        obtain rfl : i = 0 := Nat.le_zero.1 (hleast.2 hzero)
        obtain rfl : f = g := by simpa using hg
        rfl
    | some ordinal =>
      have hnumber := number_of_choose? hchoose
      rw [exists_isLeast_succ_iff (not_exceeds_zero_of_number hnumber)]
      simp only [exceeds_cons_succ_iff _ hnumber, List.getElem?_cons_succ]
      rw [← ih]
      cases assignOrdinals (Ordinal.succ? ordinal) fields with
      | error cause' => simp [bind, Except.bind]
      | ok rest => simp [bind, Except.bind, pure, Except.pure]

theorem getElem?_numbers_succ {i : Nat} {f : Module.Field} {n : Nat} (hf : fields[i + 1]? = some f)
    (hwritten : f.ordinal = none) :
    (numbers n fields)[i + 1]? = (numbers n fields)[i]?.map (· + 1) := by
  induction fields generalizing n i with
  | nil => simp at hf
  | cons g fields ih =>
    rw [List.getElem?_cons_succ] at hf
    cases i with
    | zero =>
      cases fields with
      | nil => simp at hf
      | cons h fields =>
        obtain rfl : h = f := by simpa using hf
        simp [numbers, hwritten]
    | succ i => simpa [numbers] using ih hf

theorem exceeds_succ_iff (i : Nat) : Exceeds 0 fields (i + 1) ↔ Overflows fields i := by
  unfold Exceeds Overflows
  refine exists_congr fun f => and_congr_right fun hf => and_congr_right fun hwritten => ?_
  rw [getElem?_numbers_succ hf hwritten]
  simp

theorem not_exceeds_zero : ¬ Exceeds 0 fields 0 := by
  rintro ⟨f, hf, hwritten, hexceeds⟩
  cases fields with
  | nil => simp at hf
  | cons g fields =>
    obtain rfl : g = f := by simpa using hf
    have hmax : Text.maxOrdinal = 4294967295 := rfl
    simp only [numbers, hwritten, Option.map_none, Option.getD_none, List.getElem?_cons_zero,
      Option.some.injEq] at hexceeds
    omega

/-- Numbering fails at the first field that is counted on from the largest ordinal. -/
theorem assignOrdinals_zero_eq_error_iff :
    assignOrdinals (some 0) fields = .error cause ↔
      ∃ i, IsLeast {i | Overflows fields i} i ∧
        ∃ f, fields[i + 1]? = some f ∧ cause = .ordinalOverflow f.name := by
  have hstart : nextNumber (some 0) = 0 := rfl
  rw [assignOrdinals_eq_error_iff, hstart, exists_isLeast_succ_iff not_exceeds_zero]
  simp only [exceeds_succ_iff]

theorem exists_assignOrdinals_iff :
    (∃ assigned, assignOrdinals (some 0) fields = .ok assigned) ↔ ∀ i, ¬ Overflows fields i := by
  constructor
  · rintro ⟨assigned, hok⟩ i hi
    classical
    have hleast : IsLeast {i | Overflows fields i} (Nat.find ⟨i, hi⟩) :=
      ⟨Nat.find_spec ⟨i, hi⟩, fun _ hj => Nat.find_min' ⟨i, hi⟩ hj⟩
    obtain ⟨f, hf, -⟩ := hleast.1
    have herror := assignOrdinals_zero_eq_error_iff.2 ⟨_, hleast, f, hf, rfl⟩
    rw [hok] at herror
    cases herror
  · intro hnone
    cases h : assignOrdinals (some 0) fields with
    | ok assigned => exact ⟨assigned, rfl⟩
    | error cause =>
      obtain ⟨i, hleast, -⟩ := assignOrdinals_zero_eq_error_iff.1 h
      exact absurd hleast.1 (hnone i)

/-! ## Duplicates -/

theorem holders_eq_of_assignOrdinals (h : assignOrdinals (some 0) fields = .ok assigned)
    (o : UInt32) : holders fields o = (assigned.filter (·.ordinal = o)).map Placed.field := by
  have hnumbers := numbers_eq_of_assignOrdinals h
  have hstart : nextNumber (some 0) = 0 := rfl
  rw [hstart] at hnumbers
  have hfields := map_field_of_assignOrdinals h
  rw [holders, hnumbers]
  nth_rewrite 1 [← hfields]
  rw [List.zip_map', List.filter_map, List.map_map]
  simp only [Function.comp_def, UInt32.toNat_inj]

/-- Fields of one ordinal stay in the order in which they are declared. -/
theorem filter_byOrdinal (l : List Placed) (o : UInt32) :
    (byOrdinal l).filter (·.ordinal = o) = l.filter (·.ordinal = o) := by
  have hsame : (l.filter (·.ordinal = o)).Pairwise fun a b =>
      decide (a.ordinal ≤ b.ordinal) = true := by
    refine List.pairwise_of_forall_mem_list fun a ha b hb => ?_
    have ha := (List.mem_filter.1 ha).2
    have hb := (List.mem_filter.1 hb).2
    simp only [decide_eq_true_eq] at ha hb ⊢
    rw [ha, hb]
    exact UInt32.le_refl o
  have hsub : (l.filter (·.ordinal = o)).Sublist (byOrdinal l) :=
    List.sublist_mergeSort ordinal_le_trans ordinal_le_total hsame List.filter_sublist
  have hsub := hsub.filter (·.ordinal = o)
  simp only [List.filter_filter, Bool.and_self] at hsub
  exact (hsub.eq_of_length ((perm_byOrdinal l).filter _).length_eq.symm).symm

theorem filter_ordinal_eq_nil {x : Placed} (h : ∀ z ∈ l, x.ordinal < z.ordinal) :
    l.filter (·.ordinal = x.ordinal) = [] := by
  refine List.filter_eq_nil_iff.2 fun z hz => ?_
  simpa using (UInt32.ne_of_lt (h z hz)).symm

/-- A field whose ordinal is below all others adds no ordinal that is used twice. -/
theorem shared_cons {x : Placed} (h : ∀ z ∈ l, x.ordinal < z.ordinal) :
    {o | 2 ≤ ((x :: l).filter (·.ordinal = o)).length} =
      {o | 2 ≤ (l.filter (·.ordinal = o)).length} := by
  ext o
  show 2 ≤ _ ↔ 2 ≤ _
  by_cases ho : x.ordinal = o
  · subst ho
    rw [List.filter_cons_of_pos (by simp), filter_ordinal_eq_nil h]
    simp
  · rw [List.filter_cons_of_neg (by simpa using ho)]

/-- Of fields in order, the first neighbours with one ordinal are the first two fields of the least
ordinal that is used twice. -/
theorem duplicate?_eq_some {a b : Placed} (hle : l.Pairwise fun a b => a.ordinal ≤ b.ordinal)
    (h : duplicate? l = some (a, b)) :
    IsLeast {o | 2 ≤ (l.filter (·.ordinal = o)).length} a.ordinal ∧
      ∃ rest, l.filter (·.ordinal = a.ordinal) = a :: b :: rest := by
  fun_induction duplicate? l with
  | case1 x y rest hxy =>
    obtain ⟨rfl, rfl⟩ : x = a ∧ y = b := by simpa using h
    have hfilter : (x :: y :: rest).filter (·.ordinal = x.ordinal) =
        x :: y :: rest.filter (·.ordinal = x.ordinal) := by
      simp [hxy]
    refine ⟨⟨?_, fun o ho => ?_⟩, _, hfilter⟩
    · show 2 ≤ _
      rw [hfilter]
      simp
    · -- Some field has the ordinal, and the first field has the least of all.
      have hpos : 0 < ((x :: y :: rest).filter (·.ordinal = o)).length :=
        Nat.lt_of_lt_of_le Nat.zero_lt_two ho
      obtain ⟨z, hz⟩ := List.exists_mem_of_length_pos hpos
      obtain ⟨hmem, heq⟩ := List.mem_filter.1 hz
      obtain rfl : z.ordinal = o := of_decide_eq_true heq
      rcases List.mem_cons.1 hmem with rfl | hmem
      · exact UInt32.le_refl _
      · exact (List.pairwise_cons.1 hle).1 z hmem
  | case2 x y rest hxy ih =>
    obtain ⟨hx, hrest⟩ := List.pairwise_cons.1 hle
    obtain ⟨hleast, others, hfilter⟩ := ih hrest h
    -- No other field has the ordinal of the first, so the first counts nowhere.
    have hxy : x.ordinal < y.ordinal := UInt32.lt_of_le_of_ne (hx y List.mem_cons_self) hxy
    have hlt : ∀ z ∈ y :: rest, x.ordinal < z.ordinal := by
      refine List.forall_mem_cons.2 ⟨hxy, fun z hz => ?_⟩
      exact UInt32.lt_of_lt_of_le hxy ((List.pairwise_cons.1 hrest).1 z hz)
    have ha : x.ordinal ≠ a.ordinal := by
      intro heq
      rw [← heq, filter_ordinal_eq_nil hlt] at hfilter
      cases hfilter
    rw [shared_cons hlt, List.filter_cons_of_neg (by simpa using ha)]
    exact ⟨hleast, others, hfilter⟩
  | case3 => cases h

/-- The first two holders of the least ordinal that has two. -/
def FirstShared (fields : List Module.Field) (o : UInt32) (first second : Module.Field) : Prop :=
  IsLeast {o | 2 ≤ (holders fields o).length} o ∧
    ∃ rest, holders fields o = first :: second :: rest

theorem FirstShared.unique {o' : UInt32} {f g f' g' : Module.Field} (h : FirstShared fields o f g)
    (h' : FirstShared fields o' f' g') : o = o' ∧ f = f' ∧ g = g' := by
  obtain ⟨hleast, rest, hholders⟩ := h
  obtain ⟨hleast', rest', hholders'⟩ := h'
  obtain rfl : o = o' := UInt32.le_antisymm (hleast.2 hleast'.1) (hleast'.2 hleast.1)
  rw [hholders, List.cons.injEq, List.cons.injEq] at hholders'
  exact ⟨rfl, hholders'.1, hholders'.2.1⟩

theorem firstShared_of_duplicate? {a b : Placed}
    (ha : assignOrdinals (some 0) fields = .ok assigned)
    (h : duplicate? (byOrdinal assigned) = some (a, b)) :
    FirstShared fields a.ordinal a.field b.field := by
  obtain ⟨hleast, rest, hfilter⟩ := duplicate?_eq_some (pairwise_byOrdinal_le assigned) h
  simp only [filter_byOrdinal] at hleast hfilter
  refine ⟨?_, rest.map Placed.field, ?_⟩
  · simpa only [holders_eq_of_assignOrdinals ha, List.length_map] using hleast
  · rw [holders_eq_of_assignOrdinals ha, hfilter]
    rfl

theorem duplicate?_eq_none_iff_holders (ha : assignOrdinals (some 0) fields = .ok assigned) :
    duplicate? (byOrdinal assigned) = none ↔ ∀ o, (holders fields o).length ≤ 1 := by
  rw [duplicate?_eq_none_iff (pairwise_byOrdinal_le assigned), pairwise_byOrdinal_lt_iff,
    List.nodup_iff_count_le_one]
  refine forall_congr' fun o => ?_
  rw [holders_eq_of_assignOrdinals ha, List.length_map, ← List.countP_eq_length_filter, List.count,
    List.countP_map]
  simp only [Function.comp_def, beq_eq_decide]

theorem FirstShared.not_forall_le {f g : Module.Field} (h : FirstShared fields o f g) :
    ¬ ∀ o, (holders fields o).length ≤ 1 := by
  intro hle
  have htwo : 2 ≤ (holders fields o).length := h.1.1
  have hone := hle o
  omega

/-! ## Structs that are refused -/

/-- The layout of fields is refused for one of two reasons, or made. -/
theorem ofFields_cases (fields : List Module.Field) :
    (∃ i f, IsLeast {i | Overflows fields i} i ∧ fields[i + 1]? = some f ∧
      ofFields fields = .error (.ordinalOverflow f.name)) ∨
    (∀ i, ¬ Overflows fields i) ∧
      ((∃ o f g, FirstShared fields o f g ∧
        ofFields fields = .error (.duplicateOrdinal o f.name g.name)) ∨
      (∀ o, (holders fields o).length ≤ 1) ∧ ∃ placed, ofFields fields = .ok placed) := by
  unfold ofFields
  cases ha : assignOrdinals (some 0) fields with
  | error cause =>
    obtain ⟨i, hleast, f, hf, rfl⟩ := assignOrdinals_zero_eq_error_iff.1 ha
    exact .inl ⟨i, f, hleast, hf, rfl⟩
  | ok assigned =>
    refine .inr ⟨exists_assignOrdinals_iff.1 ⟨assigned, ha⟩, ?_⟩
    cases hd : duplicate? (byOrdinal assigned) with
    | some pair =>
      refine .inl ⟨_, _, _, firstShared_of_duplicate? ha hd, ?_⟩
      simp [bind, Except.bind, throw, throwThe, MonadExceptOf.throw, hd]
    | none =>
      refine .inr ⟨(duplicate?_eq_none_iff_holders ha).1 hd, place (byOrdinal assigned), ?_⟩
      simp [bind, Except.bind, pure, Except.pure, hd]

/-- A struct is refused for the first field that is counted on from the largest ordinal; else for the
first two fields that hold the least ordinal held twice; else it has a layout. -/
theorem ofStruct_rejects_exactly (s : Module.Struct) :
    (∀ name, ofStruct s = .error ⟨s.name, .ordinalOverflow name⟩ ↔
      ∃ i f, IsLeast {i | Overflows s.fields i} i ∧ s.fields[i + 1]? = some f ∧ f.name = name) ∧
    (∀ o first second, ofStruct s = .error ⟨s.name, .duplicateOrdinal o first second⟩ ↔
      (∀ i, ¬ Overflows s.fields i) ∧
        ∃ f g, FirstShared s.fields o f g ∧ f.name = first ∧ g.name = second) ∧
    ((∃ layout, ofStruct s = .ok layout) ↔
      (∀ i, ¬ Overflows s.fields i) ∧ ∀ o, (holders s.fields o).length ≤ 1) := by
  unfold ofStruct
  obtain ⟨i, f, hleast, hf, hresult⟩ | ⟨hnone, ⟨o, f, g, hshared, hresult⟩ | ⟨hle, placed, hresult⟩⟩ :=
    ofFields_cases s.fields
  · have hsome : ¬ ∀ i, ¬ Overflows s.fields i := fun hnone => hnone i hleast.1
    rw [hresult]
    refine ⟨fun name => ⟨fun h => ?_, ?_⟩, fun o first second => ⟨fun h => ?_, ?_⟩, ?_⟩
    · exact ⟨i, f, hleast, hf, by simpa using h⟩
    · rintro ⟨j, g, hleast', hg, rfl⟩
      obtain rfl : i = j := hleast.unique hleast'
      obtain rfl : f = g := Option.some.inj (hf.symm.trans hg)
      rfl
    · simp at h
    · exact fun h => absurd h.1 hsome
    · simp [hsome]
  · rw [hresult]
    refine ⟨fun name => ⟨fun h => ?_, ?_⟩, fun o' first second => ⟨fun h => ?_, ?_⟩, ?_⟩
    · simp at h
    · rintro ⟨i, -, hleast, -⟩
      exact absurd hleast.1 (hnone i)
    · simp only [Except.error.injEq, LayoutFault.mk.injEq, LayoutCause.duplicateOrdinal.injEq,
        true_and] at h
      obtain ⟨rfl, rfl, rfl⟩ := h
      exact ⟨hnone, f, g, hshared, rfl, rfl⟩
    · rintro ⟨-, f', g', hshared', rfl, rfl⟩
      obtain ⟨rfl, rfl, rfl⟩ := hshared.unique hshared'
      rfl
    · simp [hshared.not_forall_le]
  · rw [hresult]
    refine ⟨fun name => ⟨fun h => ?_, ?_⟩, fun o first second => ⟨fun h => ?_, ?_⟩, ?_⟩
    · cases h
    · rintro ⟨i, -, hleast, -⟩
      exact absurd hleast.1 (hnone i)
    · cases h
    · rintro ⟨-, f, g, hshared, -⟩
      exact absurd hle hshared.not_forall_le
    · exact ⟨fun _ => ⟨hnone, hle⟩, fun _ => ⟨_, rfl⟩⟩

end WireSchema.Layout
