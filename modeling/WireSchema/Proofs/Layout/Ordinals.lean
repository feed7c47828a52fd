import WireSchema.Proofs.Layout.Placement

/-!
# Ordinals of fields

`Layout.assignOrdinals` numbers fields and `Layout.byOrdinal` puts them in order. A struct has a
layout exactly when all its fields get ordinals and no two the same (`Layout.ofFields_eq_ok_iff`).
-/

namespace WireSchema.Layout

open Placed

variable {next : Option UInt32} {f : Module.Field} {fields : List Module.Field}
  {assigned placed l : List Placed}

/-! ## Giving ordinals -/

theorem assignOrdinals_cons_eq_ok_iff :
    assignOrdinals next (f :: fields) = .ok assigned ↔
      ∃ ordinal rest, Ordinal.choose? f.ordinal next = some ordinal ∧
        assignOrdinals (Ordinal.succ? ordinal) fields = .ok rest ∧
        assigned = ⟨f, ordinal, f.kind.size, 0, 0⟩ :: rest := by
  rw [assignOrdinals]
  cases Ordinal.choose? f.ordinal next with
  | none => simp
  | some ordinal =>
    cases h : assignOrdinals (Ordinal.succ? ordinal) fields with
    | error cause => simp [h, bind, Except.bind]
    | ok rest => simp [h, bind, Except.bind, pure, Except.pure, eq_comm]

/-- Numbering keeps the fields and their order. -/
theorem map_field_of_assignOrdinals (h : assignOrdinals next fields = .ok assigned) :
    assigned.map Placed.field = fields := by
  induction fields generalizing next assigned with
  | nil =>
    obtain rfl := Except.ok.inj h
    rfl
  | cons f fields ih =>
    obtain ⟨ordinal, rest, -, hrest, rfl⟩ := assignOrdinals_cons_eq_ok_iff.1 h
    rw [List.map_cons, ih hrest]

/-- A numbered field has the size of its kind, and no place yet. -/
theorem numbered_of_assignOrdinals (h : assignOrdinals next fields = .ok assigned) :
    ∀ p ∈ assigned, p.size = p.field.kind.size ∧ p.unplaced = p := by
  induction fields generalizing next assigned with
  | nil =>
    obtain rfl := Except.ok.inj h
    simp
  | cons f fields ih =>
    obtain ⟨ordinal, rest, -, hrest, rfl⟩ := assignOrdinals_cons_eq_ok_iff.1 h
    intro p hp
    rcases List.mem_cons.1 hp with rfl | hp
    · exact ⟨rfl, rfl⟩
    · exact ih hrest p hp

theorem assignOrdinals_concat (h : assignOrdinals next (fields ++ [f]) = .ok assigned) :
    ∃ front last, assigned = front ++ [last] ∧ assignOrdinals next fields = .ok front := by
  induction fields generalizing next assigned with
  | nil =>
    obtain ⟨ordinal, rest, -, hrest, rfl⟩ := assignOrdinals_cons_eq_ok_iff.1 h
    obtain rfl := Except.ok.inj hrest
    exact ⟨[], _, rfl, rfl⟩
  | cons g fields ih =>
    obtain ⟨ordinal, rest, hc, hrest, rfl⟩ := assignOrdinals_cons_eq_ok_iff.1 h
    obtain ⟨front, last, rfl, hfront⟩ := ih hrest
    exact ⟨_ :: front, last, rfl, assignOrdinals_cons_eq_ok_iff.2 ⟨ordinal, front, hc, hfront, rfl⟩⟩

theorem map_unplaced_of_assignOrdinals (h : assignOrdinals next fields = .ok assigned) :
    assigned.map unplaced = assigned :=
  (List.map_congr_left fun p hp => (numbered_of_assignOrdinals h p hp).2).trans (List.map_id' _)

/-! ## Ordering by ordinals -/

theorem perm_byOrdinal (l : List Placed) : (byOrdinal l).Perm l :=
  List.mergeSort_perm l _

theorem ordinal_le_trans (a b c : Placed) (hab : decide (a.ordinal ≤ b.ordinal) = true)
    (hbc : decide (b.ordinal ≤ c.ordinal) = true) : decide (a.ordinal ≤ c.ordinal) = true := by
  simp only [decide_eq_true_eq] at hab hbc ⊢
  exact UInt32.le_trans hab hbc

theorem ordinal_le_total (a b : Placed) :
    (decide (a.ordinal ≤ b.ordinal) || decide (b.ordinal ≤ a.ordinal)) = true := by
  simp only [Bool.or_eq_true, decide_eq_true_eq]
  exact UInt32.le_total a.ordinal b.ordinal

theorem pairwise_byOrdinal_le (l : List Placed) :
    (byOrdinal l).Pairwise (fun a b => a.ordinal ≤ b.ordinal) :=
  (List.pairwise_mergeSort ordinal_le_trans ordinal_le_total l).imp of_decide_eq_true

/-- Of fields in order, two with one ordinal would be neighbours somewhere. -/
theorem duplicate?_eq_none_iff (h : l.Pairwise (fun a b => a.ordinal ≤ b.ordinal)) :
    duplicate? l = none ↔ l.Pairwise (fun a b => a.ordinal < b.ordinal) := by
  induction l with
  | nil => simp [duplicate?]
  | cons a rest ih =>
    cases rest with
    | nil => simp [duplicate?]
    | cons b rest =>
      obtain ⟨ha, hrest⟩ := List.pairwise_cons.1 h
      rw [duplicate?, List.pairwise_cons, ← ih hrest]
      by_cases hab : a.ordinal = b.ordinal
      · rw [if_pos hab]
        refine iff_of_false (by simp) fun hlt => ?_
        exact UInt32.lt_irrefl _ (hab ▸ hlt.1 b List.mem_cons_self)
      · rw [if_neg hab]
        refine ⟨fun hd => ⟨fun c hc => ?_, hd⟩, And.right⟩
        have hlt : a.ordinal < b.ordinal := UInt32.lt_of_le_of_ne (ha b List.mem_cons_self) hab
        rcases List.mem_cons.1 hc with rfl | hc
        · exact hlt
        · exact UInt32.lt_of_lt_of_le hlt ((List.pairwise_cons.1 hrest).1 c hc)

theorem pairwise_byOrdinal_lt_iff (l : List Placed) :
    (byOrdinal l).Pairwise (fun a b => a.ordinal < b.ordinal) ↔ (l.map Placed.ordinal).Nodup := by
  rw [← ((perm_byOrdinal l).map Placed.ordinal).nodup_iff, List.Nodup, List.pairwise_map]
  constructor
  · intro h
    exact h.imp UInt32.ne_of_lt
  · intro h
    exact (pairwise_byOrdinal_le l).imp₂ (fun _ _ hle hne => UInt32.lt_of_le_of_ne hle hne) h

/-- Fields with different ordinals have only one order. -/
theorem byOrdinal_eq_of_perm {l₁ l₂ : List Placed} (h₁ : (l₁.map Placed.ordinal).Nodup)
    (h : l₁.Perm l₂) (h₂ : l₂.Pairwise (fun a b => a.ordinal < b.ordinal)) :
    byOrdinal l₁ = l₂ := by
  refine ((perm_byOrdinal l₁).trans h).eq_of_pairwise ?_ ((pairwise_byOrdinal_lt_iff l₁).2 h₁) h₂
  intro a b _ _ hab hba
  exact absurd (UInt32.lt_trans hab hba) (UInt32.lt_irrefl _)

/-! ## Structs that have a layout -/

theorem ofFields_eq_ok_iff :
    ofFields fields = .ok placed ↔
      ∃ assigned, assignOrdinals (some 0) fields = .ok assigned ∧
        (assigned.map Placed.ordinal).Nodup ∧ placed = place (byOrdinal assigned) := by
  unfold ofFields
  cases ha : assignOrdinals (some 0) fields with
  | error cause => simp [bind, Except.bind]
  | ok assigned =>
    have hd := duplicate?_eq_none_iff (pairwise_byOrdinal_le assigned)
    rw [pairwise_byOrdinal_lt_iff] at hd
    cases hdup : duplicate? (byOrdinal assigned) with
    | none => simp [bind, Except.bind, pure, Except.pure, hdup, hd.1 hdup, eq_comm]
    | some pair =>
      have hn : ¬ (assigned.map Placed.ordinal).Nodup := by
        rw [← hd, hdup]
        simp
      simp [bind, Except.bind, hdup, hn]

theorem ofStruct_eq_ok_iff {s : Module.Struct} {layout : Layout} :
    ofStruct s = .ok layout ↔ layout.struct = s ∧ ofFields s.fields = .ok layout.fields := by
  unfold ofStruct
  cases h : ofFields s.fields with
  | error cause => simp
  | ok fields =>
    simp only [Except.ok.injEq]
    constructor
    · rintro rfl
      exact ⟨rfl, rfl⟩
    · rintro ⟨rfl, rfl⟩
      rfl

theorem ofStruct_of_nodup {s : Module.Struct} (ha : assignOrdinals (some 0) s.fields = .ok assigned)
    (hn : (assigned.map Placed.ordinal).Nodup) :
    ofStruct s = .ok ⟨s, place (byOrdinal assigned)⟩ :=
  ofStruct_eq_ok_iff.2 ⟨rfl, ofFields_eq_ok_iff.2 ⟨assigned, ha, hn, rfl⟩⟩

theorem assigned_of_ofStruct {s : Module.Struct} {layout : Layout} (h : ofStruct s = .ok layout) :
    ∃ assigned, assignOrdinals (some 0) s.fields = .ok assigned ∧
      (assigned.map Placed.ordinal).Nodup ∧ layout.fields = place (byOrdinal assigned) :=
  ofFields_eq_ok_iff.1 (ofStruct_eq_ok_iff.1 h).2

theorem fields_of_ofStruct {s : Module.Struct} {layout : Layout} (h : ofStruct s = .ok layout)
    (ha : assignOrdinals (some 0) s.fields = .ok assigned) :
    (assigned.map Placed.ordinal).Nodup ∧ layout.fields = place (byOrdinal assigned) := by
  obtain ⟨assigned', ha', hn, hp⟩ := assigned_of_ofStruct h
  obtain rfl : assigned' = assigned := Except.ok.inj (ha'.symm.trans ha)
  exact ⟨hn, hp⟩

theorem cause_of_assignOrdinals_eq_error {cause : LayoutCause}
    (h : assignOrdinals next fields = .error cause) : ∃ name, cause = .ordinalOverflow name := by
  induction fields generalizing next with
  | nil => simp [assignOrdinals] at h
  | cons f fields ih =>
    rw [assignOrdinals] at h
    cases hc : Ordinal.choose? f.ordinal next with
    | none =>
      rw [hc] at h
      exact ⟨f.name, (Except.error.inj h).symm⟩
    | some ordinal =>
      rw [hc] at h
      cases hr : assignOrdinals (Ordinal.succ? ordinal) fields with
      | error cause' =>
        simp only [hr, bind, Except.bind, Except.error.injEq] at h
        exact ih (h ▸ hr)
      | ok rest => simp [hr, bind, Except.bind, pure, Except.pure] at h

/-- A struct that has no layout has a fault in its ordinals. -/
theorem cause_of_ofFields_eq_error {cause : LayoutCause} (h : ofFields fields = .error cause) :
    (∃ name, cause = .ordinalOverflow name) ∨
      ∃ ordinal first second, cause = .duplicateOrdinal ordinal first second := by
  unfold ofFields at h
  cases ha : assignOrdinals (some 0) fields with
  | error cause' =>
    simp only [ha, bind, Except.bind, Except.error.injEq] at h
    exact .inl (cause_of_assignOrdinals_eq_error (h ▸ ha))
  | ok assigned =>
    simp only [ha, bind, Except.bind] at h
    cases hd : duplicate? (byOrdinal assigned) with
    | none => simp [hd, pure, Except.pure] at h
    | some pair =>
      simp only [hd, throw, throwThe, MonadExceptOf.throw, Except.error.injEq] at h
      exact .inr ⟨_, _, _, h.symm⟩

end WireSchema.Layout
