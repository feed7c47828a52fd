import Mathlib.Data.List.Induction
import WireSchema.Proofs.Layout.Bytes
import WireSchema.Proofs.Layout.Valid

/-!
# Layouts of earlier versions

A field with a higher ordinal never moves one with a lower ordinal. So the layout of the fields with
ordinals below a bound is what remains of the layout of all fields (`Layout.place_filter`), and
nothing but the ordinals and the kinds of the fields counts: neither the order in which they are
declared nor whether the ordinals are written out (`Layout.stable_below_ordinal`).
-/

namespace WireSchema

variable {fields : List Module.Field} {assigned l : List Placed} {k : Nat}

namespace Placed

variable {p last : Placed}

/-! ## Written ordinals -/

/-- The field of a placed field, with the ordinal written out. -/
def explicitField (p : Placed) : Module.Field :=
  { p.field with ordinal := some p.ordinal }

/-- The same place for the same field with its ordinal written out. -/
def explicit (p : Placed) : Placed :=
  { p with field := p.explicitField }

@[simp] theorem offset_explicit (p : Placed) : p.explicit.offset = p.offset := rfl

@[simp] theorem stop_explicit (p : Placed) : p.explicit.stop = p.stop := rfl

theorem after_explicit (last p : Placed) :
    after last.explicit p.explicit = (after last p).explicit := by
  by_cases h : p.isBool && last.isBool && last.bit < 7
  · rw [after_of_shares h]
    exact after_of_shares h
  · rw [after_of_not_shares h]
    exact after_of_not_shares h

theorem insert_explicit (p : Placed) (l : List Placed) :
    p.explicit.insert (l.map explicit) = (p.insert l).map explicit := by
  induction l with
  | nil => rfl
  | cons a tail ih =>
    cases tail with
    | nil => simp only [List.map_cons, List.map_nil, insert, after_explicit]
    | cons b rest =>
      simp only [List.map_cons, insert, after_explicit, stop_explicit, offset_explicit] at ih ⊢
      by_cases h : (after a p).stop ≤ b.offset
      · rw [if_pos h, if_pos h]
        rfl
      · rw [if_neg h, if_neg h, ih]
        rfl

/-! ## Fields below an ordinal -/

theorem filter_insert_of_le (h : k ≤ p.ordinal.toNat) (l : List Placed) :
    (p.insert l).filter (·.ordinal.toNat < k) = l.filter (·.ordinal.toNat < k) := by
  have hnot : ∀ q : Placed, q.ordinal = p.ordinal → ¬ (decide (q.ordinal.toNat < k) = true) := by
    intro q hq
    rw [hq, decide_eq_true_eq]
    omega
  by_cases hl : l = []
  · subst hl
    exact List.filter_cons_of_neg (hnot _ rfl)
  · obtain ⟨front, last, rest, rfl, hins, -⟩ := insert_split p hl
    have hskip : (after last p :: rest).filter (·.ordinal.toNat < k) =
        rest.filter (·.ordinal.toNat < k) :=
      List.filter_cons_of_neg (hnot _ (ordinal_after last p))
    rw [hins, List.filter_append, List.filter_append, List.filter_cons, hskip, List.filter_cons]

end Placed

open Placed

namespace Layout

theorem place_concat (l : List Placed) (p : Placed) : place (l ++ [p]) = p.insert (place l) := by
  unfold place
  rw [List.foldl_append]
  rfl

theorem place_map_explicit (l : List Placed) : place (l.map explicit) = (place l).map explicit := by
  induction l using List.reverseRecOn with
  | nil => rfl
  | append_singleton l p ih =>
    rw [List.map_append, List.map_singleton, place_concat, place_concat, ih, insert_explicit]

theorem ordinal_mem_of_mem_place {p : Placed} (h : p ∈ place l) : ∃ q ∈ l, q.ordinal = p.ordinal := by
  have hmem : p.unplaced ∈ l.map unplaced :=
    (perm_place l).mem_iff.1 (List.mem_map_of_mem h)
  obtain ⟨q, hq, heq⟩ := List.mem_map.1 hmem
  exact ⟨q, hq, show q.unplaced.ordinal = p.unplaced.ordinal by rw [heq]⟩

/-- Placing only the fields below an ordinal gives the places they have among all fields. -/
theorem place_filter (h : l.Pairwise (fun a b => a.ordinal < b.ordinal)) (k : Nat) :
    place (l.filter (·.ordinal.toNat < k)) = (place l).filter (·.ordinal.toNat < k) := by
  -- From the end: either the last field is not below the ordinal, or all fields are.
  induction l using List.reverseRecOn with
  | nil => rfl
  | append_singleton l p ih =>
    obtain ⟨hl, -, hlast⟩ := List.pairwise_append.1 h
    by_cases hp : p.ordinal.toNat < k
    · have hall : ∀ q ∈ l ++ [p], decide (q.ordinal.toNat < k) = true := by
        intro q hq
        rw [decide_eq_true_eq]
        rcases List.mem_append.1 hq with hq | hq
        · exact (UInt32.lt_iff_toNat_lt.1 (hlast q hq p (by simp))).trans hp
        · rwa [List.mem_singleton.1 hq]
      rw [List.filter_eq_self.2 hall, List.filter_eq_self.2]
      intro q hq
      obtain ⟨r, hr, heq⟩ := ordinal_mem_of_mem_place hq
      exact heq ▸ hall r hr
    · rw [List.filter_append, List.filter_cons_of_neg (by simpa using hp), List.filter_nil,
        List.append_nil, ih hl, place_concat, filter_insert_of_le (not_lt.1 hp)]

/-! ## Structs with written ordinals -/

/-- Fields whose ordinals are all written out get these. -/
theorem assignOrdinals_map_explicitField {next : Option UInt32} {l : List Placed}
    (h : ∀ p ∈ l, p.size = p.field.kind.size ∧ p.unplaced = p) :
    assignOrdinals next (l.map explicitField) = .ok (l.map explicit) := by
  induction l generalizing next with
  | nil => rfl
  | cons p rest ih =>
    obtain ⟨⟨hsize, hplace⟩, hrest⟩ := List.forall_mem_cons.1 h
    refine assignOrdinals_cons_eq_ok_iff.2 ⟨p.ordinal, rest.map explicit, rfl, ih hrest, ?_⟩
    rw [List.map_cons, List.cons.injEq]
    refine ⟨?_, rfl⟩
    rw [← hplace]
    simp [explicit, explicitField, unplaced, hsize]

theorem byOrdinal_map_explicit (hn : (l.map Placed.ordinal).Nodup) :
    byOrdinal (l.map explicit) = (byOrdinal l).map explicit := by
  refine byOrdinal_eq_of_perm ?_ ((perm_byOrdinal l).symm.map explicit) ?_
  · rwa [List.map_map]
  · exact List.pairwise_map.2 ((pairwise_byOrdinal_lt_iff l).2 hn)

theorem byOrdinal_below (hn : (assigned.map Placed.ordinal).Nodup)
    (h : l.Perm (assigned.filter (·.ordinal.toNat < k))) :
    byOrdinal l = (byOrdinal assigned).filter (·.ordinal.toNat < k) := by
  refine byOrdinal_eq_of_perm ?_ (h.trans ((perm_byOrdinal assigned).symm.filter _)) ?_
  · exact (h.map Placed.ordinal).nodup_iff.2 (hn.sublist (List.filter_sublist.map _))
  · exact ((pairwise_byOrdinal_lt_iff assigned).2 hn).sublist List.filter_sublist

theorem ofStruct_below {s t : Module.Struct} {layout : Layout} {below : List Placed}
    (h : ofStruct s = .ok layout) (ha : assignOrdinals (some 0) s.fields = .ok assigned)
    (hb : below.Perm (assigned.filter (·.ordinal.toNat < k)))
    (ht : t.fields = below.map explicitField) :
    ofStruct t = .ok ⟨t, (layout.fields.filter (·.ordinal.toNat < k)).map explicit⟩ := by
  obtain ⟨hn, hp⟩ := fields_of_ofStruct h ha
  have hnb : (below.map Placed.ordinal).Nodup :=
    (hb.map Placed.ordinal).nodup_iff.2 (hn.sublist (List.filter_sublist.map _))
  have hassign : assignOrdinals (some 0) t.fields = .ok (below.map explicit) := by
    rw [ht]
    refine assignOrdinals_map_explicitField fun p hmem => ?_
    exact numbered_of_assignOrdinals ha p (List.mem_of_mem_filter (hb.mem_iff.1 hmem))
  have hplace : place (byOrdinal (below.map explicit)) =
      (layout.fields.filter (·.ordinal.toNat < k)).map explicit := by
    rw [byOrdinal_map_explicit hnb, byOrdinal_below hn hb, place_map_explicit,
      place_filter ((pairwise_byOrdinal_lt_iff assigned).2 hn), hp]
  rw [← hplace]
  refine ofStruct_of_nodup hassign ?_
  rwa [List.map_map]

theorem totalSize_below_le (t : Module.Struct) (layout : Layout) (k : Nat) :
    totalSize ⟨t, (layout.fields.filter (·.ordinal.toNat < k)).map explicit⟩ ≤
      layout.totalSize := by
  refine add_padding_mono (by decide) (usedSize_le_iff.2 (List.forall_mem_map.2 fun p hp => ?_))
  exact usedSize_le_iff.1 le_rfl p (List.mem_of_mem_filter hp)

/-- Neither the order of declarations nor written ordinals count. -/
theorem ofStruct_of_perm {s t : Module.Struct} {layout : Layout} {assigned' : List Placed}
    (h : ofStruct s = .ok layout) (ha : assignOrdinals (some 0) s.fields = .ok assigned)
    (ha' : assignOrdinals (some 0) t.fields = .ok assigned')
    (hperm : (assigned'.map explicit).Perm (assigned.map explicit)) :
    ∃ other, ofStruct t = .ok other ∧ other.fields.map explicit = layout.fields.map explicit := by
  obtain ⟨hn, hp⟩ := fields_of_ofStruct h ha
  have hn' : (assigned'.map Placed.ordinal).Nodup := by
    have hordinals := hperm.map Placed.ordinal
    rw [List.map_map, List.map_map] at hordinals
    exact hordinals.nodup_iff.2 hn
  have hsorted : ((byOrdinal assigned).map explicit).Pairwise (fun a b => a.ordinal < b.ordinal) :=
    List.pairwise_map.2 ((pairwise_byOrdinal_lt_iff assigned).2 hn)
  have hsame : byOrdinal (assigned'.map explicit) = (byOrdinal assigned).map explicit := by
    refine byOrdinal_eq_of_perm ?_ (hperm.trans ((perm_byOrdinal assigned).symm.map explicit)) hsorted
    rwa [List.map_map]
  refine ⟨_, ofStruct_of_nodup ha' hn', ?_⟩
  rw [hp, ← place_map_explicit, ← place_map_explicit, ← byOrdinal_map_explicit hn', hsame]

/-- A field with the highest ordinal is placed last, so it leaves the others where they were. -/
theorem ofStruct_without_last {s t : Module.Struct} {layout : Layout} {f : Module.Field}
    {front : List Placed} {last : Placed} (h : ofStruct s = .ok layout)
    (hs : s.fields = t.fields ++ [f])
    (ha : assignOrdinals (some 0) s.fields = .ok (front ++ [last]))
    (hlast : ∀ p ∈ front, p.ordinal < last.ordinal) :
    ofStruct t = .ok ⟨t, layout.fields.filter (·.ordinal.toNat < last.ordinal.toNat)⟩ := by
  obtain ⟨hn, hp⟩ := fields_of_ofStruct h ha
  obtain ⟨front', last', heq, hfront⟩ := assignOrdinals_concat (hs ▸ ha)
  obtain rfl : front = front' := (List.append_inj' heq rfl).1
  have hfilter : (front ++ [last]).filter (·.ordinal.toNat < last.ordinal.toNat) = front := by
    rw [List.filter_append, List.filter_cons_of_neg (by simp), List.filter_nil, List.append_nil]
    refine List.filter_eq_self.2 fun p hp => ?_
    exact decide_eq_true (UInt32.lt_iff_toNat_lt.1 (hlast p hp))
  have hplace : layout.fields.filter (·.ordinal.toNat < last.ordinal.toNat) =
      place (byOrdinal front) := by
    rw [hp, ← place_filter ((pairwise_byOrdinal_lt_iff _).2 hn), ← byOrdinal_below hn (.refl _),
      hfilter]
  rw [hplace]
  refine ofStruct_of_nodup hfront (hn.sublist ?_)
  rw [List.map_append]
  exact List.sublist_append_left _ _

/-- The layout of the fields below an ordinal, in whatever order they are declared with their
ordinals written out, is what the layout of the whole struct says of them. So two structs that give
the same fields the same ordinals have the same layout, and a field that is appended with an ordinal
above all others moves none of them. -/
theorem stable_below_ordinal {s : Module.Struct} {layout : Layout} {assigned : List Placed}
    (h : ofStruct s = .ok layout) (ha : assignOrdinals (some 0) s.fields = .ok assigned) :
    (∀ (k : Nat) (t : Module.Struct) (below : List Placed),
      below.Perm (assigned.filter (·.ordinal.toNat < k)) → t.fields = below.map explicitField →
      ∃ earlier, ofStruct t = .ok earlier ∧
        earlier.fields = (layout.fields.filter (·.ordinal.toNat < k)).map explicit ∧
        earlier.totalSize ≤ layout.totalSize) ∧
    (∀ (t : Module.Struct) (assigned' : List Placed),
      assignOrdinals (some 0) t.fields = .ok assigned' →
      (assigned'.map explicit).Perm (assigned.map explicit) →
      ∃ other, ofStruct t = .ok other ∧
        other.fields.map explicit = layout.fields.map explicit) ∧
    ∀ (t : Module.Struct) (f : Module.Field) (front : List Placed) (last : Placed),
      s.fields = t.fields ++ [f] → assigned = front ++ [last] →
      (∀ p ∈ front, p.ordinal < last.ordinal) →
      ∃ earlier, ofStruct t = .ok earlier ∧
        earlier.fields = layout.fields.filter (·.ordinal.toNat < last.ordinal.toNat) := by
  refine ⟨fun k t below hb ht => ?_, fun t assigned' ha' hperm => ?_,
    fun t f front last hs heq hlast => ?_⟩
  · exact ⟨_, ofStruct_below h ha hb ht, rfl, totalSize_below_le t layout k⟩
  · exact ofStruct_of_perm h ha ha' hperm
  · subst heq
    exact ⟨_, ofStruct_without_last h hs ha hlast, rfl⟩

def headerAssigned : List Placed :=
  [⟨⟨"urgent", .basic .bool, none, none, ∅⟩, 0, 1, 0, 0⟩,
    ⟨⟨"final", .basic .bool, some 3, none, ∅⟩, 3, 1, 0, 0⟩,
    ⟨⟨"length", .basic .int32, some 1, none, ∅⟩, 1, 4, 0, 0⟩,
    ⟨⟨"sort", .basic .int16, some 5, none, ∅⟩, 5, 2, 0, 0⟩]

/-- The fields of `header` up to ordinal 3, in another order. -/
def headerBelow : List Placed :=
  [⟨⟨"length", .basic .int32, some 1, none, ∅⟩, 1, 4, 0, 0⟩,
    ⟨⟨"urgent", .basic .bool, none, none, ∅⟩, 0, 1, 0, 0⟩,
    ⟨⟨"final", .basic .bool, some 3, none, ∅⟩, 3, 1, 0, 0⟩]

theorem stable_header :
    ofStruct header = .ok headerLayout ∧
    assignOrdinals (some 0) header.fields = .ok headerAssigned ∧
    (∃ earlier, ofStruct { header with fields := headerBelow.map explicitField } = .ok earlier ∧
      earlier.fields = (headerLayout.fields.filter (·.ordinal.toNat < 4)).map explicit ∧
      earlier.totalSize ≤ headerLayout.totalSize) ∧
    (∃ other, ofStruct { header with fields := headerAssigned.reverse.map explicitField } =
        .ok other ∧ other.fields.map explicit = headerLayout.fields.map explicit) ∧
    ∃ earlier, ofStruct { header with fields := header.fields.dropLast } = .ok earlier ∧
      earlier.fields = headerLayout.fields.filter (·.ordinal.toNat < 5) := by
  have assigned : assignOrdinals (some 0) header.fields = .ok headerAssigned := rfl
  have stable := stable_below_ordinal ofStruct_header assigned
  refine ⟨ofStruct_header, assigned, stable.1 4 _ headerBelow (by decide) rfl, ?_, ?_⟩
  · exact stable.2.1 _ (headerAssigned.reverse.map explicit) rfl (by decide)
  · exact stable.2.2 _ _ headerAssigned.dropLast _ rfl rfl (by decide)

end Layout

end WireSchema
