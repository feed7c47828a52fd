import Mathlib.Order.WellFoundedSet
import WireSchema.Proofs.Module.Constants
import WireSchema.Proofs.Workspace.Closed

/-!
# Constants that lead to a value

The value of a constant or the default of a field may be a reference to a constant, whose value may
be a reference again. Each reference is followed in the module where it stands (`Module.Step`). In
modules that are compiled it always means exactly one constant, but nothing keeps the constants of a
module from referring to each other in a circle. So a value leads to a literal or an enum value
unless it comes to a circle of constants of one module, its own or one it imports, directly or
through others (`Workspace.compile_grounded_iff`).
-/

namespace WireSchema.Module

open Relation

variable {m m' : Module} {v v' : Value} {key : String} {s t t' : Module × Value}

/-! ## Following references -/

/-- A reference is followed: the first value is a reference in the first module, and means a constant
that the second module declares with the second value. -/
def Step (s t : Module × Value) : Prop :=
  ∃ decl, s.2 = .constant decl ∧ s.1.Finds decl.qualified t.1 t.2

/-- The value is no reference. -/
def IsGround (v : Value) : Prop :=
  (∃ l, v = .literal l) ∨ ∃ e, v = .member e

/-- The references that start at a value come to a literal or an enum value. -/
def Grounded (m : Module) (v : Value) : Prop :=
  ∃ t, ReflTransGen Step (m, v) t ∧ IsGround t.2

/-- The second value is that of a constant of the module itself, to which the first refers. -/
def OwnStep (m : Module) (v v' : Value) : Prop :=
  ∃ ref decl, v = .constant ref ∧ (decl, v') ∈ m.constantValues ∧ decl.qualified = ref.qualified

/-- The references that start at a value come to a circle of constants of one module. -/
def Caught (m : Module) (v : Value) : Prop :=
  ∃ m' v', ReflTransGen Step (m, v) (m', v') ∧ TransGen m'.OwnStep v' v'

/-- The values of the constants of a module, and the defaults of its fields. -/
def values (m : Module) : List Value :=
  m.constantValues.map Prod.snd ++ m.structs.flatMap fun s => s.fields.filterMap Field.default

/-- The module and all that it imports, directly or through others, are closed and without ambiguous
names. -/
inductive Proper : Module → Prop where
  | intro {m : Module} (closed : m.Closed) (unambiguous : m.Unambiguous)
    (imports : ∀ i ∈ m.imports, Proper i.target) : Proper m

theorem IsGround.not_step (h : IsGround s.2) : ¬ Step s t := by
  rintro ⟨decl, hs, -⟩
  rcases h with ⟨l, hl⟩ | ⟨e, he⟩
  · cases hs.symm.trans hl
  · cases hs.symm.trans he

theorem OwnStep.step (h : m.OwnStep v v') : Step (m, v) (m, v') := by
  obtain ⟨ref, decl, hv, hmem, hkey⟩ := h
  exact ⟨ref, hv, .own hmem hkey⟩

theorem Grounded.of_step (hstep : Step (m, v) (m', v')) (h : m'.Grounded v') : m.Grounded v := by
  obtain ⟨t, hreach, hground⟩ := h
  exact ⟨t, .head hstep hreach, hground⟩

theorem Caught.of_step (hstep : Step (m, v) (m', v')) (h : m'.Caught v') : m.Caught v := by
  obtain ⟨n, w, hreach, hcircle⟩ := h
  exact ⟨n, w, .head hstep hreach, hcircle⟩

/-! ## A reference means one constant -/

section Last

variable {α : Type} {p : α → Prop} {l : List α}

theorem exists_last (h : ∃ a ∈ l, p a) :
    ∃ before a after, l = before ++ a :: after ∧ p a ∧ ∀ b ∈ after, ¬ p b := by
  induction l with
  | nil => simp at h
  | cons x l ih =>
    by_cases hl : ∃ a ∈ l, p a
    · obtain ⟨before, a, after, rfl, ha, hafter⟩ := ih hl
      exact ⟨x :: before, a, after, rfl, ha, hafter⟩
    · have hx : p x := by simpa [hl] using h
      exact ⟨[], x, l, rfl, hx, fun b hb hpb => hl ⟨b, hb, hpb⟩⟩

theorem last_unique {before before' after after' : List α} {a a' : α}
    (heq : before ++ a :: after = before' ++ a' :: after') (ha : p a) (ha' : p a')
    (hafter : ∀ b ∈ after, ¬ p b) (hafter' : ∀ b ∈ after', ¬ p b) : a = a' := by
  rcases List.append_eq_append_iff.1 heq with ⟨l, -, hl⟩ | ⟨l, -, hl⟩
  · cases l with
    | nil => simp_all
    | cons x l =>
      simp only [List.cons_append, List.cons.injEq] at hl
      exact absurd ha' (hafter a' (by simp [hl.2]))
  · cases l with
    | nil => simp_all
    | cons x l =>
      simp only [List.cons_append, List.cons.injEq] at hl
      exact absurd ha (hafter' a (by simp [hl.2]))

end Last

theorem perm_constantValues (m : Module) : (m.constantValues.map Prod.fst).Perm m.constantDecls := by
  have hlists : m.constantValues.map Prod.fst =
      (m.structs.flatMap (fun s => s.constants.map fun c =>
        (⟨m.space, nestedName (some s.name) c.name⟩ : DeclRef)) ++
      m.interfaces.flatMap fun i => i.constants.map fun c =>
        (⟨m.space, nestedName (some i.name) c.name⟩ : DeclRef)) ++
      m.constants.map fun c => (⟨m.space, c.name⟩ : DeclRef) := by
    simp [constantValues, scopedValues, List.map_flatMap, Function.comp_def, nestedName]
  rw [hlists, constantDecls]
  exact List.perm_append_comm.trans (.of_eq (List.append_assoc _ _ _).symm)

theorem exists_constantValues {decl : DeclRef} (h : decl ∈ m.constantDecls) :
    ∃ v, (decl, v) ∈ m.constantValues := by
  obtain ⟨c, hc, rfl⟩ := List.mem_map.1 ((perm_constantValues m).mem_iff.2 h)
  exact ⟨c.2, hc⟩

theorem Unambiguous.nodup_constantKeys (h : m.Unambiguous) :
    (m.constantValues.map fun c => c.1.qualified).Nodup := by
  have hdecls : (m.constantDecls.map DeclRef.qualified).Nodup := by
    have hqualified := (List.nodup_append'.1 h.qualified).1
    rw [decls, List.map_append] at hqualified
    exact (List.nodup_append'.1 hqualified).2.1
  have hperm := (perm_constantValues m).map DeclRef.qualified
  rw [List.map_map] at hperm
  exact hperm.nodup_iff.2 hdecls

theorem Unambiguous.eq_of_key (h : m.Unambiguous) {c c' : DeclRef × Value}
    (hc : c ∈ m.constantValues) (hc' : c' ∈ m.constantValues)
    (hkey : c.1.qualified = c'.1.qualified) : c = c' :=
  List.inj_on_of_nodup_map h.nodup_constantKeys hc hc' hkey

theorem Finds.unique (h : m.Proper) {n n' : Module} (hn : m.Finds key n v)
    (hn' : m.Finds key n' v') : n = n' ∧ v = v' := by
  obtain ⟨-, unambiguous, imports⟩ := h
  cases hn with
  | own declares qualified =>
    cases hn' with
    | own declares' qualified' =>
      cases unambiguous.eq_of_key declares declares' (qualified.trans qualified'.symm)
      exact ⟨rfl, rfl⟩
    | imported notOwn => exact absurd qualified (notOwn _ declares)
  | @imported before after i _ _ notOwn order declares qualified last =>
    cases hn' with
    | own declares' qualified' => exact absurd qualified' (notOwn _ declares')
    | @imported before' after' i' _ _ _ order' declares' qualified' last' =>
      have hlast : ∀ j ∈ after, ¬ ∃ c ∈ j.target.constantValues, c.1.qualified = key := by
        rintro j hj ⟨c, hc, hkey⟩
        exact last j hj c hc hkey
      have hlast' : ∀ j ∈ after', ¬ ∃ c ∈ j.target.constantValues, c.1.qualified = key := by
        rintro j hj ⟨c, hc, hkey⟩
        exact last' j hj c hc hkey
      obtain rfl : i = i' := last_unique (order.symm.trans order') ⟨_, declares, qualified⟩
        ⟨_, declares', qualified'⟩ hlast hlast'
      obtain ⟨-, unambiguous, -⟩ := imports i (by simp [order])
      cases unambiguous.eq_of_key declares declares' (qualified.trans qualified'.symm)
      exact ⟨rfl, rfl⟩

theorem Finds.proper (h : m.Proper) (hfinds : m.Finds key m' v) : m'.Proper := by
  cases hfinds with
  | own => exact h
  | @imported before after i _ _ _ order =>
    obtain ⟨-, -, imports⟩ := h
    exact imports i (by simp [order])

theorem Step.unique (h : s.1.Proper) (ht : Step s t) (ht' : Step s t') : t = t' := by
  obtain ⟨decl, hs, hfinds⟩ := ht
  obtain ⟨decl', hs', hfinds'⟩ := ht'
  cases hs.symm.trans hs'
  obtain ⟨hmodule, hvalue⟩ := hfinds.unique h hfinds'
  exact Prod.ext hmodule hvalue

theorem Step.proper (h : s.1.Proper) (hstep : Step s t) : t.1.Proper := by
  obtain ⟨decl, -, hfinds⟩ := hstep
  exact hfinds.proper h

/-- A way that leads to an end does not come back to its start. -/
theorem not_cyclic_of_ground (h : s.1.Proper) (hreach : ReflTransGen Step s t)
    (hground : IsGround t.2) : ¬ TransGen Step s s := by
  induction hreach using ReflTransGen.head_induction_on with
  | refl =>
    intro hcycle
    obtain ⟨k, hstep, -⟩ := TransGen.head'_iff.1 hcycle
    exact hground.not_step hstep
  | head hstep hrest ih =>
    intro hcycle
    obtain ⟨k, hstep', hback⟩ := TransGen.head'_iff.1 hcycle
    cases hstep.unique h hstep'
    exact ih (hstep.proper h) (TransGen.tail' hback hstep)

theorem not_caught_of_grounded (h : m.Proper) (hgrounded : m.Grounded v) : ¬ m.Caught v := by
  obtain ⟨t, hreach, hground⟩ := hgrounded
  rintro ⟨m', v', hcaught, hcircle⟩
  have hcycle : TransGen Step (m', v') (m', v') :=
    hcircle.lift (fun w => (m', w)) fun _ _ hown => hown.step
  -- There is one way only: the place of the circle lies on the way to the end.
  generalize hs : (m, v) = s at hreach hcaught
  have hproper : s.1.Proper := hs ▸ h
  clear hs
  induction hcaught using ReflTransGen.head_induction_on with
  | refl => exact not_cyclic_of_ground hproper hreach hground hcycle
  | head hstep hrest ih =>
    rcases hreach.cases_head with rfl | ⟨k, hstep', hreach'⟩
    · exact hground.not_step hstep
    · cases hstep.unique hproper hstep'
      exact ih hreach' (hstep.proper hproper)

/-! ## Every reference means a constant -/

theorem Closed.of_mem_values (h : m.Closed) (hv : v ∈ m.values) : v.Closed m.view := by
  rcases List.mem_append.1 hv with hv | hv
  · obtain ⟨c, hc, rfl⟩ := List.mem_map.1 hv
    simp only [constantValues, scopedValues, List.mem_append, List.mem_flatMap, List.mem_map] at hc
    rcases hc with (⟨s, hs, c, hc, rfl⟩ | ⟨i, hi, c, hc, rfl⟩) | ⟨c, hc, rfl⟩
    · exact ((h.structs s hs).constants c hc).value
    · exact ((h.interfaces i hi).constants c hc).value
    · exact (h.constants c hc).value
  · obtain ⟨s, hs, hv⟩ := List.mem_flatMap.1 hv
    obtain ⟨f, hf, hdefault⟩ := List.mem_filterMap.1 hv
    exact ((h.structs s hs).fields f hf).default v hdefault

theorem mem_values_of_constantValues {decl : DeclRef} (h : (decl, v) ∈ m.constantValues) :
    v ∈ m.values :=
  List.mem_append_left _ (List.mem_map_of_mem h)

/-- A value of a closed module is no reference, or refers to a constant of the module itself or of an
import. -/
theorem step_cases (hv : v.Closed m.view) :
    IsGround v ∨ (∃ v' ∈ m.values, m.OwnStep v v') ∨
      ∃ i ∈ m.imports, ∃ v' ∈ i.target.values, Step (m, v) (i.target, v') := by
  cases hv with
  | literal l => exact .inl (.inl ⟨l, rfl⟩)
  | member => exact .inl (.inr ⟨_, rfl⟩)
  | @constant n decl visible declared =>
    obtain ⟨w, hw⟩ := exists_constantValues declared
    by_cases hown : ∃ c ∈ m.constantValues, c.1.qualified = decl.qualified
    · obtain ⟨c, hc, hkey⟩ := hown
      exact .inr (.inl ⟨c.2, mem_values_of_constantValues hc, decl, c.1, rfl, hc, hkey⟩)
    · have himport : ∃ i ∈ m.imports, ∃ c ∈ i.target.constantValues,
          c.1.qualified = decl.qualified := by
        rcases List.mem_cons.1 visible with rfl | visible
        · exact absurd ⟨_, hw, rfl⟩ hown
        · obtain ⟨i, hi, rfl⟩ := List.mem_map.1 visible
          exact ⟨i, hi, _, hw, rfl⟩
      obtain ⟨before, i, after, order, ⟨c, hc, hkey⟩, hlast⟩ := exists_last himport
      refine .inr (.inr ⟨i, by simp [order], c.2, mem_values_of_constantValues hc, decl, rfl, ?_⟩)
      exact .imported (fun c hc hkey => hown ⟨c, hc, hkey⟩) order hc hkey
        fun j hj c hc hkey => hlast j hj ⟨c, hc, hkey⟩

theorem Finds.mem_values (h : m.Finds key m' v) : v ∈ m'.values := by
  cases h with
  | own declares => exact mem_values_of_constantValues declares
  | imported _ _ declares => exact mem_values_of_constantValues declares

/-- All that is reached from a value of a module are values of modules it imports, directly or through
others. -/
theorem values_of_reach (h : m.Proper) (hv : v ∈ m.values) (hreach : ReflTransGen Step (m, v) s) :
    s.1.Proper ∧ s.2 ∈ s.1.values := by
  induction hreach with
  | refl => exact ⟨h, hv⟩
  | tail _ hstep ih =>
    obtain ⟨decl, -, hfinds⟩ := hstep
    exact ⟨hfinds.proper ih.1, hfinds.mem_values⟩

/-- On the way from a value every reference means exactly one constant. -/
theorem existsUnique_step (h : m.Proper) (hv : v ∈ m.values)
    (hreach : ReflTransGen Step (m, v) s) : IsGround s.2 ∨ ∃! t, Step s t := by
  obtain ⟨hproper, hvalue⟩ := values_of_reach h hv hreach
  have hclosed : s.1.Closed := by
    cases hproper
    assumption
  have hunique : ∀ {t}, Step s t → ∃! t, Step s t := fun hstep =>
    ⟨_, hstep, fun _ hstep' => hstep'.unique hproper hstep⟩
  rcases step_cases (hclosed.of_mem_values hvalue) with hground | ⟨w, -, hown⟩ | ⟨i, -, w, -, hstep⟩
  · exact .inl hground
  · exact .inr (hunique hown.step)
  · exact .inr (hunique hstep)

/-- A value leads to an end unless it comes to a circle. The induction is on the imports and, among
the values of one module, along the references to its own constants, which are finitely many. -/
theorem grounded_of_not_caught (h : m.Proper) (hv : v ∈ m.values) (hfree : ¬ m.Caught v) :
    m.Grounded v := by
  induction h generalizing v with
  | @intro m closed unambiguous imports ih =>
    let before (w u : Value) : Prop := TransGen m.OwnStep u w ∧ ¬ m.Caught u
    have hirrefl : Std.Irrefl before := ⟨fun u hu => hu.2 ⟨m, u, .refl, hu.1⟩⟩
    have htrans : IsTrans Value before := ⟨fun _ _ _ h h' => ⟨h'.1.trans h.1, h'.2⟩⟩
    have hstrict : IsStrictOrder Value before := {}
    have hfinite : {u | u ∈ m.values}.Finite := m.values.finite_toSet
    refine (hfinite.wellFoundedOn (r := before)).induction hv (P := fun u => ¬ m.Caught u →
      m.Grounded u) (fun u hu ihown hfree => ?_) hfree
    rcases step_cases (closed.of_mem_values hu) with hground | ⟨w, hw, hown⟩ | ⟨i, hi, w, hw, hstep⟩
    · exact ⟨(m, u), .refl, hground⟩
    · have hfree' : ¬ m.Caught w := fun hcaught => hfree (hcaught.of_step hown.step)
      exact (ihown w hw ⟨.single hown, hfree⟩ hfree').of_step hown.step
    · have hfree' : ¬ i.target.Caught w := fun hcaught => hfree (hcaught.of_step hstep)
      exact (ih i hi hw hfree').of_step hstep

end WireSchema.Module

namespace WireSchema.Workspace

variable {ws : Workspace}

theorem proper_of_text {file text path : String} {record : Record}
    {imports : List (Module.Import Module)} {m : Module}
    (hr : Record.ofSource file text = .ok record)
    (hb : Module.ofRecord record path imports = .ok m)
    (himports : ∀ i ∈ imports, i.target.Proper) : m.Proper :=
  .intro (Module.closed_of_ofRecord hb) (unambiguous_of_text hr hb)
    (Module.imports_of_ofRecord hb ▸ himports)

theorem Used.proper (h : Used ws) {written : String} {m : Module}
    (hm : (ws.compile written).1 = .ok m ∨ ∃ path, (path, m) ∈ (ws.compile written).2.built) :
    m.Proper :=
  h.forall_compiled proper_of_text hm

/-- In every module that a compilation returns or keeps, the references from a constant or the
default of a field mean exactly one constant each, and they lead to a literal or an enum value if and
only if they do not come to a circle of constants of one module. -/
theorem compile_grounded_iff (h : Used ws) (written : String) (m : Module)
    (hm : (ws.compile written).1 = .ok m ∨ ∃ path, (path, m) ∈ (ws.compile written).2.built) :
    ∀ v ∈ m.values,
      (∀ s, Relation.ReflTransGen Module.Step (m, v) s →
        Module.IsGround s.2 ∨ ∃! t, Module.Step s t) ∧
      (m.Grounded v ↔ ¬ m.Caught v) := by
  intro v hv
  have hproper := h.proper hm
  exact ⟨fun s hreach => Module.existsUnique_step hproper hv hreach,
    Module.not_caught_of_grounded hproper, Module.grounded_of_not_caught hproper hv⟩

/-- In `a` a constant is itself, and in `b` two constants are each other. In `c` they have a value. -/
def circles : Workspace where
  sources := { files :=
    [(.ofNames ["a"], .text "const int32 A = A;"),
      (.ofNames ["b"], .text ("const int32 A = B; const int32 B = A; " ++
        "struct S { int32 x = A; };")),
      (.ofNames ["c"], .text ("const int32 A = B; const int32 B = 5; " ++
        "struct S { int32 x = A; };"))] }

/-- The constants of a module with their values, and the defaults of its fields. -/
def references (m : Module) : List (DeclRef × Value) × List Value :=
  (m.constantValues, m.structs.flatMap fun s => s.fields.filterMap Module.Field.default)

theorem values_of_references {m : Module} {constants : List (DeclRef × Value)}
    {defaults : List Value} (h : references m = (constants, defaults)) :
    m.constantValues = constants ∧ m.values = constants.map Prod.snd ++ defaults := by
  injection h with hconstants hdefaults
  exact ⟨hconstants, by rw [Module.values, hconstants, hdefaults]⟩

theorem caught_a : ∃ m, (circles.compile "/a").1 = .ok m ∧ m.values = [.constant ⟨"", "A"⟩] ∧
    ∀ v ∈ m.values, m.Caught v := by
  obtain ⟨m, hm, hrefs⟩ : ∃ m, (circles.compile "/a").1 = .ok m ∧
      references m = ([(⟨"", "A"⟩, .constant ⟨"", "A"⟩)], []) :=
    Except.map_eq_ok.1 (by decide +kernel)
  obtain ⟨hconstants, hvalues⟩ := values_of_references hrefs
  have hself : m.OwnStep (.constant ⟨"", "A"⟩) (.constant ⟨"", "A"⟩) :=
    ⟨_, ⟨"", "A"⟩, rfl, by simp [hconstants], rfl⟩
  refine ⟨m, hm, hvalues, ?_⟩
  rw [hvalues]
  simpa using ⟨m, _, .refl, .single hself⟩

theorem caught_b : ∃ m, (circles.compile "/b").1 = .ok m ∧
    m.values = [.constant ⟨"", "B"⟩, .constant ⟨"", "A"⟩, .constant ⟨"", "A"⟩] ∧
    ∀ v ∈ m.values, m.Caught v := by
  obtain ⟨m, hm, hrefs⟩ : ∃ m, (circles.compile "/b").1 = .ok m ∧
      references m = ([(⟨"", "A"⟩, .constant ⟨"", "B"⟩), (⟨"", "B"⟩, .constant ⟨"", "A"⟩)],
        [.constant ⟨"", "A"⟩]) :=
    Except.map_eq_ok.1 (by decide +kernel)
  obtain ⟨hconstants, hvalues⟩ := values_of_references hrefs
  have hforth : m.OwnStep (.constant ⟨"", "A"⟩) (.constant ⟨"", "B"⟩) :=
    ⟨_, ⟨"", "A"⟩, rfl, by simp [hconstants], rfl⟩
  have hback : m.OwnStep (.constant ⟨"", "B"⟩) (.constant ⟨"", "A"⟩) :=
    ⟨_, ⟨"", "B"⟩, rfl, by simp [hconstants], rfl⟩
  have hA : m.Caught (.constant ⟨"", "A"⟩) := ⟨m, _, .refl, .tail (.single hforth) hback⟩
  have hB : m.Caught (.constant ⟨"", "B"⟩) := ⟨m, _, .refl, .tail (.single hback) hforth⟩
  refine ⟨m, hm, hvalues, ?_⟩
  rw [hvalues]
  simpa using ⟨hB, hA⟩

/-- No constant of `a` and `b` leads to a value, and neither does the default of the field. -/
theorem values_not_grounded :
    (∃ m, (circles.compile "/a").1 = .ok m ∧ m.values = [.constant ⟨"", "A"⟩] ∧
      ∀ v ∈ m.values, ¬ m.Grounded v) ∧
    ∃ m, (circles.compile "/b").1 = .ok m ∧
      m.values = [.constant ⟨"", "B"⟩, .constant ⟨"", "A"⟩, .constant ⟨"", "A"⟩] ∧
      ∀ v ∈ m.values, ¬ m.Grounded v := by
  have hused : Used circles := .fresh rfl
  obtain ⟨m, hm, hvalues, hcaught⟩ := caught_a
  obtain ⟨n, hn, hvalues', hcaught'⟩ := caught_b
  refine ⟨⟨m, hm, hvalues, fun v hv hgrounded => ?_⟩, n, hn, hvalues', fun v hv hgrounded => ?_⟩
  · exact Module.not_caught_of_grounded (hused.proper (.inl hm)) hgrounded (hcaught v hv)
  · exact Module.not_caught_of_grounded (hused.proper (.inl hn)) hgrounded (hcaught' v hv)

/-- The default of the field in `c` leads to an end through both constants, so it comes to no
circle. -/
theorem compile_grounded_iff_circles :
    Used circles ∧ ∃ m, (circles.compile "/c").1 = .ok m ∧
      .constant ⟨"", "A"⟩ ∈ m.values ∧ m.Grounded (.constant ⟨"", "A"⟩) ∧
      ¬ m.Caught (.constant ⟨"", "A"⟩) := by
  have hused : Used circles := .fresh rfl
  obtain ⟨m, hm, hrefs⟩ : ∃ m, (circles.compile "/c").1 = .ok m ∧
      references m = ([(⟨"", "A"⟩, .constant ⟨"", "B"⟩), (⟨"", "B"⟩, .literal (.integer "5"))],
        [.constant ⟨"", "A"⟩]) :=
    Except.map_eq_ok.1 (by decide +kernel)
  obtain ⟨hconstants, hvalues⟩ := values_of_references hrefs
  have hvalue : Value.constant ⟨"", "A"⟩ ∈ m.values := by simp [hvalues]
  have hfirst : m.OwnStep (.constant ⟨"", "A"⟩) (.constant ⟨"", "B"⟩) :=
    ⟨_, ⟨"", "A"⟩, rfl, by simp [hconstants], rfl⟩
  have hsecond : m.OwnStep (.constant ⟨"", "B"⟩) (.literal (.integer "5")) :=
    ⟨_, ⟨"", "B"⟩, rfl, by simp [hconstants], rfl⟩
  have hgrounded : m.Grounded (.constant ⟨"", "A"⟩) :=
    ⟨_, .head hfirst.step (.single hsecond.step), .inl ⟨_, rfl⟩⟩
  exact ⟨hused, m, hm, hvalue, hgrounded,
    (compile_grounded_iff hused "/c" m (.inl hm) _ hvalue).2.1 hgrounded⟩

end WireSchema.Workspace
