import WireSchema.Proofs.Layout.Valid
import WireSchema.Proofs.Module.Closed
import WireSchema.Proofs.Workspace.Cache

/-!
# Kept modules and their imports

Modules are kept in the order in which they were built. `Workspace.Linked` says what holds of such a
list: every module was built from modules that were kept before it, under the paths that its imports
name, and its structs pass their layout checks. It follows that every import is a kept module and
that imports never lead back (`Workspace.Linked.not_cyclic`). A run of the loader keeps the list
linked, adds to it and never replaces a module, and a run that fails keeps none of the files that
were in progress (`Workspace.kept_load_and_loadImports`). Nothing here depends on the texts being the
ones that the modules were built from.
-/

namespace WireSchema.Workspace

variable {ws : Workspace} {stack : List SourcePath} {built built' built'' : Built}
  {path q u v : SourcePath} {m : Module}

/-! ## Linked modules -/

/-- The struct can be packed, and its layout passes the check byte by byte. -/
def Packs (s : Module.Struct) : Prop :=
  ∃ layout bytes, Layout.ofStruct s = .ok layout ∧ layout.bytes = .ok (some bytes)

theorem packs_of_checkLayouts {structs : List Module.Struct} (h : checkLayouts structs = .ok ()) :
    ∀ s ∈ structs, Packs s := by
  induction structs with
  | nil => exact List.forall_mem_nil _
  | cons s rest ih =>
    simp only [checkLayouts, bind, Except.bind] at h
    cases hlayout : Layout.ofStruct s with
    | error e => simp [hlayout] at h
    | ok layout =>
      have hbytes := Layout.bytes_of_arranged (Layout.arranged_of_ofStruct hlayout)
      simp only [hlayout, hbytes] at h
      exact List.forall_mem_cons.2 ⟨⟨layout, _, hlayout, hbytes⟩, ih h⟩

/-- Modules, latest first, each built from modules that were kept before it. -/
inductive Linked : Built → Prop where
  | nil : Linked []
  | cons {built : Built} {path : SourcePath} {m : Module} (rest : Linked built)
    (fresh : built.lookup path = none)
    (imports : ∀ i ∈ m.imports, built.lookup i.source = some i.target)
    (packs : ∀ s ∈ m.layoutStructs, Packs s) : Linked ((path, m) :: built)

namespace Linked

theorem lookup_imports (h : Linked built) (hm : built.lookup q = some m) :
    ∀ i ∈ m.imports, built.lookup i.source = some i.target := by
  induction h with
  | nil => cases hm
  | @cons built path n rest fresh imports packs ih =>
    by_cases hq : q = path
    · subst hq
      rw [List.lookup_cons_self] at hm
      cases hm
      exact fun i hi => extends_cons fresh _ _ (imports i hi)
    · rw [lookup_cons_of_ne hq] at hm
      exact fun i hi => extends_cons fresh _ _ (ih hm i hi)

theorem packs_of_lookup (h : Linked built) (hm : built.lookup q = some m) :
    ∀ s ∈ m.layoutStructs, Packs s := by
  induction h with
  | nil => cases hm
  | @cons built path n rest fresh imports packs ih =>
    by_cases hq : q = path
    · subst hq
      rw [List.lookup_cons_self] at hm
      cases hm
      exact packs
    · rw [lookup_cons_of_ne hq] at hm
      exact ih hm

end Linked

/-- A kept module has an import from the given path. -/
def Leads (built : Built) (u v : SourcePath) : Prop :=
  ∃ m, built.lookup u = some m ∧ ∃ i ∈ m.imports, i.source = v

/-- How many modules were kept when the module of a path was, itself included. -/
def rank : Built → SourcePath → Nat
  | [], _ => 0
  | (path, _) :: built, q => if q = path then built.length + 1 else rank built q

theorem rank_le_length (built : Built) (q : SourcePath) : rank built q ≤ built.length := by
  induction built with
  | nil => exact Nat.le_refl 0
  | cons entry built ih =>
    rw [rank, List.length_cons]
    split
    · exact Nat.le_refl _
    · exact Nat.le_succ_of_le ih

/-- An import was kept before the module that has it. -/
theorem Linked.rank_lt (h : Linked built) (huv : Leads built u v) : rank built v < rank built u := by
  induction h with
  | nil =>
    obtain ⟨m, hm, -⟩ := huv
    cases hm
  | @cons built path n rest fresh imports packs ih =>
    obtain ⟨m, hm, i, hi, rfl⟩ := huv
    have hne : ∀ target, built.lookup i.source = some target → i.source ≠ path := by
      rintro target htarget rfl
      rw [fresh] at htarget
      cases htarget
    by_cases hu : u = path
    · subst hu
      rw [List.lookup_cons_self] at hm
      cases hm
      rw [rank, if_neg (hne _ (imports i hi)), rank, if_pos rfl]
      exact Nat.lt_succ_of_le (rank_le_length built _)
    · rw [lookup_cons_of_ne hu] at hm
      rw [rank, if_neg (hne _ (rest.lookup_imports hm i hi)), rank, if_neg hu]
      exact ih ⟨m, hm, i, hi, rfl⟩

theorem Linked.rank_lt_of_transGen {u v : SourcePath} (h : Linked built)
    (huv : Relation.TransGen (Leads built) u v) : rank built v < rank built u := by
  induction huv with
  | single hstep => exact h.rank_lt hstep
  | tail _ hstep ih => exact Nat.lt_trans (h.rank_lt hstep) ih

/-- No kept module leads back to itself. -/
theorem Linked.not_cyclic (h : Linked built) (q : SourcePath) :
    ¬ Relation.TransGen (Leads built) q q :=
  fun hcycle => Nat.lt_irrefl _ (h.rank_lt_of_transGen hcycle)

/-! ## Runs of the loader -/

theorem of_buildModule {file : String} {record : Record} {imports : List (Module.Import Module)}
    (h : buildModule file record imports = .ok m) :
    m.imports = imports ∧ ∀ s ∈ m.layoutStructs, Packs s := by
  obtain ⟨hm, hlayouts⟩ := built_of_buildModule h
  exact ⟨Module.imports_of_ofRecord hm, packs_of_checkLayouts hlayouts⟩

/-- What a run with the files of `stack` in progress does to the modules that are kept: they stay
linked, none is replaced, none of the files in progress is among them, and the imports of the new
ones lead where the workspace says. -/
structure Kept (ws : Workspace) (stack : List SourcePath) (built built' : Built) : Prop where
  linked : Linked built'
  extend : Extends built built'
  apart : ∀ q ∈ stack, built'.lookup q = none
  found : ∀ q m, built'.lookup q = some m → built.lookup q = some m ∨
    ∀ i ∈ m.imports, ws.findImport? q i.filename = some i.source

namespace Kept

theorem refl (h : Linked built) (apart : ∀ q ∈ stack, built.lookup q = none) :
    Kept ws stack built built :=
  ⟨h, .refl built, apart, fun _ _ hm => .inl hm⟩

theorem trans (h : Kept ws stack built built') (h' : Kept ws stack built' built'') :
    Kept ws stack built built'' where
  linked := h'.linked
  extend := h.extend.trans h'.extend
  apart := h'.apart
  found q m hm := (h'.found q m hm).elim (h.found q m) .inr

theorem pop (h : Kept ws (path :: stack) built built') : Kept ws stack built built' :=
  ⟨h.linked, h.extend, fun q hq => h.apart q (List.mem_cons_of_mem _ hq), h.found⟩

/-- Keeps the module of the latest file in progress. -/
theorem keep (h : Kept ws (path :: stack) built built') (hs : path ∉ stack)
    (imports : ∀ i ∈ m.imports, built'.lookup i.source = some i.target ∧
      ws.findImport? path i.filename = some i.source)
    (packs : ∀ s ∈ m.layoutStructs, Packs s) : Kept ws stack built ((path, m) :: built') := by
  have fresh : built'.lookup path = none := h.apart path List.mem_cons_self
  refine ⟨.cons h.linked fresh (fun i hi => (imports i hi).1) packs,
    h.extend.trans (extends_cons fresh), fun q hq => ?_, fun q n hn => ?_⟩
  · have hne : q ≠ path := by rintro rfl; exact hs hq
    rw [lookup_cons_of_ne hne]
    exact h.apart q (List.mem_cons_of_mem _ hq)
  · by_cases hq : q = path
    · subst hq
      rw [List.lookup_cons_self] at hn
      cases hn
      exact .inr fun i hi => (imports i hi).2
    · rw [lookup_cons_of_ne hq] at hn
      exact h.found q n hn

end Kept

/-- How a run ends: the modules it leaves are kept, what it returns is as `Returned` says, and if it
stops, none of the files then in progress is among the modules. -/
structure KeptEnd {α : Type} (ws : Workspace) (stack : List SourcePath) (built : Built)
    (Returned : α → Built → Prop) (result : Except Halt α) (after : Built) : Prop where
  kept : Kept ws stack built after
  returned : ∀ a, result = .ok a → Returned a after
  stopped : ∀ halt, result = .error halt → ∀ q ∈ halt.stack, after.lookup q = none

namespace KeptEnd

variable {α : Type} {Returned : α → Built → Prop} {a : α} {halt : Halt} {after : Built}

theorem of_ok (kept : Kept ws stack built after) (returned : Returned a after) :
    KeptEnd ws stack built Returned (.ok a) after := by
  refine ⟨kept, ?_, nofun⟩
  rintro _ ⟨⟩
  exact returned

theorem of_error (kept : Kept ws stack built after)
    (stopped : ∀ q ∈ halt.stack, after.lookup q = none) :
    KeptEnd ws stack built Returned (.error halt) after := by
  refine ⟨kept, nofun, ?_⟩
  rintro _ ⟨⟩
  exact stopped

end KeptEnd

/-- The imports of a file lead to kept modules, as the workspace finds them. -/
def ImportsKept (ws : Workspace) (importer : SourcePath) (imports : List (Module.Import Module))
    (built : Built) : Prop :=
  ∀ i ∈ imports, built.lookup i.source = some i.target ∧
    ws.findImport? importer i.filename = some i.source

theorem kept_load_and_loadImports (ws : Workspace) :
    (∀ stack built path, Linked built → (∀ q ∈ stack, built.lookup q = none) →
      KeptEnd ws stack built (fun m after => after.lookup path = some m)
        (ws.load stack built path).1 (ws.load stack built path).2) ∧
    ∀ stack built importer imports, Linked built → (∀ q ∈ stack, built.lookup q = none) →
      KeptEnd ws stack built (ImportsKept ws importer)
        (ws.loadImports stack built importer imports).1
        (ws.loadImports stack built importer imports).2 := by
  apply load_induction ws
    (P := fun stack built path result after => Linked built →
      (∀ q ∈ stack, built.lookup q = none) →
      KeptEnd ws stack built (fun m after => after.lookup path = some m) result after)
    (Q := fun stack built importer _ result after => Linked built →
      (∀ q ∈ stack, built.lookup q = none) →
      KeptEnd ws stack built (ImportsKept ws importer) result after)
  case circular =>
    intro stack built path hs h apart
    exact .of_error (.refl h apart) apart
  case cached =>
    intro stack built path m hs hm h apart
    exact .of_ok (.refl h apart) hm
  case missing =>
    intro stack built path hs hb hf h apart
    exact .of_error (.refl h apart) (List.forall_mem_cons.2 ⟨hb, apart⟩)
  case unread =>
    intro stack built path contents fault hs hb hf hr h apart
    exact .of_error (.refl h apart) (List.forall_mem_cons.2 ⟨hb, apart⟩)
  case stopped =>
    intro stack built path contents record halt after hs hb hf hr _ ih h apart
    have hend := ih h (List.forall_mem_cons.2 ⟨hb, apart⟩)
    exact .of_error hend.kept.pop (hend.stopped halt rfl)
  case unbuilt =>
    intro stack built path contents record imports after fault hs hb hf hr _ ih hm h apart
    have hkept := (ih h (List.forall_mem_cons.2 ⟨hb, apart⟩)).kept
    exact .of_error hkept.pop hkept.apart
  case finished =>
    intro stack built path contents record imports after m hs hb hf hr _ ih hm h apart
    have hend := ih h (List.forall_mem_cons.2 ⟨hb, apart⟩)
    obtain ⟨heq, packs⟩ := of_buildModule hm
    have himports : ImportsKept ws path m.imports after := heq ▸ hend.returned imports rfl
    exact .of_ok (hend.kept.keep hs himports packs) List.lookup_cons_self
  case nil =>
    intro stack built importer h apart
    exact .of_ok (.refl h apart) (List.forall_mem_nil _)
  case notFound =>
    intro stack built importer i rest hf h apart
    exact .of_error (.refl h apart) apart
  case headStopped =>
    intro stack built importer i rest path halt after hf _ ih h apart
    have hend := ih h apart
    exact .of_error hend.kept (hend.stopped halt rfl)
  case tailStopped =>
    intro stack built importer i rest path m after halt after' hf _ ih iht h apart
    have hkept := (ih h apart).kept
    have hrest := iht hkept.linked hkept.apart
    exact .of_error (hkept.trans hrest.kept) (hrest.stopped halt rfl)
  case cons =>
    intro stack built importer i rest path m after others after' hf _ ih iht h apart
    have hhead := ih h apart
    have hrest := iht hhead.kept.linked hhead.kept.apart
    have hlookup : after'.lookup path = some m :=
      hrest.kept.extend _ _ (hhead.returned m rfl)
    exact .of_ok (hhead.kept.trans hrest.kept)
      (List.forall_mem_cons.2 ⟨⟨hlookup, hf⟩, hrest.returned others rfl⟩)

end WireSchema.Workspace
