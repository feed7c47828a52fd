import WireSchema.Proofs.Grammar.Soundness
import WireSchema.Proofs.Module.Tables
import WireSchema.Proofs.Token.Split
import WireSchema.Tree.Source

/-!
# Declared names are identifiers

Every name that a tree declares is an identifier among the tokens it is read from, and identifiers
of a text hold no dots. So the records of texts are plain (`Record.plain_of_ofSource`).
-/

namespace WireSchema

/-! ## The names that a tree declares -/

namespace Tree

def Enum.declared (e : Enum) : List String :=
  e.name :: e.values.map EnumValue.name

def StructMember.declared : StructMember → List String
  | field _ => []
  | enum e => e.declared
  | constant c => [c.name]

def InterfaceMember.declared : InterfaceMember → List String
  | method _ => []
  | enum e => e.declared
  | constant c => [c.name]

/-- The name of a definition and those of the enums, enum values and constants in it. -/
def Definition.declared : Definition → List String
  | struct s => s.name :: s.body.flatMap StructMember.declared
  | interface i => i.name :: i.body.flatMap InterfaceMember.declared
  | enum e => e.declared
  | constant c => [c.name]

end Tree

namespace Phrase

variable {α : Type} {P : Phrase α} {ts ts' : List Token} {as : List α} {name : String}
  {attributes : List Tree.Attribute}

/-- A name is an identifier among tokens. -/
def Occurs (name : String) (ts : List Token) : Prop :=
  ∃ t ∈ ts, t.symbol = .identifier name

theorem Occurs.mono (h : Occurs name ts) (hsub : ts ⊆ ts') : Occurs name ts' := by
  obtain ⟨t, ht, hsymbol⟩ := h
  exact ⟨t, hsub ht, hsymbol⟩

theorem Occurs.append_left (h : Occurs name ts) (front : List Token) : Occurs name (front ++ ts) :=
  h.mono (List.subset_append_right _ _)

theorem Occurs.append_right (h : Occurs name ts) (back : List Token) : Occurs name (ts ++ back) :=
  h.mono (List.subset_append_left _ _)

theorem Occurs.cons (h : Occurs name ts) (t : Token) : Occurs name (t :: ts) :=
  h.mono (List.subset_cons_self _ _)

theorem occurs_head (line : UInt32) (name : String) (ts : List Token) :
    Occurs name (⟨line, .identifier name⟩ :: ts) :=
  ⟨_, List.mem_cons_self, rfl⟩

/-- If each phrase declares names that occur in it, all phrases together do. -/
theorem Many.occurs {f : α → List String}
    (hitem : ∀ ts a, P ts a → ∀ name ∈ f a, Occurs name ts) (h : Many P ts as) :
    ∀ name ∈ as.flatMap f, Occurs name ts := by
  induction h with
  | nil => simp
  | cons head _ ih =>
    rw [List.flatMap_cons, List.forall_mem_append]
    exact ⟨fun name hname => (hitem _ _ head name hname).append_right _,
      fun name hname => (ih name hname).append_left _⟩

theorem CommaList.occurs {f : α → String} (hitem : ∀ ts a, P ts a → Occurs (f a) ts)
    (h : CommaList P ts as) : ∀ name ∈ as.map f, Occurs name ts := by
  induction h with
  | nil => simp
  | last item => simpa using hitem _ _ item
  | more item _ ih =>
    rw [List.map_cons, List.forall_mem_cons]
    exact ⟨(hitem _ _ item).append_right _, fun name hname => ((ih name hname).cons _).append_left _⟩

/-! ## Every declared name occurs -/

theorem Enum.occurs {e : Tree.Enum} (h : Enum attributes ts e) :
    ∀ name ∈ e.declared, Occurs name ts := by
  cases h with
  | mk body semicolon =>
    have hvalues := body.occurs (f := Tree.EnumValue.name) fun _ _ hvalue => by
      cases hvalue
      exact occurs_head _ _ _
    refine List.forall_mem_cons.2 ⟨(occurs_head _ _ _).cons _, fun name hname => ?_⟩
    exact ((((hvalues name hname).append_right _).cons _).cons _).cons _

theorem Constant.occurs {c : Tree.Constant} (h : Constant attributes ts c) : Occurs c.name ts := by
  cases h
  exact ((occurs_head _ _ _).append_left _).cons _

theorem StructMember.occurs {m : Tree.StructMember} (h : StructMember ts m) :
    ∀ name ∈ m.declared, Occurs name ts := by
  cases h with
  | field list field => exact fun _ hname => nomatch hname
  | enum list enum => exact fun name hname => (enum.occurs name hname).append_left _
  | constant list constant => exact List.forall_mem_singleton.2 (constant.occurs.append_left _)

theorem InterfaceMember.occurs {m : Tree.InterfaceMember} (h : InterfaceMember ts m) :
    ∀ name ∈ m.declared, Occurs name ts := by
  cases h with
  | method list method => exact fun _ hname => nomatch hname
  | enum list enum => exact fun name hname => (enum.occurs name hname).append_left _
  | constant list constant => exact List.forall_mem_singleton.2 (constant.occurs.append_left _)

theorem Definition.occurs {d : Tree.Definition} (h : Definition attributes ts d) :
    ∀ name ∈ d.declared, Occurs name ts := by
  cases h with
  | struct struct =>
    cases struct with
    | mk body semicolon =>
      refine List.forall_mem_cons.2 ⟨(occurs_head _ _ _).cons _, fun name hname => ?_⟩
      have hmember := body.occurs (fun _ _ hmember => hmember.occurs) name hname
      exact (((hmember.append_right _).cons _).cons _).cons _
  | interface interface =>
    cases interface with
    | mk body semicolon =>
      refine List.forall_mem_cons.2 ⟨(occurs_head _ _ _).cons _, fun name hname => ?_⟩
      have hmember := body.occurs (fun _ _ hmember => hmember.occurs) name hname
      exact (((hmember.append_right _).cons _).cons _).cons _
  | enum enum => exact enum.occurs
  | constant constant => exact List.forall_mem_singleton.2 constant.occurs

theorem AttributedDefinition.occurs {d : Tree.Definition} (h : AttributedDefinition ts d) :
    ∀ name ∈ d.declared, Occurs name ts := by
  cases h with
  | mk list definition => exact fun name hname => (definition.occurs name hname).append_left _

theorem Module.occurs {m : Tree.Module} (h : Module ts m) :
    ∀ name ∈ m.definitions.flatMap Tree.Definition.declared, Occurs name ts := by
  cases h with
  | mk list named body =>
    intro name hname
    refine Occurs.append_left (Occurs.cons (Occurs.append_left ?_ _) _) _
    cases body with
    | braced body semicolon =>
      exact ((body.occurs (fun _ _ h => h.occurs) name hname).append_right _).cons _
    | toEnd body => exact (body.occurs (fun _ _ h => h.occurs) name hname).cons _

theorem File.occurs {tree : Tree} (h : File ts tree) {m : Tree.Module} (hm : m ∈ tree.modules) :
    ∀ name ∈ m.definitions.flatMap Tree.Definition.declared, Occurs name ts := by
  intro name hname
  cases h with
  | mk head body =>
    refine Occurs.append_left ?_ _
    cases body with
    | modules body =>
      exact body.occurs (fun _ _ h => h.occurs) name (List.mem_flatMap.2 ⟨m, hm, hname⟩)
    | loose start body =>
      cases List.mem_singleton.1 hm
      exact body.occurs (fun _ _ h => h.occurs) name hname

end Phrase

theorem Tree.occurs_of_ofTokens {tokens : List Token} {tree : Tree}
    (h : Tree.ofTokens tokens = .ok tree) {m : Tree.Module} (hm : m ∈ tree.modules) :
    ∀ name ∈ m.definitions.flatMap Tree.Definition.declared, Phrase.Occurs name tokens := by
  unfold Tree.ofTokens at h
  split at h
  · cases h
  · next tree' c hrun =>
    split at h
    · cases h
    · cases h
      obtain ⟨ts, htokens, front, back, rfl, hfile, -⟩ := Grammar.reads_file _ _ _ hrun
      intro name hname
      rw [show tokens = front ++ back ++ c.ahead from htokens]
      exact ((hfile.occurs hm name hname).append_right _).append_right _

/-! ## Identifiers of a text -/

/-- Identifiers are made of word characters. -/
theorem Token.Splits.dot_not_mem {before text : List Char} {tokens : List Token}
    {fault : Option ScanFault} (h : Splits before text tokens fault) {t : Token} (ht : t ∈ tokens)
    {name : String} (hname : t.symbol = .identifier name) : '.' ∉ name.toList := by
  obtain ⟨chars, after, spelled⟩ := h.exists_spelled ht
  rw [hname] at spelled
  cases spelled with
  | identifier start word =>
    rw [String.toList_ofList]
    intro hdot
    rcases List.mem_cons.1 hdot with rfl | hdot
    · simp [isWordStart] at start
    · have hword := word _ hdot
      simp [isWordChar] at hword

/-! ## Records -/

namespace Record

/-- What is nested in a struct or interface is declared by it. -/
structure Holder.Plain (h : Holder) : Prop where
  name : '.' ∉ h.name.toList
  enums : ∀ e ∈ h.enums, '.' ∉ e.name.toList ∧ ∀ f ∈ e.fields, '.' ∉ f.name.toList
  constants : ∀ c ∈ h.constants, '.' ∉ c.name.toList

theorem plain_enum {e : Tree.Enum} (h : ∀ name ∈ e.declared, '.' ∉ name.toList) :
    '.' ∉ (Enum.ofTree e).name.toList ∧ ∀ f ∈ (Enum.ofTree e).fields, '.' ∉ f.name.toList := by
  obtain ⟨hname, hvalues⟩ := List.forall_mem_cons.1 h
  refine ⟨hname, fun f hf => ?_⟩
  obtain ⟨v, hv, rfl⟩ := List.mem_map.1 hf
  exact hvalues _ (List.mem_map_of_mem hv)

/-- What holds the enums and constants of a body holds no dots if no name declared there does. -/
theorem plain_holder {α : Type} {name : String} {body : List α} {declared : α → List String}
    {enum? : α → Option Enum} {constant? : α → Option Constant} (hname : '.' ∉ name.toList)
    (hbody : ∀ name ∈ body.flatMap declared, '.' ∉ name.toList)
    (henum : ∀ member e, enum? member = some e →
      ∃ tree, e = .ofTree tree ∧ declared member = tree.declared)
    (hconstant : ∀ member c, constant? member = some c → c.name ∈ declared member) :
    Holder.Plain ⟨name, body.filterMap enum?, body.filterMap constant?⟩ := by
  refine ⟨hname, fun e he => ?_, fun c hc => ?_⟩
  · obtain ⟨member, hmember, heq⟩ := List.mem_filterMap.1 he
    obtain ⟨tree, rfl, hdeclared⟩ := henum member e heq
    exact plain_enum fun name hname =>
      hbody name (List.mem_flatMap.2 ⟨member, hmember, hdeclared ▸ hname⟩)
  · obtain ⟨member, hmember, heq⟩ := List.mem_filterMap.1 hc
    exact hbody _ (List.mem_flatMap.2 ⟨member, hmember, hconstant member c heq⟩)

theorem plain_ofModule {file : String} {imports : List Tree.Import} {m : Tree.Module}
    (h : ∀ name ∈ m.definitions.flatMap Tree.Definition.declared, '.' ∉ name.toList) :
    (ofModule file imports m).Plain := by
  have hdefinition : ∀ d ∈ m.definitions, ∀ name ∈ d.declared, '.' ∉ name.toList :=
    fun d hd name hname => h name (List.mem_flatMap.2 ⟨d, hd, hname⟩)
  have hholders : ∀ holder ∈ (ofModule file imports m).holders, holder.Plain := by
    intro holder hh
    rcases List.mem_append.1 hh with hh | hh
    · obtain ⟨_, hs, rfl⟩ := List.mem_map.1 hh
      obtain ⟨d, hd, heq⟩ := List.mem_filterMap.1 hs
      cases d with
      | struct s =>
        cases heq
        obtain ⟨hname, hbody⟩ := List.forall_mem_cons.1 (hdefinition _ hd)
        refine plain_holder hname hbody ?_ ?_
        · rintro (_ | e | _) _ ⟨⟩
          exact ⟨e, rfl, rfl⟩
        · rintro (_ | _ | c) _ ⟨⟩
          exact List.mem_singleton_self _
      | _ => cases heq
    · obtain ⟨_, hi, rfl⟩ := List.mem_map.1 hh
      obtain ⟨d, hd, heq⟩ := List.mem_filterMap.1 hi
      cases d with
      | interface i =>
        cases heq
        obtain ⟨hname, hbody⟩ := List.forall_mem_cons.1 (hdefinition _ hd)
        refine plain_holder hname hbody ?_ ?_
        · rintro (_ | e | _) _ ⟨⟩
          exact ⟨e, rfl, rfl⟩
        · rintro (_ | _ | c) _ ⟨⟩
          exact List.mem_singleton_self _
      | _ => cases heq
  have henums : ∀ p ∈ (ofModule file imports m).scopedEnums,
      '.' ∉ p.2.name.toList ∧ ∀ f ∈ p.2.fields, '.' ∉ f.name.toList := by
    intro p hp
    rcases mem_scopedEnums.1 hp with ⟨holder, hh, e, he, rfl⟩ | ⟨e, he, rfl⟩
    · exact (hholders holder hh).enums e he
    · obtain ⟨d, hd, heq⟩ := List.mem_filterMap.1 he
      cases d with
      | enum e' =>
        cases heq
        exact plain_enum (hdefinition _ hd)
      | _ => cases heq
  refine ⟨fun holder hh => (hholders holder hh).name, fun p hp => (henums p hp).1,
    fun p hp => (henums p hp).2, fun p hp => ?_⟩
  rcases mem_scopedConstants.1 hp with ⟨holder, hh, c, hc, rfl⟩ | ⟨c, hc, rfl⟩
  · exact (hholders holder hh).constants c hc
  · obtain ⟨d, hd, heq⟩ := List.mem_filterMap.1 hc
    cases d with
    | constant c' =>
      cases heq
      exact hdefinition _ hd _ (List.mem_singleton_self _)
    | _ => cases heq

theorem dot_not_mem_of_ofSource {file text : String} {tree : Tree}
    (h : Tree.ofSource file text = .ok tree) {m : Tree.Module} (hm : m ∈ tree.modules) :
    ∀ name ∈ m.definitions.flatMap Tree.Definition.declared, '.' ∉ name.toList := by
  intro name hname
  unfold Tree.ofSource Token.Scan.toExcept at h
  cases hfault : (Token.scan text).fault with
  | some f => simp only [hfault, reduceCtorEq] at h
  | none =>
    simp only [hfault] at h
    split at h
    · cases h
    · next tree' htree =>
      cases h
      obtain ⟨t, ht, hsymbol⟩ := Tree.occurs_of_ofTokens htree hm name hname
      exact (@Token.splits_scanFrom [] text.toList 1 rfl).dot_not_mem ht hsymbol

/-- No name that a text declares holds a dot. -/
theorem plain_of_ofSource {file text : String} {r : Record} (h : Record.ofSource file text = .ok r) :
    r.Plain := by
  obtain ⟨tree, htree, hrecord⟩ := Except.bind_eq_ok.1 h
  unfold Record.ofTree at hrecord
  split at hrecord
  · cases hrecord
  · next record hmodules =>
    split at hmodules
    · next m hm =>
      cases hrecord
      cases hmodules
      exact plain_ofModule (dot_not_mem_of_ofSource htree (hm ▸ List.mem_singleton_self m))
    · cases hmodules
    · cases hmodules

end Record

end WireSchema
