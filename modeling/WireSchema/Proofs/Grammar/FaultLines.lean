import WireSchema.Grammar.File

/-!
# Lines of faults

A rule that fails blames a line. `Rule.Located tokens p P` says of a rule that wherever it runs in the
tokens, it gives a value with the property `P` or blames the line of one of the tokens. It is kept by
sequence and repetition, so it holds of every production, and the fault of a whole file is on the line
of one of its tokens (`Tree.onLine_of_ofTokens`). A rule may blame a line that an earlier one found,
so what `P` says is mostly that the lines in a value are lines of tokens.
-/

namespace WireSchema

/-- Some token starts on the line. -/
def OnLine (tokens : List Token) (line : UInt32) : Prop :=
  ∃ t ∈ tokens, t.line = line

namespace Cursor

variable {c c' : Cursor} {tokens : List Token}

theorem mem_tokens_of_mem_ahead {t : Token} (h : t ∈ c.ahead) : t ∈ c.tokens :=
  List.mem_append_right _ h

/-- Wherever there are tokens, a cursor is on the line of one: of the next, or of the last. -/
theorem onLine_line (h : c.tokens ≠ []) : OnLine c.tokens c.line := by
  unfold line
  split
  · next t rest hahead => exact ⟨t, mem_tokens_of_mem_ahead (hahead ▸ List.mem_cons_self), rfl⟩
  · next t rest _ hpassed => exact ⟨t, by simp [Cursor.tokens, hpassed], rfl⟩
  · next hahead hpassed =>
    refine absurd ?_ h
    simp [Cursor.tokens, hahead, hpassed]

end Cursor

/-! ## Rules in sequence -/

namespace Rule

variable {α β : Type} {tokens : List Token} {p : Rule α} {k : α → Rule β} {P P' : α → Prop}
  {Q : β → Prop} {line : UInt32} {cause : GrammarCause}

/-- Wherever the rule runs in the tokens, its value has the property or its fault is on the line of
a token. -/
def Located (tokens : List Token) (p : Rule α) (P : α → Prop) : Prop :=
  ∀ c : Cursor, c.tokens = tokens →
    (∀ a c', p.run c = .ok (a, c') → P a) ∧ ∀ f, p.run c = .error f → OnLine tokens f.line

namespace Located

theorem pure {a : α} (h : P a) : Located tokens (Pure.pure a) P := by
  intro c _
  constructor
  · intro a' c' hrun
    cases hrun
    exact h
  · intro f hrun
    cases hrun

theorem fail (h : OnLine tokens line) : Located tokens (Rule.fail line cause) P := by
  intro c _
  constructor
  · intro a c' hrun
    cases hrun
  · intro f hrun
    cases hrun
    exact h

theorem bind (hp : Located tokens p P) (hk : ∀ a, P a → Located tokens (k a) Q) :
    Located tokens (p >>= k) Q := by
  intro c hc
  obtain ⟨hok, herror⟩ := hp c hc
  rw [run_bind]
  cases hrun : p.run c with
  | error f =>
    constructor
    · intro b c' h
      cases h
    · intro f' h
      cases h
      exact herror f hrun
  | ok result =>
    obtain ⟨a, c₁⟩ := result
    exact hk a (hok a c₁ hrun) c₁ ((p.advances hrun).tokens_eq.trans hc)

theorem mono (hp : Located tokens p P) (h : ∀ a, P a → P' a) : Located tokens p P' := by
  intro c hc
  obtain ⟨hok, herror⟩ := hp c hc
  exact ⟨fun a c' hrun => h a (hok a c' hrun), herror⟩

/-- Sequence after a rule whose phrase may be missing. -/
theorem bind_option {p : Rule (Option α)} {k : Option α → Rule β}
    (hp : Located tokens p fun o => ∀ a ∈ o, P a) (hnone : Located tokens (k none) Q)
    (hsome : ∀ a, P a → Located tokens (k (some a)) Q) : Located tokens (p >>= k) Q := by
  refine hp.bind fun o ho => ?_
  cases o with
  | none => exact hnone
  | some a => exact hsome a (ho a rfl)

theorem look {f : Cursor → α} (h : ∀ c : Cursor, c.tokens = tokens → P (f c)) :
    Located tokens (Rule.look f) P := by
  intro c hc
  constructor
  · intro a c' hrun
    cases hrun
    exact h c hc
  · intro f hrun
    cases hrun

theorem move {f : Cursor → α × Cursor} {hf : ∀ c : Cursor, c.Advances (f c).2}
    (h : ∀ c : Cursor, c.tokens = tokens → P (f c).1) : Located tokens (Rule.move f hf) P := by
  intro c hc
  constructor
  · intro a c' hrun
    have heq : f c = (a, c') := Except.ok.inj hrun
    have ha := h c hc
    rwa [heq] at ha
  · intro f hrun
    cases hrun

end Located

/-! ## Single tokens -/

theorem located_peek : Located tokens peek fun _ => True :=
  .look fun _ _ => trivial

theorem located_next : Located tokens next fun _ => True :=
  .move fun _ _ => trivial

theorem located_nextIfSome {test : Token → Option α} (h : ∀ t ∈ tokens, ∀ a ∈ test t, P a) :
    Located tokens (move (Cursor.nextIfSome test) (Cursor.advances_nextIfSome test))
      fun o => ∀ a ∈ o, P a := by
  refine .move fun c hc => ?_
  unfold Cursor.nextIfSome
  split
  · next t rest hahead =>
    have ht : t ∈ tokens := hc ▸ Cursor.mem_tokens_of_mem_ahead (hahead ▸ List.mem_cons_self)
    split
    · next a ha =>
      rintro _ ⟨⟩
      exact h t ht a ha
    · rintro _ ⟨⟩
  · rintro _ ⟨⟩

theorem located_nextIf (s : Symbol) :
    Located tokens (nextIf s) fun o => ∀ t ∈ o, OnLine tokens t.line := by
  refine located_nextIfSome fun t ht a ha => ?_
  split at ha
  · cases ha
    exact ⟨t, ht, rfl⟩
  · cases ha

theorem located_mark? (mark : Punct) :
    Located tokens (mark? mark) fun o => ∀ t ∈ o, OnLine tokens t.line :=
  located_nextIf _

theorem located_keyword? (word : Keyword) :
    Located tokens (keyword? word) fun o => ∀ t ∈ o, OnLine tokens t.line :=
  located_nextIf _

theorem located_identifier? :
    Located tokens identifier? fun o => ∀ name ∈ o, OnLine tokens name.2 := by
  refine located_nextIfSome fun t ht a ha => ?_
  split at ha
  · cases ha
    exact ⟨_, ht, rfl⟩
  · cases ha

theorem located_nextIfAll (ss : List Symbol) : Located tokens (nextIfAll ss) fun _ => True :=
  .move fun _ _ => trivial

section

variable (hne : tokens ≠ [])

include hne

theorem located_line : Located tokens Rule.line (OnLine tokens) := by
  refine .look fun c hc => ?_
  subst hc
  exact Cursor.onLine_line hne

theorem located_mark (mark : Punct) :
    Located tokens (Rule.mark mark) fun t => OnLine tokens t.line := by
  intro c hc
  obtain ⟨hok, -⟩ := located_mark? mark c hc
  cases hnext : c.nextIf (.punct mark) with
  | mk o c₁ =>
    have ho := hok o c₁ (congrArg Except.ok hnext)
    simp only [Rule.mark, expect, Cursor.expect, hnext]
    cases o with
    | none =>
      constructor
      · intro t c' h
        cases h
      · intro f h
        cases h
        subst hc
        exact Cursor.onLine_line hne
    | some t =>
      constructor
      · intro t' c' h
        cases h
        exact ho t rfl
      · intro f h
        cases h

end

/-! ## Repetition -/

/-- The item of a turn, if there is one, has the property. -/
def Turn.Holds (P : α → Prop) : Turn α → Prop
  | stop => True
  | last a | more a => P a

theorem located_collect {turn : Rule (Turn α)} (h : Located tokens turn (Turn.Holds P)) :
    Located tokens (collect turn) fun items => ∀ a ∈ items, P a := by
  intro c hc
  change (∀ items c', collectFrom turn c = .ok (items, c') → ∀ a ∈ items, P a) ∧
    ∀ f, collectFrom turn c = .error f → OnLine tokens f.line
  -- The turns of one run; each starts where the last one ended, in the same tokens.
  fun_induction collectFrom turn c with
  | case1 c f hrun =>
    refine ⟨fun items c' heq => (by cases heq), fun f' heq => ?_⟩
    cases heq
    exact (h c hc).2 f hrun
  | case2 c c₁ hrun =>
    refine ⟨fun items c' heq => ?_, fun f heq => (by cases heq)⟩
    cases heq
    exact List.forall_mem_nil P
  | case3 c a c₁ hrun =>
    refine ⟨fun items c' heq => ?_, fun f heq => (by cases heq)⟩
    cases heq
    exact List.forall_mem_singleton.2 ((h c hc).1 _ _ hrun)
  | case4 c a c₁ hrun hlt f hrest ih =>
    refine ⟨fun items c' heq => (by cases heq), fun f' heq => ?_⟩
    cases heq
    exact (ih ((turn.advances hrun).tokens_eq.trans hc)).2 f hrest
  | case5 c a c₁ hrun hlt items c₂ hrest ih =>
    refine ⟨fun items' c' heq => ?_, fun f heq => (by cases heq)⟩
    cases heq
    have ha : P a := (h c hc).1 _ _ hrun
    have hitems := (ih ((turn.advances hrun).tokens_eq.trans hc)).1 items c₂ hrest
    exact List.forall_mem_cons.2 ⟨ha, hitems⟩
  | case6 c a c₁ hrun hlt =>
    refine ⟨fun items c' heq => ?_, fun f heq => (by cases heq)⟩
    cases heq
    exact List.forall_mem_singleton.2 ((h c hc).1 _ _ hrun)

theorem located_many {item : Rule (Option α)} (h : Located tokens item fun o => ∀ a ∈ o, P a) :
    Located tokens (many item) fun items => ∀ a ∈ items, P a :=
  located_collect (h.bind_option (.pure trivial) fun _ ha => .pure ha)

theorem located_items {item : Rule (Option α)} (h : Located tokens item fun _ => True) :
    Located tokens (many item) fun _ => True :=
  (@located_many _ _ (fun _ => True) _ (h.mono fun _ _ _ _ => trivial)).mono fun _ _ => trivial

theorem located_afterComma {a : α} (h : P a) : Located tokens (afterComma a) (Turn.Holds P) :=
  (located_mark? _).bind_option (.pure h) fun _ _ => .pure h

end Rule

namespace Grammar

open Rule

variable {tokens : List Token} {attributes : List Tree.Attribute} {line : UInt32}

/-! ## Names and types -/

theorem located_dottedPart : Located tokens dottedPart fun _ => True := by
  refine (located_mark? _).bind_option (.pure trivial) fun dot hdot => ?_
  exact located_identifier?.bind_option (.fail hdot) fun _ _ => .pure trivial

theorem located_dottedName : Located tokens dottedName fun _ => True := by
  refine located_identifier?.bind_option (.pure trivial) fun first _ => ?_
  refine (located_items located_dottedPart).bind fun _ _ => ?_
  exact .pure trivial

theorem located_ordinal : Located tokens ordinal fun _ => True := by
  refine (located_nextIf _).bind_option (.pure trivial) ?_
  rintro ⟨line, symbol⟩ hline
  cases symbol with
  | ordinal digits =>
    dsimp only
    split
    · exact .pure trivial
    · exact .fail hline
  | _ => exact .pure trivial

theorem located_suffixed (t : TypeExpr) : Located tokens (suffixed t) fun _ => True := by
  have hsuffix : Located tokens typeSuffix fun _ => True := by
    refine (located_nextIfAll _).bind fun o _ => ?_
    cases o with
    | none =>
      exact (located_mark? _).bind_option (.pure trivial) fun _ _ =>
        .pure trivial
    | some _ => exact .pure trivial
  exact (located_items hsuffix).bind fun _ _ => .pure trivial

section

variable (hne : tokens ≠ [])

include hne

theorem located_handleSort (hline : OnLine tokens line) :
    Located tokens (handleSort line) fun _ => True := by
  refine (located_mark hne _).bind fun _ _ => ?_
  refine located_identifier?.bind_option (.fail hline) ?_
  rintro ⟨name, nameLine⟩ hname
  dsimp only
  split
  · exact .fail hname
  · exact (located_mark hne _).bind fun _ _ => .pure trivial

theorem located_arrayOpening :
    Located tokens arrayOpening fun o => ∀ line ∈ o, OnLine tokens line := by
  have hlook : Located tokens (look atArray) fun _ => True := .look fun _ _ => trivial
  refine hlook.bind fun here _ => ?_
  cases here with
  | true =>
    refine (located_line hne).bind fun line hline => ?_
    refine located_next.bind fun _ _ => located_next.bind fun _ _ => .pure ?_
    rintro _ ⟨⟩
    exact hline
  | false =>
    refine .pure ?_
    rintro _ ⟨⟩

theorem located_plainType : Located tokens plainType fun _ => True := by
  have hlook : Located tokens (look (atIdentifier "handle")) fun _ => True :=
    .look fun _ _ => trivial
  refine hlook.bind fun here _ => ?_
  cases here with
  | true =>
    refine (located_line hne).bind fun line hline => ?_
    refine located_next.bind fun _ _ => located_peek.bind fun symbol _ => ?_
    split
    · exact (located_handleSort hne hline).bind fun _ _ => .pure trivial
    · exact .pure trivial
  | false =>
    refine located_dottedName.bind fun o _ => ?_
    cases o <;> exact .pure trivial

theorem located_closeArrays (n : Nat) (t : TypeExpr) :
    Located tokens (closeArrays n t) fun _ => True := by
  induction n generalizing t with
  | zero => exact .pure trivial
  | succ n ih =>
    refine (located_mark hne _).bind fun _ _ => ?_
    exact (located_suffixed _).bind fun t _ => ih t

/-- Where a type is missing inside an array, the array's own line is blamed. -/
theorem located_typeExpr : Located tokens typeExpr fun _ => True := by
  refine (located_many (located_arrayOpening hne)).bind fun openings hopenings => ?_
  refine (located_plainType hne).bind fun o _ => ?_
  cases o with
  | none =>
    dsimp only
    cases hlast : openings.getLast? with
    | none => exact .pure trivial
    | some line => exact .fail (hopenings line (List.mem_of_getLast? hlast))
  | some t =>
    refine (located_suffixed t).bind fun t _ => ?_
    exact (located_closeArrays hne _ t).bind fun _ _ => .pure trivial

end

/-! ## Values and attributes -/

theorem located_signedNumber {sign : Token} (hsign : OnLine tokens sign.line) (written : String) :
    Located tokens (signedNumber sign written) fun _ => True := by
  refine located_next.bind fun number _ => ?_
  split
  · exact .pure trivial
  · exact .pure trivial
  · exact .fail hsign

theorem located_value : Located tokens value fun _ => True := by
  refine (located_mark? _).bind_option ?_ fun sign hsign => ?_
  · refine (located_mark? _).bind_option ?_ fun sign hsign => ?_
    · refine located_peek.bind fun symbol _ => ?_
      split
      · exact located_next.bind fun _ _ => .pure trivial
      · refine located_dottedName.bind fun o _ => ?_
        cases o <;> exact .pure trivial
    · exact (located_signedNumber hsign _).bind fun _ _ => .pure trivial
  · exact (located_signedNumber hsign _).bind fun _ _ => .pure trivial

theorem located_assignedValue (hline : OnLine tokens line) :
    Located tokens (assignedValue line) fun _ => True := by
  refine located_value.bind fun o _ => ?_
  cases o with
  | none => exact .fail hline
  | some v => exact .pure trivial

theorem located_optionalValue : Located tokens optionalValue fun _ => True := by
  refine (located_mark? _).bind_option (.pure trivial) fun assign hassign => ?_
  exact (located_assignedValue hassign).bind fun _ _ => .pure trivial

theorem located_attributeValue (key : String) (hline : OnLine tokens line) :
    Located tokens (attributeValue key line) fun _ => True := by
  refine (located_mark? _).bind_option (.pure trivial) fun _ _ => ?_
  refine located_value.bind fun o _ => ?_
  split
  · exact .pure trivial
  · exact .fail hline

theorem located_nameAfter {word : Token} (hword : OnLine tokens word.line) :
    Located tokens (nameAfter word) fun _ => True :=
  located_identifier?.bind_option (.fail hword) fun _ _ => .pure trivial

theorem located_nameAfterType (hline : OnLine tokens line) (type : TypeExpr) :
    Located tokens (nameAfterType line type) fun _ => True :=
  located_identifier?.bind_option (.fail hline) fun _ _ => .pure trivial

section

variable (hne : tokens ≠ [])

include hne

theorem located_attributes? : Located tokens attributes? fun _ => True := by
  have hturn : Located tokens attributeTurn (Turn.Holds fun _ => True) := by
    refine located_identifier?.bind_option (.pure trivial) ?_
    rintro ⟨key, line⟩ hline
    exact (located_attributeValue key hline).bind fun _ _ => located_afterComma trivial
  refine (located_mark? _).bind_option (.pure trivial) fun _ _ => ?_
  refine (located_collect hturn).bind fun _ _ => ?_
  exact (located_mark hne _).bind fun _ _ => .pure trivial

/-! ## Definitions -/

theorem located_enumeration : Located tokens (enumeration attributes) fun _ => True := by
  have hturn : Located tokens enumValueTurn (Turn.Holds fun _ => True) := by
    refine located_identifier?.bind_option (.pure trivial) fun name _ => ?_
    exact located_optionalValue.bind fun _ _ => located_afterComma trivial
  refine (located_keyword? _).bind_option (.pure trivial) fun word hword => ?_
  refine (located_nameAfter hword).bind fun _ _ => (located_mark hne _).bind fun _ _ => ?_
  refine (located_collect hturn).bind fun _ _ => (located_mark hne _).bind fun _ _ => ?_
  exact (located_mark? _).bind fun _ _ => .pure trivial

theorem located_constant : Located tokens (constant attributes) fun _ => True := by
  refine (located_keyword? _).bind_option (.pure trivial) fun word hword => ?_
  refine (located_typeExpr hne).bind fun o _ => ?_
  cases o with
  | none => exact .fail hword
  | some type =>
    refine (located_nameAfterType hword type).bind fun _ _ => ?_
    refine (located_mark hne _).bind fun assign hassign => ?_
    refine (located_assignedValue hassign).bind fun _ _ => ?_
    exact (located_mark hne _).bind fun _ _ => .pure trivial

theorem located_structField : Located tokens (structField attributes) fun _ => True := by
  refine (located_line hne).bind fun line hline => (located_typeExpr hne).bind fun o _ => ?_
  cases o with
  | none => exact .pure trivial
  | some type =>
    refine (located_nameAfterType hline type).bind fun _ _ => ?_
    refine located_ordinal.bind fun _ _ => located_optionalValue.bind fun _ _ => ?_
    exact (located_mark hne _).bind fun _ _ => .pure trivial

theorem located_structMember : Located tokens structMember fun _ => True := by
  refine (located_attributes? hne).bind fun list _ => ?_
  refine (located_enumeration hne).bind fun e _ => ?_
  cases e with
  | some e => exact .pure trivial
  | none =>
    refine (located_constant hne).bind fun c _ => ?_
    cases c with
    | some c => exact .pure trivial
    | none =>
      refine (located_structField hne).bind fun f _ => ?_
      cases f with
      | some f => exact .pure trivial
      | none =>
        dsimp only
        split
        · exact (located_line hne).bind fun _ hline => .fail hline
        · exact .pure trivial

theorem located_struct : Located tokens (struct attributes) fun _ => True := by
  refine (located_keyword? _).bind_option (.pure trivial) fun word hword => ?_
  refine (located_nameAfter hword).bind fun _ _ => (located_mark hne _).bind fun _ _ => ?_
  refine (located_items (located_structMember hne)).bind fun _ _ => ?_
  refine (located_mark hne _).bind fun _ _ => (located_mark? _).bind fun _ _ => ?_
  exact .pure trivial

theorem located_parameter : Located tokens parameter fun _ => True := by
  refine (located_attributes? hne).bind fun _ _ => (located_line hne).bind fun line hline => ?_
  refine (located_typeExpr hne).bind fun o _ => ?_
  cases o with
  | none => exact .fail hline
  | some type =>
    refine (located_nameAfterType hline type).bind fun _ _ => ?_
    exact located_ordinal.bind fun _ _ => .pure trivial

theorem located_parameters : Located tokens parameters fun _ => True := by
  refine (located_mark hne _).bind fun _ _ => ?_
  refine (located_mark? _).bind_option ?_ fun _ _ => .pure trivial
  have hturn : Located tokens (do afterComma (← parameter)) (Turn.Holds fun _ => True) :=
    (located_parameter hne).bind fun _ _ => located_afterComma trivial
  refine (located_collect hturn).bind fun _ _ => ?_
  exact (located_mark hne _).bind fun _ _ => .pure trivial

theorem located_method : Located tokens (method attributes) fun _ => True := by
  have hresponse : Located tokens response fun _ => True :=
    (located_mark? _).bind_option (.pure trivial) fun _ _ =>
      (located_parameters hne).bind fun _ _ => .pure trivial
  refine located_identifier?.bind_option (.pure trivial) fun name _ => ?_
  refine located_ordinal.bind fun _ _ => (located_parameters hne).bind fun _ _ => ?_
  exact hresponse.bind fun _ _ => (located_mark hne _).bind fun _ _ => .pure trivial

theorem located_interfaceMember : Located tokens interfaceMember fun _ => True := by
  refine (located_attributes? hne).bind fun list _ => ?_
  refine (located_enumeration hne).bind fun e _ => ?_
  cases e with
  | some e => exact .pure trivial
  | none =>
    refine (located_constant hne).bind fun c _ => ?_
    cases c with
    | some c => exact .pure trivial
    | none =>
      refine (located_method hne).bind fun m _ => ?_
      cases m with
      | some m => exact .pure trivial
      | none =>
        dsimp only
        split
        · exact (located_line hne).bind fun _ hline => located_peek.bind fun _ _ => .fail hline
        · exact .pure trivial

theorem located_interface : Located tokens (interface attributes) fun _ => True := by
  refine (located_keyword? _).bind_option (.pure trivial) fun word hword => ?_
  refine (located_nameAfter hword).bind fun _ _ => (located_mark hne _).bind fun _ _ => ?_
  refine (located_items (located_interfaceMember hne)).bind fun _ _ => ?_
  refine (located_mark hne _).bind fun _ _ => (located_mark? _).bind fun _ _ => ?_
  exact .pure trivial

theorem located_definition : Located tokens (definition attributes) fun _ => True := by
  refine (located_struct hne).bind fun s _ => ?_
  cases s with
  | some s => exact .pure trivial
  | none =>
    refine (located_interface hne).bind fun i _ => ?_
    cases i with
    | some i => exact .pure trivial
    | none =>
      refine (located_enumeration hne).bind fun e _ => ?_
      cases e with
      | some e => exact .pure trivial
      | none =>
        refine (located_constant hne).bind fun c _ => ?_
        cases c <;> exact .pure trivial

theorem located_attributedDefinition :
    Located tokens attributedDefinition fun _ => True := by
  refine (located_attributes? hne).bind fun list _ => ?_
  refine (located_definition hne).bind fun d _ => ?_
  cases d with
  | some d => exact .pure trivial
  | none =>
    dsimp only
    split
    · exact (located_line hne).bind fun _ hline => located_peek.bind fun _ _ => .fail hline
    · exact .pure trivial

/-! ## Modules and files -/

theorem located_importDecl : Located tokens importDecl fun _ => True := by
  refine (located_keyword? _).bind_option (.pure trivial) fun word hword => ?_
  refine (located_nextIf _).bind fun path _ => ?_
  split
  · exact (located_mark hne _).bind fun _ _ => .pure trivial
  · exact .fail hword

theorem located_openBodyDefinition :
    Located tokens openBodyDefinition fun _ => True := by
  have hlook : Located tokens (look moduleFollows) fun _ => True := .look fun _ _ => trivial
  refine hlook.bind fun follows _ => ?_
  cases follows with
  | true => exact .pure trivial
  | false => exact located_attributedDefinition hne

theorem located_moduleBody : Located tokens moduleBody fun _ => True := by
  refine (located_mark? _).bind_option ?_ fun _ _ => ?_
  · refine (located_mark? _).bind_option ?_ fun _ _ => ?_
    · exact (located_line hne).bind fun _ hline => located_peek.bind fun _ _ => .fail hline
    · exact located_items (located_openBodyDefinition hne)
  · refine (located_items (located_attributedDefinition hne)).bind fun _ _ => ?_
    refine (located_mark hne _).bind fun _ _ => (located_mark? _).bind fun _ _ => ?_
    exact .pure trivial

theorem located_moduleDecl : Located tokens (moduleDecl attributes) fun _ => True := by
  refine (located_keyword? _).bind_option (.pure trivial) fun word hword => ?_
  refine located_dottedName.bind fun o _ => ?_
  cases o with
  | none => exact .fail hword
  | some name => exact (located_moduleBody hne).bind fun _ _ => .pure trivial

/-- An item comes with the line on which it starts. -/
theorem located_topItem : Located tokens topItem fun o => ∀ item ∈ o, OnLine tokens item.1 := by
  have hnone : ∀ item ∈ (none : Option (UInt32 × TopItem)), OnLine tokens item.1 := by
    rintro _ ⟨⟩
  have hsome : ∀ {line : UInt32} {item : TopItem}, OnLine tokens line →
      ∀ found ∈ some (line, item), OnLine tokens found.1 := by
    rintro line item hline _ ⟨⟩
    exact hline
  refine (located_line hne).bind fun line hline => (located_attributes? hne).bind fun _ _ => ?_
  refine (located_moduleDecl hne).bind fun m _ => ?_
  cases m with
  | some m => exact .pure (hsome hline)
  | none =>
    refine (located_definition hne).bind fun d _ => ?_
    cases d with
    | some d => exact .pure (hsome hline)
    | none => exact .pure hnone

theorem located_nextModule : Located tokens nextModule fun _ => True := by
  refine (located_topItem hne).bind_option (.pure trivial) ?_
  rintro ⟨line, item⟩ hline
  cases item with
  | module m => exact .pure trivial
  | definition d => exact .fail hline

theorem located_nextLoose (hline : OnLine tokens line) (first : Tree.Definition) :
    Located tokens (nextLoose line first) fun _ => True := by
  refine (located_topItem hne).bind_option (.pure trivial) ?_
  rintro ⟨itemLine, item⟩ -
  cases item with
  | module m => exact .fail hline
  | definition d => exact .pure trivial

theorem located_file : Located tokens file fun _ => True := by
  refine (located_items (located_importDecl hne)).bind fun _ _ => ?_
  have hmodules : Located tokens modules fun _ => True := by
    refine (located_topItem hne).bind_option (.pure trivial) ?_
    rintro ⟨line, item⟩ hline
    cases item with
    | module m =>
      exact (located_items (located_nextModule hne)).bind fun _ _ => .pure trivial
    | definition d =>
      exact (located_items (located_nextLoose hne hline d)).bind fun _ _ => .pure trivial
  exact hmodules.bind fun _ _ => .pure trivial

end

end Grammar

/-- Without tokens there is nothing to blame: the file is empty. -/
theorem Tree.isOk_ofTokens_nil : (Tree.ofTokens []).isOk = true := by
  decide +kernel

/-- A list of tokens that is no schema file has its fault on the line of one of the tokens. -/
theorem Tree.onLine_of_ofTokens {tokens : List Token} {f : GrammarFault}
    (h : Tree.ofTokens tokens = .error f) : OnLine tokens f.line := by
  have hne : tokens ≠ [] := by
    rintro rfl
    have hok := Tree.isOk_ofTokens_nil
    rw [h] at hok
    cases hok
  have hstart : (Cursor.ofTokens tokens).tokens = tokens := rfl
  obtain ⟨-, herror⟩ := Grammar.located_file hne _ hstart
  unfold Tree.ofTokens at h
  cases hrun : Grammar.file.run (.ofTokens tokens) with
  | error f' =>
    simp only [hrun, Except.error.injEq] at h
    exact h ▸ herror f' hrun
  | ok result =>
    obtain ⟨tree, c⟩ := result
    have hc : c.tokens = tokens := (Grammar.file.advances hrun).tokens_eq.trans hstart
    simp only [hrun] at h
    cases hpeek : c.peek with
    | none => simp [hpeek] at h
    | some t =>
      -- Tokens are left over, and the first of them is blamed.
      simp only [hpeek, Except.error.injEq] at h
      have ht : t ∈ c.ahead := List.mem_of_head? hpeek
      exact h ▸ ⟨t, hc ▸ Cursor.mem_tokens_of_mem_ahead ht, rfl⟩

end WireSchema
