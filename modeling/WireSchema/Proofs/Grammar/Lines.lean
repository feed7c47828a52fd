import WireSchema.Proofs.Grammar.Rendering

/-!
# Rules and lines

Tokens carry lines, but no rule looks at them: on two lists of tokens with the same symbols a rule
reads the same phrase or fails for the same cause. Results are compared under a view that leaves the
lines out. `Rule.Alike f p q` says that from cursors with the same symbols ahead the rules `p` and `q`
give results with the same view `f` and again such cursors, or fail for the same cause. It is kept by
sequence and repetition, so it holds of every production (`Grammar.alike_file`) and of whole files
(`Tree.unlined_ofTokens`).
-/

namespace WireSchema

/-! ## Cursors -/

namespace Cursor

/-- Two cursors have the same symbols ahead. -/
def Alike (c d : Cursor) : Prop :=
  c.ahead.map Token.symbol = d.ahead.map Token.symbol

variable {c d : Cursor}

theorem Alike.length (h : c.Alike d) : c.ahead.length = d.ahead.length := by
  simpa using congrArg List.length h

theorem Alike.peek (h : c.Alike d) : c.peek.map Token.symbol = d.peek.map Token.symbol := by
  simpa [Cursor.peek] using congrArg List.head? h

theorem Alike.peekAt (h : c.Alike d) (n : Nat) :
    (c.peekAt n).map Token.symbol = (d.peekAt n).map Token.symbol := by
  simpa [Cursor.peekAt] using congrArg (·[n]?) h

/-- Both cursors are at their ends, or both have a next token of the same symbol. -/
theorem Alike.cases_ahead (h : c.Alike d) :
    c.ahead = [] ∧ d.ahead = [] ∨
      ∃ t u ts us, c.ahead = t :: ts ∧ d.ahead = u :: us ∧ t.symbol = u.symbol ∧
        ts.map Token.symbol = us.map Token.symbol := by
  unfold Alike at h
  cases hc : c.ahead with
  | nil => rw [hc] at h; exact .inl ⟨rfl, List.map_eq_nil_iff.1 h.symm⟩
  | cons t ts =>
    rw [hc, List.map_cons] at h
    obtain ⟨u, us, hd, hu, hus⟩ := List.map_eq_cons_iff.1 h.symm
    exact .inr ⟨t, u, ts, us, rfl, hd, hu.symm, hus.symm⟩

theorem Alike.testIf (h : c.Alike d) (s : Symbol) : c.testIf s = d.testIf s := by
  obtain ⟨hc, hd⟩ | ⟨t, u, ts, us, hc, hd, hsymbol, -⟩ := h.cases_ahead
  · simp [Cursor.testIf, hc, hd]
  · simp [Cursor.testIf, hc, hd, hsymbol]

theorem testIfAll_eq_of_map_symbol {ss : List Symbol} {ts us : List Token}
    (h : ts.map Token.symbol = us.map Token.symbol) : testIfAll ss ts = testIfAll ss us := by
  induction ss generalizing ts us with
  | nil => rfl
  | cons s ss ih =>
    cases ts with
    | nil => rw [List.map_eq_nil_iff.1 h.symm]
    | cons t ts =>
      obtain ⟨u, us, rfl, hu, hus⟩ := List.map_eq_cons_iff.1 h.symm
      simp only [testIfAll, hu, ih hus.symm]

end Cursor

/-! ## Rules -/

namespace Rule

variable {α β γ δ : Type} {f : α → γ} {g : β → δ} {p q : Rule α} {k l : α → Rule β}

/-- Two outcomes of rules are alike: values with the same view and cursors with the same symbols
ahead, or faults of the same cause. -/
inductive AlikeOutcomes (f : α → γ) :
    Except GrammarFault (α × Cursor) → Except GrammarFault (α × Cursor) → Prop where
  | ok {a b : α} {c d : Cursor} (value : f a = f b) (rest : c.Alike d) :
    AlikeOutcomes f (.ok (a, c)) (.ok (b, d))
  | error {e e' : GrammarFault} (cause : e.cause = e'.cause) :
    AlikeOutcomes f (.error e) (.error e')

theorem AlikeOutcomes.of_ok {a : α} {c : Cursor} {out : Except GrammarFault (α × Cursor)}
    (h : AlikeOutcomes f (.ok (a, c)) out) : ∃ b d, out = .ok (b, d) ∧ f a = f b ∧ c.Alike d := by
  cases h with
  | ok value rest => exact ⟨_, _, rfl, value, rest⟩

theorem AlikeOutcomes.of_error {e : GrammarFault} {out : Except GrammarFault (α × Cursor)}
    (h : AlikeOutcomes f (.error e) out) : ∃ e', out = .error e' ∧ e.cause = e'.cause := by
  cases h with
  | error cause => exact ⟨_, rfl, cause⟩

/-- Two rules have alike outcomes at all cursors with the same symbols ahead. -/
def Alike (f : α → γ) (p q : Rule α) : Prop :=
  ∀ ⦃c d : Cursor⦄, c.Alike d → AlikeOutcomes f (p.run c) (q.run d)

namespace Alike

theorem pure {a b : α} (h : f a = f b) : Alike f (Pure.pure a) (Pure.pure b) :=
  fun _ _ hcd => .ok h hcd

theorem fail (line line' : UInt32) (cause : GrammarCause) :
    Alike f (Rule.fail line cause) (Rule.fail line' cause) :=
  fun _ _ _ => .error rfl

theorem bind (hp : Alike f p q) (hk : ∀ a b, f a = f b → Alike g (k a) (l b)) :
    Alike g (p >>= k) (q >>= l) := by
  intro c d hcd
  have hout := hp hcd
  rw [run_bind, run_bind]
  cases hc : p.run c with
  | ok out =>
    rw [hc] at hout
    obtain ⟨b, d', hd, value, rest⟩ := hout.of_ok
    rw [hd]
    exact hk _ _ value rest
  | error e =>
    rw [hc] at hout
    obtain ⟨e', hd, cause⟩ := hout.of_error
    rw [hd]
    exact .error cause

/-- Sequence after a rule whose phrase may be missing. -/
theorem bind_option {p q : Rule (Option α)} {k l : Option α → Rule β} (hp : Alike (Option.map f) p q)
    (hnone : Alike g (k none) (l none))
    (hsome : ∀ a b, f a = f b → Alike g (k (some a)) (l (some b))) : Alike g (p >>= k) (q >>= l) := by
  refine hp.bind fun a b hab => ?_
  cases a with
  | none => rw [Option.map_none] at hab; rw [Option.map_eq_none_iff.1 hab.symm]; exact hnone
  | some a =>
    rw [Option.map_some] at hab
    obtain ⟨b, rfl, hb⟩ := Option.map_eq_some_iff.1 hab.symm
    exact hsome a b hb.symm

theorem look {h : Cursor → α} (hh : ∀ c d, c.Alike d → f (h c) = f (h d)) :
    Alike f (Rule.look h) (Rule.look h) :=
  fun c d hcd => .ok (hh c d hcd) hcd

end Alike

/-! ## Single tokens -/

theorem alike_line : Alike (fun _ => ()) line line :=
  .look fun _ _ _ => rfl

theorem alike_peek : Alike id peek peek :=
  .look fun _ _ hcd => hcd.peek

theorem alike_next : Alike (Option.map Token.symbol) next next := by
  intro c d hcd
  simp only [next, move, Cursor.next]
  obtain ⟨hc, hd⟩ | ⟨t, u, ts, us, hc, hd, hsymbol, hrest⟩ := hcd.cases_ahead
  · rw [hc, hd]
    exact .ok rfl hcd
  · rw [hc, hd]
    exact .ok (congrArg some hsymbol) hrest

/-- A test that looks at the symbol alone passes the same tokens. -/
theorem alike_nextIfSome {test : Token → Option α}
    (h : ∀ t u : Token, t.symbol = u.symbol → (test t).map f = (test u).map f) :
    Alike (Option.map f) (move (Cursor.nextIfSome test) (Cursor.advances_nextIfSome test))
      (move (Cursor.nextIfSome test) (Cursor.advances_nextIfSome test)) := by
  intro c d hcd
  simp only [move, Cursor.nextIfSome]
  obtain ⟨hc, hd⟩ | ⟨t, u, ts, us, hc, hd, hsymbol, hrest⟩ := hcd.cases_ahead
  · rw [hc, hd]
    exact .ok rfl hcd
  · rw [hc, hd]
    have htest := h t u hsymbol
    cases ht : test t with
    | none =>
      rw [ht, Option.map_none] at htest
      simp only [ht, Option.map_eq_none_iff.1 htest.symm]
      exact .ok rfl hcd
    | some a =>
      rw [ht, Option.map_some] at htest
      obtain ⟨b, hb, hab⟩ := Option.map_eq_some_iff.1 htest.symm
      simp only [ht, hb]
      exact .ok (congrArg some hab.symm) hrest

theorem alike_nextIf (s : Symbol) : Alike (Option.map Token.symbol) (nextIf s) (nextIf s) := by
  refine alike_nextIfSome fun t u htu => ?_
  rw [htu]
  split <;> simp [htu]

theorem alike_mark? (p : Punct) : Alike (Option.map Token.symbol) (mark? p) (mark? p) :=
  alike_nextIf _

theorem alike_keyword? (k : Keyword) : Alike (Option.map Token.symbol) (keyword? k) (keyword? k) :=
  alike_nextIf _

theorem alike_identifier? : Alike (Option.map Prod.fst) identifier? identifier? := by
  refine alike_nextIfSome fun t u htu => ?_
  obtain ⟨line, symbol⟩ := t
  obtain ⟨line', symbol'⟩ := u
  obtain rfl : symbol = symbol' := htu
  cases symbol <;> rfl

theorem alike_nextIfAll (ss : List Symbol) :
    Alike (Option.map fun _ => ()) (nextIfAll ss) (nextIfAll ss) := by
  intro c d hcd
  simp only [nextIfAll, move, Cursor.nextIfAll, Cursor.testIfAll_eq_of_map_symbol hcd]
  split
  · refine .ok rfl ?_
    simpa only [Cursor.Alike, Cursor.skip, List.map_drop] using congrArg (List.drop ss.length) hcd
  · exact .ok rfl hcd

theorem alike_expect (s : Symbol) : Alike Token.symbol (expect s) (expect s) := by
  intro c d hcd
  cases hc : c.nextIf s with
  | mk a c' =>
    have hrun : (nextIf s).run c = .ok (a, c') := congrArg Except.ok hc
    obtain ⟨b, d', hd, value, rest⟩ := (hrun ▸ alike_nextIf s hcd).of_ok
    have hd : d.nextIf s = (b, d') := Except.ok.inj hd
    simp only [expect, Cursor.expect, hc, hd]
    cases a with
    | none =>
      rw [Option.map_eq_none_iff.1 value.symm]
      exact .error (congrArg (GrammarCause.expected [s]) hcd.peek)
    | some t =>
      obtain ⟨u, rfl, hu⟩ := Option.map_eq_some_iff.1 value.symm
      exact .ok hu.symm rest

theorem alike_mark (p : Punct) : Alike Token.symbol (mark p) (mark p) :=
  alike_expect _

/-! ## Repetition -/

/-- The turn with its item seen through a view. -/
def Turn.map (f : α → γ) : Turn α → Turn γ
  | stop => .stop
  | last a => .last (f a)
  | more a => .more (f a)

theorem Turn.map_eq_stop {turn : Turn α} (h : turn.map f = .stop) : turn = .stop := by
  cases turn <;> cases h
  rfl

theorem Turn.map_eq_last {turn : Turn α} {b : γ} (h : turn.map f = .last b) :
    ∃ a, turn = .last a ∧ f a = b := by
  cases turn <;> cases h
  exact ⟨_, rfl, rfl⟩

theorem Turn.map_eq_more {turn : Turn α} {b : γ} (h : turn.map f = .more b) :
    ∃ a, turn = .more a ∧ f a = b := by
  cases turn <;> cases h
  exact ⟨_, rfl, rfl⟩

theorem alikeOutcomes_collectFrom {turn turn' : Rule (Turn α)} (h : Alike (Turn.map f) turn turn')
    {c d : Cursor} (hcd : c.Alike d) :
    AlikeOutcomes (List.map f) (collectFrom turn c) (collectFrom turn' d) := by
  have hout := h hcd
  -- The first run takes the turns; the second takes the same ones, with as many tokens left after
  -- each.
  fun_induction collectFrom turn c generalizing d with
  | case1 c e h₁ =>
    rw [h₁] at hout
    obtain ⟨e', hd, cause⟩ := hout.of_error
    rw [collectFrom, hd]
    exact .error cause
  | case2 c c₁ h₁ =>
    rw [h₁] at hout
    obtain ⟨b, d₁, hd, value, rest⟩ := hout.of_ok
    rw [collectFrom, hd, Turn.map_eq_stop value.symm]
    exact .ok rfl rest
  | case3 c a c₁ h₁ =>
    rw [h₁] at hout
    obtain ⟨b, d₁, hd, value, rest⟩ := hout.of_ok
    obtain ⟨b, rfl, hb⟩ := Turn.map_eq_last value.symm
    rw [collectFrom, hd]
    exact .ok (by simp [hb]) rest
  | case4 c a c₁ h₁ hlt e h₂ ih =>
    rw [h₁] at hout
    obtain ⟨b, d₁, hd, value, rest⟩ := hout.of_ok
    obtain ⟨b, rfl, hb⟩ := Turn.map_eq_more value.symm
    obtain ⟨e', hd', cause⟩ := (h₂ ▸ ih rest (h rest)).of_error
    rw [hcd.length, rest.length] at hlt
    rw [collectFrom, hd]
    simp only [if_pos hlt, hd']
    exact .error cause
  | case5 c a c₁ h₁ hlt items c₂ h₂ ih =>
    rw [h₁] at hout
    obtain ⟨b, d₁, hd, value, rest⟩ := hout.of_ok
    obtain ⟨b, rfl, hb⟩ := Turn.map_eq_more value.symm
    obtain ⟨items', d₂, hd', values, rest'⟩ := (h₂ ▸ ih rest (h rest)).of_ok
    rw [hcd.length, rest.length] at hlt
    rw [collectFrom, hd]
    simp only [if_pos hlt, hd']
    exact .ok (by simp [hb, values]) rest'
  | case6 c a c₁ h₁ hlt =>
    rw [h₁] at hout
    obtain ⟨b, d₁, hd, value, rest⟩ := hout.of_ok
    obtain ⟨b, rfl, hb⟩ := Turn.map_eq_more value.symm
    rw [hcd.length, rest.length] at hlt
    rw [collectFrom, hd]
    simp only [if_neg hlt]
    exact .ok (by simp [hb]) rest

theorem alike_collect {turn turn' : Rule (Turn α)} (h : Alike (Turn.map f) turn turn') :
    Alike (List.map f) (collect turn) (collect turn') :=
  fun _ _ hcd => alikeOutcomes_collectFrom h hcd

theorem alike_many {item item' : Rule (Option α)} (h : Alike (Option.map f) item item') :
    Alike (List.map f) (many item) (many item') :=
  alike_collect (h.bind_option (.pure rfl) fun _ _ hab => .pure (congrArg Turn.more hab))

theorem alike_afterComma {a b : α} (h : f a = f b) :
    Alike (Turn.map f) (afterComma a) (afterComma b) :=
  (alike_mark? _).bind_option (.pure (congrArg Turn.last h)) fun _ _ _ =>
    .pure (congrArg Turn.more h)

end Rule

theorem Tree.Definition.name_unlined (d : Tree.Definition) : d.unlined.name = d.name := by
  cases d <;> rfl

theorem Tree.Definition.name_eq_of_unlined {d d' : Tree.Definition} (h : d.unlined = d'.unlined) :
    d.name = d'.name := by
  rw [← d.name_unlined, h, d'.name_unlined]

namespace Grammar

open Rule

/-! ## Names and types -/

theorem alike_dottedPart : Alike (Option.map id) dottedPart dottedPart := by
  refine (alike_mark? _).bind_option (.pure rfl) fun dot dot' _ => ?_
  refine alike_identifier?.bind_option (.fail _ _ _) ?_
  rintro ⟨part, line⟩ ⟨_, line'⟩ rfl
  exact .pure rfl

theorem alike_dottedName : Alike (Option.map id) dottedName dottedName := by
  refine alike_identifier?.bind_option (.pure rfl) ?_
  rintro ⟨first, line⟩ ⟨_, line'⟩ rfl
  refine (alike_many alike_dottedPart).bind fun parts parts' hparts => .pure ?_
  rw [List.map_id, List.map_id] at hparts
  rw [hparts]

theorem alike_ordinal : Alike id ordinal ordinal := by
  refine (alike_nextIf _).bind_option (.pure rfl) ?_
  rintro ⟨line, symbol⟩ ⟨line', _⟩ rfl
  cases symbol with
  | ordinal digits =>
    dsimp only
    split
    · exact .pure rfl
    · exact .fail _ _ _
  | _ => exact .pure rfl

theorem alike_handleSort (line line' : UInt32) : Alike id (handleSort line) (handleSort line') := by
  refine (alike_mark _).bind fun _ _ _ => ?_
  refine alike_identifier?.bind_option (.fail _ _ _) ?_
  rintro ⟨name, nameLine⟩ ⟨_, nameLine'⟩ rfl
  dsimp only
  split
  · exact .fail _ _ _
  · exact (alike_mark _).bind fun _ _ _ => .pure rfl

theorem alike_look_atIdentifier (name : String) :
    Alike id (look (atIdentifier name)) (look (atIdentifier name)) :=
  .look fun _ _ hcd => by simp only [atIdentifier, hcd.peek]

theorem alike_arrayOpening : Alike (Option.map fun _ => ()) arrayOpening arrayOpening := by
  have hlook : Alike id (look atArray) (look atArray) :=
    .look fun _ _ hcd => by simp only [atArray, atIdentifier, hcd.peek, hcd.peekAt]
  refine hlook.bind ?_
  rintro here _ rfl
  cases here with
  | true =>
    refine alike_line.bind fun _ _ _ => alike_next.bind fun _ _ _ => alike_next.bind fun _ _ _ => ?_
    exact .pure rfl
  | false => exact .pure rfl

theorem alike_plainType : Alike (Option.map id) plainType plainType := by
  refine (alike_look_atIdentifier _).bind ?_
  rintro here _ rfl
  cases here with
  | true =>
    refine alike_line.bind fun line line' _ => alike_next.bind fun _ _ _ => alike_peek.bind ?_
    rintro symbol _ rfl
    dsimp only [id_eq]
    split
    · refine (alike_handleSort line line').bind ?_
      rintro sort _ rfl
      exact .pure rfl
    · exact .pure rfl
  | false =>
    refine alike_dottedName.bind_option (.pure rfl) ?_
    rintro name _ rfl
    exact .pure rfl

theorem alike_typeSuffix : Alike (Option.map id) typeSuffix typeSuffix :=
  (alike_nextIfAll _).bind_option
    ((alike_mark? _).bind_option (.pure rfl) fun _ _ _ => .pure rfl) fun _ _ _ => .pure rfl

theorem alike_suffixed (t : TypeExpr) : Alike id (suffixed t) (suffixed t) := by
  refine (alike_many alike_typeSuffix).bind fun suffixes suffixes' h => .pure ?_
  rw [List.map_id, List.map_id] at h
  rw [h]

theorem alike_closeArrays (n : Nat) (t : TypeExpr) :
    Alike id (closeArrays n t) (closeArrays n t) := by
  induction n generalizing t with
  | zero => exact .pure rfl
  | succ n ih =>
    refine (alike_mark _).bind fun _ _ _ => (alike_suffixed _).bind ?_
    rintro t _ rfl
    exact ih t

theorem alike_typeExpr : Alike (Option.map id) typeExpr typeExpr := by
  refine (alike_many alike_arrayOpening).bind fun openings openings' hopenings => ?_
  have hlength : openings.length = openings'.length := by
    simpa using congrArg List.length hopenings
  refine alike_plainType.bind_option ?_ ?_
  · dsimp only
    cases hlast : openings.getLast? with
    | none =>
      have hlast' : openings'.getLast? = none := by
        rw [List.getLast?_eq_none_iff] at hlast ⊢
        exact List.length_eq_zero_iff.1 (by rw [← hlength, hlast, List.length_nil])
      rw [hlast']
      exact .pure rfl
    | some line =>
      cases hlast' : openings'.getLast? with
      | none =>
        rw [List.getLast?_eq_none_iff] at hlast'
        rw [hlast', List.length_nil, List.length_eq_zero_iff] at hlength
        rw [hlength] at hlast
        cases hlast
      | some line' => exact .fail _ _ _
  · rintro t _ rfl
    dsimp only [id_eq]
    rw [hlength]
    refine (alike_suffixed _).bind ?_
    rintro t _ rfl
    refine (alike_closeArrays _ _).bind ?_
    rintro t _ rfl
    exact .pure rfl

/-! ## Values and attributes -/

theorem alike_signedNumber {sign sign' : Token} (h : sign.symbol = sign'.symbol) (written : String) :
    Alike id (signedNumber sign written) (signedNumber sign' written) := by
  refine alike_next.bind fun number number' hnumber => ?_
  rw [hnumber, h]
  split
  · exact .pure rfl
  · exact .pure rfl
  · exact .fail _ _ _

theorem alike_value : Alike (Option.map id) value value := by
  refine (alike_mark? _).bind_option ?_ fun sign sign' hsign => ?_
  · refine (alike_mark? _).bind_option ?_ fun sign sign' hsign => ?_
    · refine alike_peek.bind ?_
      rintro symbol _ rfl
      dsimp only [id_eq]
      split
      · exact alike_next.bind fun _ _ _ => .pure rfl
      · refine alike_dottedName.bind_option (.pure rfl) ?_
        rintro name _ rfl
        exact .pure rfl
    · refine (alike_signedNumber hsign _).bind ?_
      rintro v _ rfl
      exact .pure rfl
  · refine (alike_signedNumber hsign _).bind ?_
    rintro v _ rfl
    exact .pure rfl

theorem alike_assignedValue (line line' : UInt32) :
    Alike id (assignedValue line) (assignedValue line') := by
  refine alike_value.bind_option (.fail _ _ _) ?_
  rintro v _ rfl
  exact .pure rfl

theorem alike_optionalValue : Alike id optionalValue optionalValue := by
  refine (alike_mark? _).bind_option (.pure rfl) fun assign assign' _ => ?_
  refine (alike_assignedValue _ _).bind ?_
  rintro v _ rfl
  exact .pure rfl

theorem alike_attributeValue (key : String) (line line' : UInt32) :
    Alike id (attributeValue key line) (attributeValue key line') := by
  refine (alike_mark? _).bind_option (.pure rfl) fun _ _ _ => ?_
  refine alike_value.bind fun v v' hv => ?_
  rw [Option.map_id, id_eq, id_eq] at hv
  rw [hv]
  split
  · exact .pure rfl
  · exact .fail _ _ _

theorem alike_attributeTurn :
    Alike (Turn.map Tree.Attribute.unlined) attributeTurn attributeTurn := by
  refine alike_identifier?.bind_option (.pure rfl) ?_
  rintro ⟨key, line⟩ ⟨_, line'⟩ rfl
  refine (alike_attributeValue key line line').bind ?_
  rintro v _ rfl
  exact alike_afterComma rfl

theorem alike_attributes? :
    Alike (Option.map (List.map Tree.Attribute.unlined)) attributes? attributes? := by
  refine (alike_mark? _).bind_option (.pure rfl) fun _ _ _ => ?_
  refine (alike_collect alike_attributeTurn).bind fun _ _ hattributes => ?_
  exact (alike_mark _).bind fun _ _ _ => .pure (congrArg some hattributes)

/-! ## Definitions -/

theorem alike_nameAfter {word word' : Token} (h : word.symbol = word'.symbol) :
    Alike id (nameAfter word) (nameAfter word') := by
  unfold nameAfter
  rw [h]
  refine alike_identifier?.bind_option (.fail _ _ _) ?_
  rintro ⟨name, line⟩ ⟨_, line'⟩ rfl
  exact .pure rfl

theorem alike_nameAfterType (line line' : UInt32) (type : TypeExpr) :
    Alike id (nameAfterType line type) (nameAfterType line' type) := by
  refine alike_identifier?.bind_option (.fail _ _ _) ?_
  rintro ⟨name, line⟩ ⟨_, line'⟩ rfl
  exact .pure rfl

theorem alike_enumValueTurn :
    Alike (Turn.map Tree.EnumValue.unlined) enumValueTurn enumValueTurn := by
  refine alike_identifier?.bind_option (.pure rfl) ?_
  rintro ⟨name, line⟩ ⟨_, line'⟩ rfl
  refine alike_optionalValue.bind ?_
  rintro v _ rfl
  exact alike_afterComma rfl

section

variable {attributes attributes' : List Tree.Attribute}
  (h : attributes.map Tree.Attribute.unlined = attributes'.map Tree.Attribute.unlined)

include h

theorem alike_enumeration :
    Alike (Option.map Tree.Enum.unlined) (enumeration attributes) (enumeration attributes') := by
  refine (alike_keyword? _).bind_option (.pure rfl) fun word word' hword => ?_
  refine (alike_nameAfter hword).bind ?_
  rintro name _ rfl
  refine (alike_mark _).bind fun _ _ _ => ?_
  refine (alike_collect alike_enumValueTurn).bind fun values values' hvalues => ?_
  refine (alike_mark _).bind fun _ _ _ => (alike_mark? _).bind fun _ _ _ => .pure ?_
  simp only [Option.map_some, Tree.Enum.unlined, h, hvalues, id_eq]

theorem alike_constant :
    Alike (Option.map Tree.Constant.unlined) (constant attributes) (constant attributes') := by
  refine (alike_keyword? _).bind_option (.pure rfl) fun word word' _ => ?_
  refine alike_typeExpr.bind_option (.fail _ _ _) ?_
  rintro type _ rfl
  refine (alike_nameAfterType word.line word'.line type).bind ?_
  rintro name _ rfl
  refine (alike_mark _).bind fun assign assign' _ => ?_
  refine (alike_assignedValue assign.line assign'.line).bind ?_
  rintro v _ rfl
  refine (alike_mark _).bind fun _ _ _ => .pure ?_
  simp only [Option.map_some, Tree.Constant.unlined, h, id_eq]

theorem alike_structField :
    Alike (Option.map Tree.Field.unlined) (structField attributes) (structField attributes') := by
  refine alike_line.bind fun line line' _ => ?_
  refine alike_typeExpr.bind_option (.pure rfl) ?_
  rintro type _ rfl
  refine (alike_nameAfterType line line' type).bind ?_
  rintro name _ rfl
  refine alike_ordinal.bind ?_
  rintro ordinal _ rfl
  refine alike_optionalValue.bind ?_
  rintro default _ rfl
  refine (alike_mark _).bind fun _ _ _ => .pure ?_
  simp only [Option.map_some, Tree.Field.unlined, h, id_eq]

end

/-- The attributes before a definition, none if there is no list. -/
theorem map_unlined_getD {attributes attributes' : Option (List Tree.Attribute)}
    (h : attributes.map (List.map Tree.Attribute.unlined) =
      attributes'.map (List.map Tree.Attribute.unlined)) :
    (attributes.getD []).map Tree.Attribute.unlined =
      (attributes'.getD []).map Tree.Attribute.unlined := by
  cases attributes <;> cases attributes' <;> simp_all

/-- Attributes ask for a definition in both runs or in none. -/
theorem alike_if_isSome {α γ : Type} {f : α → γ} {p q p' q' : Rule α}
    {attributes attributes' : Option (List Tree.Attribute)}
    (h : attributes.map (List.map Tree.Attribute.unlined) =
      attributes'.map (List.map Tree.Attribute.unlined))
    (hp : Alike f p p') (hq : Alike f q q') :
    Alike f (if attributes.isSome then p else q) (if attributes'.isSome then p' else q') := by
  cases attributes <;> cases attributes' <;> simp_all

theorem alike_structMember :
    Alike (Option.map Tree.StructMember.unlined) structMember structMember := by
  refine alike_attributes?.bind fun attributes attributes' hattributes => ?_
  have hgetD := map_unlined_getD hattributes
  refine (alike_enumeration hgetD).bind_option ?_ fun e e' he => ?_
  · refine (alike_constant hgetD).bind_option ?_ fun c c' hc => ?_
    · refine (alike_structField hgetD).bind_option ?_ fun f f' hf => ?_
      · exact alike_if_isSome hattributes (alike_line.bind fun _ _ _ => .fail _ _ _) (.pure rfl)
      · exact .pure (congrArg (some ∘ Tree.StructMember.field) hf)
    · exact .pure (congrArg (some ∘ Tree.StructMember.constant) hc)
  · exact .pure (congrArg (some ∘ Tree.StructMember.enum) he)

theorem alike_parameter : Alike Tree.Parameter.unlined parameter parameter := by
  refine alike_attributes?.bind fun attributes attributes' hattributes => ?_
  have hgetD := map_unlined_getD hattributes
  refine alike_line.bind fun line line' _ => ?_
  refine alike_typeExpr.bind_option (.fail _ _ _) ?_
  rintro type _ rfl
  refine (alike_nameAfterType line line' type).bind ?_
  rintro name _ rfl
  refine alike_ordinal.bind ?_
  rintro ordinal _ rfl
  refine .pure ?_
  simp only [Tree.Parameter.unlined, hgetD, id_eq]

theorem alike_parameters : Alike (List.map Tree.Parameter.unlined) parameters parameters := by
  refine (alike_mark _).bind fun _ _ _ => ?_
  refine (alike_mark? _).bind_option ?_ fun _ _ _ => .pure rfl
  refine (alike_collect (alike_parameter.bind fun _ _ hp => alike_afterComma hp)).bind ?_
  exact fun _ _ hlist => (alike_mark _).bind fun _ _ _ => .pure hlist

theorem alike_response :
    Alike (Option.map (List.map Tree.Parameter.unlined)) response response := by
  refine (alike_mark? _).bind_option (.pure rfl) fun _ _ _ => ?_
  exact alike_parameters.bind fun _ _ hlist => .pure (congrArg some hlist)

section

variable {attributes attributes' : List Tree.Attribute}
  (h : attributes.map Tree.Attribute.unlined = attributes'.map Tree.Attribute.unlined)

include h

theorem alike_struct :
    Alike (Option.map Tree.Struct.unlined) (struct attributes) (struct attributes') := by
  refine (alike_keyword? _).bind_option (.pure rfl) fun word word' hword => ?_
  refine (alike_nameAfter hword).bind ?_
  rintro name _ rfl
  refine (alike_mark _).bind fun _ _ _ => ?_
  refine (alike_many alike_structMember).bind fun body body' hbody => ?_
  refine (alike_mark _).bind fun _ _ _ => (alike_mark? _).bind fun _ _ _ => .pure ?_
  simp only [Option.map_some, Tree.Struct.unlined, h, hbody, id_eq]

theorem alike_method :
    Alike (Option.map Tree.Method.unlined) (method attributes) (method attributes') := by
  refine alike_identifier?.bind_option (.pure rfl) ?_
  rintro ⟨name, line⟩ ⟨_, line'⟩ rfl
  refine alike_ordinal.bind ?_
  rintro ordinal _ rfl
  refine alike_parameters.bind fun parameters parameters' hparameters => ?_
  refine alike_response.bind fun response response' hresponse => ?_
  refine (alike_mark _).bind fun _ _ _ => .pure ?_
  simp only [Option.map_some, Tree.Method.unlined, h, hparameters, hresponse, id_eq]

end

theorem alike_interfaceMember :
    Alike (Option.map Tree.InterfaceMember.unlined) interfaceMember interfaceMember := by
  refine alike_attributes?.bind fun attributes attributes' hattributes => ?_
  have hgetD := map_unlined_getD hattributes
  refine (alike_enumeration hgetD).bind_option ?_ fun e e' he => ?_
  · refine (alike_constant hgetD).bind_option ?_ fun c c' hc => ?_
    · refine (alike_method hgetD).bind_option ?_ fun m m' hm => ?_
      · refine alike_if_isSome hattributes ?_ (.pure rfl)
        refine alike_line.bind fun _ _ _ => alike_peek.bind ?_
        rintro symbol _ rfl
        exact .fail _ _ _
      · exact .pure (congrArg (some ∘ Tree.InterfaceMember.method) hm)
    · exact .pure (congrArg (some ∘ Tree.InterfaceMember.constant) hc)
  · exact .pure (congrArg (some ∘ Tree.InterfaceMember.enum) he)

section

variable {attributes attributes' : List Tree.Attribute}
  (h : attributes.map Tree.Attribute.unlined = attributes'.map Tree.Attribute.unlined)

include h

theorem alike_interface :
    Alike (Option.map Tree.Interface.unlined) (interface attributes) (interface attributes') := by
  refine (alike_keyword? _).bind_option (.pure rfl) fun word word' hword => ?_
  refine (alike_nameAfter hword).bind ?_
  rintro name _ rfl
  refine (alike_mark _).bind fun _ _ _ => ?_
  refine (alike_many alike_interfaceMember).bind fun body body' hbody => ?_
  refine (alike_mark _).bind fun _ _ _ => (alike_mark? _).bind fun _ _ _ => .pure ?_
  simp only [Option.map_some, Tree.Interface.unlined, h, hbody, id_eq]

theorem alike_definition :
    Alike (Option.map Tree.Definition.unlined) (definition attributes) (definition attributes') := by
  refine (alike_struct h).bind_option ?_ fun s s' hs => ?_
  · refine (alike_interface h).bind_option ?_ fun i i' hi => ?_
    · refine (alike_enumeration h).bind_option ?_ fun e e' he => ?_
      · refine (alike_constant h).bind_option (.pure rfl) fun c c' hc => ?_
        exact .pure (congrArg (some ∘ Tree.Definition.constant) hc)
      · exact .pure (congrArg (some ∘ Tree.Definition.enum) he)
    · exact .pure (congrArg (some ∘ Tree.Definition.interface) hi)
  · exact .pure (congrArg (some ∘ Tree.Definition.struct) hs)

end

theorem alike_attributedDefinition :
    Alike (Option.map Tree.Definition.unlined) attributedDefinition attributedDefinition := by
  refine alike_attributes?.bind fun attributes attributes' hattributes => ?_
  refine (alike_definition (map_unlined_getD hattributes)).bind_option ?_ fun d d' hd => ?_
  · refine alike_if_isSome hattributes ?_ (.pure rfl)
    refine alike_line.bind fun _ _ _ => alike_peek.bind ?_
    rintro symbol _ rfl
    exact .fail _ _ _
  · exact .pure (congrArg some hd)

/-! ## Files -/

theorem alike_importDecl : Alike (Option.map Tree.Import.unlined) importDecl importDecl := by
  refine (alike_keyword? _).bind_option (.pure rfl) fun word word' _ => ?_
  refine (alike_nextIf _).bind fun path path' hpath => ?_
  rw [hpath]
  split
  · exact (alike_mark _).bind fun _ _ _ => .pure rfl
  · exact .fail _ _ _

/-- Whether a module follows an attribute list is a question about symbols. -/
theorem moduleAfterAttributes_eq (ts : List Token) :
    moduleAfterAttributes ts =
      (decide ((ts.map Token.symbol).head? = some (.punct .lbracket)) &&
        decide (((ts.map Token.symbol).tail.dropWhile (· ≠ .punct .rbracket))[1]? =
          some (.keyword .moduleWord))) := by
  cases ts with
  | nil => rfl
  | cons t rest =>
    obtain ⟨line, symbol⟩ := t
    by_cases hsymbol : symbol = .punct .lbracket
    · subst hsymbol
      simp only [moduleAfterAttributes, List.map_cons, List.head?_cons, List.tail_cons,
        List.dropWhile_map, List.getElem?_map, decide_true, Bool.true_and, Function.comp_def]
      generalize rest.dropWhile (fun t => decide (t.symbol ≠ .punct .rbracket)) = dropped
      split
      · simp
      · next hnot =>
        symm
        rw [decide_eq_false_iff_not]
        intro hword
        obtain ⟨t, ht, hsymbol⟩ := Option.map_eq_some_iff.1 hword
        cases dropped with
        | nil => cases ht
        | cons first others =>
          cases others with
          | nil => cases ht
          | cons second rest =>
            obtain rfl : second = t := Option.some.inj ht
            exact hnot first second.line rest (by rw [← hsymbol])
    · simp [moduleAfterAttributes, hsymbol]

theorem alike_openBodyDefinition :
    Alike (Option.map Tree.Definition.unlined) openBodyDefinition openBodyDefinition := by
  have hlook : Alike id (look moduleFollows) (look moduleFollows) :=
    .look fun _ _ hcd => by
      rw [moduleFollows, moduleFollows, hcd.testIf, moduleAfterAttributes_eq,
        moduleAfterAttributes_eq, hcd]
  refine hlook.bind ?_
  rintro follows _ rfl
  cases follows with
  | true => exact .pure rfl
  | false => exact alike_attributedDefinition

theorem alike_moduleBody : Alike (List.map Tree.Definition.unlined) moduleBody moduleBody := by
  refine (alike_mark? _).bind_option ?_ fun _ _ _ => ?_
  · refine (alike_mark? _).bind_option ?_ fun _ _ _ => alike_many alike_openBodyDefinition
    refine alike_line.bind fun _ _ _ => alike_peek.bind ?_
    rintro symbol _ rfl
    exact .fail _ _ _
  · refine (alike_many alike_attributedDefinition).bind fun _ _ hdefinitions => ?_
    refine (alike_mark _).bind fun _ _ _ => (alike_mark? _).bind fun _ _ _ => ?_
    exact .pure hdefinitions

theorem alike_moduleDecl {attributes attributes' : List Tree.Attribute}
    (h : attributes.map Tree.Attribute.unlined = attributes'.map Tree.Attribute.unlined) :
    Alike (Option.map Tree.Module.unlined) (moduleDecl attributes) (moduleDecl attributes') := by
  refine (alike_keyword? _).bind_option (.pure rfl) fun word word' _ => ?_
  refine alike_dottedName.bind_option (.fail _ _ _) ?_
  rintro name _ rfl
  refine alike_moduleBody.bind fun definitions definitions' hdefinitions => .pure ?_
  simp only [Option.map_some, Tree.Module.unlined, h, hdefinitions, id_eq]

/-- An item without its lines. -/
def TopItem.unlined : TopItem → TopItem
  | module m => module m.unlined
  | definition d => definition d.unlined

theorem TopItem.cases_of_unlined_eq {item item' : TopItem} (h : item.unlined = item'.unlined) :
    (∃ m m', item = .module m ∧ item' = .module m' ∧ m.unlined = m'.unlined) ∨
      ∃ d d', item = .definition d ∧ item' = .definition d' ∧ d.unlined = d'.unlined := by
  cases item <;> cases item' <;> simp_all [TopItem.unlined]

theorem alike_topItem : Alike (Option.map (TopItem.unlined ∘ Prod.snd)) topItem topItem := by
  refine alike_line.bind fun line line' _ => ?_
  refine alike_attributes?.bind fun attributes attributes' hattributes => ?_
  have hgetD := map_unlined_getD hattributes
  refine (alike_moduleDecl hgetD).bind_option ?_ fun m m' hm => ?_
  · refine (alike_definition hgetD).bind_option (.pure rfl) fun d d' hd => ?_
    exact .pure (congrArg (some ∘ TopItem.definition) hd)
  · exact .pure (congrArg (some ∘ TopItem.module) hm)

theorem alike_nextModule : Alike (Option.map Tree.Module.unlined) nextModule nextModule := by
  refine alike_topItem.bind_option (.pure rfl) ?_
  rintro ⟨line, item⟩ ⟨line', item'⟩ hitem
  obtain ⟨m, m', rfl, rfl, hm⟩ | ⟨d, d', rfl, rfl, hd⟩ := TopItem.cases_of_unlined_eq hitem
  · exact .pure (congrArg some hm)
  · dsimp only
    rw [Tree.Definition.name_eq_of_unlined hd]
    exact .fail _ _ _

theorem alike_nextLoose (line line' : UInt32) {first first' : Tree.Definition}
    (hfirst : first.unlined = first'.unlined) :
    Alike (Option.map Tree.Definition.unlined) (nextLoose line first) (nextLoose line' first') := by
  refine alike_topItem.bind_option (.pure rfl) ?_
  rintro ⟨line, item⟩ ⟨line', item'⟩ hitem
  obtain ⟨m, m', rfl, rfl, hm⟩ | ⟨d, d', rfl, rfl, hd⟩ := TopItem.cases_of_unlined_eq hitem
  · dsimp only
    rw [Tree.Definition.name_eq_of_unlined hfirst]
    exact .fail _ _ _
  · exact .pure (congrArg some hd)

theorem alike_modules : Alike (List.map Tree.Module.unlined) modules modules := by
  refine alike_topItem.bind_option (.pure rfl) ?_
  rintro ⟨line, item⟩ ⟨line', item'⟩ hitem
  obtain ⟨m, m', rfl, rfl, hm⟩ | ⟨d, d', rfl, rfl, hd⟩ := TopItem.cases_of_unlined_eq hitem
  · refine (alike_many alike_nextModule).bind fun rest rest' hrest => .pure ?_
    rw [List.map_cons, List.map_cons, hm, hrest]
  · refine (alike_many (alike_nextLoose line line' hd)).bind fun rest rest' hrest => .pure ?_
    simp only [List.map_cons, List.map_nil, Tree.Module.unlined, hd, hrest]

theorem alike_file : Alike Tree.unlined file file := by
  refine (alike_many alike_importDecl).bind fun imports imports' himports => ?_
  refine alike_modules.bind fun modules modules' hmodules => .pure ?_
  rw [Tree.unlined, Tree.unlined, himports, hmodules]

end Grammar

/-- A fault of the grammar without its line. -/
def GrammarFault.unlined (f : GrammarFault) : GrammarFault :=
  { f with line := 0 }

/-- Tokens with the same symbols have the same tree, or faults of the same cause, up to lines. -/
theorem Tree.unlined_ofTokens {tokens tokens' : List Token}
    (h : tokens.map Token.symbol = tokens'.map Token.symbol) :
    ((Tree.ofTokens tokens).map Tree.unlined).mapError GrammarFault.unlined =
      ((Tree.ofTokens tokens').map Tree.unlined).mapError GrammarFault.unlined := by
  have hout := Grammar.alike_file (c := .ofTokens tokens) (d := .ofTokens tokens') h
  unfold Tree.ofTokens
  cases hc : Grammar.file.run (.ofTokens tokens) with
  | error e =>
    obtain ⟨e', hd, cause⟩ := (hc ▸ hout).of_error
    rw [hd]
    simp [Except.map, Except.mapError, GrammarFault.unlined, cause]
  | ok out =>
    obtain ⟨tree, c⟩ := out
    obtain ⟨tree', d, hd, htree, hrest⟩ := (hc ▸ hout).of_ok
    rw [hd]
    have hpeek := hrest.peek
    dsimp only
    cases hp : c.peek with
    | none =>
      rw [hp, Option.map_none] at hpeek
      rw [Option.map_eq_none_iff.1 hpeek.symm]
      simp [Except.map, Except.mapError, htree]
    | some t =>
      rw [hp, Option.map_some] at hpeek
      obtain ⟨u, hu, hsymbol⟩ := Option.map_eq_some_iff.1 hpeek.symm
      rw [hu]
      simp [Except.map, Except.mapError, GrammarFault.unlined, hsymbol]

end WireSchema
