import WireSchema.Proofs.Grammar.Nesting

/-!
# What rules read are phrases

`Rule.ReadsAt` says that what a rule reads from a cursor on is a phrase. It is proved once for each
combinator, and from there for each rule of the grammar. The rule for files drops an attribute list
at the end that nothing follows; apart from it, every token of an accepted list belongs to the file
(`Tree.file_of_ofTokens`).
-/

namespace WireSchema

namespace Rule

variable {α β : Type} {c c' : Cursor} {p r : Rule α} {f : α → Rule β} {P P' : Phrase α}
  {Q : Phrase β} {a : α} {b : β} {o : Option α}

/-- What the rule reads from the cursor on is a phrase. -/
def ReadsAt (c : Cursor) (r : Rule α) (P : Phrase α) : Prop :=
  ∀ a c', r.run c = .ok (a, c') → ∃ ts, c.ahead = ts ++ c'.ahead ∧ P ts a

/-- What the rule reads is a phrase, from every cursor on. -/
def Reads (r : Rule α) (P : Phrase α) : Prop :=
  ∀ c, ReadsAt c r P

/-! ## Rules in sequence -/

theorem run_bind_eq_ok : (p >>= f).run c = .ok (b, c') ↔
    ∃ a c₁, p.run c = .ok (a, c₁) ∧ (f a).run c₁ = .ok (b, c') := by
  rw [run_bind]
  cases h : p.run c with
  | error e => simp
  | ok result =>
    obtain ⟨a, c₁⟩ := result
    constructor
    · exact fun hb => ⟨a, c₁, rfl, hb⟩
    · rintro ⟨_, _, ⟨⟩, hb⟩
      exact hb

theorem ReadsAt.bind (hp : ReadsAt c p P)
    (hf : ∀ ts a c₁, c.ahead = ts ++ c₁.ahead → P ts a →
      ReadsAt c₁ (f a) fun ts' b => Q (ts ++ ts') b) :
    ReadsAt c (p >>= f) Q := by
  intro b c' h
  obtain ⟨a, c₁, ha, hb⟩ := run_bind_eq_ok.1 h
  obtain ⟨ts, hts, hP⟩ := hp a c₁ ha
  obtain ⟨ts', hts', hQ⟩ := hf ts a c₁ hts hP b c' hb
  exact ⟨ts ++ ts', by rw [hts, hts', List.append_assoc], hQ⟩

theorem ReadsAt.pure (h : P [] a) : ReadsAt c (Pure.pure a) P := by
  intro a' c' heq
  cases heq
  exact ⟨[], rfl, h⟩

/-- The last step of a rule. -/
theorem ReadsAt.map {g : α → β} (hp : ReadsAt c p P) (hg : ∀ ts a, P ts a → Q ts (g a)) :
    ReadsAt c (p >>= fun a => Pure.pure (g a)) Q :=
  hp.bind fun ts a _ _ h => .pure (by rw [List.append_nil]; exact hg ts a h)

theorem ReadsAt.mono (hr : ReadsAt c r P) (h : ∀ ts a, P ts a → P' ts a) : ReadsAt c r P' := by
  intro a c' heq
  obtain ⟨ts, hts, hP⟩ := hr a c' heq
  exact ⟨ts, hts, h ts a hP⟩

theorem readsAt_fail {line : UInt32} {cause : GrammarCause} : ReadsAt c (fail line cause) P := by
  intro a c' h
  cases h

theorem readsAt_look {f : Cursor → α} : ReadsAt c (look f) fun ts a => ts = [] ∧ a = f c := by
  intro a c' h
  cases h
  exact ⟨[], rfl, rfl, rfl⟩

/-! ## Single tokens -/

/-- One token with the given symbol. -/
inductive Single (s : Symbol) : Phrase Token where
  | mk (line : UInt32) : Single s [⟨line, s⟩] ⟨line, s⟩

/-- One identifier with its name and line. -/
inductive Identifier : Phrase (String × UInt32) where
  | mk (name : String) (line : UInt32) : Identifier [⟨line, .identifier name⟩] (name, line)

theorem readsAt_nextIfSome {f : Token → Option α}
    (h : (move (Cursor.nextIfSome f) (Cursor.advances_nextIfSome f)).run c = .ok (o, c')) :
    (∃ t a, c.ahead = t :: c'.ahead ∧ f t = some a ∧ o = some a) ∨ (c' = c ∧ o = none) := by
  simp only [move, Except.ok.injEq] at h
  unfold Cursor.nextIfSome at h
  split at h
  · next t rest hahead =>
    split at h
    · next a ha =>
      cases h
      exact .inl ⟨t, a, hahead, ha, rfl⟩
    · cases h
      exact .inr ⟨rfl, rfl⟩
  · cases h
    exact .inr ⟨rfl, rfl⟩

theorem reads_nextIf (s : Symbol) :
    Reads (nextIf s) (Phrase.Optional fun ts t => ts = [t] ∧ t.symbol.sameSort s = true) := by
  intro c o c' h
  obtain ⟨t, a, hahead, ha, rfl⟩ | ⟨rfl, rfl⟩ := readsAt_nextIfSome h
  · split at ha
    · next hsort =>
      cases ha
      exact ⟨[t], hahead, .present ⟨rfl, hsort⟩⟩
    · cases ha
  · exact ⟨[], rfl, .absent⟩

theorem reads_mark? (mark : Punct) :
    Reads (mark? mark) (Phrase.Optional (Single (.punct mark))) := by
  refine fun c => (reads_nextIf _ c).mono ?_
  rintro ts o (_ | ⟨rfl, hsort⟩)
  · exact .absent
  · next t =>
    obtain ⟨line, symbol⟩ := t
    cases Symbol.eq_of_sameSort_punct hsort
    exact .present (.mk line)

theorem reads_keyword? (word : Keyword) :
    Reads (keyword? word) (Phrase.Optional (Single (.keyword word))) := by
  refine fun c => (reads_nextIf _ c).mono ?_
  rintro ts o (_ | ⟨rfl, hsort⟩)
  · exact .absent
  · next t =>
    obtain ⟨line, symbol⟩ := t
    cases Symbol.eq_of_sameSort_keyword hsort
    exact .present (.mk line)

theorem reads_identifier? : Reads identifier? (Phrase.Optional Identifier) := by
  intro c o c' h
  obtain ⟨t, a, hahead, ha, rfl⟩ | ⟨rfl, rfl⟩ := readsAt_nextIfSome h
  · split at ha
    · cases ha
      exact ⟨_, hahead, .present (.mk _ _)⟩
    · cases ha
  · exact ⟨[], rfl, .absent⟩

theorem readsAt_next {t : Token} {rest : List Token} (h : c.ahead = t :: rest) :
    ReadsAt c next fun ts o => ts = [t] ∧ o = some t := by
  intro o c' hrun
  simp only [next, move, Cursor.next, h, Except.ok.injEq, Prod.mk.injEq] at hrun
  obtain ⟨rfl, rfl⟩ := hrun
  exact ⟨[t], h, rfl, rfl⟩

theorem readsAt_next_nil (h : c.ahead = []) :
    ReadsAt c next fun ts o => ts = [] ∧ o = none := by
  intro o c' hrun
  simp only [next, move, Cursor.next, h, Except.ok.injEq, Prod.mk.injEq] at hrun
  obtain ⟨rfl, rfl⟩ := hrun
  exact ⟨[], rfl, rfl, rfl⟩

theorem reads_mark (mark : Punct) : Reads (Rule.mark mark) (Single (.punct mark)) := by
  intro c t c' h
  simp only [Rule.mark, expect, Cursor.expect] at h
  cases hnext : c.nextIf (.punct mark) with
  | mk o c₁ =>
    obtain ⟨ts, hts, hread⟩ := reads_mark? mark c o c₁ (congrArg Except.ok hnext)
    cases hread with
    | absent => simp [hnext] at h
    | present single =>
      simp only [hnext, Except.ok.injEq, Prod.mk.injEq] at h
      obtain ⟨rfl, rfl⟩ := h
      exact ⟨ts, hts, single⟩

/-- Empty brackets. -/
inductive Brackets : Phrase (List Token) where
  | mk (l₁ l₂ : UInt32) : Brackets [⟨l₁, .punct .lbracket⟩, ⟨l₂, .punct .rbracket⟩]
    [⟨l₁, .punct .lbracket⟩, ⟨l₂, .punct .rbracket⟩]

theorem reads_brackets :
    Reads (nextIfAll [.punct .lbracket, .punct .rbracket]) (Phrase.Optional Brackets) := by
  intro c o c' h
  simp only [nextIfAll, move, Except.ok.injEq] at h
  unfold Cursor.nextIfAll at h
  split at h
  · next hall =>
    cases h
    match hahead : c.ahead with
    | [] => simp [hahead, Cursor.testIfAll] at hall
    | [_] => simp [hahead, Cursor.testIfAll] at hall
    | ⟨l₁, s₁⟩ :: ⟨l₂, s₂⟩ :: rest =>
      simp only [hahead, Cursor.testIfAll, Bool.and_true, Bool.and_eq_true] at hall
      cases Symbol.eq_of_sameSort_punct hall.1
      cases Symbol.eq_of_sameSort_punct hall.2
      simp only [Cursor.skip, hahead]
      exact ⟨_, rfl, .present (.mk l₁ l₂)⟩
  · cases h
    exact ⟨[], rfl, .absent⟩

/-! ## Repetition -/

/-- Turns that read items or end with nothing more, where a promise of more has read a comma. -/
theorem reads_collect {turn : Rule (Turn α)} {P : Phrase (Turn α)} {L : Phrase (List α)}
    (hturn : Reads turn P) (stop : ∀ ts, P ts .stop → L ts [])
    (last : ∀ ts a, P ts (.last a) → L ts [a])
    (more : ∀ ts a ts' as, P ts (.more a) → L ts' as → L (ts ++ ts') (a :: as))
    (progress : ∀ a, ¬ P [] (.more a)) : Reads (collect turn) L := by
  intro c as c' h
  change collectFrom turn c = .ok (as, c') at h
  fun_induction collectFrom turn c generalizing as c' with
  | case1 => cases h
  | case2 c c₁ hrun =>
    cases h
    obtain ⟨ts, hts, hP⟩ := hturn c _ _ hrun
    exact ⟨ts, hts, stop ts hP⟩
  | case3 c a c₁ hrun =>
    cases h
    obtain ⟨ts, hts, hP⟩ := hturn c _ _ hrun
    exact ⟨ts, hts, last ts a hP⟩
  | case4 => cases h
  | case5 c a c₁ hrun _ items c₂ hrest ih =>
    cases h
    obtain ⟨ts, hts, hP⟩ := hturn c _ _ hrun
    obtain ⟨ts', hts', hL⟩ := ih _ _ hrest
    exact ⟨ts ++ ts', by rw [hts, hts', List.append_assoc], more ts a ts' items hP hL⟩
  | case6 c a c₁ hrun hlt =>
    obtain ⟨ts, hts, hP⟩ := hturn c _ _ hrun
    cases ts with
    | nil => exact absurd hP (progress a)
    | cons t ts =>
      rw [hts] at hlt
      simp only [List.length_append, List.length_cons] at hlt
      omega

/-- Items as long as there are any; what is read when there is none has a phrase of its own. -/
theorem reads_many_until {item : Rule (Option α)} {D : List Token → Prop}
    (hitem : Reads item fun ts o => (∃ a, o = some a ∧ P ts a) ∨ (o = none ∧ D ts))
    (progress : ∀ a, ¬ P [] a) :
    Reads (many item) fun ts as =>
      ∃ front back, ts = front ++ back ∧ Phrase.Many P front as ∧ D back := by
  refine @reads_collect _ _ (fun ts turn => (∃ a, turn = .more a ∧ P ts a) ∨ (turn = .stop ∧ D ts))
    _ (fun c => ?_) ?_ ?_ ?_ ?_
  · refine (hitem c).bind ?_
    rintro ts o c₁ - (⟨a, rfl, h⟩ | ⟨rfl, h⟩)
    · exact .pure (.inl ⟨a, rfl, by simpa using h⟩)
    · exact .pure (.inr ⟨rfl, by simpa using h⟩)
  · rintro ts (⟨a, h, -⟩ | ⟨-, h⟩)
    · cases h
    · exact ⟨[], ts, rfl, .nil, h⟩
  · rintro ts a (⟨_, h, -⟩ | ⟨h, -⟩)
    · cases h
    · cases h
  · rintro ts a _ as (⟨_, ⟨⟩, h⟩ | ⟨h, -⟩) ⟨front, back, rfl, hfront, hback⟩
    · exact ⟨ts ++ front, back, by rw [List.append_assoc], .cons h hfront, hback⟩
    · cases h
  · rintro a (⟨_, ⟨⟩, h⟩ | ⟨h, -⟩)
    · exact progress a h
    · cases h

theorem reads_many {item : Rule (Option α)} (hitem : Reads item (Phrase.Optional P))
    (progress : ∀ a, ¬ P [] a) : Reads (many item) (Phrase.Many P) := by
  have hitem' : Reads item fun ts o => (∃ a, o = some a ∧ P ts a) ∨ (o = none ∧ ts = []) := by
    refine fun c => (hitem c).mono ?_
    rintro ts o (_ | h)
    · exact .inr ⟨rfl, rfl⟩
    · exact .inl ⟨_, rfl, h⟩
  refine fun c => (reads_many_until hitem' progress c).mono ?_
  rintro ts as ⟨front, back, rfl, hfront, rfl⟩
  rwa [List.append_nil]

/-- An item, with a comma after it if there is more to come. -/
inductive ItemTurn (P : Phrase α) : Phrase (Turn α) where
  | last {ts : List Token} {a : α} (item : P ts a) : ItemTurn P ts (.last a)
  | more {ts : List Token} {a : α} {line : UInt32} (item : P ts a) :
    ItemTurn P (ts ++ [⟨line, .punct .comma⟩]) (.more a)

/-- An item, or the end. -/
inductive CommaTurn (P : Phrase α) : Phrase (Turn α) where
  | stop : CommaTurn P [] .stop
  | item {ts : List Token} {turn : Turn α} (item : ItemTurn P ts turn) : CommaTurn P ts turn

theorem ItemTurn.ne_nil {ts : List Token} (h : ItemTurn P ts (.more a)) : ts ≠ [] := by
  cases h
  simp

theorem reads_afterComma {ts : List Token} (h : P ts a) :
    Reads (afterComma a) fun ts' turn => ItemTurn P (ts ++ ts') turn := by
  intro c
  refine (reads_mark? .comma c).bind ?_
  rintro _ _ c₁ - (_ | ⟨⟨line⟩⟩)
  · exact .pure (by simpa using ItemTurn.last h)
  · exact .pure (.more h)

theorem reads_commaList {turn : Rule (Turn α)} (hturn : Reads turn (CommaTurn P)) :
    Reads (collect turn) (Phrase.CommaList P) := by
  refine reads_collect hturn ?_ ?_ ?_ ?_
  · rintro _ (_ | ⟨⟨⟩⟩)
    exact .nil
  · rintro ts a (_ | ⟨⟨h⟩⟩)
    exact .last h
  · rintro _ a ts' as (_ | h) hrest
    cases h with
    | more h =>
      rw [List.append_assoc]
      exact .more h hrest
  · rintro a (_ | h)
    exact h.ne_nil rfl

theorem reads_separated {turn : Rule (Turn α)} (hturn : Reads turn (ItemTurn P)) :
    Reads (collect turn) (Phrase.Separated P) := by
  refine reads_collect hturn ?_ ?_ ?_ ?_
  · rintro _ ⟨⟩
  · rintro ts a ⟨h⟩
    exact .last h
  · rintro _ a ts' as h hrest
    cases h with
    | more h =>
      rw [List.append_assoc]
      exact .more h hrest
  · exact fun a h => h.ne_nil rfl

end Rule

namespace Grammar

open Rule

/-! ## Names, ordinals and types -/

theorem reads_dottedPart : Reads dottedPart (Phrase.Optional Phrase.DotPart) := by
  intro c
  refine (reads_mark? .dot c).bind ?_
  rintro _ _ c₁ - (_ | ⟨⟨line⟩⟩)
  · exact .pure .absent
  refine (reads_identifier? c₁).bind ?_
  rintro _ _ c₂ - (_ | ⟨⟨part, line'⟩⟩)
  · exact readsAt_fail
  · exact .pure (.present .mk)

theorem reads_dotParts : Reads (many dottedPart) (Phrase.Many Phrase.DotPart) :=
  reads_many reads_dottedPart (by rintro a ⟨⟩)

theorem reads_dottedName : Reads dottedName (Phrase.Optional Phrase.DottedName) := by
  intro c
  refine (reads_identifier? c).bind ?_
  rintro _ _ c₁ - (_ | ⟨⟨first, line⟩⟩)
  · exact .pure .absent
  · exact (reads_dotParts c₁).map fun ts parts h => .present (.mk h)

theorem reads_ordinal : Reads ordinal (Phrase.Optional Phrase.Ordinal) := by
  intro c
  refine (reads_nextIf _ c).bind ?_
  rintro _ _ c₁ - (_ | ⟨rfl, hsort⟩)
  · exact .pure .absent
  · next t =>
    obtain ⟨line, symbol⟩ := t
    cases symbol with
    | ordinal digits =>
      dsimp only
      cases hvalid : Text.readOrdinal? digits with
      | none => exact readsAt_fail
      | some n => exact .pure (.present (.mk hvalid))
    | _ => cases hsort

theorem ahead_of_atIdentifier {c : Cursor} {name : String} (h : atIdentifier name c = true) :
    ∃ line rest, c.ahead = ⟨line, .identifier name⟩ :: rest := by
  have hpeek : c.ahead.head?.map Token.symbol = some (.identifier name) := of_decide_eq_true h
  obtain ⟨⟨line, symbol⟩, hhead, rfl⟩ := Option.map_eq_some_iff.1 hpeek
  obtain ⟨rest, hahead⟩ := List.head?_eq_some_iff.1 hhead
  exact ⟨line, rest, hahead⟩

theorem atIdentifier_of_ahead {c : Cursor} {name : String} {line : UInt32} {rest : List Token}
    (h : c.ahead = ⟨line, .identifier name⟩ :: rest) : atIdentifier name c = true := by
  simp [atIdentifier, Cursor.peek, h]

theorem ahead_of_atArray {c : Cursor} (h : atArray c = true) : ∃ l₁ l₂ rest,
    c.ahead = ⟨l₁, .identifier "array"⟩ :: ⟨l₂, .punct .langle⟩ :: rest := by
  simp only [atArray, Bool.and_eq_true] at h
  obtain ⟨hword, hnext⟩ := h
  obtain ⟨l₁, rest, hahead⟩ := ahead_of_atIdentifier hword
  cases rest with
  | nil => simp [Cursor.peekAt, hahead] at hnext
  | cons t rest =>
    obtain ⟨l₂, symbol⟩ := t
    simp only [Cursor.peekAt, hahead, List.getElem?_cons_succ, List.getElem?_cons_zero,
      Option.map_some, Option.some.injEq, decide_eq_true_eq] at hnext
    exact ⟨l₁, l₂, rest, hnext ▸ hahead⟩

theorem reads_arrayOpening : Reads arrayOpening (Phrase.Optional Phrase.ArrayOpening) := by
  intro c
  refine readsAt_look.bind ?_
  rintro _ _ c₁ hc ⟨rfl, rfl⟩
  cases hat : atArray c with
  | false => exact .pure .absent
  | true =>
    obtain ⟨l₁, l₂, rest, hahead⟩ := ahead_of_atArray hat
    have hc₁ : c₁.ahead = _ := hc.symm.trans hahead
    refine readsAt_look.bind ?_
    rintro _ _ c₂ hc₂ ⟨rfl, rfl⟩
    have hc₂ : c₂.ahead = _ := hc₂.symm.trans hc₁
    refine (readsAt_next hc₂).bind ?_
    rintro _ _ c₃ hc₃ ⟨rfl, rfl⟩
    have hc₃ : c₃.ahead = _ := (List.cons.inj (hc₃.symm.trans hc₂)).2
    refine (readsAt_next hc₃).map ?_
    rintro _ _ ⟨rfl, rfl⟩
    have hline : c₁.line = l₁ := by rw [Cursor.line, hc₁]
    rw [hline]
    exact .present .mk

theorem text_of_ofText? {name : String} {sort : HandleSort} (h : HandleSort.ofText? name = some sort) :
    name = sort.text := by
  have hsort := List.find?_some h
  simpa using (of_decide_eq_true hsort).symm

theorem reads_handleSort (line : UInt32) : Reads (handleSort line) fun ts sort =>
    ∃ l₁ l₂ l₃, ts = [⟨l₁, .punct .langle⟩, ⟨l₂, .identifier (HandleSort.text sort)⟩,
      ⟨l₃, .punct .rangle⟩] := by
  intro c
  refine (reads_mark .langle c).bind ?_
  rintro _ _ c₁ - ⟨l₁⟩
  refine (reads_identifier? c₁).bind ?_
  rintro _ _ c₂ - (_ | ⟨⟨name, l₂⟩⟩)
  · exact readsAt_fail
  dsimp only
  cases hsort : HandleSort.ofText? name with
  | none => exact readsAt_fail
  | some sort =>
    refine (reads_mark .rangle c₂).map ?_
    rintro _ _ ⟨l₃⟩
    exact ⟨l₁, l₂, l₃, by rw [text_of_ofText? hsort]; rfl⟩

theorem reads_plainType : Reads plainType (Phrase.Optional Phrase.PlainType) := by
  intro c
  refine readsAt_look.bind ?_
  rintro _ _ c₁ hc ⟨rfl, rfl⟩
  cases hat : atIdentifier "handle" c with
  | true =>
    obtain ⟨l₁, rest, hahead⟩ := ahead_of_atIdentifier hat
    have hc₁ : c₁.ahead = _ := hc.symm.trans hahead
    refine readsAt_look.bind ?_
    rintro _ _ c₂ hc₂ ⟨rfl, rfl⟩
    refine (readsAt_next (hc₂.symm.trans hc₁)).bind ?_
    rintro _ _ c₃ - ⟨rfl, rfl⟩
    refine readsAt_look.bind ?_
    rintro _ _ c₄ - ⟨rfl, rfl⟩
    split
    · refine (reads_handleSort _ c₄).map ?_
      rintro _ sort ⟨l₂, l₃, l₄, rfl⟩
      exact .present .handleOf
    · exact .pure (.present .handle)
  | false =>
    refine (reads_dottedName c₁).bind ?_
    rintro _ _ c₂ hc₁ (_ | ⟨⟨hparts⟩⟩)
    · exact .pure .absent
    · next line first ts parts =>
      have hfirst : first ≠ "handle" := by
        rintro rfl
        have hthere := atIdentifier_of_ahead (hc.trans hc₁)
        rw [hat] at hthere
        cases hthere
      exact .pure (.present (by simpa using .named hfirst hparts))

theorem reads_typeSuffix : Reads typeSuffix (Phrase.Optional Phrase.Suffix) := by
  intro c
  refine (reads_brackets c).bind ?_
  rintro _ _ c₁ - (_ | ⟨⟨l₁, l₂⟩⟩)
  · refine (reads_mark? .amp c₁).bind ?_
    rintro _ _ c₂ - (_ | ⟨⟨line⟩⟩)
    · exact .pure .absent
    · exact .pure (.present .request)
  · exact .pure (.present .array)

theorem reads_suffixed (t : TypeExpr) : Reads (suffixed t) fun ts u =>
    ∃ suffixes, Phrase.Many Phrase.Suffix ts suffixes ∧ u = suffixes.foldl TypeSuffix.apply t :=
  fun c => (reads_many reads_typeSuffix (by rintro a ⟨⟩) c).map fun _ suffixes h => ⟨suffixes, h, rfl⟩

theorem reads_closeArrays (n : Nat) (t : TypeExpr) {ss : List Token} {suffixes : List TypeSuffix}
    (h : Phrase.Many Phrase.Suffix ss suffixes) :
    Reads (closeArrays n (suffixes.foldl TypeSuffix.apply t)) fun ts u =>
      Phrase.TypeTail n t (ss ++ ts) u := by
  induction n generalizing t ss suffixes with
  | zero => exact fun c => .pure (by simpa using .done h)
  | succ n ih =>
    intro c
    refine (reads_mark .rangle c).bind ?_
    rintro _ _ c₁ - ⟨line⟩
    refine (reads_suffixed _ c₁).bind ?_
    rintro ss' _ c₂ - ⟨suffixes', h', rfl⟩
    exact (ih _ h' c₂).mono fun ts u htail => .close h htail

theorem reads_typeExpr : Reads typeExpr (Phrase.Optional Phrase.AnyType) := by
  intro c
  refine (reads_many reads_arrayOpening (by rintro a ⟨⟩) c).bind ?_
  intro os lines c₁ _ hos
  refine (reads_plainType c₁).bind ?_
  rintro ps _ c₂ - (_ | hplain)
  · dsimp only
    cases hlast : lines.getLast? with
    | some line => exact readsAt_fail
    | none =>
      obtain rfl := List.getLast?_eq_none_iff.1 hlast
      cases hos
      exact .pure .absent
  · next t =>
    refine (reads_suffixed t c₂).bind ?_
    rintro ss _ c₃ - ⟨suffixes, hss, rfl⟩
    refine (reads_closeArrays lines.length t hss c₃).map fun ts u htail => ?_
    exact .present (Phrase.anyType_iff.2 ⟨os, lines, ps, t, _, rfl, hos, hplain, htail⟩)

/-! ## Values and attributes -/

theorem reads_signedNumber (sign : Token) (written : String) :
    Reads (signedNumber sign written) fun ts v =>
      (∃ line text, ts = [⟨line, .integer text⟩] ∧ v = .integer (written ++ text)) ∨
        ∃ line text, ts = [⟨line, .float text⟩] ∧ v = .float (written ++ text) := by
  intro c
  cases hahead : c.ahead with
  | nil =>
    refine (readsAt_next_nil hahead).bind ?_
    rintro _ _ c₁ - ⟨rfl, rfl⟩
    exact readsAt_fail
  | cons t rest =>
    refine (readsAt_next hahead).bind ?_
    rintro _ _ c₁ - ⟨rfl, rfl⟩
    obtain ⟨line, symbol⟩ := t
    cases symbol with
    | integer text => exact .pure (.inl ⟨line, text, rfl, rfl⟩)
    | float text => exact .pure (.inr ⟨line, text, rfl, rfl⟩)
    | _ => exact readsAt_fail

theorem value_of_literal? {s : Symbol} {v : ValueExpr} (h : literal? s = some v) (line : UInt32) :
    Phrase.Value [⟨line, s⟩] v := by
  unfold literal? at h
  split at h
  · cases h
    exact .integer
  · cases h
    exact .float
  · cases h
    exact .string
  · cases h
    exact .trueWord
  · cases h
    exact .falseWord
  · cases h
    exact .defaultWord
  · cases h

theorem reads_value : Reads value (Phrase.Optional Phrase.Value) := by
  intro c
  refine (reads_mark? .minus c).bind ?_
  rintro _ _ c₁ - (_ | ⟨⟨l₁⟩⟩)
  rotate_left
  · refine (reads_signedNumber _ "-" c₁).map ?_
    rintro _ _ (⟨l₂, text, rfl, rfl⟩ | ⟨l₂, text, rfl, rfl⟩)
    · exact .present .minusInteger
    · exact .present .minusFloat
  refine (reads_mark? .plus c₁).bind ?_
  rintro _ _ c₂ - (_ | ⟨⟨l₁⟩⟩)
  rotate_left
  · refine (reads_signedNumber _ "" c₂).map ?_
    rintro _ _ (⟨l₂, text, rfl, rfl⟩ | ⟨l₂, text, rfl, rfl⟩)
    · exact .present (String.empty_append ▸ .plusInteger)
    · exact .present (String.empty_append ▸ .plusFloat)
  refine readsAt_look.bind ?_
  rintro _ _ c₃ hc₂ ⟨rfl, rfl⟩
  split
  · next v hv =>
    obtain ⟨s, hs, hv⟩ := Option.bind_eq_some_iff.1 hv
    obtain ⟨⟨line, _⟩, hhead, rfl⟩ := Option.map_eq_some_iff.1 hs
    obtain ⟨rest, hahead⟩ := List.head?_eq_some_iff.1 hhead
    refine (readsAt_next (hc₂.symm.trans hahead)).map ?_
    rintro _ _ ⟨rfl, rfl⟩
    exact .present (value_of_literal? hv line)
  · refine (reads_dottedName c₃).bind ?_
    rintro ts _ c₄ - (_ | hname)
    · exact .pure .absent
    · exact .pure (.present (by simpa using .name hname))

theorem reads_assignedValue (line : UInt32) : Reads (assignedValue line) Phrase.Value := by
  intro c
  refine (reads_value c).bind ?_
  rintro ts _ c₁ - (_ | hvalue)
  · exact readsAt_fail
  · exact .pure (by simpa using hvalue)

theorem reads_optionalValue : Reads optionalValue (Phrase.Optional Phrase.Assigned) := by
  intro c
  refine (reads_mark? .assign c).bind ?_
  rintro _ _ c₁ - (_ | ⟨⟨line⟩⟩)
  · exact .pure .absent
  · exact (reads_assignedValue line c₁).map fun ts v h => .present (.mk h)

theorem reads_attributeValue (key : String) (line l : UInt32) :
    Reads (attributeValue key l) fun ts v =>
      Phrase.Attribute (⟨line, .identifier key⟩ :: ts) ⟨line, key, v⟩ := by
  intro c
  refine (reads_mark? .assign c).bind ?_
  rintro _ _ c₁ - (_ | ⟨⟨line'⟩⟩)
  · exact .pure .flag
  refine (reads_value c₁).bind ?_
  rintro ts _ c₂ - (_ | hvalue)
  · exact readsAt_fail
  · next v =>
    dsimp only [Option.bind_some]
    cases hallowed : AttributeValue.ofExpr? v with
    | none => exact readsAt_fail
    | some a => exact .pure (by simpa using .valued (.mk hvalue) hallowed)

theorem reads_attributeTurn : Reads attributeTurn (CommaTurn Phrase.Attribute) := by
  intro c
  refine (reads_identifier? c).bind ?_
  rintro _ _ c₁ - (_ | ⟨⟨key, line⟩⟩)
  · exact .pure .stop
  refine (reads_attributeValue key line line c₁).bind ?_
  intro ts v c₂ _ hattribute
  exact (reads_afterComma hattribute c₂).mono fun ts' turn h => .item h

theorem reads_attributes? : Reads attributes? (Phrase.Optional Phrase.AttributeList) := by
  intro c
  refine (reads_mark? .lbracket c).bind ?_
  rintro _ _ c₁ - (_ | ⟨⟨l₁⟩⟩)
  · exact .pure .absent
  refine (reads_commaList reads_attributeTurn c₁).bind ?_
  intro ts attributes c₂ _ hitems
  refine (reads_mark .rbracket c₂).map ?_
  rintro _ _ ⟨l₂⟩
  exact .present (.mk hitems)

/-! ## Definitions -/

theorem reads_nameAfter (word : Token) : Reads (nameAfter word) fun ts name =>
    ∃ line, ts = [⟨line, .identifier name⟩] := by
  intro c
  refine (reads_identifier? c).bind ?_
  rintro _ _ c₁ - (_ | ⟨⟨name, line⟩⟩)
  · exact readsAt_fail
  · exact .pure ⟨line, rfl⟩

theorem reads_nameAfterType (line : UInt32) (type : TypeExpr) :
    Reads (nameAfterType line type) fun ts name => ∃ line, ts = [⟨line, .identifier name⟩] := by
  intro c
  refine (reads_identifier? c).bind ?_
  rintro _ _ c₁ - (_ | ⟨⟨name, line⟩⟩)
  · exact readsAt_fail
  · exact .pure ⟨line, rfl⟩

theorem reads_semicolon? : Reads (mark? .semicolon) fun ts _ => Phrase.MaybeSemicolon ts := by
  refine fun c => (reads_mark? .semicolon c).mono ?_
  rintro _ _ (_ | ⟨⟨line⟩⟩)
  · exact .absent
  · exact .present

theorem reads_enumValueTurn : Reads enumValueTurn (CommaTurn Phrase.EnumValue) := by
  intro c
  refine (reads_identifier? c).bind ?_
  rintro _ _ c₁ - (_ | ⟨⟨name, line⟩⟩)
  · exact .pure .stop
  refine (reads_optionalValue c₁).bind ?_
  intro ts value c₂ _ hvalue
  exact (reads_afterComma (Phrase.EnumValue.mk hvalue) c₂).mono fun ts' turn h => .item h

theorem reads_enumeration (attributes : List Tree.Attribute) :
    Reads (enumeration attributes) (Phrase.Optional (Phrase.Enum attributes)) := by
  intro c
  refine (reads_keyword? .enumWord c).bind ?_
  rintro _ _ c₁ - (_ | ⟨⟨line⟩⟩)
  · exact .pure .absent
  refine (reads_nameAfter _ c₁).bind ?_
  rintro _ name c₂ - ⟨l₁, rfl⟩
  refine (reads_mark .lbrace c₂).bind ?_
  rintro _ _ c₃ - ⟨l₂⟩
  refine (reads_commaList reads_enumValueTurn c₃).bind ?_
  intro ts values c₄ _ hvalues
  refine (reads_mark .rbrace c₄).bind ?_
  rintro _ _ c₅ - ⟨l₃⟩
  exact (reads_semicolon? c₅).map fun ss _ hsemicolon => .present (.mk hvalues hsemicolon)

theorem reads_constant (attributes : List Tree.Attribute) :
    Reads (constant attributes) (Phrase.Optional (Phrase.Constant attributes)) := by
  intro c
  refine (reads_keyword? .constWord c).bind ?_
  rintro _ _ c₁ - (_ | ⟨⟨line⟩⟩)
  · exact .pure .absent
  refine (reads_typeExpr c₁).bind ?_
  rintro ts _ c₂ - (_ | htype)
  · exact readsAt_fail
  refine (reads_nameAfterType _ _ c₂).bind ?_
  rintro _ name c₃ - ⟨l₁, rfl⟩
  refine (reads_mark .assign c₃).bind ?_
  rintro _ _ c₄ - ⟨l₂⟩
  refine (reads_assignedValue _ c₄).bind ?_
  intro vs v c₅ _ hvalue
  refine (reads_mark .semicolon c₅).map ?_
  rintro _ _ ⟨l₃⟩
  exact .present (.mk htype (.mk hvalue))

theorem reads_structField (attributes : List Tree.Attribute) :
    Reads (structField attributes) (Phrase.Optional (Phrase.Field attributes)) := by
  intro c
  refine readsAt_look.bind ?_
  rintro _ _ c₁ hc ⟨rfl, rfl⟩
  refine (reads_typeExpr c₁).bind ?_
  rintro ts _ c₂ hc₁ (_ | htype)
  · exact .pure .absent
  refine (reads_nameAfterType _ _ c₂).bind ?_
  rintro _ name c₃ - ⟨l₁, rfl⟩
  refine (reads_ordinal c₃).bind ?_
  intro os ordinal c₄ _ hordinal
  refine (reads_optionalValue c₄).bind ?_
  intro vs default c₅ _ hvalue
  refine (reads_mark .semicolon c₅).map ?_
  rintro _ _ ⟨l₂⟩
  have hstart : ts.head?.map Token.line = some c.line := htype.opens.head?_map_line (hc.trans hc₁)
  exact .present (.mk hstart htype hordinal hvalue)

theorem reads_structMember : Reads structMember (Phrase.Optional Phrase.StructMember) := by
  intro c
  refine (reads_attributes? c).bind ?_
  intro as attributes? c₁ _ hlist
  have hattributes := Phrase.Attributes.ofOptional hlist
  refine (reads_enumeration _ c₁).bind ?_
  rintro ts _ c₂ - (_ | henum)
  rotate_left
  · exact .pure (.present (by simpa using .enum hattributes henum))
  refine (reads_constant _ c₂).bind ?_
  rintro ts _ c₃ - (_ | hconstant)
  rotate_left
  · exact .pure (.present (by simpa using .constant hattributes hconstant))
  refine (reads_structField _ c₃).bind ?_
  rintro ts _ c₄ - (_ | hfield)
  rotate_left
  · exact .pure (.present (by simpa using .field hattributes hfield))
  cases hlist with
  | absent => exact .pure .absent
  | present list =>
    refine readsAt_look.bind ?_
    rintro _ _ c₅ - ⟨rfl, rfl⟩
    exact readsAt_fail

theorem reads_struct (attributes : List Tree.Attribute) :
    Reads (struct attributes) (Phrase.Optional (Phrase.Struct attributes)) := by
  intro c
  refine (reads_keyword? .structWord c).bind ?_
  rintro _ _ c₁ - (_ | ⟨⟨line⟩⟩)
  · exact .pure .absent
  refine (reads_nameAfter _ c₁).bind ?_
  rintro _ name c₂ - ⟨l₁, rfl⟩
  refine (reads_mark .lbrace c₂).bind ?_
  rintro _ _ c₃ - ⟨l₂⟩
  refine (reads_many reads_structMember (fun _ h => h.opens.ne_nil rfl) c₃).bind ?_
  intro ts members c₄ _ hmembers
  refine (reads_mark .rbrace c₄).bind ?_
  rintro _ _ c₅ - ⟨l₃⟩
  exact (reads_semicolon? c₅).map fun ss _ hsemicolon => .present (.mk hmembers hsemicolon)

theorem reads_parameter : Reads parameter Phrase.Parameter := by
  intro c
  refine (reads_attributes? c).bind ?_
  intro as attributes? c₁ _ hlist
  refine readsAt_look.bind ?_
  rintro _ _ c₂ hc₁ ⟨rfl, rfl⟩
  refine (reads_typeExpr c₂).bind ?_
  rintro ts _ c₃ hc₂ (_ | htype)
  · exact readsAt_fail
  refine (reads_nameAfterType _ _ c₃).bind ?_
  rintro _ name c₄ - ⟨l₁, rfl⟩
  refine (reads_ordinal c₄).map ?_
  intro os ordinal hordinal
  have hstart : ts.head?.map Token.line = some c₁.line := htype.opens.head?_map_line (hc₁.trans hc₂)
  exact .mk (.ofOptional hlist) hstart htype hordinal

theorem reads_parameters : Reads parameters Phrase.Parameters := by
  intro c
  refine (reads_mark .lparen c).bind ?_
  rintro _ _ c₁ - ⟨l₁⟩
  refine (reads_mark? .rparen c₁).bind ?_
  rintro _ _ c₂ - (_ | ⟨⟨l₂⟩⟩)
  rotate_left
  · exact .pure .none
  have hturn : Reads (do afterComma (← parameter)) (ItemTurn Phrase.Parameter) := fun c =>
    (reads_parameter c).bind fun ts p c' _ h => reads_afterComma h c'
  refine (reads_separated hturn c₂).bind ?_
  intro ts list c₃ _ hitems
  refine (reads_mark .rparen c₃).map ?_
  rintro _ _ ⟨l₂⟩
  exact .some hitems

theorem reads_response : Reads response (Phrase.Optional Phrase.Response) := by
  intro c
  refine (reads_mark? .arrow c).bind ?_
  rintro _ _ c₁ - (_ | ⟨⟨line⟩⟩)
  · exact .pure .absent
  · exact (reads_parameters c₁).map fun ts list h => .present (.mk h)

theorem reads_method (attributes : List Tree.Attribute) :
    Reads (method attributes) (Phrase.Optional (Phrase.Method attributes)) := by
  intro c
  refine (reads_identifier? c).bind ?_
  rintro _ _ c₁ - (_ | ⟨⟨name, line⟩⟩)
  · exact .pure .absent
  refine (reads_ordinal c₁).bind ?_
  intro os ordinal c₂ _ hordinal
  refine (reads_parameters c₂).bind ?_
  intro ps parameters c₃ _ hparameters
  refine (reads_response c₃).bind ?_
  intro rs response c₄ _ hresponse
  refine (reads_mark .semicolon c₄).map ?_
  rintro _ _ ⟨l₁⟩
  exact .present (.mk hordinal hparameters hresponse)

theorem reads_interfaceMember : Reads interfaceMember (Phrase.Optional Phrase.InterfaceMember) := by
  intro c
  refine (reads_attributes? c).bind ?_
  intro as attributes? c₁ _ hlist
  have hattributes := Phrase.Attributes.ofOptional hlist
  refine (reads_enumeration _ c₁).bind ?_
  rintro ts _ c₂ - (_ | henum)
  rotate_left
  · exact .pure (.present (by simpa using .enum hattributes henum))
  refine (reads_constant _ c₂).bind ?_
  rintro ts _ c₃ - (_ | hconstant)
  rotate_left
  · exact .pure (.present (by simpa using .constant hattributes hconstant))
  refine (reads_method _ c₃).bind ?_
  rintro ts _ c₄ - (_ | hmethod)
  rotate_left
  · exact .pure (.present (by simpa using .method hattributes hmethod))
  cases hlist with
  | absent => exact .pure .absent
  | present list =>
    refine readsAt_look.bind ?_
    rintro _ _ c₅ - ⟨rfl, rfl⟩
    refine readsAt_look.bind ?_
    rintro _ _ c₆ - ⟨rfl, rfl⟩
    exact readsAt_fail

theorem reads_interface (attributes : List Tree.Attribute) :
    Reads (interface attributes) (Phrase.Optional (Phrase.Interface attributes)) := by
  intro c
  refine (reads_keyword? .interfaceWord c).bind ?_
  rintro _ _ c₁ - (_ | ⟨⟨line⟩⟩)
  · exact .pure .absent
  refine (reads_nameAfter _ c₁).bind ?_
  rintro _ name c₂ - ⟨l₁, rfl⟩
  refine (reads_mark .lbrace c₂).bind ?_
  rintro _ _ c₃ - ⟨l₂⟩
  refine (reads_many reads_interfaceMember (fun _ h => h.opens.ne_nil rfl) c₃).bind ?_
  intro ts members c₄ _ hmembers
  refine (reads_mark .rbrace c₄).bind ?_
  rintro _ _ c₅ - ⟨l₃⟩
  exact (reads_semicolon? c₅).map fun ss _ hsemicolon => .present (.mk hmembers hsemicolon)

theorem reads_definition (attributes : List Tree.Attribute) :
    Reads (definition attributes) (Phrase.Optional (Phrase.Definition attributes)) := by
  intro c
  refine (reads_struct attributes c).bind ?_
  rintro ts _ c₁ - (_ | hstruct)
  rotate_left
  · exact .pure (.present (by simpa using .struct hstruct))
  refine (reads_interface attributes c₁).bind ?_
  rintro ts _ c₂ - (_ | hinterface)
  rotate_left
  · exact .pure (.present (by simpa using .interface hinterface))
  refine (reads_enumeration attributes c₂).bind ?_
  rintro ts _ c₃ - (_ | henum)
  rotate_left
  · exact .pure (.present (by simpa using .enum henum))
  refine (reads_constant attributes c₃).bind ?_
  rintro ts _ c₄ - (_ | hconstant)
  · exact .pure .absent
  · exact .pure (.present (by simpa using .constant hconstant))

theorem reads_attributedDefinition :
    Reads attributedDefinition (Phrase.Optional Phrase.AttributedDefinition) := by
  intro c
  refine (reads_attributes? c).bind ?_
  intro as attributes? c₁ _ hlist
  refine (reads_definition _ c₁).bind ?_
  rintro ts _ c₂ - (_ | hdefinition)
  rotate_left
  · exact .pure (.present (by simpa using .mk (.ofOptional hlist) hdefinition))
  cases hlist with
  | absent => exact .pure .absent
  | present list =>
    refine readsAt_look.bind ?_
    rintro _ _ c₃ - ⟨rfl, rfl⟩
    refine readsAt_look.bind ?_
    rintro _ _ c₄ - ⟨rfl, rfl⟩
    exact readsAt_fail

/-! ## Modules and files -/

theorem reads_moduleBody : Reads moduleBody Phrase.ModuleBody := by
  intro c
  refine (reads_mark? .lbrace c).bind ?_
  rintro _ _ c₁ - (_ | ⟨⟨l₁⟩⟩)
  rotate_left
  · refine (reads_many reads_attributedDefinition (fun _ h => h.opens.ne_nil rfl) c₁).bind ?_
    intro ts definitions c₂ _ hbody
    refine (reads_mark .rbrace c₂).bind ?_
    rintro _ _ c₃ - ⟨l₂⟩
    exact (reads_semicolon? c₃).map fun ss _ hsemicolon => .braced hbody hsemicolon
  refine (reads_mark? .semicolon c₁).bind ?_
  rintro _ _ c₂ - (_ | ⟨⟨line⟩⟩)
  · refine readsAt_look.bind ?_
    rintro _ _ c₃ - ⟨rfl, rfl⟩
    refine readsAt_look.bind ?_
    rintro _ _ c₄ - ⟨rfl, rfl⟩
    exact readsAt_fail
  · have hitem : Reads openBodyDefinition (Phrase.Optional Phrase.AttributedDefinition) := by
      intro c
      refine readsAt_look.bind ?_
      rintro _ _ c₁ - ⟨rfl, rfl⟩
      split
      · exact .pure .absent
      · exact reads_attributedDefinition c₁
    exact (reads_many hitem (fun _ h => h.opens.ne_nil rfl) c₂).mono fun ts definitions h => .toEnd h

theorem reads_moduleDecl (attributes : List Tree.Attribute) {as : List Token}
    (hlist : Phrase.Attributes as attributes) :
    Reads (moduleDecl attributes) (Phrase.Optional fun ts m => Phrase.Module (as ++ ts) m) := by
  intro c
  refine (reads_keyword? .moduleWord c).bind ?_
  rintro _ _ c₁ - (_ | ⟨⟨line⟩⟩)
  · exact .pure .absent
  refine (reads_dottedName c₁).bind ?_
  rintro ns _ c₂ - (_ | hname)
  · exact readsAt_fail
  · refine (reads_moduleBody c₂).map fun bs definitions hbody => ?_
    exact .present (@Phrase.Module.mk line as ns bs _ _ _ hlist hname hbody)

/-- An attribute list that nothing follows, or nothing. -/
def Dangling (ts : List Token) : Prop :=
  ts = [] ∨ ∃ attributes, Phrase.AttributeList ts attributes

/-- What can stand at the top of a file, with the line on which it starts. -/
inductive TopPhrase : Phrase (UInt32 × TopItem) where
  | module {ts : List Token} {line : UInt32} {m : Tree.Module} (module : Phrase.Module ts m) :
    TopPhrase ts (line, .module m)
  | definition {ts : List Token} {line : UInt32} {d : Tree.Definition}
    (start : ts.head?.map Token.line = some line) (definition : Phrase.AttributedDefinition ts d) :
    TopPhrase ts (line, .definition d)

theorem reads_topItem : Reads topItem fun ts o =>
    (∃ item, o = some item ∧ TopPhrase ts item) ∨ (o = none ∧ Dangling ts) := by
  intro c
  refine readsAt_look.bind ?_
  rintro _ _ c₁ hc ⟨rfl, rfl⟩
  refine (reads_attributes? c₁).bind ?_
  intro as attributes? c₂ hc₁ hlist
  have hattributes := Phrase.Attributes.ofOptional hlist
  refine (reads_moduleDecl _ hattributes c₂).bind ?_
  rintro ts _ c₃ hc₂ (_ | hmodule)
  rotate_left
  · exact .pure (.inl ⟨_, rfl, by simpa using .module hmodule⟩)
  refine (reads_definition _ c₃).bind ?_
  rintro ts _ c₄ hc₃ (_ | hdefinition)
  · refine .pure (.inr ⟨rfl, ?_⟩)
    cases hlist with
    | absent => exact .inl rfl
    | present list => exact .inr ⟨_, by simpa using list⟩
  · refine .pure (.inl ⟨_, rfl, ?_⟩)
    have hphrase : Phrase.AttributedDefinition (as ++ ts) _ := .mk hattributes hdefinition
    have hahead : c.ahead = (as ++ ts) ++ c₄.ahead := by
      rw [hc, List.nil_append, hc₁, hc₂, List.nil_append, hc₃, List.append_assoc]
    have hstart := hphrase.opens.head?_map_line hahead
    simpa using TopPhrase.definition hstart hphrase

theorem reads_nextModule : Reads nextModule fun ts o =>
    (∃ m, o = some m ∧ Phrase.Module ts m) ∨ (o = none ∧ Dangling ts) := by
  intro c
  refine (reads_topItem c).bind ?_
  rintro ts _ c₁ - (⟨_, rfl, ⟨h⟩ | _⟩ | ⟨rfl, h⟩)
  · exact .pure (.inl ⟨_, rfl, by simpa using h⟩)
  · exact readsAt_fail
  · exact .pure (.inr ⟨rfl, by simpa using h⟩)

theorem reads_nextLoose (line : UInt32) (first : Tree.Definition) : Reads (nextLoose line first)
    fun ts o => (∃ d, o = some d ∧ Phrase.AttributedDefinition ts d) ∨ (o = none ∧ Dangling ts) := by
  intro c
  refine (reads_topItem c).bind ?_
  rintro ts _ c₁ - (⟨_, rfl, _ | ⟨_, h⟩⟩ | ⟨rfl, h⟩)
  · exact readsAt_fail
  · exact .pure (.inl ⟨_, rfl, by simpa using h⟩)
  · exact .pure (.inr ⟨rfl, by simpa using h⟩)

theorem reads_modules : Reads modules fun ts ms =>
    ∃ front back, ts = front ++ back ∧ Phrase.FileBody front ms ∧ Dangling back := by
  intro c
  refine (reads_topItem c).bind ?_
  rintro ts _ c₁ - (⟨_, rfl, ⟨hmodule⟩ | ⟨hstart, hdefinition⟩⟩ | ⟨rfl, hdangling⟩)
  · refine (reads_many_until reads_nextModule (fun _ h => h.opens.ne_nil rfl) c₁).map ?_
    rintro _ ms ⟨front, back, rfl, hfront, hback⟩
    exact ⟨ts ++ front, back, by rw [List.append_assoc], .modules (.cons hmodule hfront), hback⟩
  · refine (reads_many_until (reads_nextLoose _ _) (fun _ h => h.opens.ne_nil rfl) c₁).map ?_
    rintro _ ds ⟨front, back, rfl, hfront, hback⟩
    refine ⟨ts ++ front, back, by rw [List.append_assoc], .loose ?_ (.cons hdefinition hfront), hback⟩
    obtain ⟨t, rest, rfl, -, -⟩ := hdefinition.opens
    exact hstart
  · exact .pure ⟨[], _, rfl, .modules .nil, by simpa using hdangling⟩

theorem reads_importDecl : Reads importDecl (Phrase.Optional Phrase.Import) := by
  intro c
  refine (reads_keyword? .importWord c).bind ?_
  rintro _ _ c₁ - (_ | ⟨⟨line⟩⟩)
  · exact .pure .absent
  refine (reads_nextIf _ c₁).bind ?_
  rintro _ _ c₂ - (_ | ⟨rfl, hsort⟩)
  · exact readsAt_fail
  · next t =>
    obtain ⟨l₁, symbol⟩ := t
    cases symbol with
    | string path =>
      refine (reads_mark .semicolon c₂).map ?_
      rintro _ _ ⟨l₂⟩
      exact .present .mk
    | _ => cases hsort

theorem reads_file : Reads file fun ts tree =>
    ∃ front back, ts = front ++ back ∧ Phrase.File front tree ∧ Dangling back := by
  intro c
  refine (reads_many reads_importDecl (by rintro a ⟨⟩) c).bind ?_
  intro is imports c₁ _ himports
  refine (reads_modules c₁).map ?_
  rintro _ ms ⟨front, back, rfl, hbody, hback⟩
  exact ⟨is ++ front, back, by rw [List.append_assoc], .mk himports hbody, hback⟩

end Grammar

/-- Every token of an accepted list belongs to the file, except for an attribute list at its end
that nothing follows. -/
theorem Tree.file_of_ofTokens {tokens : List Token} {tree : Tree}
    (h : Tree.ofTokens tokens = .ok tree) :
    ∃ front back, tokens = front ++ back ∧ Phrase.File front tree ∧
      (back = [] ∨ ∃ attributes, Phrase.AttributeList back attributes) := by
  unfold Tree.ofTokens at h
  split at h
  · cases h
  · next tree' c hrun =>
    split at h
    · cases h
    · next hpeek =>
      cases h
      obtain ⟨_, htokens, front, back, rfl, hfile, hdangling⟩ := Grammar.reads_file _ _ _ hrun
      have hend : c.ahead = [] := List.head?_eq_none_iff.1 hpeek
      rw [hend, List.append_nil] at htokens
      exact ⟨front, back, htokens, hfile, hdangling⟩

/-- `module a { const b C = 1; } [A]`. -/
def trailingList : List Token :=
  [⟨1, .keyword .moduleWord⟩, ⟨1, .identifier "a"⟩, ⟨1, .punct .lbrace⟩, ⟨2, .keyword .constWord⟩,
    ⟨2, .identifier "b"⟩, ⟨2, .identifier "C"⟩, ⟨2, .punct .assign⟩, ⟨2, .integer "1"⟩,
    ⟨2, .punct .semicolon⟩, ⟨3, .punct .rbrace⟩, ⟨4, .punct .lbracket⟩, ⟨4, .identifier "A"⟩,
    ⟨4, .punct .rbracket⟩]

theorem file_of_ofTokens_trailingList :
    ∃ tree, Tree.ofTokens trailingList = .ok tree ∧
      ∃ front back, trailingList = front ++ back ∧ Phrase.File front tree ∧
        (back = [] ∨ ∃ attributes, Phrase.AttributeList back attributes) := by
  have h : Tree.ofTokens trailingList =
      .ok ⟨[], [⟨1, some "a", [], [.constant ⟨2, .named "b", "C", .integer "1", []⟩]⟩]⟩ := by
    with_unfolding_all rfl
  exact ⟨_, h, Tree.file_of_ofTokens h⟩

/-- `[A]`. -/
def loneList : List Token :=
  [⟨1, .punct .lbracket⟩, ⟨1, .identifier "A"⟩, ⟨1, .punct .rbracket⟩]

/-- An attribute list alone is read as the empty tree, but it is no file for that tree: the list is
accepted and dropped. -/
theorem loneList_accepted_not_file :
    Tree.ofTokens loneList = .ok ⟨[], []⟩ ∧ ¬ Phrase.File loneList ⟨[], []⟩ := by
  refine ⟨by with_unfolding_all rfl, fun h => ?_⟩
  generalize hts : loneList = ts at h
  cases h with
  | mk head body =>
    cases head
    cases body with
    | modules body =>
      cases body
      cases hts

end WireSchema
