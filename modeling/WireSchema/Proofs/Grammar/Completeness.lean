import WireSchema.Proofs.Grammar.Nesting

/-!
# Phrases are read

`Rule.Yields` says that a rule reads a value from some tokens and leaves the others. A phrase is read
wherever what follows it cannot continue it: each rule asks for that of the next token only, and every
phrase of a file is followed by such a token. So every file is read, as the tree it stands for
(`Tree.ofTokens_of_file`).
-/

namespace WireSchema

/-- The next token, if there is one, is not of the sort of `s`. -/
def NotAt (s : Symbol) (ts : List Token) : Prop :=
  ∀ t ∈ ts.head?, t.symbol.sameSort s = false

theorem notAt_nil (s : Symbol) : NotAt s [] := by
  simp [NotAt]

theorem notAt_cons {s : Symbol} {t : Token} {ts : List Token} (h : t.symbol.sameSort s = false) :
    NotAt s (t :: ts) := by
  simpa [NotAt] using h

namespace Rule

variable {α β : Type} {p r : Rule α} {f : α → Rule β} {P : Phrase α} {xs ys zs : List Token}
  {a : α} {b : β} {line : UInt32} {mark : Punct} {word : Keyword} {s : Symbol} {t : Token}

/-- From the tokens `xs` on, the rule reads the value `a` and leaves `ys`. -/
def Yields (r : Rule α) (xs : List Token) (a : α) (ys : List Token) : Prop :=
  ∀ c : Cursor, c.ahead = xs → ∃ c', r.run c = .ok (a, c') ∧ c'.ahead = ys

/-! ## Rules in sequence -/

theorem Yields.bind (hp : Yields p xs a ys) (hf : Yields (f a) ys b zs) :
    Yields (p >>= f) xs b zs := by
  intro c hc
  obtain ⟨c₁, hrun, hc₁⟩ := hp c hc
  obtain ⟨c₂, hrun', hc₂⟩ := hf c₁ hc₁
  exact ⟨c₂, by rw [run_bind, hrun]; exact hrun', hc₂⟩

theorem Yields.pure (a : α) (xs : List Token) : Yields (Pure.pure a) xs a xs :=
  fun c hc => ⟨c, rfl, hc⟩

theorem yields_look {f : Cursor → α} (h : ∀ c : Cursor, c.ahead = xs → f c = a) :
    Yields (look f) xs a xs :=
  fun c hc => ⟨c, by rw [← h c hc]; rfl, hc⟩

theorem yields_peek (xs : List Token) : Yields peek xs (xs.head?.map Token.symbol) xs :=
  yields_look fun _ hc => congrArg (fun ts => ts.head?.map Token.symbol) hc

/-! ## Single tokens -/

theorem yields_nextIfSome {f : Token → Option α} (h : f t = some a) (xs : List Token) :
    Yields (move (Cursor.nextIfSome f) (Cursor.advances_nextIfSome f)) (t :: xs) (some a) xs := by
  intro c hc
  exact ⟨⟨t :: c.passed, xs⟩, by simp [move, Cursor.nextIfSome, hc, h], rfl⟩

theorem yields_nextIfSome_none {f : Token → Option α} (h : ∀ t ∈ xs.head?, f t = none) :
    Yields (move (Cursor.nextIfSome f) (Cursor.advances_nextIfSome f)) xs none xs := by
  intro c hc
  refine ⟨c, ?_, hc⟩
  cases xs with
  | nil => simp [move, Cursor.nextIfSome, hc]
  | cons t xs =>
    have ht : f t = none := h t rfl
    simp [move, Cursor.nextIfSome, hc, ht]

theorem yields_nextIf (h : t.symbol.sameSort s = true) (xs : List Token) :
    Yields (nextIf s) (t :: xs) (some t) xs :=
  yields_nextIfSome (by simp [h]) xs

theorem yields_nextIf_none (h : NotAt s xs) : Yields (nextIf s) xs none xs :=
  yields_nextIfSome_none fun t ht => by simp [h t ht]

theorem yields_mark? (mark : Punct) (line : UInt32) (xs : List Token) :
    Yields (mark? mark) (⟨line, .punct mark⟩ :: xs) (some ⟨line, .punct mark⟩) xs :=
  yields_nextIf (Symbol.sameSort_self _) xs

theorem yields_keyword? (word : Keyword) (line : UInt32) (xs : List Token) :
    Yields (keyword? word) (⟨line, .keyword word⟩ :: xs) (some ⟨line, .keyword word⟩) xs :=
  yields_nextIf (Symbol.sameSort_self _) xs

theorem yields_identifier? (name : String) (line : UInt32) (xs : List Token) :
    Yields identifier? (⟨line, .identifier name⟩ :: xs) (some (name, line)) xs := by
  refine yields_nextIfSome ?_ xs
  rfl

theorem yields_identifier?_none (h : NotAt (.identifier "") xs) : Yields identifier? xs none xs := by
  refine yields_nextIfSome_none fun t ht => ?_
  obtain ⟨line, s⟩ := t
  have hs := h _ ht
  cases s with
  | identifier name => cases hs
  | _ => rfl

theorem yields_mark (mark : Punct) (line : UInt32) (xs : List Token) :
    Yields (Rule.mark mark) (⟨line, .punct mark⟩ :: xs) ⟨line, .punct mark⟩ xs := by
  intro c hc
  obtain ⟨c', hrun, hc'⟩ := yields_mark? mark line xs c hc
  have hnext : c.nextIf (.punct mark) = (some ⟨line, .punct mark⟩, c') := Except.ok.inj hrun
  exact ⟨c', by simp [Rule.mark, expect, Cursor.expect, hnext], hc'⟩

theorem yields_next (t : Token) (xs : List Token) : Yields next (t :: xs) (some t) xs := by
  intro c hc
  exact ⟨⟨t :: c.passed, xs⟩, by simp [next, move, Cursor.next, hc], rfl⟩

theorem yields_line (h : xs.head?.map Token.line = some line) : Yields Rule.line xs line xs := by
  refine yields_look fun c hc => ?_
  cases xs with
  | nil => cases h
  | cons t xs =>
    rw [Cursor.line, hc]
    exact Option.some.inj h

/-- At the end of the tokens the line depends on those already read, so it must not matter. -/
theorem yields_line_bind {f : UInt32 → Rule β} (h : ∀ line, Yields (f line) xs b ys) :
    Yields (Rule.line >>= f) xs b ys :=
  fun c hc => h c.line c hc

/-! ## Repetition -/

theorem yields_collect_stop {turn : Rule (Turn α)} (h : Yields turn xs .stop ys) :
    Yields (collect turn) xs [] ys := by
  intro c hc
  obtain ⟨c', hrun, hc'⟩ := h c hc
  refine ⟨c', ?_, hc'⟩
  change collectFrom turn c = _
  rw [collectFrom, hrun]

theorem yields_collect_last {turn : Rule (Turn α)} (h : Yields turn xs (.last a) ys) :
    Yields (collect turn) xs [a] ys := by
  intro c hc
  obtain ⟨c', hrun, hc'⟩ := h c hc
  refine ⟨c', ?_, hc'⟩
  change collectFrom turn c = _
  rw [collectFrom, hrun]

theorem yields_collect_more {turn : Rule (Turn α)} {as : List α}
    (h : Yields turn xs (.more a) ys) (hlt : ys.length < xs.length)
    (hrest : Yields (collect turn) ys as zs) : Yields (collect turn) xs (a :: as) zs := by
  intro c hc
  obtain ⟨c₁, hrun, hc₁⟩ := h c hc
  obtain ⟨c₂, hrun', hc₂⟩ := hrest c₁ hc₁
  refine ⟨c₂, ?_, hc₂⟩
  change collectFrom turn c = _
  change collectFrom turn c₁ = _ at hrun'
  rw [collectFrom, hrun]
  simp only [hc, hc₁, hlt, ↓reduceIte, hrun']

/-- Phrases one after the other are read if each is read where `Follow` holds of what follows, and
`Follow` holds of further phrases and of the end. -/
theorem yields_many {item : Rule (Option α)} (Follow : List Token → Prop) {ts rest : List Token}
    {as : List α}
    (hitem : ∀ ts a rest, P ts a → Follow rest → Yields item (ts ++ rest) (some a) rest)
    (hnext : ∀ ts a rest, P ts a → ts ≠ [] ∧ Follow (ts ++ rest))
    (hstop : Yields item rest none rest) (hrest : Follow rest) (h : Phrase.Many P ts as) :
    Yields (many item) (ts ++ rest) as rest := by
  induction h with
  | nil => exact yields_collect_stop (hstop.bind (.pure _ _))
  | @cons ts ts' a as head tail ih =>
    have hfollow : Follow (ts' ++ rest) :=
      tail.follow Follow (fun ts a rest hitem => (hnext ts a rest hitem).2) hrest
    rw [List.append_assoc]
    refine yields_collect_more ((hitem ts a _ head hfollow).bind (.pure _ _)) ?_ ih
    have hpos := List.length_pos_iff.2 (hnext ts a [] head).1
    simp only [List.length_append]
    omega

theorem yields_afterComma (a : α) (line : UInt32) (xs : List Token) :
    Yields (afterComma a) (⟨line, .punct .comma⟩ :: xs) (.more a) xs :=
  (yields_mark? .comma line xs).bind (.pure _ _)

theorem yields_afterComma_last (h : NotAt (.punct .comma) xs) :
    Yields (afterComma a) xs (.last a) xs :=
  (yields_nextIf_none h).bind (.pure _ _)

/-- A turn reads an item and the comma after it, wherever a comma or the closing token follows. -/
def TakesItem (turn : Rule (Turn α)) (P : Phrase α) (close : Token) : Prop :=
  ∀ ts a t rest result zs, P ts a → t = close ∨ t.symbol = .punct .comma →
    Yields (afterComma a) (t :: rest) result zs → Yields turn (ts ++ t :: rest) result zs

section CommaList

variable {turn : Rule (Turn α)} {ts rest : List Token} {as : List α} {close : Token}

theorem TakesItem.last (h : TakesItem turn P close)
    (hclose : close.symbol.sameSort (.punct .comma) = false) (item : P ts a) (rest : List Token) :
    Yields (collect turn) (ts ++ close :: rest) [a] (close :: rest) :=
  yields_collect_last
    (h _ _ _ _ _ _ item (.inl rfl) (yields_afterComma_last (notAt_cons hclose)))

theorem TakesItem.more (h : TakesItem turn P close) (item : P ts a) (line : UInt32)
    (hrest : Yields (collect turn) xs as ys) :
    Yields (collect turn) (ts ++ ⟨line, .punct .comma⟩ :: xs) (a :: as) ys := by
  refine yields_collect_more (h _ _ _ _ _ _ item (.inr rfl) (yields_afterComma a line xs)) ?_ hrest
  simp only [List.length_append, List.length_cons]
  omega

theorem yields_commaList (hclose : close.symbol.sameSort (.punct .comma) = false)
    (hitem : TakesItem turn P close)
    (hstop : ∀ rest, Yields turn (close :: rest) .stop (close :: rest))
    (h : Phrase.CommaList P ts as) (rest : List Token) :
    Yields (collect turn) (ts ++ close :: rest) as (close :: rest) := by
  induction h with
  | nil => exact yields_collect_stop (hstop rest)
  | last item => exact hitem.last hclose item rest
  | more item _ ih =>
    rw [List.append_assoc]
    exact hitem.more item _ ih

theorem yields_separated (hclose : close.symbol.sameSort (.punct .comma) = false)
    (hitem : TakesItem turn P close) (h : Phrase.Separated P ts as) (rest : List Token) :
    Yields (collect turn) (ts ++ close :: rest) as (close :: rest) := by
  induction h with
  | last item => exact hitem.last hclose item rest
  | more item _ ih =>
    rw [List.append_assoc]
    exact hitem.more item _ ih

end CommaList

end Rule

namespace Grammar

open Rule

variable {ts rest : List Token} {line : UInt32} {name : String} {t u : TypeExpr}

/-! ## Names, ordinals and types -/

theorem yields_dotParts {parts : List String} (h : Phrase.Many Phrase.DotPart ts parts)
    (hrest : NotAt (.punct .dot) rest) : Yields (many dottedPart) (ts ++ rest) parts rest := by
  refine yields_many (fun _ => True) ?_ ?_ ?_ trivial h
  · rintro _ part rest ⟨⟩ -
    exact (yields_mark? .dot _ _).bind ((yields_identifier? part _ rest).bind (.pure _ _))
  · rintro _ _ _ ⟨⟩
    simp
  · exact (yields_nextIf_none hrest).bind (.pure _ _)

theorem yields_dottedName (h : Phrase.DottedName ts name) (hrest : NotAt (.punct .dot) rest) :
    Yields dottedName (ts ++ rest) (some name) rest := by
  cases h with
  | mk parts =>
    exact (yields_identifier? _ _ _).bind ((yields_dotParts parts hrest).bind (.pure _ _))

theorem yields_dottedName_none (h : NotAt (.identifier "") rest) :
    Yields dottedName rest none rest :=
  (yields_identifier?_none h).bind (.pure _ _)

theorem yields_ordinal {ordinal : Option UInt32} (h : Phrase.Optional Phrase.Ordinal ts ordinal)
    (hrest : NotAt (.ordinal "") rest) : Yields Grammar.ordinal (ts ++ rest) ordinal rest := by
  cases h with
  | absent => exact (yields_nextIf_none hrest).bind (.pure _ _)
  | present phrase =>
    cases phrase with
    | mk valid =>
      refine (yields_nextIf rfl rest).bind ?_
      simp only [valid]
      exact .pure _ _

/-- What may follow a plain type. -/
structure AfterPlain (rest : List Token) : Prop where
  dot : NotAt (.punct .dot) rest
  langle : NotAt (.punct .langle) rest

theorem yields_handleSort (line l₁ l₂ l₃ : UInt32) (sort : HandleSort) (rest : List Token) :
    Yields (handleSort line) (⟨l₁, .punct .langle⟩ :: ⟨l₂, .identifier sort.text⟩ ::
      ⟨l₃, .punct .rangle⟩ :: rest) sort rest := by
  have htext : HandleSort.ofText? sort.text = some sort := by cases sort <;> decide
  refine (yields_mark .langle _ _).bind ((yields_identifier? _ _ _).bind ?_)
  simp only [htext]
  exact (yields_mark .rangle _ _).bind (.pure _ _)

theorem yields_plainType (h : Phrase.PlainType ts t) (hrest : AfterPlain rest) :
    Yields plainType (ts ++ rest) (some t) rest := by
  cases h with
  | @named line first ts parts other hparts =>
    refine (yields_look (a := false) fun c hc => ?_).bind ?_
    · simp [atIdentifier, Cursor.peek, hc, other]
    · exact (yields_dottedName (.mk hparts) hrest.dot).bind (.pure _ _)
  | @handle line =>
    refine (yields_look (a := true) fun c hc => ?_).bind ?_
    · simp [atIdentifier, Cursor.peek, hc]
    refine (yields_line rfl).bind ((yields_next _ _).bind ((yields_peek rest).bind ?_))
    split
    · next hhead =>
      obtain ⟨t, ht, hlangle⟩ := Option.map_eq_some_iff.1 hhead
      have hsort := hrest.langle t ht
      rw [hlangle] at hsort
      cases hsort
    · exact .pure _ _
  | @handleOf l₁ l₂ l₃ l₄ sort =>
    refine (yields_look (a := true) fun c hc => ?_).bind ?_
    · simp [atIdentifier, Cursor.peek, hc]
    refine (yields_line rfl).bind ((yields_next _ _).bind ((yields_peek _).bind ?_))
    split
    · exact (yields_handleSort _ l₂ l₃ l₄ sort rest).bind (.pure _ _)
    · next hhead => exact absurd rfl hhead

theorem atIdentifier_eq_false {c : Cursor} (h : NotAt (.identifier "") c.ahead) (name : String) :
    atIdentifier name c = false := by
  refine decide_eq_false fun hhead => ?_
  obtain ⟨t, ht, hname⟩ := Option.map_eq_some_iff.1 hhead
  have hsort := h t ht
  rw [hname] at hsort
  cases hsort

theorem yields_plainType_none (h : NotAt (.identifier "") rest) :
    Yields plainType rest none rest := by
  refine (yields_look (a := false) fun c hc => ?_).bind ((yields_dottedName_none h).bind (.pure _ _))
  exact atIdentifier_eq_false (hc ▸ h) "handle"

/-! ### Arrays written around a type -/

theorem yields_arrayOpening_none_of (h : ∀ c : Cursor, c.ahead = rest → atArray c = false) :
    Yields arrayOpening rest none rest :=
  (yields_look h).bind (.pure _ _)

theorem atArray_eq_false {c : Cursor} {t : Token} (hc : c.ahead = t :: rest)
    (h : NotAt (.punct .langle) rest) : atArray c = false := by
  simp only [atArray, Cursor.peekAt, hc, List.getElem?_cons_succ, Bool.and_eq_false_iff,
    decide_eq_false_iff_not]
  refine .inr fun hsecond => ?_
  rw [← List.head?_eq_getElem?] at hsecond
  obtain ⟨t, ht, hlangle⟩ := Option.map_eq_some_iff.1 hsecond
  have hsort := h t ht
  rw [hlangle] at hsort
  cases hsort

/-- No array is opened at a plain type. -/
theorem yields_arrayOpening_none (h : Phrase.PlainType ts t) (hrest : AfterPlain rest) :
    Yields arrayOpening (ts ++ rest) none (ts ++ rest) := by
  refine yields_arrayOpening_none_of fun c hc => ?_
  cases h with
  | named _ hparts =>
    refine atArray_eq_false hc ?_
    cases hparts with
    | nil => exact hrest.langle
    | cons head =>
      cases head
      exact notAt_cons rfl
  | handle => exact atArray_eq_false hc hrest.langle
  | handleOf => simp [atArray, atIdentifier, Cursor.peek, hc]

theorem yields_arrayOpenings {os : List Token} {lines : List UInt32}
    (h : Phrase.Many Phrase.ArrayOpening os lines)
    (hrest : Yields arrayOpening rest none rest) :
    Yields (many arrayOpening) (os ++ rest) lines rest := by
  refine yields_many (fun _ => True) ?_ ?_ hrest trivial h
  · rintro _ line rest ⟨⟩ -
    refine (yields_look (a := true) fun c hc => ?_).bind ?_
    · simp [atArray, atIdentifier, Cursor.peek, Cursor.peekAt, hc]
    exact (yields_line rfl).bind ((yields_next _ _).bind ((yields_next _ _).bind (.pure _ _)))
  · rintro _ _ _ ⟨⟩
    simp

/-! ### Suffixes -/

/-- What may follow a type. -/
structure AfterType (rest : List Token) : Prop extends AfterPlain rest where
  lbracket : NotAt (.punct .lbracket) rest
  amp : NotAt (.punct .amp) rest

theorem yields_brackets (l₁ l₂ : UInt32) (rest : List Token) :
    Yields (nextIfAll [.punct .lbracket, .punct .rbracket])
      (⟨l₁, .punct .lbracket⟩ :: ⟨l₂, .punct .rbracket⟩ :: rest)
      (some [⟨l₁, .punct .lbracket⟩, ⟨l₂, .punct .rbracket⟩]) rest := by
  intro c hc
  refine ⟨c.skip 2, ?_, by simp [Cursor.skip, hc]⟩
  simp [nextIfAll, move, Cursor.nextIfAll, Cursor.testIfAll, hc, Symbol.sameSort]

theorem yields_brackets_none (h : NotAt (.punct .lbracket) rest) :
    Yields (nextIfAll [.punct .lbracket, .punct .rbracket]) rest none rest := by
  intro c hc
  refine ⟨c, ?_, hc⟩
  cases rest with
  | nil => simp [nextIfAll, move, Cursor.nextIfAll, Cursor.testIfAll, hc]
  | cons t rest =>
    have ht : t.symbol.sameSort (.punct .lbracket) = false := h t rfl
    simp [nextIfAll, move, Cursor.nextIfAll, Cursor.testIfAll, hc, ht]

theorem yields_suffixed {ss : List Token} {suffixes : List TypeSuffix}
    (h : Phrase.Many Phrase.Suffix ss suffixes) (hrest : AfterType rest) (t : TypeExpr) :
    Yields (suffixed t) (ss ++ rest) (suffixes.foldl TypeSuffix.apply t) rest := by
  refine (yields_many (fun _ => True) ?_ ?_ ?_ trivial h).bind (.pure _ _)
  · rintro _ _ rest (_ | _) -
    · exact (yields_brackets _ _ rest).bind (.pure _ _)
    · exact (yields_brackets_none (notAt_cons rfl)).bind ((yields_mark? .amp _ _).bind (.pure _ _))
  · rintro _ _ _ (_ | _) <;> simp
  · exact (yields_brackets_none hrest.lbracket).bind
      ((yields_nextIf_none hrest.amp).bind (.pure _ _))

theorem yields_closeArrays {n : Nat} (h : Phrase.TypeTail n t ts u) (hrest : AfterType rest) :
    ∃ v mid, Yields (suffixed t) (ts ++ rest) v mid ∧ Yields (closeArrays n v) mid u rest := by
  induction h with
  | done follow => exact ⟨_, _, yields_suffixed follow hrest _, .pure _ _⟩
  | @close n line t u ss ts suffixes follow _ ih =>
    obtain ⟨v, mid, hsuffixed, hclose⟩ := ih
    refine ⟨suffixes.foldl TypeSuffix.apply t, ⟨line, .punct .rangle⟩ :: (ts ++ rest), ?_, ?_⟩
    · rw [List.append_assoc]
      refine yields_suffixed follow ⟨⟨?_, ?_⟩, ?_, ?_⟩ t <;> exact notAt_cons rfl
    · exact (yields_mark .rangle _ _).bind (hsuffixed.bind hclose)

theorem AfterPlain.suffixes {ss : List Token} {suffixes : List TypeSuffix} (hrest : AfterPlain rest)
    (h : Phrase.Many Phrase.Suffix ss suffixes) : AfterPlain (ss ++ rest) := by
  cases h with
  | nil => exact hrest
  | cons head => cases head <;> exact ⟨notAt_cons rfl, notAt_cons rfl⟩

theorem AfterPlain.typeTail {n : Nat} (hrest : AfterPlain rest) (h : Phrase.TypeTail n t ts u) :
    AfterPlain (ts ++ rest) := by
  cases h with
  | done follow => exact hrest.suffixes follow
  | close follow =>
    rw [List.append_assoc]
    exact AfterPlain.suffixes ⟨notAt_cons rfl, notAt_cons rfl⟩ follow

theorem yields_typeExpr (h : Phrase.AnyType ts t) (hrest : AfterType rest) :
    Yields typeExpr (ts ++ rest) (some t) rest := by
  obtain ⟨os, lines, ps, t₀, tail, rfl, hos, hplain, htail⟩ := Phrase.anyType_iff.1 h
  have hafter := hrest.toAfterPlain.typeTail htail
  obtain ⟨v, mid, hsuffixed, hclose⟩ := yields_closeArrays htail hrest
  simp only [List.append_assoc]
  refine (yields_arrayOpenings hos (yields_arrayOpening_none hplain hafter)).bind ?_
  refine (yields_plainType hplain hafter).bind ?_
  exact hsuffixed.bind (hclose.bind (.pure _ _))

theorem yields_typeExpr_none (h : NotAt (.identifier "") rest) : Yields typeExpr rest none rest := by
  have hopening : Yields arrayOpening rest none rest := by
    refine yields_arrayOpening_none_of fun c hc => ?_
    simp [atArray, atIdentifier_eq_false (hc ▸ h)]
  exact (yields_arrayOpenings .nil hopening).bind ((yields_plainType_none h).bind (.pure _ _))

/-- A type in front of the name that it is the type of. -/
theorem yields_typeExpr_before (h : Phrase.AnyType ts t) (line : UInt32) (name : String)
    (rest : List Token) : Yields typeExpr (ts ++ ⟨line, .identifier name⟩ :: rest) (some t)
      (⟨line, .identifier name⟩ :: rest) :=
  yields_typeExpr h ⟨⟨notAt_cons rfl, notAt_cons rfl⟩, notAt_cons rfl, notAt_cons rfl⟩

/-! ## Values and attributes -/

theorem yields_signedNumber (sign : Token) (written : String) {t : Token} {v : ValueExpr}
    (h : (∃ text, t.symbol = .integer text ∧ v = .integer (written ++ text)) ∨
      ∃ text, t.symbol = .float text ∧ v = .float (written ++ text)) (rest : List Token) :
    Yields (signedNumber sign written) (t :: rest) v rest := by
  refine (yields_next t rest).bind ?_
  obtain ⟨text, ht, rfl⟩ | ⟨text, ht, rfl⟩ := h
  · simp only [Option.map_some, ht]
    exact .pure _ _
  · simp only [Option.map_some, ht]
    exact .pure _ _

theorem yields_minus {l₁ : UInt32} {t : Token} {v : ValueExpr}
    (h : (∃ text, t.symbol = .integer text ∧ v = .integer ("-" ++ text)) ∨
      ∃ text, t.symbol = .float text ∧ v = .float ("-" ++ text)) (rest : List Token) :
    Yields value (⟨l₁, .punct .minus⟩ :: t :: rest) (some v) rest :=
  (yields_mark? .minus l₁ _).bind ((yields_signedNumber _ "-" h rest).bind (.pure _ _))

theorem yields_plus {l₁ : UInt32} {t : Token} {v : ValueExpr}
    (h : (∃ text, t.symbol = .integer text ∧ v = .integer ("" ++ text)) ∨
      ∃ text, t.symbol = .float text ∧ v = .float ("" ++ text)) (rest : List Token) :
    Yields value (⟨l₁, .punct .plus⟩ :: t :: rest) (some v) rest :=
  (yields_nextIf_none (notAt_cons rfl)).bind ((yields_mark? .plus l₁ _).bind
    ((yields_signedNumber _ "" h rest).bind (.pure _ _)))

/-- A value that is no signed number is a literal or a name. -/
theorem yields_unsigned {xs : List Token} {o : Option ValueExpr}
    (hminus : NotAt (.punct .minus) xs) (hplus : NotAt (.punct .plus) xs)
    (h : Yields (do
      match (← peek).bind literal? with
      | some v =>
        let _ ← next
        return some v
      | none =>
        match ← dottedName with
        | some name => return some (.name name)
        | none => return none) xs o rest) : Yields value xs o rest :=
  (yields_nextIf_none hminus).bind ((yields_nextIf_none hplus).bind h)

theorem yields_literal {t : Token} {v : ValueExpr} (hminus : t.symbol.sameSort (.punct .minus) = false)
    (hplus : t.symbol.sameSort (.punct .plus) = false) (h : literal? t.symbol = some v)
    (rest : List Token) : Yields value (t :: rest) (some v) rest := by
  refine yields_unsigned (notAt_cons hminus) (notAt_cons hplus) ((yields_peek _).bind ?_)
  simp only [List.head?_cons, Option.map_some, Option.bind_some, h]
  exact (yields_next t rest).bind (.pure _ _)

theorem yields_value {v : ValueExpr} (h : Phrase.Value ts v) (hrest : NotAt (.punct .dot) rest) :
    Yields value (ts ++ rest) (some v) rest := by
  cases h with
  | integer | float | string | trueWord | falseWord | defaultWord =>
    exact yields_literal rfl rfl rfl rest
  | minusInteger => exact yields_minus (.inl ⟨_, rfl, rfl⟩) rest
  | minusFloat => exact yields_minus (.inr ⟨_, rfl, rfl⟩) rest
  | plusInteger => exact yields_plus (.inl ⟨_, rfl, by rw [String.empty_append]⟩) rest
  | plusFloat => exact yields_plus (.inr ⟨_, rfl, by rw [String.empty_append]⟩) rest
  | name dotted =>
    cases dotted with
    | mk parts =>
      refine yields_unsigned (notAt_cons rfl) (notAt_cons rfl) ((yields_peek _).bind ?_)
      exact (yields_dottedName (.mk parts) hrest).bind (.pure _ _)

theorem yields_assigned {v : ValueExpr} {l₁ : UInt32} (h : Phrase.Value ts v)
    (hrest : NotAt (.punct .dot) rest) : Yields (assignedValue l₁) (ts ++ rest) v rest :=
  (yields_value h hrest).bind (.pure _ _)

theorem yields_optionalValue {o : Option ValueExpr} (h : Phrase.Optional Phrase.Assigned ts o)
    (hdot : NotAt (.punct .dot) rest) (hassign : NotAt (.punct .assign) rest) :
    Yields optionalValue (ts ++ rest) o rest := by
  cases h with
  | absent => exact (yields_nextIf_none hassign).bind (.pure _ _)
  | present phrase =>
    cases phrase with
    | mk value =>
      exact (yields_mark? .assign _ _).bind ((yields_assigned value hdot).bind (.pure _ _))

theorem yields_attributeTurn {a : Tree.Attribute} {result : Turn Tree.Attribute} {zs : List Token}
    (h : Phrase.Attribute ts a) (hdot : NotAt (.punct .dot) rest)
    (hassign : NotAt (.punct .assign) rest) (hcomma : Yields (afterComma a) rest result zs) :
    Yields attributeTurn (ts ++ rest) result zs := by
  cases h with
  | flag =>
    refine (yields_identifier? _ _ _).bind (Yields.bind ?_ hcomma)
    exact (yields_nextIf_none hassign).bind (.pure _ _)
  | @valued line key ts v a value allowed =>
    cases value with
    | @mk l₁ ts v value =>
      refine (yields_identifier? _ _ _).bind (Yields.bind ?_ hcomma)
      refine (yields_mark? .assign _ _).bind ((yields_value value hdot).bind ?_)
      simp only [Option.bind_some, allowed]
      exact .pure _ _

theorem yields_attributes? {attributes : List Tree.Attribute}
    (h : Phrase.AttributeList ts attributes) (rest : List Token) :
    Yields attributes? (ts ++ rest) (some attributes) rest := by
  cases h with
  | @mk l₁ l₂ ts attributes items =>
    simp only [List.cons_append, List.append_assoc, List.nil_append]
    refine (yields_mark? .lbracket _ _).bind ?_
    refine Yields.bind (yields_commaList rfl ?_ ?_ items rest)
      ((yields_mark .rbracket _ _).bind (.pure _ _))
    · rintro ts a t rest result zs hitem (rfl | ht) hcomma
      · exact yields_attributeTurn hitem (notAt_cons rfl) (notAt_cons rfl) hcomma
      · exact yields_attributeTurn hitem (notAt_cons (by rw [ht]; rfl))
          (notAt_cons (by rw [ht]; rfl)) hcomma
    · exact fun rest => (yields_identifier?_none (notAt_cons rfl)).bind (.pure _ _)

theorem yields_attributes?_none (h : NotAt (.punct .lbracket) rest) :
    Yields attributes? rest none rest :=
  (yields_nextIf_none h).bind (.pure _ _)

/-- The attributes in front of something that does not start with a bracket. -/
theorem yields_attributes {attributes : List Tree.Attribute} (h : Phrase.Attributes ts attributes)
    (hrest : NotAt (.punct .lbracket) rest) :
    ∃ o, Yields attributes? (ts ++ rest) o rest ∧ o.getD [] = attributes := by
  cases h with
  | absent => exact ⟨none, yields_attributes?_none hrest, rfl⟩
  | present list => exact ⟨some attributes, yields_attributes? list rest, rfl⟩

/-! ## Definitions -/

variable {attributes : List Tree.Attribute}

theorem yields_nameAfter (word : Token) (name : String) (line : UInt32) (rest : List Token) :
    Yields (nameAfter word) (⟨line, .identifier name⟩ :: rest) name rest :=
  (yields_identifier? name line rest).bind (.pure _ _)

theorem yields_nameAfterType (l : UInt32) (type : TypeExpr) (name : String) (line : UInt32)
    (rest : List Token) :
    Yields (nameAfterType l type) (⟨line, .identifier name⟩ :: rest) name rest :=
  (yields_identifier? name line rest).bind (.pure _ _)

theorem yields_semicolon? (h : Phrase.MaybeSemicolon ts) (hrest : NotAt (.punct .semicolon) rest) :
    ∃ o, Yields (mark? .semicolon) (ts ++ rest) o rest := by
  cases h with
  | absent => exact ⟨none, yields_nextIf_none hrest⟩
  | present => exact ⟨_, yields_mark? .semicolon _ rest⟩

/-- What a rule reads up to a closing brace, with the semicolon that may follow. -/
theorem yields_closed {α β : Type} {body : Rule α} {a : α} {xs ss : List Token} (line : UInt32)
    (hbody : Yields body xs a (⟨line, .punct .rbrace⟩ :: (ss ++ rest)))
    (hss : Phrase.MaybeSemicolon ss) (hrest : NotAt (.punct .semicolon) rest) (f : α → β) :
    Yields (do
      let a ← body
      let _ ← mark .rbrace
      let _ ← mark? .semicolon
      return f a) xs (f a) rest := by
  obtain ⟨o, hsemicolon⟩ := yields_semicolon? hss hrest
  exact hbody.bind ((yields_mark .rbrace _ _).bind (hsemicolon.bind (.pure _ _)))

theorem yields_enumValueTurn {v : Tree.EnumValue} {result : Turn Tree.EnumValue} {zs : List Token}
    (h : Phrase.EnumValue ts v) (hdot : NotAt (.punct .dot) rest)
    (hassign : NotAt (.punct .assign) rest) (hcomma : Yields (afterComma v) rest result zs) :
    Yields enumValueTurn (ts ++ rest) result zs := by
  cases h with
  | mk written =>
    exact (yields_identifier? _ _ _).bind ((yields_optionalValue written hdot hassign).bind hcomma)

theorem yields_enumeration {e : Tree.Enum} (h : Phrase.Enum attributes ts e)
    (hrest : NotAt (.punct .semicolon) rest) :
    Yields (enumeration attributes) (ts ++ rest) (some e) rest := by
  cases h with
  | @mk line l₁ l₂ l₃ name ts ss values body semicolon =>
    simp only [List.cons_append, List.append_assoc]
    refine (yields_keyword? .enumWord _ _).bind ((yields_nameAfter _ name _ _).bind ?_)
    refine (yields_mark .lbrace _ _).bind (yields_closed l₃ (yields_commaList rfl ?_ ?_ body _)
      semicolon hrest fun values => some (Tree.Enum.mk line name attributes values))
    · rintro ts v t rest result zs hitem (rfl | ht) hcomma
      · exact yields_enumValueTurn hitem (notAt_cons rfl) (notAt_cons rfl) hcomma
      · exact yields_enumValueTurn hitem (notAt_cons (by rw [ht]; rfl))
          (notAt_cons (by rw [ht]; rfl)) hcomma
    · exact fun rest => (yields_identifier?_none (notAt_cons rfl)).bind (.pure _ _)

theorem yields_enumeration_none (h : NotAt (.keyword .enumWord) rest) :
    Yields (enumeration attributes) rest none rest :=
  (yields_nextIf_none h).bind (.pure _ _)

theorem yields_constant {c : Tree.Constant} (h : Phrase.Constant attributes ts c)
    (rest : List Token) : Yields (constant attributes) (ts ++ rest) (some c) rest := by
  cases h with
  | mk written value =>
    cases value with
    | mk value =>
      simp only [List.cons_append, List.append_assoc, List.nil_append]
      refine (yields_keyword? .constWord _ _).bind ((yields_typeExpr_before written _ _ _).bind ?_)
      refine (yields_nameAfterType _ _ _ _ _).bind ((yields_mark .assign _ _).bind ?_)
      refine (yields_assigned value (notAt_cons rfl)).bind ?_
      exact (yields_mark .semicolon _ _).bind (.pure _ _)

theorem yields_constant_none (h : NotAt (.keyword .constWord) rest) :
    Yields (constant attributes) rest none rest :=
  (yields_nextIf_none h).bind (.pure _ _)

theorem notAt_enum {s : Symbol} {e : Tree.Enum} (h : Phrase.Enum attributes ts e)
    (hs : (Symbol.keyword .enumWord).sameSort s = false) (rest : List Token) :
    NotAt s (ts ++ rest) := by
  cases h
  exact notAt_cons hs

theorem notAt_constant {s : Symbol} {c : Tree.Constant} (h : Phrase.Constant attributes ts c)
    (hs : (Symbol.keyword .constWord).sameSort s = false) (rest : List Token) :
    NotAt s (ts ++ rest) := by
  cases h
  exact notAt_cons hs

/-! ### Structs -/

theorem notAt_assigned {s : Symbol} {o : Option ValueExpr} (h : Phrase.Optional Phrase.Assigned ts o)
    (hs : (Symbol.punct .assign).sameSort s = false) (hrest : NotAt s rest) :
    NotAt s (ts ++ rest) := by
  cases h with
  | absent => exact hrest
  | present phrase =>
    cases phrase
    exact notAt_cons hs

theorem notAt_type {s : Symbol} (h : Phrase.AnyType ts t)
    (hs : ∀ name, (Symbol.identifier name).sameSort s = false) (rest : List Token) :
    NotAt s (ts ++ rest) := by
  obtain ⟨line, name, more, rfl⟩ := h.exists_cons
  exact notAt_cons (hs name)

theorem yields_line_type (h : Phrase.AnyType ts t) (hstart : ts.head?.map Token.line = some line)
    (rest : List Token) : Yields Rule.line (ts ++ rest) line (ts ++ rest) := by
  obtain ⟨l, name, more, rfl⟩ := h.exists_cons
  exact yields_line hstart

theorem notAt_field {s : Symbol} {f : Tree.Field} (h : Phrase.Field attributes ts f)
    (hs : ∀ name, (Symbol.identifier name).sameSort s = false) (rest : List Token) :
    NotAt s (ts ++ rest) := by
  cases h with
  | mk _ written =>
    rw [List.append_assoc]
    exact notAt_type written hs _

theorem yields_structField {f : Tree.Field} (h : Phrase.Field attributes ts f) (rest : List Token) :
    Yields (structField attributes) (ts ++ rest) (some f) rest := by
  cases h with
  | mk start written numbered value =>
    simp only [List.cons_append, List.append_assoc, List.nil_append]
    refine (yields_line_type written start _).bind ((yields_typeExpr_before written _ _ _).bind ?_)
    refine (yields_nameAfterType _ _ _ _ _).bind ?_
    refine (yields_ordinal numbered (notAt_assigned value rfl (notAt_cons rfl))).bind ?_
    refine (yields_optionalValue value (notAt_cons rfl) (notAt_cons rfl)).bind ?_
    exact (yields_mark .semicolon _ _).bind (.pure _ _)

theorem yields_structMember {m : Tree.StructMember} (h : Phrase.StructMember ts m)
    (hrest : NotAt (.punct .semicolon) rest) : Yields structMember (ts ++ rest) (some m) rest := by
  cases h with
  | field list field =>
    rw [List.append_assoc]
    obtain ⟨o, hlist, rfl⟩ := yields_attributes list (notAt_field field (fun _ => rfl) rest)
    refine hlist.bind ((yields_enumeration_none (notAt_field field (fun _ => rfl) rest)).bind ?_)
    refine (yields_constant_none (notAt_field field (fun _ => rfl) rest)).bind ?_
    exact (yields_structField field rest).bind (.pure _ _)
  | enum list enum =>
    rw [List.append_assoc]
    obtain ⟨o, hlist, rfl⟩ := yields_attributes list (notAt_enum enum rfl rest)
    exact hlist.bind ((yields_enumeration enum hrest).bind (.pure _ _))
  | constant list constant =>
    rw [List.append_assoc]
    obtain ⟨o, hlist, rfl⟩ := yields_attributes list (notAt_constant constant rfl rest)
    refine hlist.bind ((yields_enumeration_none (notAt_constant constant rfl rest)).bind ?_)
    exact (yields_constant constant rest).bind (.pure _ _)

theorem yields_structMember_none (line : UInt32) (rest : List Token) :
    Yields structMember (⟨line, .punct .rbrace⟩ :: rest) none (⟨line, .punct .rbrace⟩ :: rest) := by
  refine (yields_attributes?_none (notAt_cons rfl)).bind ?_
  refine (yields_enumeration_none (notAt_cons rfl)).bind ?_
  refine (yields_constant_none (notAt_cons rfl)).bind ?_
  have hfield : Yields (structField []) (⟨line, .punct .rbrace⟩ :: rest) none _ :=
    (yields_line rfl).bind ((yields_typeExpr_none (notAt_cons rfl)).bind (.pure _ _))
  exact hfield.bind (.pure _ _)

theorem notAt_semicolon (h : Phrase.Opens ts) (rest : List Token) :
    NotAt (.punct .semicolon) (ts ++ rest) := by
  obtain ⟨t, more, rfl, hne, -⟩ := h
  exact notAt_cons (Bool.eq_false_iff.2 fun hs => hne (Symbol.eq_of_sameSort_punct hs))

theorem notAt_import (h : Phrase.Opens ts) : NotAt (.keyword .importWord) ts := by
  obtain ⟨t, more, rfl, -, hne⟩ := h
  exact notAt_cons (Bool.eq_false_iff.2 fun hs => hne (Symbol.eq_of_sameSort_keyword hs))

theorem yields_struct {d : Tree.Struct} (h : Phrase.Struct attributes ts d)
    (hrest : NotAt (.punct .semicolon) rest) :
    Yields (struct attributes) (ts ++ rest) (some d) rest := by
  cases h with
  | @mk line l₁ l₂ l₃ name ts ss members body semicolon =>
    simp only [List.cons_append, List.append_assoc]
    refine (yields_keyword? .structWord _ _).bind ((yields_nameAfter _ name _ _).bind ?_)
    refine (yields_mark .lbrace _ _).bind (yields_closed l₃ ?_ semicolon hrest fun members =>
      some (Tree.Struct.mk line name attributes members))
    refine yields_many (NotAt (.punct .semicolon)) ?_ ?_ (yields_structMember_none _ _)
      (notAt_cons rfl) body
    · exact fun _ _ _ hitem hfollow => yields_structMember hitem hfollow
    · exact fun _ _ rest hitem => ⟨hitem.opens.ne_nil, notAt_semicolon hitem.opens rest⟩

theorem yields_struct_none (h : NotAt (.keyword .structWord) rest) :
    Yields (struct attributes) rest none rest :=
  (yields_nextIf_none h).bind (.pure _ _)

/-! ### Interfaces -/

theorem yields_parameter {p : Tree.Parameter} (h : Phrase.Parameter ts p)
    (hrest : NotAt (.ordinal "") rest) : Yields parameter (ts ++ rest) p rest := by
  cases h with
  | mk list start written numbered =>
    simp only [List.cons_append, List.append_assoc]
    obtain ⟨o, hlist, rfl⟩ := yields_attributes list (notAt_type written (fun _ => rfl) _)
    refine hlist.bind ((yields_line_type written start _).bind ?_)
    refine (yields_typeExpr_before written _ _ _).bind ((yields_nameAfterType _ _ _ _ _).bind ?_)
    exact (yields_ordinal numbered hrest).bind (.pure _ _)

theorem notAt_parameter {p : Tree.Parameter} (h : Phrase.Parameter ts p) (rest : List Token) :
    NotAt (.punct .rparen) (ts ++ rest) := by
  cases h with
  | mk list _ written =>
    cases list with
    | absent =>
      simp only [List.nil_append, List.append_assoc]
      exact notAt_type written (fun _ => rfl) _
    | present list =>
      cases list
      exact notAt_cons rfl

theorem notAt_parameters {ps : List Tree.Parameter} (h : Phrase.Separated Phrase.Parameter ts ps)
    (rest : List Token) : NotAt (.punct .rparen) (ts ++ rest) := by
  cases h with
  | last item => exact notAt_parameter item rest
  | more item =>
    rw [List.append_assoc]
    exact notAt_parameter item _

theorem yields_parameters {ps : List Tree.Parameter} (h : Phrase.Parameters ts ps)
    (rest : List Token) : Yields parameters (ts ++ rest) ps rest := by
  cases h with
  | none => exact (yields_mark .lparen _ _).bind ((yields_mark? .rparen _ _).bind (.pure _ _))
  | some items =>
    simp only [List.cons_append, List.append_assoc, List.nil_append]
    refine (yields_mark .lparen _ _).bind ((yields_nextIf_none (notAt_parameters items _)).bind ?_)
    refine Yields.bind (yields_separated rfl ?_ items rest)
      ((yields_mark .rparen _ _).bind (.pure _ _))
    rintro ts p t rest result zs hitem (rfl | ht) hcomma
    · exact (yields_parameter hitem (notAt_cons rfl)).bind hcomma
    · exact (yields_parameter hitem (notAt_cons (by rw [ht]; rfl))).bind hcomma

theorem yields_response {o : Option (List Tree.Parameter)} (h : Phrase.Optional Phrase.Response ts o)
    (hrest : NotAt (.punct .arrow) rest) : Yields response (ts ++ rest) o rest := by
  cases h with
  | absent => exact (yields_nextIf_none hrest).bind (.pure _ _)
  | present phrase =>
    cases phrase with
    | mk list =>
      exact (yields_mark? .arrow _ _).bind ((yields_parameters list rest).bind (.pure _ _))

theorem yields_method {m : Tree.Method} (h : Phrase.Method attributes ts m) (rest : List Token) :
    Yields (method attributes) (ts ++ rest) (some m) rest := by
  cases h with
  | @mk line l₁ name os ps rs ordinal parameters response numbered list reply =>
    simp only [List.cons_append, List.append_assoc, List.nil_append]
    have hordinal : NotAt (.ordinal "") (ps ++ (rs ++ ⟨l₁, .punct .semicolon⟩ :: rest)) := by
      cases list <;> exact notAt_cons rfl
    refine (yields_identifier? name _ _).bind ((yields_ordinal numbered hordinal).bind ?_)
    refine (yields_parameters list _).bind ((yields_response reply (notAt_cons rfl)).bind ?_)
    exact (yields_mark .semicolon _ _).bind (.pure _ _)

theorem notAt_method {s : Symbol} {m : Tree.Method} (h : Phrase.Method attributes ts m)
    (hs : ∀ name, (Symbol.identifier name).sameSort s = false) (rest : List Token) :
    NotAt s (ts ++ rest) := by
  cases h
  exact notAt_cons (hs _)

theorem yields_interfaceMember {m : Tree.InterfaceMember} (h : Phrase.InterfaceMember ts m)
    (hrest : NotAt (.punct .semicolon) rest) :
    Yields interfaceMember (ts ++ rest) (some m) rest := by
  cases h with
  | method list method =>
    rw [List.append_assoc]
    obtain ⟨o, hlist, rfl⟩ := yields_attributes list (notAt_method method (fun _ => rfl) rest)
    refine hlist.bind ((yields_enumeration_none (notAt_method method (fun _ => rfl) rest)).bind ?_)
    refine (yields_constant_none (notAt_method method (fun _ => rfl) rest)).bind ?_
    exact (yields_method method rest).bind (.pure _ _)
  | enum list enum =>
    rw [List.append_assoc]
    obtain ⟨o, hlist, rfl⟩ := yields_attributes list (notAt_enum enum rfl rest)
    exact hlist.bind ((yields_enumeration enum hrest).bind (.pure _ _))
  | constant list constant =>
    rw [List.append_assoc]
    obtain ⟨o, hlist, rfl⟩ := yields_attributes list (notAt_constant constant rfl rest)
    refine hlist.bind ((yields_enumeration_none (notAt_constant constant rfl rest)).bind ?_)
    exact (yields_constant constant rest).bind (.pure _ _)

theorem yields_interfaceMember_none (line : UInt32) (rest : List Token) :
    Yields interfaceMember (⟨line, .punct .rbrace⟩ :: rest) none
      (⟨line, .punct .rbrace⟩ :: rest) := by
  refine (yields_attributes?_none (notAt_cons rfl)).bind ?_
  refine (yields_enumeration_none (notAt_cons rfl)).bind ?_
  refine (yields_constant_none (notAt_cons rfl)).bind ?_
  have hmethod : Yields (method []) (⟨line, .punct .rbrace⟩ :: rest) none _ :=
    (yields_identifier?_none (notAt_cons rfl)).bind (.pure _ _)
  exact hmethod.bind (.pure _ _)

theorem yields_interface {d : Tree.Interface} (h : Phrase.Interface attributes ts d)
    (hrest : NotAt (.punct .semicolon) rest) :
    Yields (interface attributes) (ts ++ rest) (some d) rest := by
  cases h with
  | @mk line l₁ l₂ l₃ name ts ss members body semicolon =>
    simp only [List.cons_append, List.append_assoc]
    refine (yields_keyword? .interfaceWord _ _).bind ((yields_nameAfter _ name _ _).bind ?_)
    refine (yields_mark .lbrace _ _).bind (yields_closed l₃ ?_ semicolon hrest fun members =>
      some (Tree.Interface.mk line name attributes members))
    refine yields_many (NotAt (.punct .semicolon)) ?_ ?_ (yields_interfaceMember_none _ _)
      (notAt_cons rfl) body
    · exact fun _ _ _ hitem hfollow => yields_interfaceMember hitem hfollow
    · exact fun _ _ rest hitem => ⟨hitem.opens.ne_nil, notAt_semicolon hitem.opens rest⟩

theorem yields_interface_none (h : NotAt (.keyword .interfaceWord) rest) :
    Yields (interface attributes) rest none rest :=
  (yields_nextIf_none h).bind (.pure _ _)

/-! ### Any definition -/

theorem yields_definition {d : Tree.Definition} (h : Phrase.Definition attributes ts d)
    (hrest : NotAt (.punct .semicolon) rest) :
    Yields (definition attributes) (ts ++ rest) (some d) rest := by
  cases h with
  | struct struct => exact (yields_struct struct hrest).bind (.pure _ _)
  | interface interface =>
    refine (yields_struct_none ?_).bind ((yields_interface interface hrest).bind (.pure _ _))
    cases interface
    exact notAt_cons rfl
  | enum enum =>
    refine (yields_struct_none (notAt_enum enum rfl rest)).bind ?_
    refine (yields_interface_none (notAt_enum enum rfl rest)).bind ?_
    exact (yields_enumeration enum hrest).bind (.pure _ _)
  | constant constant =>
    refine (yields_struct_none (notAt_constant constant rfl rest)).bind ?_
    refine (yields_interface_none (notAt_constant constant rfl rest)).bind ?_
    refine (yields_enumeration_none (notAt_constant constant rfl rest)).bind ?_
    exact (yields_constant constant rest).bind (.pure _ _)

theorem notAt_definition {s : Symbol} {d : Tree.Definition} (h : Phrase.Definition attributes ts d)
    (hs : ∀ word ≠ Keyword.moduleWord, (Symbol.keyword word).sameSort s = false)
    (rest : List Token) : NotAt s (ts ++ rest) := by
  obtain ⟨line, word, more, rfl, hne, -⟩ := h.exists_cons
  exact notAt_cons (hs word hne)

theorem yields_definition_none (h : ∀ word, NotAt (.keyword word) rest) :
    Yields (definition attributes) rest none rest := by
  refine (yields_struct_none (h _)).bind ((yields_interface_none (h _)).bind ?_)
  exact (yields_enumeration_none (h _)).bind ((yields_constant_none (h _)).bind (.pure _ _))

theorem yields_attributedDefinition {d : Tree.Definition} (h : Phrase.AttributedDefinition ts d)
    (hrest : NotAt (.punct .semicolon) rest) :
    Yields attributedDefinition (ts ++ rest) (some d) rest := by
  cases h with
  | mk list definition =>
    rw [List.append_assoc]
    obtain ⟨o, hlist, rfl⟩ :=
      yields_attributes list (notAt_definition definition (fun _ _ => rfl) rest)
    exact hlist.bind ((yields_definition definition hrest).bind (.pure _ _))

theorem yields_attributedDefinition_none (hlist : NotAt (.punct .lbracket) rest)
    (hwords : ∀ word, NotAt (.keyword word) rest) :
    Yields attributedDefinition rest none rest :=
  (yields_attributes?_none hlist).bind ((yields_definition_none hwords).bind (.pure _ _))

/-! ## Modules

A module without braces ends where the next one starts, which may be with an attribute list. The rule
looks for the keyword after the first closing bracket, and that bracket is the end of the list. -/

/-- There is no closing bracket among the tokens. -/
def Unclosed (ts : List Token) : Prop :=
  ∀ t ∈ ts, t.symbol ≠ .punct .rbracket

theorem unclosed_dottedName (h : Phrase.DottedName ts name) : Unclosed ts := by
  cases h with
  | mk parts =>
    refine List.forall_mem_cons.2 ⟨by simp, parts.forall_mem ?_⟩
    rintro _ _ ⟨⟩
    simp

theorem unclosed_value {v : ValueExpr} (h : Phrase.Value ts v) : Unclosed ts := by
  cases h with
  | name dotted => exact unclosed_dottedName dotted
  | _ => simp [Unclosed]

theorem unclosed_attribute {a : Tree.Attribute} (h : Phrase.Attribute ts a) : Unclosed ts := by
  cases h with
  | flag => simp [Unclosed]
  | valued value =>
    cases value with
    | mk value =>
      exact List.forall_mem_cons.2 ⟨by simp, List.forall_mem_cons.2 ⟨by simp, unclosed_value value⟩⟩

theorem moduleAfterAttributes_append {t : Token} (h : Phrase.AttributeList ts attributes)
    (rest : List Token) :
    moduleAfterAttributes (ts ++ t :: rest) = decide (t.symbol = .keyword .moduleWord) := by
  cases h with
  | @mk l₁ l₂ ts attributes items =>
    have hitems : Unclosed ts :=
      items.forall_mem (fun _ => by simp) fun _ _ item => unclosed_attribute item
    have hdrop : (ts ++ ⟨l₂, .punct .rbracket⟩ :: t :: rest).dropWhile
        (·.symbol ≠ .punct .rbracket) = ⟨l₂, .punct .rbracket⟩ :: t :: rest := by
      rw [List.dropWhile_append_of_pos fun t ht => decide_eq_true (hitems t ht)]
      exact List.dropWhile_cons_of_neg (by simp)
    simp only [List.cons_append, List.append_assoc, List.nil_append, moduleAfterAttributes, hdrop]
    split
    · next heq =>
      cases heq
      rfl
    · next hne =>
      refine (decide_eq_false fun ht => ?_).symm
      obtain ⟨line, s⟩ := t
      cases ht
      exact hne _ _ _ rfl

/-- Attributes in front of a keyword are those of a module if the keyword is `module`. -/
theorem moduleFollows_attributes {c : Cursor} {word : Keyword}
    (h : Phrase.Attributes ts attributes) (hc : c.ahead = ts ++ ⟨line, .keyword word⟩ :: rest) :
    moduleFollows c = decide (word = .moduleWord) := by
  cases h with
  | absent => simp [moduleFollows, Cursor.testIf, moduleAfterAttributes, hc, Symbol.sameSort]
  | present list =>
    rw [moduleFollows, hc, moduleAfterAttributes_append list rest]
    cases list
    simp [Cursor.testIf, hc, Symbol.sameSort]

theorem yields_openBodyDefinition {d : Tree.Definition} (h : Phrase.AttributedDefinition ts d)
    (hrest : NotAt (.punct .semicolon) rest) :
    Yields openBodyDefinition (ts ++ rest) (some d) rest := by
  refine (yields_look (a := false) fun c hc => ?_).bind (yields_attributedDefinition h hrest)
  cases h with
  | mk list definition =>
    obtain ⟨line, word, more, rfl, hne, -⟩ := definition.exists_cons
    rw [List.append_assoc] at hc
    rw [moduleFollows_attributes list hc, decide_eq_false hne]

/-- What may follow a module: no semicolon, and nothing that its body could take in. -/
structure AfterModule (rest : List Token) : Prop where
  semicolon : NotAt (.punct .semicolon) rest
  stop : Yields openBodyDefinition rest none rest

theorem afterModule_nil : AfterModule [] where
  semicolon := notAt_nil _
  stop := by
    refine (yields_look (a := false) fun c hc => ?_).bind ?_
    · simp [moduleFollows, Cursor.testIf, moduleAfterAttributes, hc]
    · exact yields_attributedDefinition_none (notAt_nil _) fun _ => notAt_nil _

theorem afterModule_module {m : Tree.Module} (h : Phrase.Module ts m) (rest : List Token) :
    AfterModule (ts ++ rest) where
  semicolon := notAt_semicolon h.opens rest
  stop := by
    refine (yields_look (a := true) fun c hc => ?_).bind (.pure _ _)
    cases h with
    | mk list =>
      rw [List.append_assoc] at hc
      rw [moduleFollows_attributes list hc, decide_eq_true rfl]

theorem yields_moduleBody {definitions : List Tree.Definition}
    (h : Phrase.ModuleBody ts definitions) (hrest : AfterModule rest) :
    Yields moduleBody (ts ++ rest) definitions rest := by
  have hnext : ∀ ts d rest, Phrase.AttributedDefinition ts d →
      ts ≠ [] ∧ NotAt (.punct .semicolon) (ts ++ rest) :=
    fun _ _ rest hitem => ⟨hitem.opens.ne_nil, notAt_semicolon hitem.opens rest⟩
  cases h with
  | @braced l₁ l₂ ts ss definitions body semicolon =>
    simp only [List.cons_append, List.append_assoc]
    refine (yields_mark? .lbrace _ _).bind (yields_closed l₂ ?_ semicolon hrest.semicolon id)
    refine yields_many (NotAt (.punct .semicolon)) ?_ hnext ?_ (notAt_cons rfl) body
    · exact fun _ _ _ hitem hfollow => yields_attributedDefinition hitem hfollow
    · exact yields_attributedDefinition_none (notAt_cons rfl) fun _ => notAt_cons rfl
  | toEnd body =>
    refine (yields_nextIf_none (notAt_cons rfl)).bind ((yields_mark? .semicolon _ _).bind ?_)
    refine yields_many (NotAt (.punct .semicolon)) ?_ hnext hrest.stop hrest.semicolon body
    exact fun _ _ _ hitem hfollow => yields_openBodyDefinition hitem hfollow

theorem yields_moduleDecl {ns bs : List Token} {definitions : List Tree.Definition}
    (named : Phrase.DottedName ns name) (body : Phrase.ModuleBody bs definitions)
    (hrest : AfterModule rest) :
    Yields (moduleDecl attributes) (⟨line, .keyword .moduleWord⟩ :: (ns ++ (bs ++ rest)))
      (some ⟨line, some name, attributes, definitions⟩) rest := by
  have hdot : NotAt (.punct .dot) (bs ++ rest) := by
    cases body <;> exact notAt_cons rfl
  refine (yields_keyword? .moduleWord _ _).bind ((yields_dottedName named hdot).bind ?_)
  exact (yields_moduleBody body hrest).bind (.pure _ _)

theorem yields_moduleDecl_none (h : NotAt (.keyword .moduleWord) rest) :
    Yields (moduleDecl attributes) rest none rest :=
  (yields_nextIf_none h).bind (.pure _ _)

/-! ## Files -/

theorem yields_topItem_module {m : Tree.Module} (h : Phrase.Module ts m) (hrest : AfterModule rest) :
    ∃ line, Yields topItem (ts ++ rest) (some (line, .module m)) rest := by
  obtain ⟨t, more, hts, -, -⟩ := h.opens
  refine ⟨t.line, (yields_line (by rw [hts]; rfl)).bind ?_⟩
  cases h with
  | @mk line as ns bs attributes name definitions list named body =>
    simp only [List.append_assoc, List.cons_append]
    have hword : NotAt (.punct .lbracket) (⟨line, .keyword .moduleWord⟩ :: (ns ++ (bs ++ rest))) :=
      notAt_cons rfl
    obtain ⟨o, hlist, rfl⟩ := yields_attributes list hword
    exact hlist.bind ((yields_moduleDecl named body hrest).bind (.pure _ _))

theorem yields_topItem_definition {d : Tree.Definition} (h : Phrase.AttributedDefinition ts d)
    (hrest : NotAt (.punct .semicolon) rest) (hline : (ts ++ rest).head?.map Token.line = some line) :
    Yields topItem (ts ++ rest) (some (line, .definition d)) rest := by
  refine (yields_line hline).bind ?_
  cases h with
  | mk list definition =>
    rw [List.append_assoc]
    obtain ⟨o, hlist, rfl⟩ :=
      yields_attributes list (notAt_definition definition (fun _ _ => rfl) rest)
    have hmodule : NotAt (.keyword .moduleWord) (_ ++ rest) :=
      notAt_definition definition (fun word hne => by simpa [Symbol.sameSort] using hne) rest
    refine hlist.bind ((yields_moduleDecl_none hmodule).bind ?_)
    exact (yields_definition definition hrest).bind (.pure _ _)

theorem yields_topItem_nil : Yields topItem [] none [] := by
  refine yields_line_bind fun line => ?_
  refine (yields_attributes?_none (notAt_nil _)).bind ?_
  refine (yields_moduleDecl_none (notAt_nil _)).bind ?_
  exact (yields_definition_none fun _ => notAt_nil _).bind (.pure _ _)

theorem yields_modules {modules : List Tree.Module} (h : Phrase.Many Phrase.Module ts modules) :
    Yields Grammar.modules ts modules [] := by
  cases h with
  | nil => exact yields_topItem_nil.bind (.pure _ _)
  | @cons ts ts' m modules head tail =>
    have hafter : AfterModule (ts' ++ []) :=
      tail.follow AfterModule (fun _ _ rest hitem => afterModule_module hitem rest) afterModule_nil
    have htail : Yields (many nextModule) (ts' ++ []) modules [] := by
      refine yields_many AfterModule ?_ ?_ (yields_topItem_nil.bind (.pure _ _)) afterModule_nil tail
      · intro ts m rest hitem hfollow
        obtain ⟨line, htop⟩ := yields_topItem_module hitem hfollow
        exact htop.bind (.pure _ _)
      · exact fun _ _ rest hitem => ⟨hitem.opens.ne_nil, afterModule_module hitem rest⟩
    rw [List.append_nil] at hafter htail
    obtain ⟨line, htop⟩ := yields_topItem_module head hafter
    exact htop.bind (htail.bind (.pure _ _))

theorem yields_looseModule {definitions : List Tree.Definition}
    (hline : ts.head?.map Token.line = some line)
    (h : Phrase.Many Phrase.AttributedDefinition ts definitions) :
    Yields Grammar.modules ts [⟨line, none, [], definitions⟩] [] := by
  cases h with
  | nil => cases hline
  | @cons ts ts' d definitions head tail =>
    have hafter : NotAt (.punct .semicolon) (ts' ++ []) :=
      tail.follow _ (fun _ _ rest hitem => notAt_semicolon hitem.opens rest) (notAt_nil _)
    have htail : Yields (many (nextLoose line d)) (ts' ++ []) definitions [] := by
      refine yields_many (NotAt (.punct .semicolon)) ?_ ?_ (yields_topItem_nil.bind (.pure _ _))
        (notAt_nil _) tail
      · intro ts d rest hitem hfollow
        obtain ⟨t, more, hts, -, -⟩ := hitem.opens
        have hitemLine : (ts ++ rest).head?.map Token.line = some t.line := by
          rw [hts]
          rfl
        exact (yields_topItem_definition hitem hfollow hitemLine).bind (.pure _ _)
      · exact fun _ _ rest hitem => ⟨hitem.opens.ne_nil, notAt_semicolon hitem.opens rest⟩
    rw [List.append_nil] at hafter htail
    exact (yields_topItem_definition head hafter hline).bind (htail.bind (.pure _ _))

theorem yields_imports {imports : List Tree.Import} (h : Phrase.Many Phrase.Import ts imports)
    (hrest : rest = [] ∨ Phrase.Opens rest) :
    Yields (many importDecl) (ts ++ rest) imports rest := by
  have himport : NotAt (.keyword .importWord) rest := by
    obtain rfl | hopens := hrest
    · exact notAt_nil _
    · exact notAt_import hopens
  refine yields_many (fun _ => True) ?_ ?_ ((yields_nextIf_none himport).bind (.pure _ _)) trivial h
  · rintro _ _ rest ⟨⟩ -
    refine (yields_keyword? .importWord _ _).bind ((yields_nextIf rfl _).bind ?_)
    exact (yields_mark .semicolon _ _).bind (.pure _ _)
  · rintro _ _ _ ⟨⟩
    simp

theorem yields_fileBody {modules : List Tree.Module} (h : Phrase.FileBody ts modules) :
    Yields Grammar.modules ts modules [] := by
  cases h with
  | modules body => exact yields_modules body
  | loose start body => exact yields_looseModule start body

theorem yields_file {tree : Tree} (h : Phrase.File ts tree) : Yields file ts tree [] := by
  cases h with
  | mk head body =>
    exact (yields_imports head body.eq_nil_or_opens).bind ((yields_fileBody body).bind (.pure _ _))

end Grammar

/-- Every file is read, as the tree that it stands for. -/
theorem Tree.ofTokens_of_file {tokens : List Token} {tree : Tree} (h : Phrase.File tokens tree) :
    Tree.ofTokens tokens = .ok tree := by
  obtain ⟨c, hrun, hc⟩ := Grammar.yields_file h (.ofTokens tokens) rfl
  simp only [Tree.ofTokens, hrun, Cursor.peek, hc, List.head?_nil]

end WireSchema
