import WireSchema.Token.Cursor

/-!
# Grammar rules

A rule reads a phrase at a cursor. It fails, or gives a value and the cursor after the phrase; that
the cursor only moves forward is part of the rule, so repetition ends because tokens run out.
-/

namespace WireSchema

/-- A reader of phrases that only moves forward. -/
structure Rule (α : Type) where
  run : Cursor → Except GrammarFault (α × Cursor)
  advances : ∀ {c c' : Cursor} {a : α}, run c = .ok (a, c') → c.Advances c'

namespace Rule

variable {α β : Type}

/-- Reads nothing. -/
protected def pure (a : α) : Rule α where
  run c := .ok (a, c)
  advances h := by
    simp only [Except.ok.injEq, Prod.mk.injEq] at h
    exact h.2 ▸ .refl _

/-- Reads one phrase and then another that may depend on it. -/
protected def bind (p : Rule α) (f : α → Rule β) : Rule β where
  run c :=
    match p.run c with
    | .ok (a, c') => (f a).run c'
    | .error e => .error e
  advances h := by
    split at h
    · exact (p.advances ‹_›).trans ((f _).advances h)
    · simp at h

instance : Monad Rule where
  pure := Rule.pure
  bind := Rule.bind

theorem run_bind (p : Rule α) (f : α → Rule β) (c : Cursor) :
    (p >>= f).run c =
      match p.run c with
      | .ok (a, c') => (f a).run c'
      | .error e => .error e :=
  rfl

/-- Fails and blames the given line. -/
def fail (line : UInt32) (cause : GrammarCause) : Rule α where
  run _ := .error ⟨line, cause⟩
  advances h := by simp at h

/-- Looks at the cursor without moving it. -/
def look (f : Cursor → α) : Rule α where
  run c := .ok (f c, c)
  advances h := by
    simp only [Except.ok.injEq, Prod.mk.injEq] at h
    exact h.2 ▸ .refl _

/-- A move of the cursor as a rule. -/
def move (f : Cursor → α × Cursor) (hf : ∀ c : Cursor, c.Advances (f c).2) : Rule α where
  run c := .ok (f c)
  advances {c _ _} h := by
    have hc := hf c
    simp only [Except.ok.injEq] at h
    rwa [h] at hc

/-- The line of the next token. -/
def line : Rule UInt32 :=
  look Cursor.line

/-- The symbol of the next token. -/
def peek : Rule (Option Symbol) :=
  look fun c => c.peek.map Token.symbol

/-- Passes the next token. -/
def next : Rule (Option Token) :=
  move Cursor.next Cursor.advances_next

/-- Passes the next token if it is of the sort of `s`. -/
def nextIf (s : Symbol) : Rule (Option Token) :=
  move (Cursor.nextIf s) (Cursor.advances_nextIf s)

/-- Passes the next token if it is the given mark. -/
def mark? (p : Punct) : Rule (Option Token) :=
  nextIf (.punct p)

/-- Passes the next token if it is the given keyword. -/
def keyword? (k : Keyword) : Rule (Option Token) :=
  nextIf (.keyword k)

/-- Passes the next token if it is an identifier. -/
def identifier? : Rule (Option (String × UInt32)) :=
  move Cursor.nextIfIdentifier Cursor.advances_nextIfIdentifier

/-- Passes the next tokens if they are of the given sorts. -/
def nextIfAll (ss : List Symbol) : Rule (Option (List Token)) :=
  move (Cursor.nextIfAll ss) (Cursor.advances_nextIfAll ss)

/-- Passes the next token, which must be of the sort of `s`. -/
def expect (s : Symbol) : Rule Token where
  run c :=
    match c.expect s with
    | (.ok t, c') => .ok (t, c')
    | (.error e, _) => .error e
  advances {c _ _} h := by
    have hc := Cursor.advances_expect s c
    split at h
    · rename_i heq
      simp only [Except.ok.injEq, Prod.mk.injEq] at h
      rw [heq, h.2] at hc
      exact hc
    · simp at h

/-- Passes the given mark. -/
def mark (p : Punct) : Rule Token :=
  expect (.punct p)

/-! ## Repetition -/

/-- One turn of a repetition: nothing more, a last item, or an item with more to come. -/
inductive Turn (α : Type) where
  | stop
  | last (item : α)
  | more (item : α)

/-- Takes turns from a cursor on, and collects the items. A turn that promises more has to pass a
token, or it is the last. -/
def collectFrom (turn : Rule (Turn α)) (c : Cursor) : Except GrammarFault (List α × Cursor) :=
  match turn.run c with
  | .error e => .error e
  | .ok (.stop, c') => .ok ([], c')
  | .ok (.last a, c') => .ok ([a], c')
  | .ok (.more a, c') =>
    if c'.ahead.length < c.ahead.length then
      match collectFrom turn c' with
      | .error e => .error e
      | .ok (items, c'') => .ok (a :: items, c'')
    else .ok ([a], c')
termination_by c.ahead.length

theorem collectFrom_advances {turn : Rule (Turn α)} {c c' : Cursor} {items : List α}
    (h : collectFrom turn c = .ok (items, c')) : c.Advances c' := by
  fun_induction collectFrom turn c generalizing items c' with
  | case1 => simp at h
  | case2 c c₁ h₁ =>
    simp only [Except.ok.injEq, Prod.mk.injEq] at h
    exact h.2 ▸ turn.advances h₁
  | case3 c a c₁ h₁ =>
    simp only [Except.ok.injEq, Prod.mk.injEq] at h
    exact h.2 ▸ turn.advances h₁
  | case4 => simp at h
  | case5 c a c₁ h₁ _ items c₂ h₂ ih =>
    simp only [Except.ok.injEq, Prod.mk.injEq] at h
    exact (turn.advances h₁).trans (h.2 ▸ ih h₂)
  | case6 c a c₁ h₁ =>
    simp only [Except.ok.injEq, Prod.mk.injEq] at h
    exact h.2 ▸ turn.advances h₁

/-- Takes turns until one stops, and collects the items. -/
def collect (turn : Rule (Turn α)) : Rule (List α) where
  run := collectFrom turn
  advances := collectFrom_advances

/-- Reads items as long as there are any. -/
def many (item : Rule (Option α)) : Rule (List α) :=
  collect do
    match ← item with
    | some a => return .more a
    | none => return .stop

/-- Closes a turn: there is more to come after a comma. -/
def afterComma (a : α) : Rule (Turn α) := do
  match ← mark? .comma with
  | some _ => return .more a
  | none => return .last a

end Rule

end WireSchema
