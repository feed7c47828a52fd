import WireSchema.Grammar.Fault

/-!
# Cursors

A cursor is a place in a list of tokens: the tokens passed, latest first, and those ahead.
Operations look ahead or move forward; `Cursor.Advances` says that one cursor is reached from
another by passing tokens. An operation that does not find what it asks for leaves the cursor where
it is.
-/

namespace WireSchema

/-- A place in a list of tokens. -/
structure Cursor where
  /-- The tokens before the place, latest first. -/
  passed : List Token
  /-- The tokens after the place. -/
  ahead : List Token
  deriving DecidableEq, Repr

namespace Cursor

/-- The place before the first token. -/
def ofTokens (tokens : List Token) : Cursor :=
  ⟨[], tokens⟩

/-- The whole list. -/
def tokens (c : Cursor) : List Token :=
  c.passed.reverse ++ c.ahead

/-- How many tokens have been passed. -/
def index (c : Cursor) : Nat :=
  c.passed.length

/-- The next token. -/
def peek (c : Cursor) : Option Token :=
  c.ahead.head?

/-- The token `n` places after the next. -/
def peekAt (c : Cursor) (n : Nat) : Option Token :=
  c.ahead[n]?

/-- The line of the next token; at the end the line of the last token, or 1 if there is none. -/
def line (c : Cursor) : UInt32 :=
  match c.ahead, c.passed with
  | t :: _, _ => t.line
  | [], t :: _ => t.line
  | [], [] => 1

/-- Whether the next token is of the sort of `s`. -/
def testIf (s : Symbol) (c : Cursor) : Bool :=
  match c.ahead with
  | t :: _ => t.symbol.sameSort s
  | [] => false

/-- Whether the next tokens are of the sorts of `ss`, one by one. -/
def testIfAll : List Symbol → List Token → Bool
  | [], _ => true
  | s :: ss, t :: ts => t.symbol.sameSort s && testIfAll ss ts
  | _ :: _, [] => false

/-- Passes `n` tokens, or all if there are fewer. -/
def skip (n : Nat) (c : Cursor) : Cursor :=
  ⟨(c.ahead.take n).reverse ++ c.passed, c.ahead.drop n⟩

/-- Passes the next token. -/
def next (c : Cursor) : Option Token × Cursor :=
  match c.ahead with
  | t :: rest => (some t, ⟨t :: c.passed, rest⟩)
  | [] => (none, c)

/-- Passes the next token if `f` accepts it. -/
def nextIfSome {α : Type} (f : Token → Option α) (c : Cursor) : Option α × Cursor :=
  match c.ahead with
  | t :: rest =>
    match f t with
    | some a => (some a, ⟨t :: c.passed, rest⟩)
    | none => (none, c)
  | [] => (none, c)

/-- Passes the next token if it is of the sort of `s`. -/
def nextIf (s : Symbol) (c : Cursor) : Option Token × Cursor :=
  c.nextIfSome fun t => if t.symbol.sameSort s then some t else none

/-- Passes the next token if it is an identifier, and gives its name and line. -/
def nextIfIdentifier (c : Cursor) : Option (String × UInt32) × Cursor :=
  c.nextIfSome fun
    | ⟨line, .identifier name⟩ => some (name, line)
    | _ => none

/-- Passes the next token, which must be of the sort of `s`. -/
def expect (s : Symbol) (c : Cursor) : Except GrammarFault Token × Cursor :=
  match c.nextIf s with
  | (some t, c') => (.ok t, c')
  | (none, _) => (.error ⟨c.line, .expected [s] (c.peek.map Token.symbol)⟩, c)

/-- Passes the next tokens if they are of the sorts of `ss`, one by one. -/
def nextIfAll (ss : List Symbol) (c : Cursor) : Option (List Token) × Cursor :=
  if testIfAll ss c.ahead then (some (c.ahead.take ss.length), c.skip ss.length) else (none, c)

/-! ## Moving forward -/

/-- One cursor is reached from another by passing tokens. -/
def Advances (c c' : Cursor) : Prop :=
  ∃ read, c.ahead = read ++ c'.ahead ∧ c'.passed = read.reverse ++ c.passed

theorem Advances.refl (c : Cursor) : c.Advances c :=
  ⟨[], rfl, rfl⟩

theorem Advances.trans {a b c : Cursor} (h₁ : a.Advances b) (h₂ : b.Advances c) : a.Advances c := by
  obtain ⟨r₁, ha, hb⟩ := h₁
  obtain ⟨r₂, hb', hc⟩ := h₂
  exact ⟨r₁ ++ r₂, by rw [ha, hb', List.append_assoc],
    by rw [hc, hb, List.reverse_append, List.append_assoc]⟩

theorem Advances.tokens_eq {a b : Cursor} (h : a.Advances b) : b.tokens = a.tokens := by
  obtain ⟨r, ha, hb⟩ := h
  simp [tokens, ha, hb]

theorem advances_skip (n : Nat) (c : Cursor) : c.Advances (c.skip n) :=
  ⟨c.ahead.take n, (List.take_append_drop n c.ahead).symm, rfl⟩

theorem advances_next (c : Cursor) : c.Advances c.next.2 := by
  unfold next
  split
  · rename_i t rest h
    exact ⟨[t], h, rfl⟩
  · exact .refl c

theorem advances_nextIfSome {α : Type} (f : Token → Option α) (c : Cursor) :
    c.Advances (c.nextIfSome f).2 := by
  unfold nextIfSome
  split
  · rename_i t rest h
    split
    · exact ⟨[t], h, rfl⟩
    · exact .refl c
  · exact .refl c

theorem advances_nextIf (s : Symbol) (c : Cursor) : c.Advances (c.nextIf s).2 :=
  advances_nextIfSome _ c

theorem advances_nextIfIdentifier (c : Cursor) : c.Advances c.nextIfIdentifier.2 :=
  advances_nextIfSome _ c

theorem advances_expect (s : Symbol) (c : Cursor) : c.Advances (c.expect s).2 := by
  have h := advances_nextIf s c
  unfold expect
  split
  · rename_i heq
    rwa [heq] at h
  · exact .refl c

theorem advances_nextIfAll (ss : List Symbol) (c : Cursor) : c.Advances (c.nextIfAll ss).2 := by
  unfold nextIfAll
  split
  · exact advances_skip _ c
  · exact .refl c

end Cursor

end WireSchema
