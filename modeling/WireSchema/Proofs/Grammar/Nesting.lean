import WireSchema.Proofs.Grammar.Phrase

/-!
# Types from the outside in

A type is read in one pass: first the openings of the arrays written around it, then the plain type
inside, then its suffixes, with a closing bracket and more suffixes for each array that is open.
`Phrase.AnyType` nests types one inside the other. The two descriptions have the same tokens
(`Phrase.anyType_iff`).
-/

namespace WireSchema.Phrase

open Grammar (TypeSuffix)

variable {α : Type} {P : Phrase α} {n : Nat} {t u : TypeExpr} {ts os ps ss : List Token}
  {suffixes : List TypeSuffix} {lines : List UInt32}

/-- The start of an array written around its elements, with its line. -/
inductive ArrayOpening : Phrase UInt32 where
  | mk {l₁ l₂ : UInt32} : ArrayOpening [⟨l₁, .identifier "array"⟩, ⟨l₂, .punct .langle⟩] l₁

/-- What may follow a type. -/
inductive Suffix : Phrase TypeSuffix where
  | array {l₁ l₂ : UInt32} : Suffix [⟨l₁, .punct .lbracket⟩, ⟨l₂, .punct .rbracket⟩] .array
  | request {line : UInt32} : Suffix [⟨line, .punct .amp⟩] .request

/-- What follows a type inside `n` open arrays, and the type that comes out. -/
inductive TypeTail : Nat → TypeExpr → Phrase TypeExpr where
  | done {t : TypeExpr} {ss : List Token} {suffixes : List TypeSuffix}
    (follow : Many Suffix ss suffixes) : TypeTail 0 t ss (suffixes.foldl TypeSuffix.apply t)
  | close {n : Nat} {line : UInt32} {t u : TypeExpr} {ss ts : List Token}
    {suffixes : List TypeSuffix}
    (follow : Many Suffix ss suffixes)
    (rest : TypeTail n (.array (suffixes.foldl TypeSuffix.apply t)) ts u) :
    TypeTail (n + 1) t (ss ++ ⟨line, .punct .rangle⟩ :: ts) u

/-! ## Extending a tail -/

theorem TypeTail.suffix {suffix : TypeSuffix} (h : TypeTail n t ts u) (hs : Suffix ss suffix) :
    TypeTail n t (ts ++ ss) (suffix.apply u) := by
  induction h with
  | @done t _ suffixes follow =>
    have key := TypeTail.done (t := t) (follow.append (.single hs))
    rwa [List.foldl_append] at key
  | close follow _ ih =>
    rw [List.append_assoc]
    exact .close follow ih

theorem TypeTail.closing (h : TypeTail n t ts u) (line : UInt32) :
    TypeTail (n + 1) t (ts ++ [⟨line, .punct .rangle⟩]) (.array u) := by
  induction h with
  | done follow => exact .close follow (.done .nil)
  | close follow _ ih =>
    rw [List.append_assoc]
    exact .close follow ih

/-! ## Both descriptions have the same tokens -/

/-- A type from the outside in. -/
def Nested : Phrase TypeExpr := fun ts u =>
  ∃ os lines ps t tail, ts = os ++ (ps ++ tail) ∧ Many ArrayOpening os lines ∧ PlainType ps t ∧
    TypeTail lines.length t tail u

theorem AnyType.nested (h : AnyType ts u) : Nested ts u := by
  induction h with
  | @plain ts t plain => exact ⟨[], [], ts, t, [], by simp, .nil, plain, .done .nil⟩
  | @arrayOf l₁ l₂ l₃ ts u _ ih =>
    obtain ⟨os, lines, ps, t, tail, rfl, hos, hps, htail⟩ := ih
    refine ⟨_, l₁ :: lines, ps, t, tail ++ [⟨l₃, .punct .rangle⟩], ?_,
      .cons (@ArrayOpening.mk l₁ l₂) hos, hps, htail.closing l₃⟩
    simp
  | @array l₁ l₂ ts u _ ih =>
    obtain ⟨os, lines, ps, t, tail, rfl, hos, hps, htail⟩ := ih
    refine ⟨os, lines, ps, t, _, ?_, hos, hps, htail.suffix (@Suffix.array l₁ l₂)⟩
    simp
  | @request line ts u _ ih =>
    obtain ⟨os, lines, ps, t, tail, rfl, hos, hps, htail⟩ := ih
    refine ⟨os, lines, ps, t, _, ?_, hos, hps, htail.suffix (@Suffix.request line)⟩
    simp

theorem AnyType.suffix {suffix : TypeSuffix} (h : AnyType ts t) (hs : Suffix ss suffix) :
    AnyType (ts ++ ss) (suffix.apply t) := by
  cases hs with
  | array => exact .array h
  | request => exact .request h

theorem AnyType.withSuffixes (h : AnyType ts t) (hs : Many Suffix ss suffixes) :
    AnyType (ts ++ ss) (suffixes.foldl TypeSuffix.apply t) := by
  induction hs generalizing ts t with
  | nil => simpa using h
  | cons head _ ih =>
    rw [← List.append_assoc]
    exact ih (h.suffix head)

/-- The last of several phrases. -/
theorem Many.exists_last {as : List α} (h : Many P ts as) (hn : as.length = n + 1) :
    ∃ front back fronts last, ts = front ++ back ∧ Many P front fronts ∧ P back last ∧
      fronts.length = n := by
  induction h generalizing n with
  | nil => simp at hn
  | @cons ts ts' a as head tail ih =>
    cases tail with
    | nil => exact ⟨[], ts, [], a, by simp, .nil, head, by simpa [eq_comm] using hn⟩
    | cons head' tail' =>
      cases n with
      | zero => simp at hn
      | succ n =>
        obtain ⟨front, back, fronts, last, heq, hfront, hlast, hlen⟩ := ih (by simpa using hn)
        refine ⟨ts ++ front, back, a :: fronts, last, ?_, .cons head hfront, hlast, by simp [hlen]⟩
        rw [heq, List.append_assoc]

/-- Closes the arrays around a type, innermost first. -/
theorem AnyType.tail (h : AnyType ps t) (hos : Many ArrayOpening os lines)
    (htail : TypeTail n t ts u) (hn : lines.length = n) : AnyType (os ++ (ps ++ ts)) u := by
  induction htail generalizing os lines ps with
  | done follow =>
    obtain rfl := List.length_eq_zero_iff.1 hn
    cases hos
    exact h.withSuffixes follow
  | @close n line t u ss ts suffixes follow _ ih =>
    obtain ⟨front, back, fronts, last, rfl, hfront, hback, hlen⟩ := hos.exists_last hn
    obtain @⟨_, l₂⟩ := hback
    have harray := @AnyType.arrayOf last l₂ line _ _ (h.withSuffixes follow)
    have key := ih harray hfront hlen
    simpa using key

theorem anyType_iff : AnyType ts u ↔ Nested ts u := by
  constructor
  · exact AnyType.nested
  · rintro ⟨os, lines, ps, t, tail, rfl, hos, hps, htail⟩
    exact (AnyType.plain hps).tail hos htail rfl

end WireSchema.Phrase
