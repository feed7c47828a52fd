import WireSchema.Fault

/-!
# Resolving kinds

While the declarations of a module are resolved, every kind that is found is noted in a map under
its spec. `Resolving` is a computation with such a map. That its value does not depend on what was
noted before is part of the computation, so values can be followed without the map.
-/

namespace WireSchema.Module

/-- A computation that notes kinds; its value does not depend on those noted before. -/
structure Resolving (α : Type) where
  run : SortedMap Kind → Except BuildFault (α × SortedMap Kind)
  steady : ∀ used used', (run used).map Prod.fst = (run used').map Prod.fst

namespace Resolving

variable {α β : Type}

/-- Notes nothing. -/
protected def pure (a : α) : Resolving α where
  run used := .ok (a, used)
  steady _ _ := rfl

/-- Goes on with what was noted. -/
protected def bind (x : Resolving α) (f : α → Resolving β) : Resolving β where
  run used :=
    match x.run used with
    | .ok (a, used) => (f a).run used
    | .error e => .error e
  steady used used' := by
    have h := x.steady used used'
    cases hrun : x.run used with
    | error e =>
      cases hrun' : x.run used' with
      | error e' => simpa [hrun, hrun', Except.map] using h
      | ok r' => simp [hrun, hrun', Except.map] at h
    | ok r =>
      cases hrun' : x.run used' with
      | error e' => simp [hrun, hrun', Except.map] at h
      | ok r' =>
        have hvalue : r.1 = r'.1 := by simpa [hrun, hrun', Except.map] using h
        simpa only [hvalue] using (f r'.1).steady r.2 r'.2

instance : Monad Resolving where
  pure := Resolving.pure
  bind := Resolving.bind

/-- A computation that knows no kinds. -/
def lift (x : Except BuildFault α) : Resolving α where
  run used := x.map fun a => (a, used)
  steady _ _ := by cases x <;> rfl

instance : MonadLift (Except BuildFault) Resolving where
  monadLift := lift

def fail (fault : BuildFault) : Resolving α :=
  lift (.error fault)

/-- Notes a kind and gives it. -/
def note (k : Kind) : Resolving Kind where
  run used := .ok (k, used.insert k.spec k)
  steady _ _ := rfl

end Resolving

end WireSchema.Module
