import SqlTemplate.Text

set_option autoImplicit false

/-!
# Nested calls

The stages of an expansion go down trees and values by calls inside calls, and the interpreter that
they run in lets only so many calls stand inside one another. So it belongs to what a stage does how
deeply it nests its calls. The file says how many fit, and holds results that come with the number
of calls in which they were found (`Counted`).
-/

namespace SqlTemplate

namespace Stack

/-- How many calls the interpreter lets stand inside one another, unless it is told otherwise. -/
def limit : Nat := 1000

/-- How many of them are kept for what is not counted: the calls that lead to a stage, and the short
ones of the helpers that are called at its bottom. -/
def reserve : Nat := 20

/-- How many calls a stage can nest. -/
def room : Nat := limit - reserve

/-- What is reported to the user when there is no room for another call. -/
def exhaustedMessage : Text := "maximum recursion depth exceeded".toList

end Stack

/-- A result or an error, and how deeply the calls were nested in which it was found. Calls that an
error kept from being made do not count. -/
structure Counted (ε α : Type) where
  result : Except ε α
  calls : Nat

namespace Counted

variable {ε α β : Type}

/-- A result that one call finds. -/
def leaf (a : α) : Counted ε α := ⟨.ok a, 1⟩

/-- An error that one call finds. -/
def fail (e : ε) : Counted ε α := ⟨.error e, 1⟩

/-- The same result, found inside more calls. -/
def within (calls : Nat) (c : Counted ε α) : Counted ε α := ⟨c.result, calls + c.calls⟩

/-- Results that are found one after another need as many calls as the one that needs more. -/
instance : Monad (Counted ε) where
  pure a := ⟨.ok a, 0⟩
  bind c f :=
    match c.result with
    | .error e => ⟨.error e, c.calls⟩
    | .ok a => ⟨(f a).result, max c.calls (f a).calls⟩

@[simp] theorem result_leaf (a : α) : (leaf a : Counted ε α).result = .ok a := rfl

@[simp] theorem result_within (calls : Nat) (c : Counted ε α) :
    (c.within calls).result = c.result := rfl

@[simp] theorem result_pure (a : α) : (pure a : Counted ε α).result = .ok a := rfl

@[simp] theorem result_bind (c : Counted ε α) (f : α → Counted ε β) :
    (c >>= f).result = c.result >>= fun a => (f a).result := by
  simp only [bind, Except.bind]
  cases c.result <;> rfl

@[simp] theorem result_map (f : α → β) (c : Counted ε α) : (f <$> c).result = c.result.map f := by
  simp only [Functor.map, Except.map, Function.comp]
  cases c.result <;> rfl

@[simp] theorem calls_leaf (a : α) : (leaf a : Counted ε α).calls = 1 := rfl

@[simp] theorem calls_within (calls : Nat) (c : Counted ε α) :
    (c.within calls).calls = calls + c.calls := rfl

@[simp] theorem calls_pure (a : α) : (pure a : Counted ε α).calls = 0 := rfl

theorem calls_bind_of_ok {c : Counted ε α} {a : α} (h : c.result = .ok a) (f : α → Counted ε β) :
    (c >>= f).calls = max c.calls (f a).calls := by
  simp only [bind, h]

end Counted

end SqlTemplate
