set_option autoImplicit false

/-!
# Texts

Everything the program reads and writes is a `Text`, the list of its characters. The file
holds the two ways in which texts are put together: `joinWith`, which puts a separator between
neighbours, and `spaced`, which joins with single spaces and drops what is empty. `spaced` is
how an expanded template is assembled. The other way round, `splitAt` cuts a text at separators.
-/

namespace SqlTemplate

/-- A text is the list of its characters. -/
abbrev Text := List Char

namespace Text

/-- The texts one after another, with `separator` between neighbours. -/
def joinWith (separator : Text) : List Text → Text
  | [] => []
  | t :: ts => t ++ ts.flatMap (separator ++ ·)

/-- The texts one after another, with one space between neighbours. -/
def unwords (ts : List Text) : Text := joinWith [' '] ts

/-- The non-empty ones among the texts, with one space between neighbours. -/
def spaced (ts : List Text) : Text := unwords (ts.filter fun t => !t.isEmpty)

/-- The pieces of a text between its separators, empty ones included. -/
def splitAt (separates : Char → Bool) : Text → List Text
  | [] => [[]]
  | c :: rest =>
      if separates c then [] :: splitAt separates rest
      else
        match splitAt separates rest with
        | [] => [[c]]
        | p :: ps => (c :: p) :: ps

@[simp] theorem joinWith_nil (s : Text) : joinWith s [] = [] := rfl

@[simp] theorem joinWith_singleton (s t : Text) : joinWith s [t] = t := by
  simp [joinWith]

theorem joinWith_cons_cons (s t u : Text) (ts : List Text) :
    joinWith s (t :: u :: ts) = t ++ s ++ joinWith s (u :: ts) := by
  simp [joinWith]

theorem splitAt_ne_nil (f : Char → Bool) (t : Text) : splitAt f t ≠ [] := by
  cases t with
  | nil => simp [splitAt]
  | cons c rest =>
      simp only [splitAt]
      split
      · simp
      · split <;> simp

/-- A separator separates the pieces before it from the pieces after it. -/
theorem splitAt_append_cons (f : Char → Bool) (a b : Text) (c : Char) (hc : f c = true) :
    splitAt f (a ++ c :: b) = splitAt f a ++ splitAt f b := by
  induction a with
  | nil => simp [splitAt, hc]
  | cons d a ih =>
      simp only [List.cons_append, splitAt, ih]
      split
      · rfl
      · cases h : splitAt f a with
        | nil => exact absurd h (splitAt_ne_nil f a)
        | cons p ps => rfl

end Text

end SqlTemplate
