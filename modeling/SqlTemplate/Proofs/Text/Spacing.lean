import SqlTemplate.Text

set_option autoImplicit false

/-! # Spaced texts

`Text.spaced` drops the empty texts and puts single spaces between the others. Texts can be spaced
in groups first and the groups afterwards: the outcome is the same as when all are spaced at once
(`Text.spaced_append`). A text that is put together at many levels is therefore determined by its
words alone.
-/

namespace SqlTemplate

namespace Text

@[simp] theorem spaced_nil : spaced [] = [] := rfl

@[simp] theorem spaced_singleton (t : Text) : spaced [t] = t := by
  cases t with
  | nil => rfl
  | cons c t => simp [spaced, unwords]

/-- What two texts are when they are spaced. -/
theorem spaced_pair (t u : Text) :
    spaced [t, u] = if t = [] then u else if u = [] then t else t ++ ' ' :: u := by
  cases t with
  | nil => exact spaced_singleton u
  | cons c t =>
      cases u with
      | nil => simp [spaced, unwords]
      | cons d u => simp [spaced, unwords, joinWith]

/-- A text that is not empty is not lost among the others. -/
theorem unwords_cons_ne_nil {t : Text} (ht : t ≠ []) (ts : List Text) : unwords (t :: ts) ≠ [] := by
  simp [unwords, joinWith, ht]

theorem spaced_cons (t : Text) (ts : List Text) : spaced (t :: ts) = spaced [t, spaced ts] := by
  rw [spaced_pair]
  by_cases ht : t = []
  · subst ht
    rfl
  · have hcons : spaced (t :: ts) = unwords (t :: ts.filter fun u => !u.isEmpty) := by
      simp [spaced, ht]
    rw [if_neg ht, hcons, spaced]
    cases h : ts.filter fun u => !u.isEmpty with
    | nil => simp [unwords]
    | cons u us =>
        -- what is left of `ts` starts with a text that is not empty, so it is not empty
        have hu : u ≠ [] := by
          have hmem : u ∈ ts.filter fun u => !u.isEmpty := h ▸ List.mem_cons_self ..
          simpa using (List.mem_filter.mp hmem).2
        rw [if_neg (unwords_cons_ne_nil hu us)]
        simp [unwords, joinWith_cons_cons]

/-- Three texts may be spaced from the left or from the right. -/
theorem spaced_pair_assoc (t u v : Text) :
    spaced [spaced [t, u], v] = spaced [t, spaced [u, v]] := by
  simp only [spaced_pair]
  by_cases ht : t = []
  · simp [ht]
  · by_cases hu : u = []
    · simp [ht, hu]
    · by_cases hv : v = []
      · simp [ht, hu, hv]
      · simp [ht, hu, hv]

/-- **Spacing in groups** is spacing at once. -/
theorem spaced_append (a b : List Text) : spaced (a ++ b) = spaced [spaced a, spaced b] := by
  induction a with
  | nil => rw [List.nil_append, spaced_nil, spaced_pair, if_pos rfl]
  | cons t ts ih =>
      calc spaced (t :: ts ++ b) = spaced [t, spaced (ts ++ b)] := spaced_cons t (ts ++ b)
        _ = spaced [t, spaced [spaced ts, spaced b]] := by rw [ih]
        _ = spaced [spaced [t, spaced ts], spaced b] := (spaced_pair_assoc _ _ _).symm
        _ = spaced [spaced (t :: ts), spaced b] := by rw [spaced_cons t ts]

end Text

end SqlTemplate
