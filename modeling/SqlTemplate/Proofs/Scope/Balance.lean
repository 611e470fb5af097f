import SqlTemplate.Proofs.Scope.Words

set_option autoImplicit false

/-! # Delimiters in words

How the delimiters in a row of words go together is a matter of counting. Words that never close
more scopes than they open stay inside the scope that they start in (`Words.Stays`), and when they
open and close equally many they are back in that scope itself (`Words.Balanced`). Words for which
both hold are paired (`Words.Paired`); the words of pieces are (`Words.paired_words`).
-/

namespace SqlTemplate

namespace Words

/-- How many scopes the words open. -/
def opened (ws : List Text) : Nat := ws.count Keyword.scopeOpen.text

/-- How many scopes the words close. -/
def closed (ws : List Text) : Nat := ws.count Keyword.scopeClose.text

/-- Whether the words stay inside the scope that they start in: at no point more scopes have been
closed than opened. -/
def Stays (ws : List Text) : Prop := ∀ k, closed (ws.take k) ≤ opened (ws.take k)

/-- Whether the words close as many scopes as they open. -/
def Balanced (ws : List Text) : Prop := opened ws = closed ws

/-- Whether every delimiter among the words belongs to another one among them. -/
structure Paired (ws : List Text) : Prop where
  stays : Stays ws
  balanced : Balanced ws

/-! ## Counting -/

@[simp] theorem opened_nil : opened [] = 0 := rfl

@[simp] theorem closed_nil : closed [] = 0 := rfl

@[simp] theorem opened_append (a b : List Text) : opened (a ++ b) = opened a + opened b :=
  List.count_append

@[simp] theorem closed_append (a b : List Text) : closed (a ++ b) = closed a + closed b :=
  List.count_append

@[simp] theorem opened_open_cons (ws : List Text) :
    opened (Keyword.scopeOpen.text :: ws) = opened ws + 1 := List.count_cons_self

@[simp] theorem closed_close_cons (ws : List Text) :
    closed (Keyword.scopeClose.text :: ws) = closed ws + 1 := List.count_cons_self

@[simp] theorem opened_close_cons (ws : List Text) :
    opened (Keyword.scopeClose.text :: ws) = opened ws := List.count_cons_of_ne (by decide)

@[simp] theorem closed_open_cons (ws : List Text) :
    closed (Keyword.scopeOpen.text :: ws) = closed ws := List.count_cons_of_ne (by decide)

theorem opened_cons_of_not_isDelimiter {w : Text} (hw : ¬ IsDelimiter w) (ws : List Text) :
    opened (w :: ws) = opened ws := List.count_cons_of_ne fun h => hw (Or.inl h)

theorem closed_cons_of_not_isDelimiter {w : Text} (hw : ¬ IsDelimiter w) (ws : List Text) :
    closed (w :: ws) = closed ws := List.count_cons_of_ne fun h => hw (Or.inr h)

/-! ## Staying inside a scope -/

instance (ws : List Text) : Decidable (Stays ws) :=
  decidable_of_iff (∀ k < ws.length + 1, closed (ws.take k) ≤ opened (ws.take k)) (by
    constructor
    · intro h k
      by_cases hk : k ≤ ws.length
      · exact h k (by omega)
      · have hall := h ws.length (by omega)
        rw [List.take_length] at hall
        rw [List.take_of_length_le (by omega)]
        exact hall
    · exact fun h k _ => h k)

instance (ws : List Text) : Decidable (Balanced ws) := inferInstanceAs (Decidable (_ = _))

theorem Stays.closed_le {ws : List Text} (h : Stays ws) : closed ws ≤ opened ws := by
  have hall := h ws.length
  rwa [List.take_length] at hall

theorem Stays.left {a b : List Text} (h : Stays (a ++ b)) : Stays a := by
  intro k
  have hk := h (min k a.length)
  rw [List.take_append_of_le_length (by omega)] at hk
  by_cases hle : k ≤ a.length
  · rwa [Nat.min_eq_left hle] at hk
  · rw [Nat.min_eq_right (by omega), List.take_length] at hk
    rwa [List.take_of_length_le (by omega)]

theorem Stays.take {ws : List Text} (h : Stays ws) (k : Nat) : Stays (ws.take k) :=
  Stays.left (b := ws.drop k) (by rwa [List.take_append_drop])

theorem Stays.append {a b : List Text} (ha : Stays a) (hb : Stays b) : Stays (a ++ b) := by
  intro k
  have ha := ha k
  have hb := hb (k - a.length)
  rw [List.take_append, closed_append, opened_append]
  omega

/-- Opening a scope is no way out of a scope. -/
theorem Stays.open_cons {ws : List Text} (h : Stays ws) : Stays (Keyword.scopeOpen.text :: ws) := by
  intro k
  cases k with
  | zero => simp
  | succ k =>
      have hk := h k
      rw [List.take_succ_cons, closed_open_cons, opened_open_cons]
      omega

/-- A scope that was opened can be closed. -/
theorem Stays.append_close {ws : List Text} (h : Stays ws) (hlt : closed ws < opened ws) :
    Stays (ws ++ [Keyword.scopeClose.text]) := by
  intro k
  by_cases hk : k ≤ ws.length
  · rw [List.take_append_of_le_length hk]
    exact h k
  · rw [List.take_of_length_le (by simp; omega)]
    simp
    omega

/-- Words that have left the scope open by one cannot be balanced. -/
theorem not_balanced_of_open {a b : List Text} (ha : Stays a) (hb : Stays b) :
    ¬ Balanced (a ++ Keyword.scopeOpen.text :: b) := by
  have ha := ha.closed_le
  have hb := hb.closed_le
  simp only [Balanced, opened_append, closed_append, opened_open_cons, closed_open_cons]
  omega

/-! ## Paired words -/

theorem paired_nil : Paired [] := ⟨fun k => by simp, rfl⟩

theorem Paired.append {a b : List Text} (ha : Paired a) (hb : Paired b) : Paired (a ++ b) := by
  refine ⟨ha.stays.append hb.stays, ?_⟩
  have hca := ha.balanced
  have hcb := hb.balanced
  simp only [Balanced, opened_append, closed_append] at hca hcb ⊢
  omega

theorem paired_singleton {w : Text} (hw : ¬ IsDelimiter w) : Paired [w] := by
  refine ⟨fun k => ?_, ?_⟩
  · cases k with
    | zero => simp
    | succ k => simp [opened_cons_of_not_isDelimiter hw, closed_cons_of_not_isDelimiter hw]
  · simp [Balanced, opened_cons_of_not_isDelimiter hw, closed_cons_of_not_isDelimiter hw]

/-- A scope with its delimiters is paired. -/
theorem Paired.scope {ws : List Text} (h : Paired ws) :
    Paired (Keyword.scopeOpen.text :: ws ++ [Keyword.scopeClose.text]) := by
  have hbalanced := h.balanced
  unfold Balanced at hbalanced
  refine ⟨h.stays.open_cons.append_close ?_, ?_⟩
  · rw [closed_open_cons, opened_open_cons]
    omega
  · simp only [Balanced, opened_append, closed_append, opened_open_cons, closed_open_cons,
      opened_close_cons, closed_close_cons, opened_nil, closed_nil]
    omega

/-- **The words of pieces are paired** when the words in them are no delimiters. -/
theorem paired_words {ps : List Piece} (h : Piece.Undelimited ps) : Paired (Piece.words ps) := by
  induction ps using Piece.scope_induction with
  | scope ps ihscope =>
      induction ps with
      | nil => exact paired_nil
      | cons p ps ih =>
          have ih := ih fun inside hi => ihscope inside (List.mem_cons_of_mem _ hi)
          cases p with
          | word t =>
              rw [Piece.undelimited_word_cons_iff] at h
              exact (paired_singleton h.1).append (ih h.2)
          | scope inside =>
              rw [Piece.undelimited_scope_cons_iff] at h
              exact (ihscope inside (List.mem_cons_self ..) h.1).scope.append (ih h.2)

end Words

end SqlTemplate
