import Mathlib.Data.List.Infix
import SqlTemplate.Proofs.Node.Pieces
import SqlTemplate.Proofs.Scope.Balance
import SqlTemplate.Text.Case

set_option autoImplicit false

/-! # Live words

Which words of a template show in its text can be said without any tree, by what stands in front
of them. A scope that is open at a word is given by its words up to there (`Words.IsOpen`). It is
conditional when its first word is `[if]`; its frame is this word, the predicate behind it, and
the words `[then]` and `[else]` that stand in the scope itself. A word is textual when it is no
delimiter and not in the frame of the innermost scope, and it is live when moreover every
conditional scope around it, at any distance, selects the clause that it stands in (`Words.Live`).

Liveness is local: in a scope that is open, the words of the scope alone decide, given that the
scope itself may show (`Words.live_append_open_iff`).
-/

namespace SqlTemplate

namespace Words

/-! ## What stands around a word -/

/-- Whether `inside` are the words of a scope that is open at the end of `before`. The scope is
that of the whole template or one that was opened there. -/
def IsOpen (inside before : List Text) : Prop :=
  (inside = before ∨ Keyword.scopeOpen.text :: inside <:+ before) ∧ Stays inside

/-- Whether a reserved word stands in the scope itself and not in one nested in it. -/
def HasOwn (k : Keyword) (inside : List Text) : Prop :=
  ∃ i < inside.length, inside[i]? = some k.text ∧ Balanced (inside.take i)

/-- Whether the scope with the words `inside`, followed by the word `w`, is a conditional. -/
def IsConditional (inside : List Text) (w : Text) : Prop :=
  (inside ++ [w]).head? = some Keyword.ifWord.text

/-- Whether the word `w`, standing in a conditional itself behind the words `inside`, belongs to
its frame. -/
def InFrame (inside : List Text) (w : Text) : Prop := inside.length < 2 ∨ w ∈ Node.clauseWords

/-- Whether a word that is put behind `before` is text. -/
def Textual (before : List Text) (w : Text) : Prop :=
  ¬ IsDelimiter w ∧ ∀ inside, IsOpen inside before → Balanced inside → IsConditional inside w →
    ¬ InFrame inside w

/-- Whether the predicate of a conditional reads as a given word in small letters. -/
def Reads (form : Text → Text) (inside : List Text) (value : Text) : Prop :=
  inside[1]?.map (fun q => Text.lower (form q)) = some value

/-- Whether a conditional selects the clause at the end of `inside`: the then clause when its
predicate is true and the else clause when it is false. -/
def Selected (form : Text → Text) (inside : List Text) : Prop :=
  (HasOwn .thenWord inside ∧ ¬ HasOwn .elseWord inside ∧ Reads form inside "true".toList) ∨
    (HasOwn .elseWord inside ∧ Reads form inside "false".toList)

/-- Whether every conditional that is open at the word `w` behind `before` selects the clause
there. -/
def Admitted (form : Text → Text) (before : List Text) (w : Text) : Prop :=
  ∀ inside, IsOpen inside before → IsConditional inside w → Selected form inside

/-- Whether a word is live behind the words `before`. -/
def Live (form : Text → Text) (before : List Text) (w : Text) : Prop :=
  Textual before w ∧ Admitted form before w

/-! ## Computing what is live -/

instance (inside before : List Text) : Decidable (IsOpen inside before) :=
  inferInstanceAs (Decidable (_ ∧ _))

/-- What is said about all open scopes is said about some ends of what stands before. -/
instance (before : List Text) (P : List Text → Prop) [DecidablePred P] :
    Decidable (∀ inside, IsOpen inside before → P inside) :=
  decidable_of_iff (∀ inside ∈ before.tails, IsOpen inside before → P inside) (by
    constructor
    · intro h inside ho
      refine h inside ((List.mem_tails _ _).mpr ?_) ho
      rcases ho.1 with rfl | hs
      · exact List.suffix_refl _
      · exact (List.suffix_cons _ _).trans hs
    · exact fun h inside _ => h inside)

instance (k : Keyword) (inside : List Text) : Decidable (HasOwn k inside) :=
  inferInstanceAs (Decidable (∃ i < _, _))

instance (inside : List Text) (w : Text) : Decidable (IsConditional inside w) :=
  inferInstanceAs (Decidable (_ = _))

instance (inside : List Text) (w : Text) : Decidable (InFrame inside w) :=
  inferInstanceAs (Decidable (_ ∨ _))

instance (before : List Text) (w : Text) : Decidable (Textual before w) :=
  inferInstanceAs (Decidable (_ ∧ _))

instance (form : Text → Text) (inside : List Text) (value : Text) :
    Decidable (Reads form inside value) := inferInstanceAs (Decidable (_ = _))

instance (form : Text → Text) (inside : List Text) : Decidable (Selected form inside) :=
  inferInstanceAs (Decidable (_ ∨ _))

instance (form : Text → Text) (before : List Text) (w : Text) :
    Decidable (Admitted form before w) :=
  inferInstanceAs (Decidable (∀ inside, IsOpen inside before → _))

instance (form : Text → Text) (before : List Text) (w : Text) : Decidable (Live form before w) :=
  inferInstanceAs (Decidable (_ ∧ _))

/-- The live words among words that stand behind `before`. -/
def liveFrom (form : Text → Text) (before : List Text) : List Text → List Text
  | [] => []
  | w :: ws =>
      if Live form before w then w :: liveFrom form (before ++ [w]) ws
      else liveFrom form (before ++ [w]) ws

/-- The live words of a template, given by its words. -/
def liveWords (form : Text → Text) (ws : List Text) : List Text := liveFrom form [] ws

/-! ## Open scopes -/

theorem isOpen_self {before : List Text} (h : Stays before) : IsOpen before before :=
  ⟨Or.inl rfl, h⟩

/-- Behind paired words only the scope itself is open. -/
theorem isOpen_iff_of_paired {before : List Text} (h : Paired before) (inside : List Text) :
    IsOpen inside before ↔ inside = before := by
  constructor
  · rintro ⟨rfl | ⟨outer, hsplit⟩, hstays⟩
    · rfl
    · have houter : Stays outer := Stays.left (hsplit ▸ h.stays)
      exact absurd (hsplit ▸ h.balanced) (not_balanced_of_open houter hstays)
  · rintro rfl
    exact isOpen_self h.stays

/-- Inside a scope that was opened, the open scopes are those around it and those in it. -/
theorem isOpen_append_open_iff {y : List Text} (hy : Stays y) (before inside : List Text) :
    IsOpen inside (before ++ Keyword.scopeOpen.text :: y) ↔
      (∃ x, IsOpen x before ∧ inside = x ++ Keyword.scopeOpen.text :: y) ∨ IsOpen inside y := by
  constructor
  · rintro ⟨rfl | ⟨outer, hsplit⟩, hstays⟩
    · exact Or.inl ⟨before, isOpen_self hstays.left, rfl⟩
    · -- the scope was opened in `before`, by the delimiter in front of `y`, or in `y`
      rcases List.append_eq_append_iff.mp hsplit with ⟨x, rfl, hx⟩ | ⟨z, rfl, hz⟩
      · cases x with
        | nil =>
            obtain ⟨-, rfl⟩ := List.cons.inj hx
            exact Or.inr (isOpen_self hstays)
        | cons v x =>
            obtain ⟨rfl, rfl⟩ := List.cons.inj hx
            exact Or.inl ⟨x, ⟨Or.inr (List.suffix_append _ _), hstays.left⟩, rfl⟩
      · cases z with
        | nil =>
            obtain ⟨-, rfl⟩ := List.cons.inj hz
            exact Or.inr (isOpen_self hstays)
        | cons v z =>
            obtain ⟨-, rfl⟩ := List.cons.inj hz
            exact Or.inr ⟨Or.inr (List.suffix_append _ _), hstays⟩
  · rintro (⟨x, ⟨hx, hstays⟩, rfl⟩ | ⟨hi, hstays⟩)
    · refine ⟨?_, hstays.append hy.open_cons⟩
      rcases hx with rfl | ⟨outer, rfl⟩
      · exact Or.inl rfl
      · exact Or.inr ⟨outer, by simp⟩
    · refine ⟨Or.inr ?_, hstays⟩
      rcases hi with rfl | hi
      · exact List.suffix_append _ _
      · exact hi.trans ((List.suffix_cons _ _).trans (List.suffix_append _ _))

/-! ## Own words -/

/-- What comes later takes no word away from a scope. -/
theorem HasOwn.append {k : Keyword} {x : List Text} (h : HasOwn k x) (y : List Text) :
    HasOwn k (x ++ y) := by
  obtain ⟨i, hi, hw, hbalanced⟩ := h
  refine ⟨i, by rw [List.length_append]; omega, ?_, ?_⟩
  · rwa [List.getElem?_append_left hi]
  · rwa [List.take_append_of_le_length (by omega)]

theorem hasOwn_of_lt {k : Keyword} {x y : List Text} {i : Nat} (hi : i < x.length)
    (hw : (x ++ y)[i]? = some k.text) (hbalanced : Balanced ((x ++ y).take i)) : HasOwn k x := by
  rw [List.getElem?_append_left hi] at hw
  rw [List.take_append_of_le_length (by omega)] at hbalanced
  exact ⟨i, hi, hw, hbalanced⟩

theorem hasOwn_concat_iff (k : Keyword) (inside : List Text) (w : Text) :
    HasOwn k (inside ++ [w]) ↔ HasOwn k inside ∨ (w = k.text ∧ Balanced inside) := by
  constructor
  · rintro ⟨i, hi, hw, hbalanced⟩
    rw [List.length_append, List.length_singleton] at hi
    by_cases hlt : i < inside.length
    · exact Or.inl (hasOwn_of_lt hlt hw hbalanced)
    · obtain rfl : i = inside.length := by omega
      rw [List.take_left] at hbalanced
      exact Or.inr ⟨by simpa using hw, hbalanced⟩
  · rintro (h | ⟨rfl, hbalanced⟩)
    · exact h.append [w]
    · exact ⟨inside.length, by simp, by simp, by rwa [List.take_left]⟩

/-- A nested scope that is open has no part in the words of the scope around it. -/
theorem hasOwn_append_open_iff {k : Keyword} (hk : k ≠ .scopeOpen) {x y : List Text}
    (hx : Stays x) (hy : Stays y) :
    HasOwn k (x ++ Keyword.scopeOpen.text :: y) ↔ HasOwn k x := by
  constructor
  · rintro ⟨i, -, hw, hbalanced⟩
    by_cases hlt : i < x.length
    · exact hasOwn_of_lt hlt hw hbalanced
    · -- behind the delimiter one scope more is open than at the start of `x`
      exfalso
      obtain ⟨j, rfl⟩ : ∃ j, i = x.length + j := ⟨i - x.length, by omega⟩
      cases j with
      | zero =>
          have hopen : Keyword.scopeOpen.text = k.text := by simpa using hw
          exact hk (Keyword.text_injective hopen).symm
      | succ j =>
          rw [List.take_length_add_append, List.take_succ_cons] at hbalanced
          exact not_balanced_of_open hx (hy.take j) hbalanced
  · exact fun h => h.append _

/-! ## Liveness in a scope that is open -/

/-- A conditional with a clause has a predicate. -/
theorem HasOwn.two_le_length {k : Keyword} (hk : k ≠ .ifWord) {x : List Text} (h : HasOwn k x)
    (hif : x.head? = some Keyword.ifWord.text) : 2 ≤ x.length := by
  obtain ⟨i, hi, hw, -⟩ := h
  cases i with
  | zero =>
      rw [List.head?_eq_getElem?, hw] at hif
      exact absurd (Keyword.text_injective (Option.some.inj hif)) hk
  | succ i => omega

theorem reads_append_iff (form : Text → Text) {x : List Text} (hx : 2 ≤ x.length) (y : List Text)
    (value : Text) : Reads form (x ++ y) value ↔ Reads form x value := by
  rw [Reads, List.getElem?_append_left (by omega), Reads]

/-- A clause that was selected stays selected inside the scopes in it. -/
theorem selected_append_open_iff (form : Text → Text) {x y : List Text} (hx : Stays x)
    (hy : Stays y) (hif : x.head? = some Keyword.ifWord.text) :
    Selected form (x ++ Keyword.scopeOpen.text :: y) ↔ Selected form x := by
  unfold Selected
  rw [hasOwn_append_open_iff (by decide) hx hy, hasOwn_append_open_iff (by decide) hx hy]
  -- where there is a clause, the predicate stands before the nested scope
  refine or_congr (and_congr_right fun h => and_congr_right fun _ => ?_)
    (and_congr_right fun h => ?_)
  · exact reads_append_iff form (h.two_le_length (by decide) hif) _ _
  · exact reads_append_iff form (h.two_le_length (by decide) hif) _ _

theorem isConditional_cons_iff (v : Text) (inside : List Text) (w : Text) :
    IsConditional (v :: inside) w ↔ v = Keyword.ifWord.text := by
  simp [IsConditional]

/-- A scope around one that is open is a conditional whatever stands in the inner one. -/
theorem isConditional_append_open_iff (x y : List Text) (w : Text) :
    IsConditional (x ++ Keyword.scopeOpen.text :: y) w ↔ x.head? = some Keyword.ifWord.text := by
  cases x with
  | nil =>
      rw [List.nil_append, isConditional_cons_iff]
      decide
  | cons v x => simp [isConditional_cons_iff]

theorem isConditional_open_iff (x : List Text) :
    IsConditional x Keyword.scopeOpen.text ↔ x.head? = some Keyword.ifWord.text := by
  cases x with
  | nil =>
      simp only [IsConditional, List.nil_append, List.head?_cons]
      decide
  | cons v x => simp [isConditional_cons_iff]

theorem admitted_append_open_iff (form : Text → Text) {y : List Text} (hy : Stays y)
    (before : List Text) (w : Text) :
    Admitted form (before ++ Keyword.scopeOpen.text :: y) w ↔
      Admitted form before Keyword.scopeOpen.text ∧ Admitted form y w := by
  simp only [Admitted, isOpen_append_open_iff hy]
  constructor
  · intro h
    refine ⟨fun x hx hc => ?_, fun inside hi hc => h inside (Or.inr hi) hc⟩
    have hif := (isConditional_open_iff x).mp hc
    exact (selected_append_open_iff form hx.2 hy hif).mp
      (h _ (Or.inl ⟨x, hx, rfl⟩) ((isConditional_append_open_iff x y w).mpr hif))
  · rintro ⟨hbefore, hin⟩ inside (⟨x, hx, rfl⟩ | hi) hc
    · have hif := (isConditional_append_open_iff x y w).mp hc
      exact (selected_append_open_iff form hx.2 hy hif).mpr
        (hbefore x hx ((isConditional_open_iff x).mpr hif))
    · exact hin inside hi hc

theorem textual_append_open_iff {y : List Text} (hy : Stays y) (before : List Text) (w : Text) :
    Textual (before ++ Keyword.scopeOpen.text :: y) w ↔ Textual y w := by
  simp only [Textual, isOpen_append_open_iff hy]
  refine and_congr_right fun _ => ?_
  constructor
  · exact fun h inside hi => h inside (Or.inr hi)
  · rintro h inside (⟨x, hx, rfl⟩ | hi) hbalanced
    · exact absurd hbalanced (not_balanced_of_open hx.2 hy)
    · exact h inside hi hbalanced

/-- **Liveness is local.** A word in a scope that is open is live when it is live in the words of
that scope alone and the conditionals around the scope select the clauses that it stands in. -/
theorem live_append_open_iff (form : Text → Text) {y : List Text} (hy : Stays y)
    (before : List Text) (w : Text) :
    Live form (before ++ Keyword.scopeOpen.text :: y) w ↔
      Admitted form before Keyword.scopeOpen.text ∧ Live form y w := by
  rw [Live, Live, textual_append_open_iff hy, admitted_append_open_iff form hy]
  exact and_left_comm

/-! ## Live words one after another -/

theorem liveFrom_append (form : Text → Text) (before a b : List Text) :
    liveFrom form before (a ++ b) = liveFrom form before a ++ liveFrom form (before ++ a) b := by
  induction a generalizing before with
  | nil => simp [liveFrom]
  | cons w a ih =>
      simp only [List.cons_append, liveFrom, ih, List.append_assoc]
      split <;> rfl

theorem liveFrom_append_open (form : Text → Text) (before : List Text) {y z : List Text}
    (h : Stays (y ++ z)) :
    liveFrom form (before ++ Keyword.scopeOpen.text :: y) z =
      if Admitted form before Keyword.scopeOpen.text then liveFrom form y z else [] := by
  induction z generalizing y with
  | nil => simp [liveFrom]
  | cons w z ih =>
      -- `y` grows by the words that were read, and stays inside the scope
      have hnext := ih (y := y ++ [w]) (by simpa using h)
      simp only [liveFrom, live_append_open_iff form h.left]
      rw [List.append_assoc, List.cons_append, hnext]
      by_cases ha : Admitted form before Keyword.scopeOpen.text
      · simp only [ha, true_and, if_true]
      · simp only [ha, false_and, if_false]

theorem not_live_of_isDelimiter (form : Text → Text) (before : List Text) {w : Text}
    (hw : IsDelimiter w) : ¬ Live form before w := fun h => h.1.1 hw

/-- The live words of a scope are those of its words alone, if the scope can show at all. -/
theorem liveFrom_scope (form : Text → Text) (before : List Text) {y : List Text} (hy : Stays y) :
    liveFrom form before (Keyword.scopeOpen.text :: y ++ [Keyword.scopeClose.text]) =
      if Admitted form before Keyword.scopeOpen.text then liveWords form y else [] := by
  have hopen := not_live_of_isDelimiter form before (Or.inl rfl)
  have hclose := not_live_of_isDelimiter form (before ++ Keyword.scopeOpen.text :: y) (Or.inr rfl)
  have hin := liveFrom_append_open form before (y := []) (z := y) (by simpa using hy)
  -- neither delimiter is live, so what is left are the words between them
  calc liveFrom form before (Keyword.scopeOpen.text :: y ++ [Keyword.scopeClose.text])
      = liveFrom form (before ++ [Keyword.scopeOpen.text]) y ++
          liveFrom form (before ++ Keyword.scopeOpen.text :: y) [Keyword.scopeClose.text] := by
        rw [List.cons_append, liveFrom, if_neg hopen, liveFrom_append, List.append_assoc,
          List.singleton_append]
    _ = liveFrom form (before ++ [Keyword.scopeOpen.text]) y := by
        rw [liveFrom, if_neg hclose, liveFrom, List.append_nil]
    _ = if Admitted form before Keyword.scopeOpen.text then liveWords form y else [] := hin

/-! ## Behind paired words -/

/-- Whether what comes next in a scope shows: always in a scope that is no conditional, and
otherwise in the clause that is selected. -/
def Shows (form : Text → Text) (before : List Text) : Prop :=
  before.head? = some Keyword.ifWord.text → Selected form before

instance (form : Text → Text) (before : List Text) : Decidable (Shows form before) :=
  inferInstanceAs (Decidable (_ → _))

theorem live_iff_of_paired (form : Text → Text) {before : List Text} (h : Paired before)
    (w : Text) :
    Live form before w ↔ ¬ IsDelimiter w ∧
      (IsConditional before w → ¬ InFrame before w ∧ Selected form before) := by
  simp only [Live, Textual, Admitted, isOpen_iff_of_paired h, forall_eq, h.balanced,
    forall_const, imp_and, and_assoc]

/-- A word outside of the frame shows with the scope that it stands in. -/
theorem liveFrom_word (form : Text → Text) {before : List Text} (h : Paired before) {w : Text}
    (hw : ¬ IsDelimiter w) (hframe : IsConditional before w → ¬ InFrame before w) :
    liveFrom form before [w] = if Shows form before then [w] else [] := by
  have hlive : Live form before w ↔ Shows form before := by
    rw [live_iff_of_paired form h]
    cases before with
    | nil =>
        -- the first word is no `[if]`, which would belong to the frame
        have hnot : ¬ IsConditional [] w := fun hc => hframe hc (Or.inl (by simp))
        simp [Shows, hw, hnot]
    | cons v before =>
        rw [isConditional_cons_iff] at hframe ⊢
        simp only [Shows, List.head?_cons, Option.some.injEq]
        exact ⟨fun hl hv => (hl.2 hv).2, fun hs => ⟨hw, fun hv => ⟨hframe hv, hs hv⟩⟩⟩
  simp only [liveFrom, hlive]

/-- The words of the frame do not show. -/
theorem liveFrom_frame (form : Text → Text) {before : List Text} (h : Paired before) {w : Text}
    (hc : IsConditional before w) (hframe : InFrame before w) : liveFrom form before [w] = [] := by
  have hlive : ¬ Live form before w := by
    rw [live_iff_of_paired form h]
    exact fun hl => (hl.2 hc).1 hframe
  rw [liveFrom, if_neg hlive, liveFrom]

/-- The live words of a nested scope show with the scope that it stands in. -/
theorem liveFrom_scope_of_paired (form : Text → Text) {before y : List Text}
    (h : Paired before) (hy : Stays y) :
    liveFrom form before (Keyword.scopeOpen.text :: y ++ [Keyword.scopeClose.text]) =
      if Shows form before then liveWords form y else [] := by
  have hadmitted : Admitted form before Keyword.scopeOpen.text ↔ Shows form before := by
    simp only [Admitted, isOpen_iff_of_paired h, forall_eq, isConditional_open_iff, Shows]
  rw [liveFrom_scope form before hy]
  simp only [hadmitted]

theorem hasOwn_append_scope_iff {k : Keyword} (hopen : k ≠ .scopeOpen) (hclose : k ≠ .scopeClose)
    {x y : List Text} (hx : Stays x) (hy : Stays y) :
    HasOwn k (x ++ (Keyword.scopeOpen.text :: y ++ [Keyword.scopeClose.text])) ↔ HasOwn k x := by
  have hne : Keyword.scopeClose.text ≠ k.text := fun h => hclose (Keyword.text_injective h).symm
  rw [← List.append_assoc, hasOwn_concat_iff, hasOwn_append_open_iff hopen hx hy]
  simp [hne]

end Words

end SqlTemplate
