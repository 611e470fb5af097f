import Mathlib.Order.Bounds.Basic
import SqlTemplate.Proofs.Scope.Balance
import SqlTemplate.Proofs.Scope.RoundTrip

set_option autoImplicit false

/-! # Repairing delimiters

Words are repaired in two steps: closing delimiters that close nothing are taken out
(`Words.keptFrom`), and one is put at the end for each scope that is still open there
(`Words.repaired`). Taken out are as many words as there are closing delimiters too many in the
prefix that has most of these (`Words.exists_isGreatest_excessFrom`).

A lenient reading never fails and gives what a strict reading of the repaired words gives
(`Reading.ofWordsFrom_repaired`). The proofs go through the words together with the number of scopes
that are open in front of them (`Words.depth_induction`).
-/

namespace SqlTemplate

namespace Words

/-! ## The repair -/

/-- The words without the closing delimiters that are met when no scope is open, where `depth`
scopes are open in front of the words. -/
def keptFrom (depth : Nat) : List Text → List Text
  | [] => []
  | w :: ws =>
      if w = Keyword.scopeOpen.text then w :: keptFrom (depth + 1) ws
      else if w = Keyword.scopeClose.text then
        match depth with
        | 0 => keptFrom 0 ws
        | d + 1 => w :: keptFrom d ws
      else w :: keptFrom depth ws

/-- The words that are kept, and behind them a closing delimiter for each scope that is still open
at their end. -/
def repairedFrom (depth : Nat) (ws : List Text) : List Text :=
  keptFrom depth ws ++
    List.replicate (depth + opened (keptFrom depth ws) - closed (keptFrom depth ws))
      Keyword.scopeClose.text

/-- The words of a template that are kept in its repair. -/
def kept (ws : List Text) : List Text := keptFrom 0 ws

/-- The words of a template with its delimiters repaired. -/
def repaired (ws : List Text) : List Text := repairedFrom 0 ws

/-- Induction on words with the number of scopes that are open in front of them: a delimiter opens a
scope, closes one or closes nothing. -/
@[elab_as_elim]
theorem depth_induction {P : Nat → List Text → Prop} (nil : ∀ depth, P depth [])
    (opens : ∀ depth ws, P (depth + 1) ws → P depth (Keyword.scopeOpen.text :: ws))
    (closes : ∀ depth ws, P depth ws → P (depth + 1) (Keyword.scopeClose.text :: ws))
    (stray : ∀ ws, P 0 ws → P 0 (Keyword.scopeClose.text :: ws))
    (word : ∀ depth w ws, ¬ IsDelimiter w → P depth ws → P depth (w :: ws)) (depth : Nat)
    (ws : List Text) : P depth ws := by
  induction ws generalizing depth with
  | nil => exact nil depth
  | cons w ws ih =>
      by_cases hopen : w = Keyword.scopeOpen.text
      · subst hopen
        exact opens depth ws (ih (depth + 1))
      · by_cases hclose : w = Keyword.scopeClose.text
        · subst hclose
          cases depth with
          | zero => exact stray ws (ih 0)
          | succ d => exact closes d ws (ih d)
        · exact word depth w ws (not_or.mpr ⟨hopen, hclose⟩) (ih depth)

@[simp] theorem keptFrom_nil (depth : Nat) : keptFrom depth [] = [] := rfl

@[simp] theorem keptFrom_open (depth : Nat) (ws : List Text) :
    keptFrom depth (Keyword.scopeOpen.text :: ws) =
      Keyword.scopeOpen.text :: keptFrom (depth + 1) ws := by
  rw [keptFrom.eq_def]
  exact if_pos rfl

@[simp] theorem keptFrom_close (depth : Nat) (ws : List Text) :
    keptFrom (depth + 1) (Keyword.scopeClose.text :: ws) =
      Keyword.scopeClose.text :: keptFrom depth ws := by
  rw [keptFrom, if_neg (by decide), if_pos rfl]

@[simp] theorem keptFrom_stray (ws : List Text) :
    keptFrom 0 (Keyword.scopeClose.text :: ws) = keptFrom 0 ws := by
  rw [keptFrom, if_neg (by decide), if_pos rfl]

theorem keptFrom_word (depth : Nat) {w : Text} (hw : ¬ IsDelimiter w) (ws : List Text) :
    keptFrom depth (w :: ws) = w :: keptFrom depth ws := by
  rw [IsDelimiter, not_or] at hw
  rw [keptFrom.eq_def]
  exact (if_neg hw.1).trans (if_neg hw.2)

theorem keptFrom_sublist (depth : Nat) (ws : List Text) : (keptFrom depth ws).Sublist ws := by
  induction depth, ws using depth_induction with
  | nil depth => exact List.Sublist.refl _
  | opens depth ws ih => simpa using ih
  | closes depth ws ih => simpa using ih
  | stray ws ih => simpa using ih.cons _
  | word depth w ws hw ih => simpa [keptFrom_word depth hw] using ih

theorem repairedFrom_nil (depth : Nat) :
    repairedFrom depth [] = List.replicate depth Keyword.scopeClose.text := by
  simp [repairedFrom]

theorem repairedFrom_open (depth : Nat) (ws : List Text) :
    repairedFrom depth (Keyword.scopeOpen.text :: ws) =
      Keyword.scopeOpen.text :: repairedFrom (depth + 1) ws := by
  simp [repairedFrom, Nat.add_assoc, Nat.add_comm 1]

theorem repairedFrom_close (depth : Nat) (ws : List Text) :
    repairedFrom (depth + 1) (Keyword.scopeClose.text :: ws) =
      Keyword.scopeClose.text :: repairedFrom depth ws := by
  simp [repairedFrom, Nat.add_right_comm depth 1]

theorem repairedFrom_stray (ws : List Text) :
    repairedFrom 0 (Keyword.scopeClose.text :: ws) = repairedFrom 0 ws := by
  simp [repairedFrom]

theorem repairedFrom_word (depth : Nat) {w : Text} (hw : ¬ IsDelimiter w) (ws : List Text) :
    repairedFrom depth (w :: ws) = w :: repairedFrom depth ws := by
  simp [repairedFrom, keptFrom_word depth hw, opened_cons_of_not_isDelimiter hw,
    closed_cons_of_not_isDelimiter hw]

/-- The repair of words is made of words. -/
theorem isWord_of_mem_repaired {ws : List Text} (h : ∀ w ∈ ws, Text.IsWord w) :
    ∀ w ∈ repaired ws, Text.IsWord w := by
  intro w hw
  rcases List.mem_append.mp hw with hw | hw
  · exact h w ((keptFrom_sublist 0 ws).subset hw)
  · rw [List.eq_of_mem_replicate hw]
    exact Text.isWord_keyword .scopeClose

/-! ## How much is taken out -/

/-- How many closing delimiters among the first `k` words have no scope to close, going by their
number alone, where `depth` scopes are open in front of the words. -/
def excessFrom (depth : Nat) (ws : List Text) (k : Nat) : Nat :=
  closed (ws.take k) - (depth + opened (ws.take k))

/-- What one word more in front does not change. -/
theorem isGreatest_range_of_shift {f g : Nat → Nat} (hzero : f 0 = 0)
    (hsucc : ∀ k, f (k + 1) = g k) {n : Nat} (h : IsGreatest (Set.range g) n) :
    IsGreatest (Set.range f) n := by
  obtain ⟨⟨k, hk⟩, hle⟩ := h
  refine ⟨⟨k + 1, by rw [hsucc, hk]⟩, ?_⟩
  rintro _ ⟨k, rfl⟩
  cases k with
  | zero => rw [hzero]; exact Nat.zero_le n
  | succ k => rw [hsucc]; exact hle ⟨k, rfl⟩

/-- **As many words are taken out** as there are closing delimiters too many in some prefix, and in
no prefix there are more. -/
theorem exists_isGreatest_excessFrom (depth : Nat) (ws : List Text) :
    ∃ n, (keptFrom depth ws).length + n = ws.length ∧
      IsGreatest (Set.range (excessFrom depth ws)) n := by
  induction depth, ws using depth_induction with
  | nil depth =>
      refine ⟨0, rfl, ⟨0, by simp [excessFrom]⟩, ?_⟩
      rintro _ ⟨k, rfl⟩
      simp [excessFrom]
  | opens depth ws ih =>
      obtain ⟨n, hlength, hn⟩ := ih
      refine ⟨n, by simp; omega, isGreatest_range_of_shift (by simp [excessFrom]) (fun k => ?_) hn⟩
      simp only [excessFrom, List.take_succ_cons, closed_open_cons, opened_open_cons]
      omega
  | closes depth ws ih =>
      obtain ⟨n, hlength, hn⟩ := ih
      refine ⟨n, by simp; omega, isGreatest_range_of_shift (by simp [excessFrom]) (fun k => ?_) hn⟩
      simp only [excessFrom, List.take_succ_cons, closed_close_cons, opened_close_cons]
      omega
  | stray ws ih =>
      -- every prefix that goes on counts the delimiter in front, and so does the one word prefix
      obtain ⟨n, hlength, ⟨k, hk⟩, hle⟩ := ih
      have hshift : ∀ j, excessFrom 0 (Keyword.scopeClose.text :: ws) (j + 1) =
          closed (ws.take j) + 1 - opened (ws.take j) := by
        intro j
        simp only [excessFrom, List.take_succ_cons, closed_close_cons, opened_close_cons,
          Nat.zero_add]
      refine ⟨n + 1, by simp; omega, ?_, ?_⟩
      · by_cases hzero : n = 0
        · exact ⟨1, by simp [hshift, hzero]⟩
        · refine ⟨k + 1, ?_⟩
          rw [excessFrom] at hk
          rw [hshift]
          omega
      · rintro _ ⟨j, rfl⟩
        cases j with
        | zero => simp [excessFrom]
        | succ j =>
            have hj : excessFrom 0 ws j ≤ n := hle ⟨j, rfl⟩
            rw [excessFrom] at hj
            rw [hshift]
            omega
  | word depth w ws hw ih =>
      obtain ⟨n, hlength, hn⟩ := ih
      refine ⟨n, by simp [keptFrom_word depth hw]; omega,
        isGreatest_range_of_shift (by simp [excessFrom]) (fun k => ?_) hn⟩
      rw [excessFrom, List.take_succ_cons, closed_cons_of_not_isDelimiter hw,
        opened_cons_of_not_isDelimiter hw, excessFrom]

/-- Paired words need no repair. -/
theorem Paired.repaired_eq {ws : List Text} (h : Paired ws) : repaired ws = ws := by
  obtain ⟨n, hlength, ⟨k, hk⟩, -⟩ := exists_isGreatest_excessFrom 0 ws
  have hstays := h.stays k
  have hbalanced := h.balanced
  have hn : n = 0 := by
    rw [excessFrom] at hk
    omega
  have hkept : keptFrom 0 ws = ws := (keptFrom_sublist 0 ws).eq_of_length (by omega)
  rw [Balanced] at hbalanced
  simp [repaired, repairedFrom, hkept, hbalanced]

end Words

namespace OpenScopes

theorem closeScope?_of_depth_zero {s : OpenScopes} (h : s.depth = 0) : s.closeScope? = none := by
  rw [depth, List.length_eq_zero_iff] at h
  rw [closeScope?, h]

theorem exists_closeScope?_of_depth_succ {s : OpenScopes} {d : Nat} (h : s.depth = d + 1) :
    ∃ outer, s.closeScope? = some outer ∧ outer.depth = d ∧
      closeAll outer.current outer.around = closeAll s.current s.around := by
  obtain ⟨outer, rest, hs⟩ := List.exists_cons_of_length_eq_add_one h
  refine ⟨{ current := .scope s.current.reverse :: outer, around := rest }, ?_, ?_, ?_⟩
  · rw [closeScope?, hs]
  · rw [depth, hs] at h
    simpa [depth] using h
  · rw [hs, closeAll]

end OpenScopes

namespace Reading

/-- A closing delimiter for each open scope ends a strict reading well. -/
theorem ofWordsFrom_replicate_close (position : Nat) (scopes : OpenScopes) (skipped : List Nat) :
    ofWordsFrom true position scopes skipped
        (List.replicate scopes.depth Keyword.scopeClose.text) =
      .ok ⟨OpenScopes.closeAll scopes.current scopes.around, skipped.reverse⟩ := by
  induction h : scopes.depth generalizing position scopes with
  | zero => simp [ofWordsFrom, h]
  | succ d ih =>
      obtain ⟨outer, hclose, hdepth, hall⟩ := OpenScopes.exists_closeScope?_of_depth_succ h
      rw [List.replicate_succ, ofWordsFrom_close _ _ _ _ hclose, ih _ _ hdepth, hall]

/-- **A lenient reading is a strict one of the repaired words**: it gives the same pieces, and it
skips as many words as are taken out in the repair. -/
theorem ofWordsFrom_repaired (depth : Nat) (ws : List Text) :
    ∀ (scopes : OpenScopes) (position position' : Nat) (skipped skipped' : List Nat),
      scopes.depth = depth → ∃ pieces skips,
        ofWordsFrom false position scopes skipped ws = .ok ⟨pieces, skips⟩ ∧
        (Words.keptFrom depth ws).length + skips.length = ws.length + skipped.length ∧
        ofWordsFrom true position' scopes skipped' (Words.repairedFrom depth ws) =
          .ok ⟨pieces, skipped'.reverse⟩ := by
  induction depth, ws using Words.depth_induction with
  | nil depth =>
      rintro scopes position position' skipped skipped' rfl
      refine ⟨_, _, rfl, by simp, ?_⟩
      rw [Words.repairedFrom_nil, ofWordsFrom_replicate_close]
  | opens depth ws ih =>
      rintro scopes position position' skipped skipped' rfl
      obtain ⟨pieces, skips, hlenient, hlength, hstrict⟩ :=
        ih scopes.openScope (position + 1) (position' + 1) skipped skipped' rfl
      refine ⟨pieces, skips, by rw [ofWordsFrom_open, hlenient], by simp; omega, ?_⟩
      rw [Words.repairedFrom_open, ofWordsFrom_open, hstrict]
  | closes depth ws ih =>
      intro scopes position position' skipped skipped' hdepth
      obtain ⟨outer, hclose, houter, -⟩ := OpenScopes.exists_closeScope?_of_depth_succ hdepth
      obtain ⟨pieces, skips, hlenient, hlength, hstrict⟩ :=
        ih outer (position + 1) (position' + 1) skipped skipped' houter
      refine ⟨pieces, skips, by rw [ofWordsFrom_close _ _ _ _ hclose, hlenient], by simp; omega, ?_⟩
      rw [Words.repairedFrom_close, ofWordsFrom_close _ _ _ _ hclose, hstrict]
  | stray ws ih =>
      intro scopes position position' skipped skipped' hdepth
      obtain ⟨pieces, skips, hlenient, hlength, hstrict⟩ :=
        ih scopes (position + 1) position' (position :: skipped) skipped' hdepth
      have hnone := OpenScopes.closeScope?_of_depth_zero hdepth
      rw [List.length_cons] at hlength
      refine ⟨pieces, skips, by rw [ofWordsFrom_stray _ _ _ hnone, hlenient], by simp; omega, ?_⟩
      rw [Words.repairedFrom_stray, hstrict]
  | word depth w ws hw ih =>
      rintro scopes position position' skipped skipped' rfl
      obtain ⟨pieces, skips, hlenient, hlength, hstrict⟩ :=
        ih (scopes.addWord w) (position + 1) (position' + 1) skipped skipped' rfl
      refine ⟨pieces, skips, by rw [ofWordsFrom_word _ _ _ _ _ hw, hlenient],
        by simp [Words.keptFrom_word _ hw]; omega, ?_⟩
      rw [Words.repairedFrom_word _ hw, ofWordsFrom_word _ _ _ _ _ hw, hstrict]

/-- What a lenient reading of a template gives and what a strict reading of its repair gives. -/
theorem exists_ofWords_repaired (ws : List Text) :
    ∃ r, ofWords false ws = .ok r ∧ ofWords true (Words.repaired ws) = .ok ⟨r.pieces, []⟩ ∧
      (Words.kept ws).length + r.skipped.length = ws.length := by
  obtain ⟨pieces, skips, hlenient, hlength, hstrict⟩ := ofWordsFrom_repaired 0 ws {} 0 0 [] [] rfl
  exact ⟨⟨pieces, skips⟩, hlenient, hstrict, hlength⟩

/-- Where a strict reading succeeds, a lenient one gives the same. -/
theorem ofWords_false_of_true {ws : List Text} {r : Reading} (h : ofWords true ws = .ok r) :
    ofWords false ws = .ok r := by
  have hread := fun strict => ofWords_words strict (undelimited_pieces h)
  rw [words_of_strict h] at hread
  -- a strict reading skips nothing
  have hr : r = ⟨r.pieces, []⟩ := Except.ok.inj (h.symm.trans (hread true))
  rw [hread false, ← hr]

end Reading

end SqlTemplate
