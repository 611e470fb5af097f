import SqlTemplate.Proofs.Scope.Repair

set_option autoImplicit false

/-! # What a strict reading refuses

Whether a strict reading succeeds is a matter of counting delimiters, and so are the numbers in its
errors. `Reading.ofTemplate_strict` says which templates are read and, for each of the two errors,
when it is reported and with which number: the closing delimiter that is one too many is the last
word of the shortest prefix that closes more scopes than it opens, and scopes are left unclosed only
where there is no such prefix.

A reading that goes on inside `depth` open scopes has the same three outcomes
(`Words.StrictOutcome`). One word more in front of the words changes the number of open scopes and
nothing else about the outcome (`Words.StrictOutcome.cons`).
-/

namespace SqlTemplate

namespace Words

/-- The lengths of the prefixes that close more scopes than there are, where `depth` scopes are open
in front of the words. -/
def overdrawn (depth : Nat) (ws : List Text) : Set Nat :=
  {k | depth + opened (ws.take k) < closed (ws.take k)}

/-- The outcomes of a strict reading of words from the place `position` on, where `depth` scopes are
open. -/
inductive StrictOutcome (depth position : Nat) (ws : List Text) :
    Except Imbalance Reading → Prop where
  | reads {r : Reading} (hstays : ∀ k, k ∉ overdrawn depth ws)
      (hbalanced : depth + opened ws = closed ws) : StrictOutcome depth position ws (.ok r)
  | unclosed {count : Nat} (hstays : ∀ k, k ∉ overdrawn depth ws) (hopen : 0 < count)
      (hcount : depth + opened ws = closed ws + count) :
      StrictOutcome depth position ws (.error (.unclosed count))
  | strayClose {k : Nat} (hleast : IsLeast (overdrawn depth ws) (k + 1)) :
      StrictOutcome depth position ws (.error (.strayClose (position + k)))

theorem mem_overdrawn_iff (depth : Nat) (ws : List Text) (k : Nat) :
    k ∈ overdrawn depth ws ↔ depth + opened (ws.take k) < closed (ws.take k) := Iff.rfl

theorem not_mem_overdrawn_zero (depth : Nat) (ws : List Text) : 0 ∉ overdrawn depth ws := by
  simp [mem_overdrawn_iff]

/-- One word more in front shifts the prefixes that close too much, when the number of open scopes
behind the word accounts for it. -/
theorem mem_overdrawn_succ_iff {depth depth' : Nat} {w : Text}
    (hdepth : ∀ us, depth + opened (w :: us) + closed us = depth' + opened us + closed (w :: us))
    (ws : List Text) (k : Nat) : k + 1 ∈ overdrawn depth (w :: ws) ↔ k ∈ overdrawn depth' ws := by
  have htake := hdepth (ws.take k)
  rw [mem_overdrawn_iff, mem_overdrawn_iff, List.take_succ_cons]
  omega

/-- **One word more in front** of the words leaves the outcome as it is. -/
theorem StrictOutcome.cons {depth depth' position : Nat} {w : Text}
    (hdepth : ∀ us, depth + opened (w :: us) + closed us = depth' + opened us + closed (w :: us))
    {ws : List Text} {outcome : Except Imbalance Reading}
    (h : StrictOutcome depth' (position + 1) ws outcome) :
    StrictOutcome depth position (w :: ws) outcome := by
  have hall := hdepth ws
  have hshift := mem_overdrawn_succ_iff hdepth ws
  have hstays : (∀ k, k ∉ overdrawn depth' ws) → ∀ k, k ∉ overdrawn depth (w :: ws) := by
    intro h k
    cases k with
    | zero => exact not_mem_overdrawn_zero depth _
    | succ k => exact (hshift k).not.mpr (h k)
  cases h with
  | reads hno hbalanced => exact .reads (hstays hno) (by omega)
  | unclosed hno hopen hcount => exact .unclosed (hstays hno) hopen (by omega)
  | @strayClose k hleast =>
      obtain ⟨hmem, hle⟩ := hleast
      have hplace : position + 1 + k = position + (k + 1) := by omega
      rw [hplace]
      refine .strayClose ⟨(hshift (k + 1)).mpr hmem, fun j hj => ?_⟩
      cases j with
      | zero => exact absurd hj (not_mem_overdrawn_zero depth _)
      | succ j =>
          have hkj : k + 1 ≤ j := hle ((hshift j).mp hj)
          omega

namespace StrictOutcome

variable {ws : List Text} {outcome : Except Imbalance Reading}

/-- Words that no prefix overdraws stay inside the scope that they start in. -/
theorem stays_iff (ws : List Text) : Stays ws ↔ ∀ k, k ∉ overdrawn 0 ws := by
  simp [Stays, mem_overdrawn_iff]

theorem ok_iff (h : StrictOutcome 0 0 ws outcome) : (∃ r, outcome = .ok r) ↔ Paired ws := by
  cases h with
  | @reads r hstays hbalanced =>
      have hpaired : Paired ws := ⟨(stays_iff ws).mpr hstays, by simpa [Balanced] using hbalanced⟩
      exact ⟨fun _ => hpaired, fun _ => ⟨r, rfl⟩⟩
  | unclosed hstays hopen hcount =>
      have hunpaired : ¬ Paired ws := by
        intro hpaired
        have hbalanced : opened ws = closed ws := hpaired.balanced
        omega
      simp [hunpaired]
  | strayClose hleast =>
      have hunpaired : ¬ Paired ws := fun hpaired =>
        (stays_iff ws).mp hpaired.stays _ hleast.1
      simp [hunpaired]

theorem strayClose_iff (h : StrictOutcome 0 0 ws outcome) (position : Nat) :
    outcome = .error (.strayClose position) ↔ IsLeast (overdrawn 0 ws) (position + 1) := by
  cases h with
  | reads hstays =>
      have hnone : ¬ IsLeast (overdrawn 0 ws) (position + 1) := fun hleast => hstays _ hleast.1
      simp [hnone]
  | unclosed hstays =>
      have hnone : ¬ IsLeast (overdrawn 0 ws) (position + 1) := fun hleast => hstays _ hleast.1
      simp [hnone]
  | @strayClose k hleast =>
      rw [Nat.zero_add]
      constructor
      · intro he
        cases he
        exact hleast
      · intro hleast'
        have hk : k + 1 = position + 1 := hleast.unique hleast'
        obtain rfl : k = position := by omega
        rfl

theorem unclosed_iff (h : StrictOutcome 0 0 ws outcome) (count : Nat) :
    outcome = .error (.unclosed count) ↔
      Stays ws ∧ 0 < count ∧ opened ws = closed ws + count := by
  rw [stays_iff]
  cases h with
  | reads hstays hbalanced =>
      have hnone : ¬ (0 < count ∧ opened ws = closed ws + count) := by omega
      simp [hnone]
  | @unclosed n hstays hopen hcount =>
      constructor
      · intro he
        cases he
        exact ⟨hstays, hopen, by omega⟩
      · rintro ⟨-, -, hcount'⟩
        obtain rfl : n = count := by omega
        rfl
  | strayClose hleast =>
      have hleaves : ¬ ∀ k, k ∉ overdrawn 0 ws := fun hstays => hstays _ hleast.1
      simp [hleaves]

end StrictOutcome

end Words

namespace Reading

/-- A closing delimiter that closes nothing ends a strict reading. -/
theorem ofWordsFrom_refused (position : Nat) {scopes : OpenScopes} (skipped : List Nat)
    (ws : List Text) (h : scopes.closeScope? = none) :
    ofWordsFrom true position scopes skipped (Keyword.scopeClose.text :: ws) =
      .error (.strayClose position) := by
  rw [ofWordsFrom, if_neg (by decide), if_pos rfl, h]
  rfl

/-- **A strict reading** inside open scopes has the outcome that the counts of delimiters say. -/
theorem strictOutcome_ofWordsFrom (depth : Nat) (ws : List Text) :
    ∀ (scopes : OpenScopes) (position : Nat) (skipped : List Nat), scopes.depth = depth →
      Words.StrictOutcome depth position ws (ofWordsFrom true position scopes skipped ws) := by
  induction depth, ws using Words.depth_induction with
  | nil depth =>
      rintro scopes position skipped rfl
      have hstays : ∀ k, k ∉ Words.overdrawn scopes.depth [] := by
        simp [Words.mem_overdrawn_iff]
      by_cases hzero : scopes.depth = 0
      · have hread : ofWordsFrom true position scopes skipped [] =
            .ok ⟨OpenScopes.closeAll scopes.current scopes.around, skipped.reverse⟩ := by
          simp [ofWordsFrom, hzero]
        rw [hread]
        exact .reads hstays (by simpa using hzero)
      · have hread : ofWordsFrom true position scopes skipped [] =
            .error (.unclosed scopes.depth) := by
          simp [ofWordsFrom, hzero]
        rw [hread]
        exact .unclosed hstays (by omega) (by simp)
  | opens depth ws ih =>
      rintro scopes position skipped rfl
      rw [ofWordsFrom_open]
      refine (ih scopes.openScope (position + 1) skipped rfl).cons fun us => ?_
      rw [Words.opened_open_cons, Words.closed_open_cons]
      omega
  | closes depth ws ih =>
      intro scopes position skipped hdepth
      obtain ⟨outer, hclose, houter, -⟩ := OpenScopes.exists_closeScope?_of_depth_succ hdepth
      rw [ofWordsFrom_close _ _ _ _ hclose]
      refine (ih outer (position + 1) skipped houter).cons fun us => ?_
      rw [Words.opened_close_cons, Words.closed_close_cons]
      omega
  | stray ws ih =>
      -- the reading ends here, whatever the rest of the words is
      intro scopes position skipped hdepth
      rw [ofWordsFrom_refused _ _ _ (OpenScopes.closeScope?_of_depth_zero hdepth)]
      have hone : 1 ∈ Words.overdrawn 0 (Keyword.scopeClose.text :: ws) := by
        simp [Words.mem_overdrawn_iff]
      refine .strayClose (k := 0) ⟨hone, fun k hk => ?_⟩
      cases k with
      | zero => exact absurd hk (Words.not_mem_overdrawn_zero 0 _)
      | succ k => exact Nat.le_add_left 1 k
  | word depth w ws hw ih =>
      rintro scopes position skipped rfl
      rw [ofWordsFrom_word _ _ _ _ _ hw]
      refine (ih (scopes.addWord w) (position + 1) skipped rfl).cons fun us => ?_
      rw [Words.opened_cons_of_not_isDelimiter hw, Words.closed_cons_of_not_isDelimiter hw]

/-- **What a strict reading accepts and refuses.** A template is read when its delimiters are
paired. A closing delimiter is refused when it is the last word of the shortest prefix that closes
more scopes than it opens, and it is reported with its number counted from zero. Where no prefix
does so, the scopes that are opened and not closed are refused and counted. -/
theorem ofTemplate_strict (template : Text) :
    ((∃ r, ofTemplate true template = .ok r) ↔ Words.Paired template.words) ∧
    (∀ position, ofTemplate true template = .error (.strayClose position) ↔
      IsLeast {k | Words.opened (template.words.take k) < Words.closed (template.words.take k)}
        (position + 1)) ∧
    ∀ count, ofTemplate true template = .error (.unclosed count) ↔
      Words.Stays template.words ∧ 0 < count ∧
        Words.opened template.words = Words.closed template.words + count := by
  have houtcome : Words.StrictOutcome 0 0 template.words (ofTemplate true template) :=
    strictOutcome_ofWordsFrom 0 template.words {} 0 [] rfl
  have hoverdrawn : Words.overdrawn 0 template.words =
      {k | Words.opened (template.words.take k) < Words.closed (template.words.take k)} := by
    simp only [Words.overdrawn, Nat.zero_add]
  refine ⟨houtcome.ok_iff, fun position => ?_, houtcome.unclosed_iff⟩
  rw [houtcome.strayClose_iff, hoverdrawn]

/-- The second closing delimiter closes nothing. The scope that is left open behind it is not
reported. -/
example : ofTemplate true "\x7b\x7b a \x7d\x7d \x7d\x7d \x7b\x7b".toList =
    .error (.strayClose 3) := rfl

end Reading

end SqlTemplate
