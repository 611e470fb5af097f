import SqlTemplate.Proofs.Expander.Failures
import SqlTemplate.Proofs.Node.Limit

set_option autoImplicit false

/-! # Expansions under a larger limit

The limit for the nesting of scopes only cuts off. Scopes that do not exceed it are read as they are
under any other limit that they do not exceed, and scopes that exceed it are refused. So an
expansion that succeeds gives the same text under a larger limit
(`Expander.limit_only_cuts_off`).
-/

namespace SqlTemplate

namespace Expander

/-- A tree of pieces is their tree under a larger limit: the calls that read the pieces to their
ends are as many under every limit. -/
theorem treeOf_mono {p : Expander} {maxDepth : Int} (hle : p.maxDepth ≤ maxDepth)
    {pieces : List Piece} {tree : Node Empty} (h : p.treeOf pieces = .ok tree) :
    { p with maxDepth }.treeOf pieces = .ok tree := by
  rw [treeOf_eq_ok_iff] at h ⊢
  exact ⟨Node.ofScope_mono hle h.1, h.2⟩

theorem build_mono {p : Expander} {maxDepth : Int} (hle : p.maxDepth ≤ maxDepth) {template : Text}
    {tree : Node Empty} (h : p.build template = .ok tree) :
    { p with maxDepth }.build template = .ok tree := by
  obtain ⟨r, hread, htree⟩ := (build_eq_ok_iff p template tree).mp h
  exact (build_eq_ok_iff _ template tree).mpr ⟨r, hread, treeOf_mono hle htree⟩

theorem applyTable_mono {p : Expander} {maxDepth : Int} (hle : p.maxDepth ≤ maxDepth)
    {template text : Text} {table : Lookup} (h : p.applyTable template table = .ok text) :
    { p with maxDepth }.applyTable template table = .ok text := by
  cases hbuild : p.build template with
  | error e =>
      rw [applyTable_of_build_error hbuild] at h
      cases h
  | ok tree =>
      rw [applyTable_of_build hbuild] at h
      rw [applyTable_of_build (build_mono hle hbuild), ← h]

theorem apply_mono {p : Expander} {maxDepth : Int} (hle : p.maxDepth ≤ maxDepth)
    {template text : Text} {args : Value} (h : p.apply template args = .ok text) :
    { p with maxDepth }.apply template args = .ok text := by
  cases args with
  | none => exact h
  | _ =>
      simp only [apply] at h ⊢
      split at h
      · cases h
      · exact applyTable_mono hle h

/-- **The limit of the nesting only cuts off.** Pieces are read alike under all limits that their
nesting does not exceed, with the same tree or the same error, and under a limit that it exceeds
they are refused. An expansion that gives a text gives the same text under a larger limit. -/
theorem limit_only_cuts_off (Foreign : Type) (ps : List Piece) (p : Expander) (template : Text)
    (args : Value) :
    (∀ limit limit' : Int, Piece.nesting ps ≤ limit → Piece.nesting ps ≤ limit' →
      (Node.ofScope limit 0 ps : Except ShapeError (Node Foreign)) = Node.ofScope limit' 0 ps) ∧
    (∀ limit : Int, limit < Piece.nesting ps →
      ∃ e, (Node.ofScope limit 0 ps : Except ShapeError (Node Foreign)) = .error e) ∧
    ∀ (maxDepth : Int) (text : Text), p.maxDepth ≤ maxDepth →
      p.apply template args = .ok text →
      { p with maxDepth }.apply template args = .ok text := by
  refine ⟨fun limit limit' hlimit hlimit' => ?_, fun limit hlt => ?_, fun maxDepth text => ?_⟩
  · exact Node.ofScope_eq_of_nesting_le ps (by omega) (by omega)
  · exact Node.exists_error_of_lt_nesting hlt
  · exact fun hle h => apply_mono hle h

/-- The innermost scope is empty, and no limit from its depth on changes that it is refused. -/
theorem limit_only_cuts_off_of_emptyScope :
    let ps : List Piece := [.word "[if]".toList, .word ".c".toList, .word "[then]".toList,
      .word "a".toList, .scope [.word "b".toList, .scope []]]
    let template : Text := "a \x7b\x7b .x \x7d\x7d".toList
    let args : Value := .map false [(.text "x".toList, .int 1)]
    let read (limit : Int) : Except ShapeError (Node Empty) := Node.ofScope limit 0 ps
    (Piece.nesting ps = 2 ∧ read 2 = .error .emptyScope ∧ read 200 = .error .emptyScope) ∧
      (∃ e, read 1 = .error e) ∧
      apply { maxDepth := 1 } template args = .ok "a 1".toList ∧
      apply { maxDepth := 1000 } template args = .ok "a 1".toList := by
  intro ps template args read
  have hcuts := limit_only_cuts_off Empty ps { maxDepth := 1 } template args
  have hread : read 2 = .error .emptyScope := rfl
  have hsame : read 2 = read 200 := hcuts.1 2 200 (by decide) (by decide)
  have htext : apply { maxDepth := 1 } template args = .ok "a 1".toList :=
    eq_ok_of_toOption (by decide +kernel)
  exact ⟨⟨rfl, hread, hsame.symm.trans hread⟩, hcuts.2.1 1 (by decide), htext,
    hcuts.2.2 1000 _ (by decide) htext⟩

end Expander

end SqlTemplate
