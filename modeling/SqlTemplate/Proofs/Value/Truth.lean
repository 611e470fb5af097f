import SqlTemplate.Text.Case
import SqlTemplate.Value.Format

set_option autoImplicit false

/-! # Values that read as truth values

A predicate is checked as a text, after its word was replaced by the text of a value. So it has to
be excluded that some other value has the text of a truth value. `Value.truth?_of_format` does this
for all of them: the text of a value reads as a truth value just when the value is a truth value or
a text that reads as one, or its type writes such a text for it itself (`Value.flag?`).

The texts of all other values but the missing one hold a character that neither `true` nor `false`
has in any case: a digit, a point or a sign in a number, a bracket or a quotation mark in a
collection, a record or a type.
-/

namespace SqlTemplate

namespace Text

/-! ## Texts that are no truth values -/

/-- Whether a character is a letter of `true` or `false`. -/
def isTruthLetter (c : Char) : Bool := "truefals".toList.contains c

/-- A text with a character that is no letter of `true` or `false`, in any case, is neither of the
words. -/
theorem truth?_eq_none_of_mem {c : Char} {t : Text} (hletter : isTruthLetter (lowerChar c) = false)
    (hc : c ∈ t) : t.truth? = none := by
  have hmem : lowerChar c ∈ lower t := List.mem_map_of_mem hc
  have hword : ∀ word : Text, word.all isTruthLetter = true → lower t ≠ word := by
    rintro word hletters rfl
    rw [List.all_eq_true.mp hletters _ hmem] at hletter
    cases hletter
  rw [truth?, if_neg (hword _ (by decide)), if_neg (hword _ (by decide))]

theorem lowerChar_of_isDigit {c : Char} (h : c.isDigit = true) : lowerChar c = c := by
  have hkelvin : (c == '\u212a') = false := by
    refine beq_false_of_ne ?_
    rintro rfl
    exact absurd h (by decide)
  have hdigit : c.toNat ≤ '9'.toNat := (Char.isDigit_iff_toNat.mp h).2
  have hupper : ¬ (c.val ≥ 'A'.val ∧ c.val ≤ 'Z'.val) := fun hc =>
    absurd (Nat.le_trans (UInt32.le_iff_toNat_le.mp hc.1) hdigit) (by decide)
  have hlower : c.toLower = c := dif_neg hupper
  rw [lowerChar, hkelvin, hlower]
  rfl

theorem isTruthLetter_of_isDigit {c : Char} (h : c.isDigit = true) :
    isTruthLetter (lowerChar c) = false := by
  have hdigits : ("truefals".toList.all fun d => !d.isDigit) = true := by decide
  rw [lowerChar_of_isDigit h, Bool.eq_false_iff]
  intro hletter
  have hc := List.all_eq_true.mp hdigits c (List.contains_iff_mem.mp hletter)
  rw [h] at hc
  cases hc

end Text

/-! ## Numbers -/

theorem Decimal.exists_isDigit_mem_ofInt (n : Int) : ∃ c ∈ Decimal.ofInt n, c.isDigit = true := by
  have hnat : ∀ m : Nat, ∃ c ∈ Decimal.ofNat m, c.isDigit = true := by
    intro m
    obtain ⟨c, hc⟩ := List.exists_mem_of_ne_nil (Decimal.ofNat m) Nat.toDigits_ne_nil
    exact ⟨c, hc, Nat.isDigit_of_mem_toDigits (by decide) (by decide) hc⟩
  cases n with
  | ofNat m => exact hnat m
  | negSucc m =>
      obtain ⟨c, hc, hdigit⟩ := hnat (m + 1)
      exact ⟨c, List.mem_cons_of_mem _ hc, hdigit⟩

theorem Decimal.truth?_ofInt (n : Int) : (Decimal.ofInt n).truth? = none := by
  obtain ⟨c, hc, hdigit⟩ := exists_isDigit_mem_ofInt n
  exact Text.truth?_eq_none_of_mem (Text.isTruthLetter_of_isDigit hdigit) hc

namespace Binary64

/-- The characters in the text of a number that are no digits and no letters. -/
def marks : Text := ".+-".toList

theorem exists_mark_mem_exponentText (e : Int) : ∃ c ∈ exponentText e, c ∈ marks := by
  refine ⟨if e < 0 then '-' else '+', List.mem_cons_self .., ?_⟩
  split <;> decide

/-- A number is written with a point or with the sign of an exponent. -/
theorem exists_mark_mem_layout (digits : Text) (point : Int) :
    ∃ c ∈ layout digits point, c ∈ marks := by
  have hpoint : '.' ∈ marks := by decide
  simp only [layout]
  split
  · obtain ⟨c, hc, hmark⟩ := exists_mark_mem_exponentText (point - 1)
    exact ⟨c, List.mem_append_right _ (List.mem_cons_of_mem _ hc), hmark⟩
  · split
    · exact ⟨'.', List.mem_append_right _ (List.mem_cons_self ..), hpoint⟩
    · exact ⟨'.', List.mem_append_left _ (List.mem_append_left _ (by decide)), hpoint⟩

theorem exists_mark_mem_magnitudeText (m : Nat) (q : Int) :
    ∃ c ∈ magnitudeText m q, c ∈ marks := by
  unfold magnitudeText
  split
  · exact ⟨'.', by decide, by decide⟩
  · exact exists_mark_mem_layout _ _

theorem truth?_text (x : Binary64) : x.text.truth? = none := by
  cases x with
  | nan => rfl
  | infinite negative => cases negative <;> rfl
  | finite negative m q =>
      have hmarks : (marks.all fun c => !Text.isTruthLetter (Text.lowerChar c)) = true := by decide
      obtain ⟨c, hc, hmark⟩ := exists_mark_mem_magnitudeText m q
      have hletter := List.all_eq_true.mp hmarks c hmark
      rw [Bool.not_eq_true'] at hletter
      refine Text.truth?_eq_none_of_mem hletter ?_
      rw [text]
      split
      · exact List.mem_cons_of_mem _ hc
      · exact hc

end Binary64

/-! ## Values -/

namespace Value

/-- The text that the type of a value writes for it itself, if it does and does not fail. -/
def ownText? : Value → Option Text
  | .record _ _ _ _ (some own) => own.shown.result.toOption
  | .object _ own => own.shown.result.toOption
  | _ => Option.none

/-- The truth value that a value is, or that it reads as when it is a text or its type writes its
text itself. -/
def flag? : Value → Option Bool
  | .bool b => some b
  | .text t => t.truth?
  | v => v.ownText?.bind Text.truth?

/-- Whether a value is a truth value, or the word for it in any case, or writes itself as such a
word. -/
def StandsFor (flag : Bool) (v : Value) : Prop :=
  v = .bool flag ∨ ∃ t, (v = .text t ∨ v.ownText? = some t) ∧
    Text.lower t = if flag then "true".toList else "false".toList

theorem truth?_eq_some_iff (t : Text) (flag : Bool) :
    t.truth? = some flag ↔ Text.lower t = if flag then "true".toList else "false".toList := by
  cases flag with
  | true => exact Text.truth?_eq_some_true_iff t
  | false => exact Text.truth?_eq_some_false_iff t

theorem flag?_eq_some_iff (v : Value) (flag : Bool) : v.flag? = some flag ↔ v.StandsFor flag := by
  simp only [StandsFor, ← truth?_eq_some_iff]
  cases v <;> simp [flag?, ownText?, Option.bind_eq_some_iff]

/-- What stands between brackets is no truth value when an opening bracket shows this. -/
theorem truth?_bracketed {c : Char} {opening : Text}
    (hletter : Text.isTruthLetter (Text.lowerChar c) = false) (hc : c ∈ opening) (closing : Text)
    (items : List Text) : (bracketed opening closing items).truth? = Option.none :=
  Text.truth?_eq_none_of_mem hletter (List.mem_append_left _ (List.mem_append_left _ hc))

theorem truth?_tupleText (ts : List Text) : (tupleText ts).truth? = Option.none := by
  have hbracket : Text.isTruthLetter (Text.lowerChar '(') = false := by decide
  unfold tupleText
  split
  · exact Text.truth?_eq_none_of_mem hbracket (List.mem_cons_self ..)
  · exact truth?_bracketed hbracket (List.mem_cons_self ..) _ _

theorem truth?_recordTypeText (home name : Text) :
    (recordTypeText home name).truth? = Option.none := by
  have hbracket : Text.isTruthLetter (Text.lowerChar '<') = false := by decide
  exact Text.truth?_eq_none_of_mem hbracket (List.mem_append_left _ (by simp))

theorem truth?_of_inspectInt {n : Int} {t : Text} (h : (inspectInt n).result = .ok t) :
    t.truth? = Option.none := by
  unfold inspectInt at h
  split at h
  · cases h
  · obtain rfl := Except.ok.inj h
    exact Decimal.truth?_ofInt n

/-- A text that is put together from what was found is none of the words for true and false when no
such text is. -/
theorem truth?_of_map {α : Type} {f : α → Text} (hf : ∀ a, (f a).truth? = Option.none)
    {c : Counted FormatFault α} {t : Text} (h : (f <$> c).result = .ok t) :
    t.truth? = Option.none := by
  rw [Counted.result_map] at h
  cases hc : c.result with
  | error fault =>
      rw [hc] at h
      cases h
  | ok a =>
      rw [hc] at h
      obtain rfl := Except.ok.inj h
      exact hf a

/-- **The text of a value** reads as a truth value just when the value does. -/
theorem truth?_of_format {v : Value} {t : Text} (h : v.format = .ok t) : t.truth? = v.flag? := by
  have hsquare : Text.isTruthLetter (Text.lowerChar '[') = false := by decide
  have hbrace : Text.isTruthLetter (Text.lowerChar '\x7b') = false := by decide
  have hround : Text.isTruthLetter (Text.lowerChar '(') = false := by decide
  have hbytes : Text.isTruthLetter (Text.lowerChar 'b') = false := by decide
  cases v with
  | none =>
      obtain rfl := Except.ok.inj h
      rfl
  | bool b =>
      obtain rfl := Except.ok.inj h
      cases b <;> rfl
  | int n => exact truth?_of_inspectInt h
  | float x =>
      obtain rfl := Except.ok.inj h
      split
      · exact Decimal.truth?_ofInt _
      · exact x.truth?_text
  | text t' =>
      obtain rfl := Except.ok.inj h
      rfl
  | bytes b =>
      obtain rfl := Except.ok.inj h
      exact Text.truth?_eq_none_of_mem hbytes (List.mem_cons_self ..)
  | list items => exact truth?_of_map (truth?_bracketed hsquare (List.mem_cons_self ..) _) h
  | tuple items => exact truth?_of_map truth?_tupleText h
  | set items =>
      cases items with
      | nil =>
          obtain rfl := Except.ok.inj h
          rfl
      | cons x xs => exact truth?_of_map (truth?_bracketed hbrace (List.mem_cons_self ..) _) h
  | map readOnly entries =>
      cases readOnly <;>
        exact truth?_of_map (truth?_bracketed hbrace (List.mem_cons_self ..) _) h
  | record kind name fields others own =>
      cases own with
      | none =>
          have hname : '(' ∈ name ++ ['('] := by simp
          exact truth?_of_map (truth?_bracketed hround hname _) h
      | some own =>
          have hown : own.shown.result = .ok t := h
          have hflag : (record kind name fields others (some own)).flag? =
              own.shown.result.toOption.bind Text.truth? := rfl
          rw [hflag, hown]
          rfl
  | recordType typeName home name =>
      obtain rfl := Except.ok.inj h
      exact truth?_recordTypeText home name
  | object typeName own =>
      have hown : own.shown.result = .ok t := h
      have hflag : (object typeName own).flag? = own.shown.result.toOption.bind Text.truth? := rfl
      rw [hflag, hown]
      rfl

end Value

end SqlTemplate
