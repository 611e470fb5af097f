import SqlTemplate.Keyword
import SqlTemplate.Text.Blank

set_option autoImplicit false

/-! # Words and the texts made of them

A word is a text that is not empty and has no blank in it (`Text.IsWord`). The words of a text are
such texts, and they are all that is left when words are put into a text with spaces between them
(`Text.words_unwords`).
-/

namespace SqlTemplate

namespace Text

/-- Whether a text can be a word of a text. -/
def IsWord (w : Text) : Prop := w ≠ [] ∧ ∀ c ∈ w, isBlank c = false

instance (w : Text) : Decidable (IsWord w) :=
  decidable_of_iff (w ≠ [] ∧ w.all fun c => !isBlank c) (by simp [IsWord])

theorem isWord_keyword (k : Keyword) : IsWord k.text := by
  cases k <;> decide

/-- No piece between separators has a separator in it. -/
theorem not_separates_of_mem_splitAt (f : Char → Bool) {t p : Text} (h : p ∈ splitAt f t) :
    ∀ c ∈ p, f c = false := by
  induction t generalizing p with
  | nil =>
      obtain rfl := List.mem_singleton.mp h
      simp
  | cons d t ih =>
      rw [splitAt] at h
      split at h
      · rcases List.mem_cons.mp h with rfl | h
        · simp
        · exact ih h
      · rename_i hd
        cases hs : splitAt f t with
        | nil => exact absurd hs (splitAt_ne_nil f t)
        | cons q qs =>
            rw [hs] at h
            simp only at h
            -- the first piece grows by a character, and the others are pieces of `t`
            rcases List.mem_cons.mp h with rfl | h
            · have hq : ∀ c ∈ q, f c = false := ih (hs ▸ List.mem_cons_self ..)
              exact List.forall_mem_cons.mpr ⟨by simpa using hd, hq⟩
            · exact ih (hs ▸ List.mem_cons_of_mem _ h)

theorem isWord_of_mem_words {t w : Text} (h : w ∈ words t) : IsWord w := by
  obtain ⟨hmem, hne⟩ := List.mem_filter.mp h
  exact ⟨by simpa using hne, not_separates_of_mem_splitAt isBlank hmem⟩

theorem splitAt_eq_singleton {f : Char → Bool} {t : Text} (h : ∀ c ∈ t, f c = false) :
    splitAt f t = [t] := by
  induction t with
  | nil => rfl
  | cons c t ih =>
      rw [List.forall_mem_cons] at h
      simp [splitAt, h.1, ih h.2]

@[simp] theorem words_nil : words [] = [] := rfl

/-- Blanks at the start of a text add no words. -/
theorem words_blanks_append {s : Text} (h : ∀ c ∈ s, isBlank c = true) (t : Text) :
    words (s ++ t) = words t := by
  induction s with
  | nil => rfl
  | cons c s ih =>
      rw [List.forall_mem_cons] at h
      have hc : words (c :: (s ++ t)) = words [] ++ words (s ++ t) := words_append_blank [] _ c h.1
      rw [List.cons_append, hc, words_nil, List.nil_append, ih h.2]

/-- The words of two texts with blanks between them are those of the one and those of the other. -/
theorem words_append_blanks {s : Text} (hs : s ≠ []) (h : ∀ c ∈ s, isBlank c = true) (a b : Text) :
    words (a ++ s ++ b) = words a ++ words b := by
  cases s with
  | nil => exact absurd rfl hs
  | cons c s =>
      rw [List.forall_mem_cons] at h
      rw [List.append_assoc, List.cons_append, words_append_blank a _ c h.1,
        words_blanks_append h.2]

/-- A word is the only word in it. -/
theorem words_of_isWord {w : Text} (h : IsWord w) : words w = [w] := by
  simp [words, splitAt_eq_singleton h.2, h.1]

/-- **Words are read back** from the text made of them. -/
theorem words_unwords {ws : List Text} (h : ∀ w ∈ ws, IsWord w) : words (unwords ws) = ws := by
  induction ws with
  | nil => rfl
  | cons w ws ih =>
      rw [List.forall_mem_cons] at h
      cases ws with
      | nil => rw [unwords, joinWith_singleton, words_of_isWord h.1]
      | cons v ws =>
          calc words (unwords (w :: v :: ws))
              = words (w ++ ' ' :: unwords (v :: ws)) := by
                rw [unwords, joinWith_cons_cons, List.append_assoc, List.singleton_append, unwords]
            _ = words w ++ words (unwords (v :: ws)) := words_append_blank _ _ _ (by decide)
            _ = w :: v :: ws := by rw [words_of_isWord h.1, ih h.2, List.singleton_append]

/-! ## Words in place -/

/-- What is put in the place of a word; where no word stands, nothing is put. -/
def mapWord (f : Text → Text) (w : Text) : Text := if w = [] then [] else f w

/-- Puts other words in the places of those of a text, behind the characters `current` of a word
of which the rest is still to come. -/
def mapWordsFrom (f : Text → Text) (current : Text) : Text → Text
  | [] => mapWord f current
  | c :: t =>
      if isBlank c then mapWord f current ++ c :: mapWordsFrom f [] t
      else mapWordsFrom f (current ++ [c]) t

/-- The text with other words in the places of its words. The blanks stay as they are. -/
def mapWords (f : Text → Text) (t : Text) : Text := mapWordsFrom f [] t

theorem words_mapWord {f : Text → Text} (hf : ∀ w, IsWord w → IsWord (f w)) {current : Text}
    (h : ∀ c ∈ current, isBlank c = false) :
    words (mapWord f current) = (words current).map f := by
  by_cases hc : current = []
  · simp [mapWord, hc]
  · have hw : IsWord current := ⟨hc, h⟩
    rw [mapWord, if_neg hc, words_of_isWord hw, words_of_isWord (hf current hw), List.map_singleton]

theorem words_mapWordsFrom {f : Text → Text} (hf : ∀ w, IsWord w → IsWord (f w)) {current : Text}
    (h : ∀ c ∈ current, isBlank c = false) (t : Text) :
    words (mapWordsFrom f current t) = (words (current ++ t)).map f := by
  induction t generalizing current with
  | nil => rw [mapWordsFrom, List.append_nil, words_mapWord hf h]
  | cons c t ih =>
      rw [mapWordsFrom]
      by_cases hc : isBlank c = true
      · -- the word read so far ends here
        have hnone : ∀ d ∈ ([] : Text), isBlank d = false := nofun
        have hrest := ih hnone
        rw [if_pos hc, words_append_blank _ _ _ hc, words_append_blank _ _ _ hc, List.map_append,
          words_mapWord hf h, hrest, List.nil_append]
      · have hcurrent : ∀ d ∈ current ++ [c], isBlank d = false := by
          intro d hd
          rcases List.mem_append.mp hd with hd | hd
          · exact h d hd
          · rw [List.mem_singleton.mp hd]
            simpa using hc
        rw [if_neg hc, ih hcurrent, List.append_assoc, List.singleton_append]

/-- The words of a text with other words in place are these other words. -/
theorem words_mapWords {f : Text → Text} (hf : ∀ w, IsWord w → IsWord (f w)) (t : Text) :
    words (mapWords f t) = (words t).map f :=
  words_mapWordsFrom hf (by simp) t

end Text

end SqlTemplate
