import Mathlib.Data.List.Chain
import SqlTemplate.Proofs.Text.Spacing
import SqlTemplate.Proofs.Text.Words

set_option autoImplicit false

/-! # Tidy texts

A text is tidied when nothing but its words is left of it, with single spaces between them
(`Text.tidy`). The words stay the same (`Text.words_tidy`), so whatever depends on the words alone
does not see the difference. Texts that tidying leaves alone are those in which every blank is a
single space between two words (`Text.tidy_eq_self_iff`), and tidy texts that are spaced are tidy
(`Text.tidy_spaced`).
-/

namespace SqlTemplate

namespace Text

/-- The text with single spaces between its words and no other blanks. -/
def tidy (t : Text) : Text := unwords (words t)

@[simp] theorem words_tidy (t : Text) : words (tidy t) = words t :=
  words_unwords fun _ => isWord_of_mem_words

theorem tidy_of_isWord {w : Text} (h : IsWord w) : tidy w = w := by
  rw [tidy, words_of_isWord h, unwords, joinWith_singleton]

theorem unwords_cons {w : Text} {ws : List Text} (h : ws ≠ []) :
    unwords (w :: ws) = w ++ ' ' :: unwords ws := by
  cases ws with
  | nil => exact absurd rfl h
  | cons v ws =>
      rw [unwords, joinWith_cons_cons, List.append_assoc, List.singleton_append, unwords]

/-! ## Spacing -/

/-- Words are never dropped when they are spaced. -/
theorem spaced_words (t : Text) : spaced (words t) = tidy t := by
  have hall : ((words t).filter fun w => !w.isEmpty) = words t :=
    List.filter_eq_self.mpr fun w hw => by simpa using (isWord_of_mem_words hw).1
  rw [spaced, hall, tidy]

theorem words_spaced_pair (t u : Text) : words (spaced [t, u]) = words t ++ words u := by
  rw [spaced_pair]
  split
  · simp [*]
  · split
    · simp [*]
    · exact words_append_blank t u ' ' (by decide)

/-- The words of spaced texts are the words of the texts. -/
theorem words_spaced (ts : List Text) : words (spaced ts) = ts.flatMap words := by
  induction ts with
  | nil => rfl
  | cons t ts ih => rw [spaced_cons, words_spaced_pair, ih, List.flatMap_cons]

theorem spaced_flatMap (f : Text → List Text) (ts : List Text) :
    spaced (ts.flatMap f) = spaced (ts.map fun t => spaced (f t)) := by
  induction ts with
  | nil => rfl
  | cons t ts ih => rw [List.flatMap_cons, spaced_append, ih, List.map_cons, ← spaced_cons]

/-- **Spaced texts are tidied** by tidying each of them. -/
theorem tidy_spaced (ts : List Text) : tidy (spaced ts) = spaced (ts.map tidy) :=
  calc tidy (spaced ts) = spaced (words (spaced ts)) := (spaced_words _).symm
    _ = spaced (ts.flatMap words) := by rw [words_spaced]
    _ = spaced (ts.map fun t => spaced (words t)) := spaced_flatMap words ts
    _ = spaced (ts.map tidy) := by simp only [spaced_words]

/-! ## Blanks -/

/-- Whether every blank of a text is a single space between two words. -/
structure SinglySpaced (t : Text) : Prop where
  noLeading : ∀ c ∈ t.head?, isBlank c = false
  noTrailing : ∀ c ∈ t.getLast?, isBlank c = false
  noDoubled : t.IsChain fun c d => isBlank c = false ∨ isBlank d = false
  spacesOnly : ∀ c ∈ t, isBlank c = true → c = ' '

theorem singlySpaced_nil : SinglySpaced [] := ⟨nofun, nofun, .nil, nofun⟩

theorem IsWord.singlySpaced {w : Text} (h : IsWord w) : SinglySpaced w where
  noLeading c hc := h.2 c (List.mem_of_mem_head? hc)
  noTrailing c hc := h.2 c (List.mem_of_getLast? hc)
  noDoubled := (List.pairwise_of_forall_mem_list fun c hc _ _ => Or.inl (h.2 c hc)).isChain
  spacesOnly c hc hblank := by
    rw [h.2 c hc] at hblank
    cases hblank

/-- A word may stand in front of a text that is not empty, with a space between them. -/
theorem SinglySpaced.cons_word {w t : Text} (hw : IsWord w) (ht : SinglySpaced t) (hne : t ≠ []) :
    SinglySpaced (w ++ ' ' :: t) := by
  have hword := hw.singlySpaced
  refine ⟨?_, ?_, ?_, ?_⟩
  · rw [List.head?_append_of_ne_nil w hw.1]
    exact hword.noLeading
  · rw [List.getLast?_append_of_ne_nil w (List.cons_ne_nil ' ' t), List.getLast?_cons_of_ne_nil hne]
    exact ht.noTrailing
  · refine List.isChain_append.mpr ⟨hword.noDoubled, List.isChain_cons.mpr ⟨?_, ht.noDoubled⟩, ?_⟩
    · exact fun d hd => Or.inr (ht.noLeading d hd)
    · exact fun c hc _ _ => Or.inl (hword.noTrailing c hc)
  · intro c hc hblank
    rcases List.mem_append.mp hc with hc | hc
    · exact hword.spacesOnly c hc hblank
    · rcases List.mem_cons.mp hc with rfl | hc
      · rfl
      · exact ht.spacesOnly c hc hblank

theorem singlySpaced_unwords {ws : List Text} (h : ∀ w ∈ ws, IsWord w) :
    SinglySpaced (unwords ws) := by
  induction ws with
  | nil => exact singlySpaced_nil
  | cons w ws ih =>
      rw [List.forall_mem_cons] at h
      cases ws with
      | nil =>
          rw [unwords, joinWith_singleton]
          exact h.1.singlySpaced
      | cons v ws =>
          rw [unwords_cons (List.cons_ne_nil v ws)]
          exact (ih h.2).cons_word h.1 (unwords_cons_ne_nil (h.2 v List.mem_cons_self).1 ws)

/-- The rest of a text, if it does not start with a blank. -/
theorem SinglySpaced.of_append {s t : Text} (h : SinglySpaced (s ++ t))
    (hhead : ∀ c ∈ t.head?, isBlank c = false) : SinglySpaced t := by
  refine ⟨hhead, fun c hc => ?_, (List.isChain_append.mp h.noDoubled).2.1,
    fun c hc => h.spacesOnly c (List.mem_append_right s hc)⟩
  refine h.noTrailing c ?_
  have hne : t ≠ [] := by
    rintro rfl
    cases hc
  rwa [List.getLast?_append_of_ne_nil s hne]

/-- A text with single spaces is made of words. -/
theorem SinglySpaced.exists_words : ∀ {t : Text}, SinglySpaced t →
    ∃ ws, (∀ w ∈ ws, IsWord w) ∧ t = unwords ws
  | [], _ => ⟨[], nofun, rfl⟩
  | [c], h => by
      have hc : isBlank c = false := h.noLeading c rfl
      refine ⟨[[c]], ?_, (joinWith_singleton _ _).symm⟩
      simp [IsWord, hc]
  | c :: d :: t, h => by
      have hc : isBlank c = false := h.noLeading c rfl
      by_cases hd : isBlank d = true
      · -- the first word ends here, and another one starts behind the space
        obtain rfl : d = ' ' := h.spacesOnly d (by simp) hd
        have hchain := (List.isChain_cons.mp (List.isChain_cons.mp h.noDoubled).2).1
        have hhead : ∀ e ∈ t.head?, isBlank e = false :=
          fun e he => (hchain e he).resolve_left (by simp [hd])
        have hrest : SinglySpaced t := SinglySpaced.of_append (s := [c, ' ']) h hhead
        obtain ⟨ws, hws, rfl⟩ := hrest.exists_words
        have hne : ws ≠ [] := by
          rintro rfl
          have hlast := h.noTrailing ' ' rfl
          rw [hd] at hlast
          cases hlast
        refine ⟨[c] :: ws, List.forall_mem_cons.mpr ⟨by simp [IsWord, hc], hws⟩, ?_⟩
        rw [unwords_cons hne, List.singleton_append]
      · -- the first word goes on
        have hrest : SinglySpaced (d :: t) :=
          SinglySpaced.of_append (s := [c]) h fun e he => by
            obtain rfl := Option.some.inj he
            simpa using hd
        obtain ⟨ws, hws, hws'⟩ := hrest.exists_words
        cases ws with
        | nil => cases hws'
        | cons w ws =>
            rw [List.forall_mem_cons] at hws
            have hcw : IsWord (c :: w) := ⟨by simp, List.forall_mem_cons.mpr ⟨hc, hws.1.2⟩⟩
            refine ⟨(c :: w) :: ws, List.forall_mem_cons.mpr ⟨hcw, hws.2⟩, ?_⟩
            rw [hws']
            rfl

/-- **Tidy texts** are those in which every blank is a single space between two words. -/
theorem tidy_eq_self_iff (t : Text) : tidy t = t ↔ SinglySpaced t := by
  constructor
  · intro h
    rw [← h]
    exact singlySpaced_unwords fun _ => isWord_of_mem_words
  · intro h
    obtain ⟨ws, hws, rfl⟩ := h.exists_words
    rw [tidy, words_unwords hws]

end Text

end SqlTemplate
