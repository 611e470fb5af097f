import Mathlib.Data.List.TakeWhile
import SqlTemplate.Json.Reader
import SqlTemplate.Proofs.Outcome
import SqlTemplate.Proofs.Value.Texts

set_option autoImplicit false

/-! # The values of documents

The value of a document is the absent one exactly if the document is the word `null` with blanks
around it (`Json.read_eq_none_iff`). Documents stand for plain values only, all the way down
(`Json.IsValue`): the mappings among them are objects, whose keys are texts, and their whole numbers
have no more digits than are written. So every value of a document has a text
(`Json.IsValue.exists_format`).

All of this comes from one inversion of each reading function: what it reads is either the word or a
value that is present (`Json.ReadAs`).
-/

namespace SqlTemplate

/-! ## Digits -/

namespace Decimal

theorem digitValue_lt {c : Char} (h : c.isDigit = true) : digitValue c < 10 := by
  simp only [Char.isDigit, Bool.and_eq_true, decide_eq_true_eq, UInt32.le_iff_toNat_le] at h
  have hnine : c.toNat ≤ 57 := h.2
  have hzero : '0'.toNat = 48 := rfl
  rw [digitValue, hzero]
  omega

/-- Digits stand for a number that has no more digits than they are. -/
theorem value_lt {digits : Text} (h : ∀ c ∈ digits, c.isDigit = true) :
    value digits < 10 ^ digits.length := by
  have hfold : ∀ n, digits.foldl (fun n c => 10 * n + digitValue c) n <
      (n + 1) * 10 ^ digits.length := by
    induction digits with
    | nil => simp
    | cons c digits ih =>
        obtain ⟨hc, hdigits⟩ := List.forall_mem_cons.mp h
        intro n
        have hlt := digitValue_lt hc
        calc (c :: digits).foldl (fun n c => 10 * n + digitValue c) n
            < (10 * n + digitValue c + 1) * 10 ^ digits.length := ih hdigits _
          _ ≤ ((n + 1) * 10) * 10 ^ digits.length := Nat.mul_le_mul_right _ (by omega)
          _ = (n + 1) * 10 ^ (c :: digits).length := by
              rw [List.length_cons, Nat.pow_succ, Nat.mul_assoc, Nat.mul_comm 10]
  calc value digits < (0 + 1) * 10 ^ digits.length := hfold 0
    _ = 10 ^ digits.length := by rw [Nat.zero_add, Nat.one_mul]

theorem natAbs_signedValue (negative : Bool) (digits : Text) :
    (signedValue negative digits).natAbs = value digits := by
  cases negative with
  | false => exact Int.natAbs_natCast _
  | true => exact (Int.natAbs_neg _).trans (Int.natAbs_natCast _)

theorem isDigit_of_wholePart? {t digits rest : Text} (h : wholePart? t = some (digits, rest)) :
    ∀ c ∈ digits, c.isDigit = true := by
  unfold wholePart? at h
  split at h
  · obtain ⟨rfl, -⟩ := Prod.mk.inj (Option.some.inj h)
    exact List.forall_mem_singleton.mpr rfl
  · have hspan : ∀ c ∈ (spanDigits t).1, c.isDigit = true :=
      fun c hc => List.mem_takeWhile_imp hc
    generalize spanDigits t = span at h hspan
    obtain ⟨taken, left⟩ := span
    simp only at h
    split at h
    · cases h
    · obtain ⟨rfl, -⟩ := Prod.mk.inj (Option.some.inj h)
      exact hspan

end Decimal

namespace Json

/-! ## Kinds -/

/-- The values that documents stand for. -/
inductive IsValue : Value → Prop where
  | none : IsValue .none
  | bool (b : Bool) : IsValue (.bool b)
  | int {n : Int} (h : n.natAbs < 10 ^ Decimal.maxDigits) : IsValue (.int n)
  | float (x : Binary64) : IsValue (.float x)
  | text (t : Text) : IsValue (.text t)
  | list {items : List Value} (h : ∀ v ∈ items, IsValue v) : IsValue (.list items)
  | object {entries : List (Value × Value)} (hnames : ∀ e ∈ entries, ∃ name, e.1 = .text name)
      (h : ∀ e ∈ entries, IsValue e.2) : IsValue (.map false entries)

/-- The members of an object: texts for names, with values. -/
def AreMembers (entries : List (Value × Value)) : Prop :=
  ∀ e ∈ entries, (∃ name, e.1 = .text name) ∧ IsValue e.2

theorem AreMembers.isValue {entries : List (Value × Value)} (h : AreMembers entries) :
    IsValue (.map false entries) :=
  .object (fun e he => (h e he).1) fun e he => (h e he).2

/-- Whether a document is the word for the absent value with blanks around it. -/
def IsNull (t : Text) : Prop :=
  ∃ before after, t = before ++ ("null".toList ++ after) ∧ (∀ c ∈ before, isSpace c) ∧
    ∀ c ∈ after, isSpace c

/-- What a reading function has read when it gives a value and what is left. -/
inductive ReadAs (t : Text) : Value → Text → Prop where
  | null {rest : Text} (h : t = "null".toList ++ rest) : ReadAs t .none rest
  | present {v : Value} {rest : Text} (h : IsValue v) (hne : v ≠ .none) : ReadAs t v rest

variable {t rest : Text} {v : Value}

theorem ReadAs.isValue (h : ReadAs t v rest) : IsValue v := by
  cases h with
  | null => exact .none
  | present h => exact h

/-! ## Texts -/

theorem exists_inspectAll {vs : List Value}
    (h : ∀ v ∈ vs, ∃ text, v.inspect.result = .ok text) :
    ∃ texts, (Value.inspectAll vs).result = .ok texts := by
  induction vs with
  | nil => exact ⟨[], rfl⟩
  | cons v vs ih =>
      obtain ⟨⟨text, htext⟩, hvs⟩ := List.forall_mem_cons.mp h
      obtain ⟨texts, htexts⟩ := ih hvs
      exact ⟨text :: texts, by simp [Value.inspectAll, htext, htexts, bind]⟩

theorem exists_inspectEntries {es : List (Value × Value)}
    (hnames : ∀ e ∈ es, ∃ name, e.1 = .text name)
    (h : ∀ e ∈ es, ∃ text, e.2.inspect.result = .ok text) :
    ∃ texts, (Value.inspectEntries es).result = .ok texts := by
  induction es with
  | nil => exact ⟨[], rfl⟩
  | cons e es ih =>
      obtain ⟨key, value⟩ := e
      obtain ⟨⟨name, hname⟩, hnames⟩ := List.forall_mem_cons.mp hnames
      obtain ⟨⟨text, htext⟩, hes⟩ := List.forall_mem_cons.mp h
      obtain ⟨texts, htexts⟩ := ih hnames hes
      have hkey : key = .text name := hname
      have hvalue : value.inspect.result = .ok text := htext
      exact ⟨(name.quoted ++ ": ".toList ++ text) :: texts, by
        simp [hkey, Value.inspectEntries, Value.inspect, hvalue, htexts, bind]⟩

/-- A value of a document shows inside another one. -/
theorem IsValue.exists_inspect (h : IsValue v) : ∃ text, v.inspect.result = .ok text := by
  induction h with
  | none => exact ⟨_, rfl⟩
  | bool b => exact ⟨_, rfl⟩
  | int h => exact ⟨_, congrArg Counted.result (Value.inspectInt_eq_leaf h)⟩
  | float x => exact ⟨_, rfl⟩
  | text t => exact ⟨_, rfl⟩
  | list h ih =>
      obtain ⟨texts, htexts⟩ := exists_inspectAll ih
      exact ⟨_, by rw [Value.inspect, Counted.result_within, Counted.result_map, htexts]; rfl⟩
  | object hnames h ih =>
      obtain ⟨texts, htexts⟩ := exists_inspectEntries hnames ih
      exact ⟨_, by rw [Value.inspect, Counted.result_within, Counted.result_map, htexts]; rfl⟩

/-- A value of a document has a text. -/
theorem IsValue.exists_format (h : IsValue v) : ∃ text, v.format = .ok text := by
  have hinspect := h.exists_inspect
  cases h with
  | none => exact ⟨_, rfl⟩
  | bool b => exact ⟨_, rfl⟩
  | int h => exact hinspect
  | float x => exact ⟨_, rfl⟩
  | text t => exact ⟨_, rfl⟩
  | list h => exact hinspect
  | object hnames h => exact hinspect

/-! ## Objects -/

/-- Adding an entry brings no key and no value but its own. -/
theorem mem_insertEntry {entries : List (Value × Value)} {key value : Value} {e : Value × Value}
    (h : e ∈ Value.insertEntry entries key value) :
    e ∈ entries ∨ (e.2 = value ∧ (e.1 = key ∨ ∃ e' ∈ entries, e.1 = e'.1)) := by
  induction entries with
  | nil => exact Or.inr ⟨congrArg Prod.snd (List.mem_singleton.mp h),
      Or.inl (congrArg Prod.fst (List.mem_singleton.mp h))⟩
  | cons entry entries ih =>
      obtain ⟨k, v⟩ := entry
      rw [Value.insertEntry] at h
      split at h
      · rcases List.mem_cons.mp h with rfl | h
        · exact Or.inr ⟨rfl, Or.inr ⟨(k, v), List.mem_cons_self, rfl⟩⟩
        · exact Or.inl (List.mem_cons_of_mem _ h)
      · rcases List.mem_cons.mp h with rfl | h
        · exact Or.inl List.mem_cons_self
        · rcases ih h with hold | ⟨hvalue, hkey | ⟨e', he', hsame⟩⟩
          · exact Or.inl (List.mem_cons_of_mem _ hold)
          · exact Or.inr ⟨hvalue, Or.inl hkey⟩
          · exact Or.inr ⟨hvalue, Or.inr ⟨e', List.mem_cons_of_mem _ he', hsame⟩⟩

/-- An object is a mapping from the names of its members to their values. -/
theorem AreMembers.isValue_mapOf {entries : List (Value × Value)} (h : AreMembers entries) :
    IsValue (Value.mapOf false entries) := by
  have hfold : ∀ table : List (Value × Value), AreMembers table →
      AreMembers (entries.foldl (fun es e => Value.insertEntry es e.1 e.2) table) := by
    induction entries with
    | nil => exact fun _ htable => htable
    | cons entry entries ih =>
        obtain ⟨hentry, hrest⟩ := List.forall_mem_cons.mp h
        intro table htable
        refine ih hrest _ fun e he => ?_
        rcases mem_insertEntry he with hold | ⟨hvalue, hkey | ⟨e', he', hsame⟩⟩
        · exact htable e hold
        · exact ⟨hkey ▸ hentry.1, hvalue ▸ hentry.2⟩
        · exact ⟨hsame ▸ (htable e' he').1, hvalue ▸ hentry.2⟩
  exact (hfold [] nofun).isValue

/-! ## Scalars -/

theorem readAs_of_numberOf {negative : Bool} {whole : Text} {fraction : Option Text}
    {exponent : Option Int} (hdigits : ∀ c ∈ whole, c.isDigit = true)
    (h : numberOf negative whole fraction exponent = .ok v) : IsValue v ∧ v ≠ .none := by
  rw [numberOf] at h
  split at h
  · split at h
    · cases h
    · rename_i hshort
      obtain rfl := Except.ok.inj h
      refine ⟨.int ?_, nofun⟩
      rw [Decimal.natAbs_signedValue]
      exact Nat.lt_of_lt_of_le (Decimal.value_lt hdigits)
        (Nat.pow_le_pow_right (by decide) (Nat.not_lt.mp hshort))
  · obtain rfl := Except.ok.inj h
    exact ⟨.float _, nofun⟩

theorem readAs_of_numberValue (h : numberValue t = .ok (v, rest)) : ReadAs t v rest := by
  simp only [numberValue] at h
  split at h
  · cases h
  · rename_i hwhole
    obtain ⟨w, hw, h⟩ := (bind_eq_ok_iff _ _ _).mp h
    obtain ⟨rfl, -⟩ := Prod.mk.inj (Except.ok.inj h)
    obtain ⟨hvalue, hne⟩ := readAs_of_numberOf (Decimal.isDigit_of_wholePart? hwhole) hw
    exact .present hvalue hne

/-- Every word but `null` stands for a value that is present. -/
theorem words_cases {word : Text} (h : (word, v) ∈ words) :
    (word = "null".toList ∧ v = .none) ∨ (IsValue v ∧ v ≠ .none) := by
  simp only [words, List.mem_cons, Prod.mk.injEq, List.not_mem_nil, or_false] at h
  rcases h with hnull | ⟨-, rfl⟩ | ⟨-, rfl⟩ | ⟨-, rfl⟩ | ⟨-, rfl⟩ | ⟨-, rfl⟩
  · exact Or.inl hnull
  · exact Or.inr ⟨.bool true, nofun⟩
  · exact Or.inr ⟨.bool false, nofun⟩
  · exact Or.inr ⟨.float .nan, nofun⟩
  · exact Or.inr ⟨.float (.infinite false), nofun⟩
  · exact Or.inr ⟨.float (.infinite true), nofun⟩

theorem readAs_of_scalarValue (h : scalarValue t = .ok (v, rest)) : ReadAs t v rest := by
  rw [scalarValue] at h
  split at h
  · rename_i word w hfind
    obtain ⟨rfl, rfl⟩ := Prod.mk.inj (Except.ok.inj h)
    have hprefix := List.find?_some hfind
    rcases words_cases (List.mem_of_find?_eq_some hfind) with ⟨rfl, rfl⟩ | ⟨hvalue, hne⟩
    · obtain ⟨left, rfl⟩ := List.isPrefixOf_iff_prefix.mp hprefix
      rw [List.drop_left]
      exact .null rfl
    · exact .present hvalue hne
  · exact readAs_of_numberValue h

/-! ## Values -/

section

variable {n room : Nat} {entries : List (Value × Value)} {items : List Value}

/-- A value is read as a value of a document, if the members and elements in it are. -/
theorem readAs_of_value_succ
    (hmembers : ∀ {room t entries rest}, members n room t = .ok (entries, rest) →
      AreMembers entries)
    (helements : ∀ {room t items rest}, elements n room t = .ok (items, rest) →
      ∀ v ∈ items, IsValue v)
    (h : value (n + 1) room t = .ok (v, rest)) : ReadAs t v rest := by
  unfold value at h
  split at h
  · obtain ⟨⟨s, left⟩, -, h⟩ := (bind_eq_ok_iff _ _ _).mp h
    obtain ⟨rfl, rfl⟩ := Prod.mk.inj (Except.ok.inj h)
    exact .present (.text s) nofun
  · cases h
  · split at h
    · obtain ⟨rfl, rfl⟩ := Prod.mk.inj (Except.ok.inj h)
      exact .present (.object nofun nofun) nofun
    · obtain ⟨⟨entries, left⟩, hread, h⟩ := (bind_eq_ok_iff _ _ _).mp h
      obtain ⟨rfl, rfl⟩ := Prod.mk.inj (Except.ok.inj h)
      exact .present (hmembers hread).isValue_mapOf nofun
  · cases h
  · split at h
    · obtain ⟨rfl, rfl⟩ := Prod.mk.inj (Except.ok.inj h)
      exact .present (.list nofun) nofun
    · obtain ⟨⟨items, left⟩, hread, h⟩ := (bind_eq_ok_iff _ _ _).mp h
      obtain ⟨rfl, rfl⟩ := Prod.mk.inj (Except.ok.inj h)
      exact .present (.list (helements hread)) nofun
  · exact readAs_of_scalarValue h

/-- Members are read as members, if their values and the members behind them are. -/
theorem areMembers_succ
    (hvalue : ∀ {room t v rest}, value n room t = .ok (v, rest) → ReadAs t v rest)
    (hmembers : ∀ {room t entries rest}, members n room t = .ok (entries, rest) →
      AreMembers entries)
    (h : members (n + 1) room t = .ok (entries, rest)) : AreMembers entries := by
  unfold members at h
  split at h
  · obtain ⟨⟨name, left⟩, -, h⟩ := (bind_eq_ok_iff _ _ _).mp h
    simp only at h
    split at h
    · obtain ⟨⟨w, left⟩, hw, h⟩ := (bind_eq_ok_iff _ _ _).mp h
      have hmember : (∃ s, (Value.text name, w).1 = .text s) ∧ IsValue (Value.text name, w).2 :=
        ⟨⟨name, rfl⟩, (hvalue hw).isValue⟩
      simp only at h
      split at h
      · obtain ⟨rfl, -⟩ := Prod.mk.inj (Except.ok.inj h)
        exact List.forall_mem_cons.mpr ⟨hmember, nofun⟩
      · obtain ⟨⟨more, left⟩, hmore, h⟩ := (bind_eq_ok_iff _ _ _).mp h
        obtain ⟨rfl, rfl⟩ := Prod.mk.inj (Except.ok.inj h)
        exact List.forall_mem_cons.mpr ⟨hmember, hmembers hmore⟩
      · cases h
    · cases h
  · cases h

/-- Elements are values of documents, if they are read as such. -/
theorem isValue_of_elements_succ
    (hvalue : ∀ {room t v rest}, value n room t = .ok (v, rest) → ReadAs t v rest)
    (helements : ∀ {room t items rest}, elements n room t = .ok (items, rest) →
      ∀ v ∈ items, IsValue v)
    (h : elements (n + 1) room t = .ok (items, rest)) : ∀ v ∈ items, IsValue v := by
  unfold elements at h
  obtain ⟨⟨w, left⟩, hw, h⟩ := (bind_eq_ok_iff _ _ _).mp h
  have hitem := (hvalue hw).isValue
  simp only at h
  split at h
  · obtain ⟨rfl, -⟩ := Prod.mk.inj (Except.ok.inj h)
    exact List.forall_mem_cons.mpr ⟨hitem, nofun⟩
  · obtain ⟨⟨more, left⟩, hmore, h⟩ := (bind_eq_ok_iff _ _ _).mp h
    obtain ⟨rfl, rfl⟩ := Prod.mk.inj (Except.ok.inj h)
    exact List.forall_mem_cons.mpr ⟨hitem, helements hmore⟩
  · cases h

end

/-- **What the reading functions give** are values of documents, whatever bound they have. -/
theorem reads (n : Nat) :
    (∀ {room t v rest}, value n room t = .ok (v, rest) → ReadAs t v rest) ∧
      (∀ {room t entries rest}, members n room t = .ok (entries, rest) → AreMembers entries) ∧
      ∀ {room t items rest}, elements n room t = .ok (items, rest) → ∀ v ∈ items, IsValue v := by
  induction n with
  | zero =>
      refine ⟨fun h => ?_, fun h => ?_, fun h => ?_⟩
      · unfold value at h
        cases h
      · unfold members at h
        cases h
      · unfold elements at h
        cases h
  | succ n ih =>
      obtain ⟨hvalue, hmembers, helements⟩ := ih
      exact ⟨readAs_of_value_succ hmembers helements, areMembers_succ hvalue hmembers,
        isValue_of_elements_succ hvalue helements⟩

theorem value_null (n room : Nat) (rest : Text) :
    value (n + 1) room ("null".toList ++ rest) = .ok (.none, rest) := by
  cases room <;> rfl

/-! ## Documents -/

theorem skipSpace_eq_nil_iff (t : Text) : skipSpace t = [] ↔ ∀ c ∈ t, isSpace c :=
  List.dropWhile_eq_nil_iff

/-- A document is read when its value is and there is nothing behind it but blanks. -/
theorem exists_value_of_read (h : read t = .ok v) :
    ∃ rest, ReadAs (skipSpace t) v rest ∧ ∀ c ∈ rest, isSpace c := by
  have hdocument : document t = .ok v := by
    rw [read] at h
    split at h
    · rename_i w hw
      rw [hw, Except.ok.inj h]
    · cases h
    · cases h
    · cases h
    · cases h
  unfold document at hdocument
  split at hdocument
  · cases hdocument
  · obtain ⟨⟨w, rest⟩, hvalue, hend⟩ := (bind_eq_ok_iff _ _ _).mp hdocument
    simp only at hend
    split at hend
    · rename_i hblank
      obtain rfl := Except.ok.inj hend
      exact ⟨rest, (reads _).1 hvalue, (skipSpace_eq_nil_iff rest).mp hblank⟩
    · cases hend

/-- **The values of documents** are plain all the way down. -/
theorem isValue_of_read (h : read t = .ok v) : IsValue v := by
  obtain ⟨rest, hread, -⟩ := exists_value_of_read h
  exact hread.isValue

/-- **The documents of the absent value** are the word for it with blanks around it. -/
theorem read_eq_none_iff (t : Text) : read t = .ok .none ↔ IsNull t := by
  constructor
  · intro h
    obtain ⟨rest, hread, hrest⟩ := exists_value_of_read h
    cases hread with
    | null hnull =>
        refine ⟨t.takeWhile isSpace, rest, ?_, fun c hc => List.mem_takeWhile_imp hc, hrest⟩
        rw [← hnull, skipSpace, List.takeWhile_append_dropWhile]
    | present hvalue hne => exact absurd rfl hne
  · rintro ⟨before, after, rfl, hbefore, hafter⟩
    have hskip : skipSpace (before ++ ("null".toList ++ after)) = "null".toList ++ after := by
      rw [skipSpace, List.dropWhile_append_of_pos hbefore]
      rfl
    have hdocument : document (before ++ ("null".toList ++ after)) = .ok .none := by
      unfold document
      split
      · -- a mark of byte order is no blank
        rename_i rest hmark
        rw [hmark, skipSpace, List.dropWhile_cons_of_neg (by decide)] at hskip
        exact absurd (List.cons.inj hskip).1 (by decide)
      · rw [hskip, value_null]
        simp only [bind, Except.bind, (skipSpace_eq_nil_iff after).mpr hafter]
        rfl
    rw [read, hdocument]

end Json

end SqlTemplate
