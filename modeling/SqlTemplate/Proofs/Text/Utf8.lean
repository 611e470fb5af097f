import SqlTemplate.Proofs.Outcome
import SqlTemplate.Text.Utf8

set_option autoImplicit false

/-! # Bytes that are read and written again

A text that is read from bytes is written as the same bytes (`Utf8.encode_decode`). A text that is
read from a file has its line ends replaced, so its bytes are those of the file with a newline for
each line end (`Utf8.unixBytes`, `Utf8.encode_readFile`). These are the bytes of the file exactly if
there is no carriage return among them (`Utf8.unixBytes_eq_self_iff`).

The first of these goes along the bytes. What is known within a character is that, whichever bytes
complete it, the character is written as the bytes read so far and these (`Utf8.HasRead`).
-/

namespace SqlTemplate

namespace Utf8

/-! ## The bytes of one character -/

theorem utf8EncodeChar_ofNat {v : Nat} (hv : v.isValidChar) :
    String.utf8EncodeChar (Char.ofNat v) =
      if v ≤ 0x7F then [UInt8.ofNat v]
      else if v ≤ 0x7FF then [UInt8.ofNat (v / 64 % 32 + 192), UInt8.ofNat (v % 64 + 128)]
      else if v ≤ 0xFFFF then
        [UInt8.ofNat (v / 4096 % 16 + 224), UInt8.ofNat (v / 64 % 64 + 128),
          UInt8.ofNat (v % 64 + 128)]
      else
        [UInt8.ofNat (v / 262144 % 8 + 240), UInt8.ofNat (v / 4096 % 64 + 128),
          UInt8.ofNat (v / 64 % 64 + 128), UInt8.ofNat (v % 64 + 128)] := by
  have hval : (Char.ofNat v).val.toNat = v := by
    rw [Char.ofNat, dif_pos hv]
    rfl
  rw [String.utf8EncodeChar]
  simp only [hval]

theorem ofNat_eq {n : Nat} {b : UInt8} (h : n = b.toNat) : UInt8.ofNat n = b := by
  rw [h, UInt8.ofNat_toNat]

theorem utf8EncodeChar_one {a : UInt8} (ha : a.toNat < 0x80) :
    String.utf8EncodeChar (Char.ofNat a.toNat) = [a] := by
  rw [utf8EncodeChar_ofNat (Or.inl (by omega)), if_pos (by omega), UInt8.ofNat_toNat]

section

variable {a b c d : UInt8} {v : Nat}

theorem utf8EncodeChar_two (ha : 0xC2 ≤ a.toNat ∧ a.toNat < 0xE0)
    (hb : 0x80 ≤ b.toNat ∧ b.toNat ≤ 0xBF) (hv : v = 64 * (a.toNat - 0xC0) + b.toNat % 64) :
    String.utf8EncodeChar (Char.ofNat v) = [a, b] := by
  rw [utf8EncodeChar_ofNat (Or.inl (by omega)), if_neg (by omega), if_pos (by omega),
    ofNat_eq (b := a) (by omega), ofNat_eq (b := b) (by omega)]

theorem utf8EncodeChar_three (ha : 0xE0 ≤ a.toNat ∧ a.toNat < 0xF0)
    (hb : (if a.toNat = 0xE0 then 0xA0 else 0x80) ≤ b.toNat ∧
      b.toNat ≤ if a.toNat = 0xED then 0x9F else 0xBF)
    (hc : 0x80 ≤ c.toNat ∧ c.toNat ≤ 0xBF)
    (hv : v = 64 * (64 * (a.toNat - 0xE0) + b.toNat % 64) + c.toNat % 64) :
    String.utf8EncodeChar (Char.ofNat v) = [a, b, c] := by
  have hrange : (0x80 ≤ b.toNat ∧ b.toNat ≤ 0xBF) ∧ (a.toNat = 0xE0 → 0xA0 ≤ b.toNat) ∧
      (a.toNat = 0xED → b.toNat ≤ 0x9F) := by
    split at hb <;> split at hb <;> omega
  -- a narrower range keeps the code point from being a surrogate
  have hvalid : v < 0xD800 ∨ 0xDFFF < v ∧ v < 0x110000 := by omega
  rw [utf8EncodeChar_ofNat hvalid, if_neg (by omega), if_neg (by omega), if_pos (by omega),
    ofNat_eq (b := a) (by omega), ofNat_eq (b := b) (by omega), ofNat_eq (b := c) (by omega)]

theorem utf8EncodeChar_four (ha : 0xF0 ≤ a.toNat ∧ a.toNat < 0xF5)
    (hb : (if a.toNat = 0xF0 then 0x90 else 0x80) ≤ b.toNat ∧
      b.toNat ≤ if a.toNat = 0xF4 then 0x8F else 0xBF)
    (hc : 0x80 ≤ c.toNat ∧ c.toNat ≤ 0xBF) (hd : 0x80 ≤ d.toNat ∧ d.toNat ≤ 0xBF)
    (hv : v = 64 * (64 * (64 * (a.toNat - 0xF0) + b.toNat % 64) + c.toNat % 64) + d.toNat % 64) :
    String.utf8EncodeChar (Char.ofNat v) = [a, b, c, d] := by
  have hrange : (0x80 ≤ b.toNat ∧ b.toNat ≤ 0xBF) ∧ (a.toNat = 0xF0 → 0x90 ≤ b.toNat) ∧
      (a.toNat = 0xF4 → b.toNat ≤ 0x8F) := by
    split at hb <;> split at hb <;> omega
  have hvalid : v < 0xD800 ∨ 0xDFFF < v ∧ v < 0x110000 := by omega
  rw [utf8EncodeChar_ofNat hvalid, if_neg (by omega), if_neg (by omega), if_neg (by omega),
    ofNat_eq (b := a) (by omega), ofNat_eq (b := b) (by omega), ofNat_eq (b := c) (by omega),
    ofNat_eq (b := d) (by omega)]

end

/-! ## Within a character -/

/-- Whether bytes complete the character that is pending, and to which character. -/
def Pending.Completes : Pending → List UInt8 → Char → Prop
  | p, [], c => p.owed = 0 ∧ c = Char.ofNat p.value
  | p, b :: rest, c => p.owed ≠ 0 ∧ ∃ p', p.next? b = some p' ∧ p'.Completes rest c

namespace Pending

variable {p p' : Pending} {b : UInt8} {rest : List UInt8} {c : Char}

theorem next?_eq_some_iff : p.next? b = some p' ↔
    (p.low ≤ b.toNat ∧ b.toNat ≤ p.high) ∧
      { p with taken := p.taken + 1, owed := p.owed - 1, low := 0x80, high := 0xBF,
               value := 64 * p.value + b.toNat % 64 } = p' := by
  rw [next?]
  split
  · rename_i hfits
    simp only [Bool.and_eq_true, decide_eq_true_eq] at hfits
    simp [hfits]
  · rename_i hfits
    simp only [Bool.and_eq_true, decide_eq_true_eq] at hfits
    simp [hfits]

/-- A character to which nothing is owed is complete. -/
theorem Completes.of_owed_eq (h : p.Completes rest c) (howed : p.owed = 0) :
    rest = [] ∧ c = Char.ofNat p.value := by
  cases rest with
  | nil => exact ⟨rfl, h.2⟩
  | cons b rest => exact absurd howed h.1

/-- A character to which something is owed takes a byte that fits. -/
theorem Completes.of_owed_ne (h : p.Completes rest c) (howed : p.owed ≠ 0) :
    ∃ b rest', rest = b :: rest' ∧ (p.low ≤ b.toNat ∧ b.toNat ≤ p.high) ∧
      Completes
        { p with taken := p.taken + 1, owed := p.owed - 1, low := 0x80, high := 0xBF,
                 value := 64 * p.value + b.toNat % 64 } rest' c := by
  cases rest with
  | nil => exact absurd h.1 howed
  | cons b rest =>
      obtain ⟨-, p', hnext, hrest⟩ := h
      obtain ⟨hfits, rfl⟩ := next?_eq_some_iff.mp hnext
      exact ⟨b, rest, rfl, hfits, hrest⟩

end Pending

/-- The bytes that start a character of two bytes, of three and of four. -/
theorem startOf?_eq_some {position : Nat} {a : UInt8} {p : Pending}
    (h : startOf? position a = some p) :
    let n := a.toNat
    let pending (owed low high value : Nat) : Pending :=
      { position, first := a, taken := 1, owed, low, high, value }
    ((0xC2 ≤ n ∧ n < 0xE0) ∧ p = pending 1 0x80 0xBF (n - 0xC0)) ∨
    ((0xE0 ≤ n ∧ n < 0xF0) ∧ p = pending 2 (if n = 0xE0 then 0xA0 else 0x80)
      (if n = 0xED then 0x9F else 0xBF) (n - 0xE0)) ∨
    ((0xF0 ≤ n ∧ n < 0xF5) ∧ p = pending 3 (if n = 0xF0 then 0x90 else 0x80)
      (if n = 0xF4 then 0x8F else 0xBF) (n - 0xF0)) := by
  intro n pending
  rw [startOf?] at h
  simp only at h
  split at h
  · cases h
  · split at h
    · exact Or.inl ⟨by omega, (Option.some.inj h).symm⟩
    · split at h
      · exact Or.inr (Or.inl ⟨by omega, (Option.some.inj h).symm⟩)
      · split at h
        · exact Or.inr (Or.inr ⟨by omega, (Option.some.inj h).symm⟩)
        · cases h

theorem owed_ne_of_startOf? {position : Nat} {a : UInt8} {p : Pending}
    (h : startOf? position a = some p) : p.owed ≠ 0 := by
  obtain ⟨-, rfl⟩ | ⟨-, rfl⟩ | ⟨-, rfl⟩ := startOf?_eq_some h
  · exact Nat.one_ne_zero
  · exact Nat.succ_ne_zero 1
  · exact Nat.succ_ne_zero 2

/-- A character is written as the byte that starts it and the bytes that complete it. -/
theorem utf8EncodeChar_of_startOf? {position : Nat} {a : UInt8} {p : Pending}
    (hstart : startOf? position a = some p) {rest : List UInt8} {ch : Char}
    (h : p.Completes rest ch) : String.utf8EncodeChar ch = a :: rest := by
  obtain ⟨b, rest, rfl, hb, h⟩ := h.of_owed_ne (owed_ne_of_startOf? hstart)
  obtain ⟨ha, rfl⟩ | ⟨ha, rfl⟩ | ⟨ha, rfl⟩ := startOf?_eq_some hstart
  · obtain ⟨rfl, rfl⟩ := h.of_owed_eq rfl
    exact utf8EncodeChar_two ha hb rfl
  · obtain ⟨c, rest, rfl, hc, h⟩ := h.of_owed_ne Nat.one_ne_zero
    obtain ⟨rfl, rfl⟩ := h.of_owed_eq rfl
    exact utf8EncodeChar_three ha hb hc rfl
  · obtain ⟨c, rest, rfl, hc, h⟩ := h.of_owed_ne (Nat.succ_ne_zero 1)
    obtain ⟨d, rest, rfl, hd, h⟩ := h.of_owed_ne Nat.one_ne_zero
    obtain ⟨rfl, rfl⟩ := h.of_owed_eq rfl
    exact utf8EncodeChar_four ha hb hc hd rfl

/-! ## Reading and writing -/

/-- Whether these bytes have been read of the character that is pending, if there is one. -/
def HasRead (read : List UInt8) : Option Pending → Prop
  | none => read = []
  | some p => p.owed ≠ 0 ∧
      ∀ rest c, p.Completes rest c → String.utf8EncodeChar c = read ++ rest

theorem hasRead_nil : HasRead [] none := rfl

theorem HasRead.start {position : Nat} {a : UInt8} {p : Pending}
    (h : startOf? position a = some p) : HasRead [a] (some p) :=
  ⟨owed_ne_of_startOf? h, fun _ _ hrest => utf8EncodeChar_of_startOf? h hrest⟩

theorem HasRead.next {read : List UInt8} {p p' : Pending} {b : UInt8}
    (h : HasRead read (some p)) (hnext : p.next? b = some p') (howed : p'.owed ≠ 0) :
    HasRead (read ++ [b]) (some p') := by
  refine ⟨howed, fun rest c hrest => ?_⟩
  rw [h.2 (b :: rest) c ⟨h.1, p', hnext, hrest⟩, List.append_cons]

theorem HasRead.last {read : List UInt8} {p p' : Pending} {b : UInt8}
    (h : HasRead read (some p)) (hnext : p.next? b = some p') (howed : p'.owed = 0) :
    String.utf8EncodeChar (Char.ofNat p'.value) = read ++ [b] :=
  h.2 [b] _ ⟨h.1, p', hnext, howed, rfl⟩

theorem encode_cons (c : Char) (t : Text) :
    encode (c :: t) = String.utf8EncodeChar c ++ encode t :=
  List.flatMap_cons

/-- **From any place on**, the text that is read is written as the bytes read of its first character
and those that follow. -/
theorem encode_of_decodeFrom {bytes read : List UInt8} {position : Nat}
    {pending : Option Pending} (hread : HasRead read pending) {t : Text}
    (h : decodeFrom position pending bytes = .ok t) : encode t = read ++ bytes := by
  induction bytes generalizing position read pending t with
  | nil =>
      cases pending with
      | none =>
          obtain rfl := Except.ok.inj h
          obtain rfl := hread
          rfl
      | some p => cases h
  | cons b bytes ih =>
      cases pending with
      | none =>
          obtain rfl := hread
          rw [decodeFrom] at h
          split at h
          · rename_i hascii
            obtain ⟨rest, hrest, rfl⟩ := (map_eq_ok_iff _ _ _).mp h
            rw [encode_cons, utf8EncodeChar_one hascii, ih hasRead_nil hrest]
            rfl
          · split at h
            · rename_i p hstart
              exact ih (.start hstart) h
            · cases h
      | some p =>
          rw [decodeFrom] at h
          split at h
          · cases h
          · rename_i p' hnext
            split at h
            · rename_i howed
              obtain ⟨rest, hrest, rfl⟩ := (map_eq_ok_iff _ _ _).mp h
              rw [encode_cons, hread.last hnext howed, ih hasRead_nil hrest, List.append_assoc]
              rfl
            · rename_i howed
              rw [ih (hread.next hnext howed) h, List.append_assoc]
              rfl

/-- **A text that is read from bytes** is written as these bytes. -/
theorem encode_decode {bytes : List UInt8} {t : Text} (h : decode bytes = .ok t) :
    encode t = bytes :=
  encode_of_decodeFrom hasRead_nil h

/-! ## Line ends -/

/-- The bytes with every line end, of one byte or two, as a newline. -/
def unixBytes : List UInt8 → List UInt8
  | 13 :: 10 :: bytes => 10 :: unixBytes bytes
  | 13 :: bytes => 10 :: unixBytes bytes
  | b :: bytes => b :: unixBytes bytes
  | [] => []

theorem unixBytes_append_of_not_mem {line : List UInt8} (h : 13 ∉ line) (bytes : List UInt8) :
    unixBytes (line ++ bytes) = line ++ unixBytes bytes := by
  induction line with
  | nil => rfl
  | cons b line ih =>
      rw [List.mem_cons, not_or] at h
      rw [List.cons_append, unixBytes, ih h.2, List.cons_append]
      · exact fun _ hb => absurd hb.symm h.1
      · exact fun hb => absurd hb.symm h.1

theorem not_mem_unixBytes (bytes : List UInt8) : 13 ∉ unixBytes bytes := by
  fun_induction unixBytes bytes with
  | case1 bytes ih => simp [ih]
  | case2 bytes hnot ih => simp [ih]
  | case3 b bytes hnot hnot' ih =>
      rw [List.mem_cons, not_or]
      exact ⟨fun hb => hnot' hb.symm, ih⟩
  | case4 => simp

/-- **Nothing changes** exactly if there is no carriage return. -/
theorem unixBytes_eq_self_iff (bytes : List UInt8) : unixBytes bytes = bytes ↔ 13 ∉ bytes := by
  constructor
  · intro h
    rw [← h]
    exact not_mem_unixBytes bytes
  · intro h
    have happend := unixBytes_append_of_not_mem h []
    rwa [List.append_nil, unixBytes, List.append_nil] at happend

/-- All bytes of a character that takes more than one byte are above 127. -/
theorem le_of_mem_utf8EncodeChar {c : Char} (hc : 0x80 ≤ c.toNat) {b : UInt8}
    (h : b ∈ String.utf8EncodeChar c) : 0x80 ≤ b.toNat := by
  have hbyte : ∀ {n}, 0x80 ≤ n → n < 0x100 → 0x80 ≤ (UInt8.ofNat n).toNat := by
    intro n hlow hhigh
    rwa [UInt8.toNat_ofNat', Nat.mod_eq_of_lt hhigh]
  have hc' : ¬ c.val.toNat ≤ 0x7F := Nat.not_le.mpr hc
  rw [String.utf8EncodeChar, if_neg hc'] at h
  split at h
  · simp only [List.mem_cons, List.not_mem_nil, or_false] at h
    rcases h with rfl | rfl <;> exact hbyte (by omega) (by omega)
  · split at h
    · simp only [List.mem_cons, List.not_mem_nil, or_false] at h
      rcases h with rfl | rfl | rfl <;> exact hbyte (by omega) (by omega)
    · simp only [List.mem_cons, List.not_mem_nil, or_false] at h
      rcases h with rfl | rfl | rfl | rfl <;> exact hbyte (by omega) (by omega)

/-- A byte below 128 is a character of its own. -/
theorem eq_ofNat_of_mem_utf8EncodeChar {c : Char} {b : UInt8} (hb : b.toNat < 0x80)
    (h : b ∈ String.utf8EncodeChar c) : c = Char.ofNat b.toNat := by
  have hc : c.toNat < 0x80 :=
    Nat.lt_of_not_le fun hlong => Nat.not_le.mpr hb (le_of_mem_utf8EncodeChar hlong h)
  have hone := utf8EncodeChar_one (a := UInt8.ofNat c.toNat)
  rw [UInt8.toNat_ofNat', Nat.mod_eq_of_lt (by omega), Char.ofNat_toNat] at hone
  rw [hone hc, List.mem_singleton] at h
  rw [h, UInt8.toNat_ofNat', Nat.mod_eq_of_lt (by omega), Char.ofNat_toNat]

/-- Bytes that start with a newline are those of a text that does. -/
theorem exists_eq_cons_of_encode {t : Text} {bytes : List UInt8}
    (h : encode t = 10 :: bytes) : ∃ t', t = '\n' :: t' := by
  cases t with
  | nil => cases h
  | cons c t =>
      rw [encode_cons] at h
      obtain ⟨b, rest, hc⟩ := List.exists_cons_of_ne_nil (String.utf8EncodeChar_ne_nil (c := c))
      rw [hc] at h
      obtain ⟨rfl, -⟩ := List.cons.inj h
      have hmem : (10 : UInt8) ∈ String.utf8EncodeChar c := by
        rw [hc]
        exact List.mem_cons_self
      exact ⟨t, by rw [eq_ofNat_of_mem_utf8EncodeChar (by decide) hmem]; rfl⟩

/-- **A text with newlines for its line ends** is written as its bytes with newlines for theirs. -/
theorem encode_unixLines (t : Text) : encode (unixLines t) = unixBytes (encode t) := by
  fun_induction unixLines t with
  | case1 t ih =>
      rw [encode_cons, encode_cons, encode_cons, ih]
      rfl
  | case2 t hnot ih =>
      have hbytes : ∀ bytes, encode t ≠ 10 :: bytes := by
        intro bytes h
        obtain ⟨t', rfl⟩ := exists_eq_cons_of_encode h
        exact hnot t' rfl
      have hreturn : unixBytes (13 :: encode t) = 10 :: unixBytes (encode t) := by
        rw [unixBytes]
        exact hbytes
      rw [encode_cons, encode_cons, ih]
      exact hreturn.symm
  | case3 c t hnot hnot' ih =>
      have hmem : 13 ∉ String.utf8EncodeChar c :=
        fun h => hnot' (eq_ofNat_of_mem_utf8EncodeChar (by decide) h)
      rw [encode_cons, encode_cons, ih, unixBytes_append_of_not_mem hmem]
  | case4 => rfl

/-- **A text that is read from a file** is written as the bytes of the file with newlines for the
line ends. -/
theorem encode_readFile {content : List UInt8} {t : Text} (h : readFile content = .ok t) :
    encode t = unixBytes content := by
  obtain ⟨t, hdecode, rfl⟩ := (map_eq_ok_iff _ _ _).mp h
  rw [encode_unixLines, encode_decode hdecode]

/-! ## Plain texts -/

/-- Whether a text has only characters of one byte, and no line ends of another system. -/
def IsPlain (t : Text) : Prop := ∀ c ∈ t, c.toNat < 0x80 ∧ c ≠ '\r'

instance (t : Text) : Decidable (IsPlain t) :=
  List.decidableBAll _ t

theorem decodeFrom_encode {t : Text} (h : IsPlain t) (position : Nat) :
    decodeFrom position none (encode t) = .ok t := by
  induction t generalizing position with
  | nil => rfl
  | cons c t ih =>
      obtain ⟨⟨hc, -⟩, ht⟩ := List.forall_mem_cons.mp h
      have hbyte : (UInt8.ofNat c.toNat).toNat = c.toNat := by
        rw [UInt8.toNat_ofNat']
        omega
      have hencode : String.utf8EncodeChar c = [UInt8.ofNat c.toNat] := by
        have hone := @utf8EncodeChar_one (UInt8.ofNat c.toNat) (by omega)
        rwa [hbyte, Char.ofNat_toNat] at hone
      rw [encode_cons, hencode, List.singleton_append, decodeFrom, if_pos (by omega), ih ht, hbyte,
        Char.ofNat_toNat]
      rfl

theorem unixLines_eq {t : Text} (h : IsPlain t) : unixLines t = t := by
  fun_induction unixLines t with
  | case1 t ih => exact absurd rfl (h _ List.mem_cons_self).2
  | case2 t hnext ih => exact absurd rfl (h _ List.mem_cons_self).2
  | case3 c t hpair hreturn ih => rw [ih (List.forall_mem_cons.mp h).2]
  | case4 => rfl

/-- What is written for a plain text is read again as that text. -/
theorem readFile_encode {t : Text} (h : IsPlain t) : readFile (encode t) = .ok t := by
  rw [readFile, decode, decodeFrom_encode h]
  exact congrArg Except.ok (unixLines_eq h)

theorem isPlain_unwords {ws : List Text} (h : ∀ w ∈ ws, IsPlain w) :
    IsPlain (Text.unwords ws) := by
  induction ws with
  | nil => exact nofun
  | cons w ws ih =>
      obtain ⟨hw, hws⟩ := List.forall_mem_cons.mp h
      cases ws with
      | nil =>
          rw [Text.unwords, Text.joinWith_singleton]
          exact hw
      | cons v ws =>
          intro c hc
          rw [Text.unwords, Text.joinWith_cons_cons, List.mem_append, List.mem_append] at hc
          rcases hc with (hc | hc) | hc
          · exact hw c hc
          · exact (by decide : IsPlain [' ']) c hc
          · exact ih hws c hc

end Utf8

end SqlTemplate
