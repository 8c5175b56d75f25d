import Automata.Text.Utf8

/-! # Encoded text decodes

The first byte of an encoded character tells how many bytes there are, and the bytes carry the
number of the character, so decoding takes off one character after the other (`decode?_encode`).
Bytes below 128 stand for themselves and occur in no other character (`mem_encode_of_lt`), which is
why encoded text may be cut at line breaks before it is decoded.
-/

namespace Automata.Utf8

theorem toNat_ofNat_of_lt {n : Nat} (h : n < 256) : (UInt8.ofNat n).toNat = n := by
  rw [UInt8.toNat_ofNat']
  exact Nat.mod_eq_of_lt h

theorem toNat_continuation (n : Nat) : (continuation n).toNat = 0x80 + n % 64 :=
  toNat_ofNat_of_lt (by omega)

theorem payload?_continuation (n : Nat) : payload? (continuation n) = some (n % 64) := by
  have hRange : 0x80 ≤ (continuation n).toNat ∧ (continuation n).toNat < 0xC0 := by
    rw [toNat_continuation]
    omega
  rw [payload?, if_pos hRange, toNat_continuation, Nat.add_sub_cancel_left]

theorem isValidChar_toNat (c : Char) : c.toNat.isValidChar := c.valid

theorem scalar?_toNat {least : Nat} {c : Char} (h : least ≤ c.toNat) :
    scalar? least c.toNat = some c := by
  rw [scalar?, if_pos ⟨h, isValidChar_toNat c⟩, Char.ofNat_toNat]

theorem toNat_lt (c : Char) : c.toNat < 0x110000 := by
  have hValid := isValidChar_toNat c
  simp only [Nat.isValidChar] at hValid
  omega

/-! ### The four lengths -/

theorem encodeChar_of_lt_80 {c : Char} (h : c.toNat < 0x80) :
    encodeChar c = [UInt8.ofNat c.toNat] := if_pos h

theorem encodeChar_of_lt_800 {c : Char} (h₁ : 0x80 ≤ c.toNat) (h₂ : c.toNat < 0x800) :
    encodeChar c = [UInt8.ofNat (0xC0 + c.toNat / 64), continuation c.toNat] := by
  simp only [encodeChar]
  rw [if_neg (by omega), if_pos h₂]

theorem encodeChar_of_lt_10000 {c : Char} (h₁ : 0x800 ≤ c.toNat) (h₂ : c.toNat < 0x10000) :
    encodeChar c = [UInt8.ofNat (0xE0 + c.toNat / 4096), continuation (c.toNat / 64),
      continuation c.toNat] := by
  simp only [encodeChar]
  rw [if_neg (by omega), if_neg (by omega), if_pos h₂]

theorem encodeChar_of_ge_10000 {c : Char} (h : 0x10000 ≤ c.toNat) :
    encodeChar c = [UInt8.ofNat (0xF0 + c.toNat / 262144), continuation (c.toNat / 4096),
      continuation (c.toNat / 64), continuation c.toNat] := by
  simp only [encodeChar]
  rw [if_neg (by omega), if_neg (by omega), if_neg (by omega)]

/-! ### Taking off one character -/

theorem bind_cons {α : Type} (x : Option α) (xs : Option (List α)) :
    (do let c ← x; let t ← xs; return c :: t) = x.bind fun c => xs.map (c :: ·) := by
  cases x with
  | none => rfl
  | some c => cases xs <;> rfl

theorem decode?_of_width_one {a : UInt8} (h : width a = 1) (rest : Bytes) :
    decode? (a :: rest) = (decodeChar? [a]).bind fun x => (decode? rest).map (x :: ·) := by
  rw [decode?.eq_def]
  simp only [h]
  exact bind_cons _ _

theorem decode?_of_width_two {a b : UInt8} (h : width a = 2) (rest : Bytes) :
    decode? (a :: b :: rest) =
      (decodeChar? [a, b]).bind fun x => (decode? rest).map (x :: ·) := by
  rw [decode?.eq_def]
  simp only [h]
  exact bind_cons _ _

theorem decode?_of_width_three {a b c : UInt8} (h : width a = 3) (rest : Bytes) :
    decode? (a :: b :: c :: rest) =
      (decodeChar? [a, b, c]).bind fun x => (decode? rest).map (x :: ·) := by
  rw [decode?.eq_def]
  simp only [h]
  exact bind_cons _ _

theorem decode?_of_width_four {a b c d : UInt8} (h : width a = 4) (rest : Bytes) :
    decode? (a :: b :: c :: d :: rest) =
      (decodeChar? [a, b, c, d]).bind fun x => (decode? rest).map (x :: ·) := by
  rw [decode?.eq_def]
  simp only [h]
  exact bind_cons _ _

/-- A lead byte tells the length by the range it lies in. -/
theorem width_ofNat {n : Nat} (h : n < 256) :
    width (UInt8.ofNat n) =
      if n < 0x80 then 1
      else if n < 0xC2 then 0
      else if n < 0xE0 then 2
      else if n < 0xF0 then 3
      else if n < 0xF5 then 4
      else 0 := by
  simp only [width]
  rw [toNat_ofNat_of_lt h]

/-! ### Reading one character -/

theorem width_one {c : Char} (h : c.toNat < 0x80) : width (UInt8.ofNat c.toNat) = 1 := by
  rw [width_ofNat (by omega), if_pos h]

theorem width_two {c : Char} (h₁ : 0x80 ≤ c.toNat) (h₂ : c.toNat < 0x800) :
    width (UInt8.ofNat (0xC0 + c.toNat / 64)) = 2 := by
  rw [width_ofNat (by omega), if_neg (by omega), if_neg (by omega), if_pos (by omega)]

theorem width_three {c : Char} (h₁ : 0x800 ≤ c.toNat) (h₂ : c.toNat < 0x10000) :
    width (UInt8.ofNat (0xE0 + c.toNat / 4096)) = 3 := by
  rw [width_ofNat (by omega), if_neg (by omega), if_neg (by omega), if_neg (by omega),
    if_pos (by omega)]

theorem width_four {c : Char} (h : 0x10000 ≤ c.toNat) :
    width (UInt8.ofNat (0xF0 + c.toNat / 262144)) = 4 := by
  have hLt := toNat_lt c
  rw [width_ofNat (by omega), if_neg (by omega), if_neg (by omega), if_neg (by omega),
    if_neg (by omega), if_pos (by omega)]

theorem decodeChar?_one {c : Char} (h : c.toNat < 0x80) :
    decodeChar? [UInt8.ofNat c.toNat] = some c := by
  rw [decodeChar?, if_pos (width_one h), toNat_ofNat_of_lt (by omega),
    scalar?_toNat (Nat.zero_le _)]

theorem decodeChar?_two {c : Char} (h₁ : 0x80 ≤ c.toNat) (h₂ : c.toNat < 0x800) :
    decodeChar? [UInt8.ofNat (0xC0 + c.toNat / 64), continuation c.toNat] = some c := by
  have hNumber : (0xC0 + c.toNat / 64 - 0xC0) * 64 + c.toNat % 64 = c.toNat := by omega
  rw [decodeChar?, if_pos (width_two h₁ h₂), payload?_continuation, toNat_ofNat_of_lt (by omega)]
  show scalar? 0x80 _ = some c
  rw [hNumber, scalar?_toNat h₁]

theorem decodeChar?_three {c : Char} (h₁ : 0x800 ≤ c.toNat) (h₂ : c.toNat < 0x10000) :
    decodeChar? [UInt8.ofNat (0xE0 + c.toNat / 4096), continuation (c.toNat / 64),
      continuation c.toNat] = some c := by
  have hNumber : ((0xE0 + c.toNat / 4096 - 0xE0) * 64 + c.toNat / 64 % 64) * 64 +
      c.toNat % 64 = c.toNat := by omega
  rw [decodeChar?, if_pos (width_three h₁ h₂), payload?_continuation, payload?_continuation,
    toNat_ofNat_of_lt (by omega)]
  show scalar? 0x800 _ = some c
  rw [hNumber, scalar?_toNat h₁]

theorem decodeChar?_four {c : Char} (h : 0x10000 ≤ c.toNat) :
    decodeChar? [UInt8.ofNat (0xF0 + c.toNat / 262144), continuation (c.toNat / 4096),
      continuation (c.toNat / 64), continuation c.toNat] = some c := by
  have hLt := toNat_lt c
  have hNumber : (((0xF0 + c.toNat / 262144 - 0xF0) * 64 + c.toNat / 4096 % 64) * 64 +
      c.toNat / 64 % 64) * 64 + c.toNat % 64 = c.toNat := by omega
  rw [decodeChar?, if_pos (width_four h), payload?_continuation, payload?_continuation,
    payload?_continuation, toNat_ofNat_of_lt (by omega)]
  show scalar? 0x10000 _ = some c
  rw [hNumber, scalar?_toNat h]

/-- The first byte of a character tells how many bytes follow, and all of them give the character
back. -/
theorem exists_encodeChar (c : Char) :
    ∃ lead tail, encodeChar c = lead :: tail ∧ width lead = tail.length + 1 ∧
      decodeChar? (lead :: tail) = some c := by
  by_cases h₁ : c.toNat < 0x80
  · exact ⟨_, _, encodeChar_of_lt_80 h₁, width_one h₁, decodeChar?_one h₁⟩
  by_cases h₂ : c.toNat < 0x800
  · have h : 0x80 ≤ c.toNat := by omega
    exact ⟨_, _, encodeChar_of_lt_800 h h₂, width_two h h₂, decodeChar?_two h h₂⟩
  by_cases h₃ : c.toNat < 0x10000
  · have h : 0x800 ≤ c.toNat := by omega
    exact ⟨_, _, encodeChar_of_lt_10000 h h₃, width_three h h₃, decodeChar?_three h h₃⟩
  · have h : 0x10000 ≤ c.toNat := by omega
    exact ⟨_, _, encodeChar_of_ge_10000 h, width_four h, decodeChar?_four h⟩

/-- **Decoding takes off an encoded character.** -/
theorem decode?_encodeChar_append (c : Char) (rest : Bytes) :
    decode? (encodeChar c ++ rest) = (decode? rest).map (c :: ·) := by
  by_cases h₁ : c.toNat < 0x80
  · rw [encodeChar_of_lt_80 h₁, List.singleton_append, decode?_of_width_one (width_one h₁),
      decodeChar?_one h₁]
    rfl
  by_cases h₂ : c.toNat < 0x800
  · have h : 0x80 ≤ c.toNat := by omega
    rw [encodeChar_of_lt_800 h h₂, List.cons_append, List.singleton_append,
      decode?_of_width_two (width_two h h₂), decodeChar?_two h h₂]
    rfl
  by_cases h₃ : c.toNat < 0x10000
  · have h : 0x800 ≤ c.toNat := by omega
    rw [encodeChar_of_lt_10000 h h₃, List.cons_append, List.cons_append, List.singleton_append,
      decode?_of_width_three (width_three h h₃), decodeChar?_three h h₃]
    rfl
  · have h : 0x10000 ≤ c.toNat := by omega
    rw [encodeChar_of_ge_10000 h, List.cons_append, List.cons_append, List.cons_append,
      List.singleton_append, decode?_of_width_four (width_four h), decodeChar?_four h]
    rfl

/-- **Encoded text decodes to the text.** -/
theorem decode?_encode (t : Text) : decode? (encode t) = some t := by
  induction t with
  | nil => rfl
  | cons c t ih =>
      have hCons : encode (c :: t) = encodeChar c ++ encode t := rfl
      rw [hCons, decode?_encodeChar_append, ih, Option.map_some]

/-! ### Bytes below 128 -/

theorem mem_encodeChar_of_lt {c : Char} {b : UInt8} (hb : b.toNat < 0x80) :
    b ∈ encodeChar c ↔ c.toNat = b.toNat := by
  have hLt := toNat_lt c
  have hLead : ∀ n, 0x80 ≤ n → n < 256 → b ≠ UInt8.ofNat n := by
    rintro n h₁ h₂ rfl
    rw [toNat_ofNat_of_lt h₂] at hb
    omega
  have hContinuation : ∀ n, b ≠ continuation n := fun n =>
    hLead (0x80 + n % 64) (by omega) (by omega)
  by_cases h₁ : c.toNat < 0x80
  · rw [encodeChar_of_lt_80 h₁, List.mem_singleton]
    refine ⟨fun h => ?_, fun h => ?_⟩
    · rw [h, toNat_ofNat_of_lt (by omega)]
    · rw [h, UInt8.ofNat_toNat]
  have hNe : c.toNat ≠ b.toNat := by omega
  by_cases h₂ : c.toNat < 0x800
  · rw [encodeChar_of_lt_800 (by omega) h₂]
    simp only [List.mem_cons, List.not_mem_nil, hContinuation, hNe, or_self,
      hLead (0xC0 + c.toNat / 64) (by omega) (by omega)]
  by_cases h₃ : c.toNat < 0x10000
  · rw [encodeChar_of_lt_10000 (by omega) h₃]
    simp only [List.mem_cons, List.not_mem_nil, hContinuation, hNe, or_self,
      hLead (0xE0 + c.toNat / 4096) (by omega) (by omega)]
  · rw [encodeChar_of_ge_10000 (by omega)]
    simp only [List.mem_cons, List.not_mem_nil, hContinuation, hNe, or_self,
      hLead (0xF0 + c.toNat / 262144) (by omega) (by omega)]

/-- **A byte below 128 occurs in encoded text only as the character with its number.** -/
theorem mem_encode_of_lt {t : Text} {b : UInt8} (hb : b.toNat < 0x80) :
    b ∈ encode t ↔ ∃ c ∈ t, c.toNat = b.toNat := by
  rw [encode, List.mem_flatMap]
  exact exists_congr fun c => and_congr_right fun _ => mem_encodeChar_of_lt hb

end Automata.Utf8
