import Automata.Proofs.Text.Utf8

/-! # What decoding accepts

Decoding accepts nothing but encoded text: the least number that each length stands for excludes
longer forms, and the ranges of the bytes leave exactly the number of a character. So bytes are
decoded as a text when they are its encoding (`decode?_eq_some_iff`), and the encoding is the usual
one (`encode_eq`).
-/

namespace Automata.Utf8

/-! ### Parts of a character -/

theorem toNat_ofNat_of_valid {n : Nat} (h : n.isValidChar) : (Char.ofNat n).toNat = n := by
  rw [Char.ofNat, dif_pos h]
  rfl

theorem of_scalar?_eq_some {least n : Nat} {c : Char} (h : scalar? least n = some c) :
    least ≤ n ∧ c.toNat = n := by
  rw [scalar?] at h
  split at h
  · next hRange =>
      obtain rfl := Option.some.inj h
      exact ⟨hRange.1, toNat_ofNat_of_valid hRange.2⟩
  · cases h

theorem of_payload?_eq_some {b : UInt8} {x : Nat} (h : payload? b = some x) :
    b.toNat = 0x80 + x ∧ x < 64 := by
  rw [payload?] at h
  split at h
  · obtain rfl := Option.some.inj h
    omega
  · cases h

theorem continuation_eq {b : UInt8} {n : Nat} (h : b.toNat = 0x80 + n % 64) :
    continuation n = b := by
  rw [← UInt8.toNat_inj, toNat_continuation, h]

theorem ofNat_eq {b : UInt8} {n : Nat} (h : b.toNat = n) : UInt8.ofNat n = b := by
  rw [← h, UInt8.ofNat_toNat]

theorem range_of_width {a : UInt8} {n : Nat} (h : width a = n) :
    (n = 1 → a.toNat < 0x80) ∧ (n = 2 → 0xC2 ≤ a.toNat ∧ a.toNat < 0xE0) ∧
      (n = 3 → 0xE0 ≤ a.toNat ∧ a.toNat < 0xF0) ∧ (n = 4 → 0xF0 ≤ a.toNat ∧ a.toNat < 0xF5) := by
  rw [width] at h
  split at h
  · omega
  split at h
  · omega
  split at h
  · omega
  split at h
  · omega
  split at h
  · omega
  · omega

/-! ### One character -/

theorem encodeChar_of_decodeChar?_one {a : UInt8} {x : Char} (hWidth : width a = 1)
    (h : decodeChar? [a] = some x) : encodeChar x = [a] := by
  rw [decodeChar?, if_pos hWidth] at h
  obtain ⟨_, hx⟩ := of_scalar?_eq_some h
  have hRange := (range_of_width hWidth).1 rfl
  rw [encodeChar_of_lt_80 (by omega), ofNat_eq hx.symm]

theorem encodeChar_of_decodeChar?_two {a b : UInt8} {x : Char} (hWidth : width a = 2)
    (h : decodeChar? [a, b] = some x) : encodeChar x = [a, b] := by
  rw [decodeChar?, if_pos hWidth] at h
  obtain ⟨p, hp, h⟩ := Option.bind_eq_some_iff.mp h
  obtain ⟨hLeast, hx⟩ := of_scalar?_eq_some h
  obtain ⟨hb, hpLt⟩ := of_payload?_eq_some hp
  have hRange := (range_of_width hWidth).2.1 rfl
  rw [encodeChar_of_lt_800 (by omega) (by omega), ofNat_eq (b := a) (by omega),
    continuation_eq (b := b) (by omega)]

theorem encodeChar_of_decodeChar?_three {a b c : UInt8} {x : Char} (hWidth : width a = 3)
    (h : decodeChar? [a, b, c] = some x) : encodeChar x = [a, b, c] := by
  rw [decodeChar?, if_pos hWidth] at h
  obtain ⟨p, hp, h⟩ := Option.bind_eq_some_iff.mp h
  obtain ⟨q, hq, h⟩ := Option.bind_eq_some_iff.mp h
  obtain ⟨hLeast, hx⟩ := of_scalar?_eq_some h
  obtain ⟨hb, hpLt⟩ := of_payload?_eq_some hp
  obtain ⟨hc, hqLt⟩ := of_payload?_eq_some hq
  have hRange := (range_of_width hWidth).2.2.1 rfl
  rw [encodeChar_of_lt_10000 (by omega) (by omega), ofNat_eq (b := a) (by omega),
    continuation_eq (b := b) (by omega), continuation_eq (b := c) (by omega)]

theorem encodeChar_of_decodeChar?_four {a b c d : UInt8} {x : Char} (hWidth : width a = 4)
    (h : decodeChar? [a, b, c, d] = some x) : encodeChar x = [a, b, c, d] := by
  rw [decodeChar?, if_pos hWidth] at h
  obtain ⟨p, hp, h⟩ := Option.bind_eq_some_iff.mp h
  obtain ⟨q, hq, h⟩ := Option.bind_eq_some_iff.mp h
  obtain ⟨r, hr, h⟩ := Option.bind_eq_some_iff.mp h
  obtain ⟨hLeast, hx⟩ := of_scalar?_eq_some h
  obtain ⟨hb, hpLt⟩ := of_payload?_eq_some hp
  obtain ⟨hc, hqLt⟩ := of_payload?_eq_some hq
  obtain ⟨hd, hrLt⟩ := of_payload?_eq_some hr
  have hRange := (range_of_width hWidth).2.2.2 rfl
  rw [encodeChar_of_ge_10000 (by omega), ofNat_eq (b := a) (by omega),
    continuation_eq (b := b) (by omega), continuation_eq (b := c) (by omega),
    continuation_eq (b := d) (by omega)]

/-! ### Texts -/

/-- A character that is decoded, with a text after it, was encoded so if the text was. -/
theorem encode_of_bind {bytes rest : Bytes} {t : Text} (hChar : ∀ x, decodeChar? bytes = some x →
      encodeChar x = bytes) (hRest : ∀ u, decode? rest = some u → encode u = rest)
    (h : ((decodeChar? bytes).bind fun x => (decode? rest).map (x :: ·)) = some t) :
    encode t = bytes ++ rest := by
  obtain ⟨x, hx, h⟩ := Option.bind_eq_some_iff.mp h
  obtain ⟨u, hu, rfl⟩ := Option.map_eq_some_iff.mp h
  show encodeChar x ++ encode u = bytes ++ rest
  rw [hChar x hx, hRest u hu]

theorem encode_of_decode? {bytes : Bytes} {t : Text} (h : decode? bytes = some t) :
    encode t = bytes := by
  induction bytes using decode?.induct generalizing t with
  | case1 =>
      obtain rfl := Option.some.inj h
      rfl
  | case2 a rest hWidth ih =>
      rw [decode?_of_width_one hWidth] at h
      exact encode_of_bind (fun _ => encodeChar_of_decodeChar?_one hWidth) (fun _ => ih) h
  | case3 a b rest hWidth ih =>
      rw [decode?_of_width_two hWidth] at h
      exact encode_of_bind (fun _ => encodeChar_of_decodeChar?_two hWidth) (fun _ => ih) h
  | case4 a b c rest hWidth ih =>
      rw [decode?_of_width_three hWidth] at h
      exact encode_of_bind (fun _ => encodeChar_of_decodeChar?_three hWidth) (fun _ => ih) h
  | case5 a b c d rest hWidth ih =>
      rw [decode?_of_width_four hWidth] at h
      exact encode_of_bind (fun _ => encodeChar_of_decodeChar?_four hWidth) (fun _ => ih) h
  | case6 a rest h₁ h₂ h₃ h₄ =>
      rw [decode?.eq_6 a rest h₁ h₂ h₃ h₄] at h
      cases h

/-- **Bytes are decoded as a text when they are its encoding.** -/
theorem decode?_eq_some_iff {bytes : Bytes} {t : Text} : decode? bytes = some t ↔ encode t = bytes :=
  ⟨encode_of_decode?, fun h => h ▸ decode?_encode t⟩

theorem encodeChar_eq (c : Char) : encodeChar c = String.utf8EncodeChar c := by
  have hLt := toNat_lt c
  have hNat : c.val.toNat = c.toNat := rfl
  rw [String.utf8EncodeChar, hNat]
  by_cases h₁ : c.toNat < 0x80
  · rw [encodeChar_of_lt_80 h₁, if_pos (by omega)]
  by_cases h₂ : c.toNat < 0x800
  · have hLead : 0xC0 + c.toNat / 64 = c.toNat / 64 % 32 + 192 := by omega
    rw [encodeChar_of_lt_800 (by omega) h₂, if_neg (by omega), if_pos (by omega), hLead]
    simp only [continuation, Nat.add_comm]
  by_cases h₃ : c.toNat < 0x10000
  · have hLead : 0xE0 + c.toNat / 4096 = c.toNat / 4096 % 16 + 224 := by omega
    rw [encodeChar_of_lt_10000 (by omega) h₃, if_neg (by omega), if_neg (by omega),
      if_pos (by omega), hLead]
    simp only [continuation, Nat.add_comm]
  · have hLead : 0xF0 + c.toNat / 262144 = c.toNat / 262144 % 8 + 240 := by omega
    rw [encodeChar_of_ge_10000 (by omega), if_neg (by omega), if_neg (by omega),
      if_neg (by omega), hLead]
    simp only [continuation, Nat.add_comm]

theorem encode_eq (t : Text) : encode t = t.flatMap String.utf8EncodeChar := by
  rw [encode, funext encodeChar_eq]

end Automata.Utf8
