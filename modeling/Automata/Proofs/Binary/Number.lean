import Automata.Proofs.Binary.Decoder
import Automata.Proofs.Text.Utf8
import Mathlib.Tactic.SplitIfs

/-! # Numbers that are decoded

The number read from `count` bytes is below the power of 256 that `count` gives, so a number of at
most 32 bits is within the limit on states (`decodeU32_le`). A number that fits its place is read
back from its bytes (`reads_decodeU32`, `reads_decodeU64`): the tag tells the width that encoding
has taken, and the bytes after it are as many as that width.
-/

namespace Automata.Binary

/-! ### The size of what is read -/

theorem ofLittleEndian_lt (bytes : Bytes) : ofLittleEndian bytes < Nat.pow 256 bytes.length := by
  induction bytes with
  | nil => exact Nat.one_pos
  | cons b bytes ih =>
      have hb : b.toNat < 256 := b.toNat_lt
      show b.toNat + 256 * ofLittleEndian bytes < Nat.pow 256 bytes.length * 256
      omega

theorem takeNumber_lt {count n : Nat} {bytes rest : Bytes}
    (h : takeNumber count bytes = .ok (n, rest)) : n < Nat.pow 256 count := by
  obtain ⟨taken, between, hTake, hNumber⟩ := bind_eq_ok.mp h
  obtain ⟨rfl, rfl⟩ := Prod.mk.inj (Except.ok.inj hNumber)
  rw [takeBytes] at hTake
  by_cases hShort : bytes.length < count
  · rw [if_pos hShort] at hTake
    cases hTake
  · rw [if_neg hShort] at hTake
    obtain ⟨rfl, _⟩ := Prod.mk.inj (Except.ok.inj hTake)
    have hLength : (bytes.take count).length = count := List.length_take_of_le (by omega)
    have hLt := ofLittleEndian_lt (bytes.take count)
    rw [hLength] at hLt
    exact hLt

/-- **A number of at most 32 bits is within the limit on states.** -/
theorem decodeU32_le {n : Nat} {bytes rest : Bytes} (h : decodeU32 bytes = .ok (n, rest)) :
    n ≤ stateLimit := by
  obtain ⟨tag, between, _, h⟩ := bind_eq_ok.mp h
  rw [stateLimit]
  by_cases h₀ : tag.toNat < 251
  · rw [if_pos h₀] at h
    obtain ⟨rfl, _⟩ := Prod.mk.inj (Except.ok.inj h)
    omega
  rw [if_neg h₀] at h
  by_cases h₁ : tag.toNat = 251
  · rw [if_pos h₁] at h
    have hLt : n < 65536 := takeNumber_lt h
    omega
  rw [if_neg h₁] at h
  by_cases h₂ : tag.toNat = 252
  · rw [if_pos h₂] at h
    have hLt : n < 4294967296 := takeNumber_lt h
    omega
  rw [if_neg h₂] at h
  by_cases h₃ : tag.toNat = 253
  · rw [if_pos h₃] at h
    cases h
  rw [if_neg h₃] at h
  by_cases h₄ : tag.toNat = 254
  · rw [if_pos h₄] at h
    cases h
  · rw [if_neg h₄] at h
    cases h

/-! ### Numbers read back -/

theorem length_littleEndian (count n : Nat) : (littleEndian count n).length = count := by
  induction count generalizing n with
  | zero => rfl
  | succ count ih => rw [littleEndian, List.length_cons, ih]

theorem ofLittleEndian_littleEndian {count n : Nat} (h : n < Nat.pow 256 count) :
    ofLittleEndian (littleEndian count n) = n := by
  induction count generalizing n with
  | zero =>
      have hZero : n < 1 := h
      rw [littleEndian, ofLittleEndian]
      omega
  | succ count ih =>
      have hHigh : n < 256 * Nat.pow 256 count := Nat.mul_comm 256 _ ▸ h
      rw [littleEndian, ofLittleEndian, ih (Nat.div_lt_of_lt_mul hHigh),
        Utf8.toNat_ofNat_of_lt (Nat.mod_lt n (by omega))]
      exact Nat.mod_add_div n 256

theorem reads_takeNumber {count n : Nat} (h : n < Nat.pow 256 count) :
    Reads (takeNumber count) (littleEndian count n) n := by
  have hBytes := (reads_takeBytes (littleEndian count n)).map ofLittleEndian
  rw [length_littleEndian, ofLittleEndian_littleEndian h] at hBytes
  exact hBytes

theorem steady_takeNumber (count : Nat) : Steady (takeNumber count) :=
  (steady_takeBytes count).bind fun bytes => .pure (ofLittleEndian bytes)

theorem steady_refuse (expected found : Width) : Steady (refuse expected found) := by
  intro bytes n rest h
  cases h

/-- A decoder that goes by the tag, as far as the widths reach that a number needs, reads the number
back. -/
theorem reads_encodeNumber {f : UInt8 → Decoder Nat} {n : Nat}
    (hByte : ∀ b : UInt8, b.toNat < 251 → f b = pure b.toNat) (hTwo : f 251 = takeNumber 2)
    (hFour : f 252 = takeNumber 4)
    (hWide : n < 0x100000000 ∨ f 253 = takeNumber 8 ∧ n < 0x10000000000000000) :
    Reads (takeByte >>= f) (encodeNumber n) n := by
  rw [encodeNumber]
  by_cases h₀ : n < 251
  · have hNat : (UInt8.ofNat n).toNat = n := Utf8.toNat_ofNat_of_lt (by omega)
    rw [if_pos h₀]
    refine (reads_takeByte (UInt8.ofNat n)).bind ?_
    rw [hByte _ (hNat.symm ▸ h₀), hNat]
    exact .pure n
  rw [if_neg h₀]
  by_cases h₁ : n < 0x10000
  · rw [if_pos h₁]
    exact (reads_takeByte 251).bind (hTwo ▸ reads_takeNumber h₁)
  rw [if_neg h₁]
  by_cases h₂ : n < 0x100000000
  · rw [if_pos h₂]
    exact (reads_takeByte 252).bind (hFour ▸ reads_takeNumber h₂)
  · obtain ⟨hEight, h₃⟩ := hWide.resolve_left h₂
    rw [if_neg h₂, if_pos h₃]
    exact (reads_takeByte 253).bind (hEight ▸ reads_takeNumber h₃)

theorem steady_decodeU32 : Steady decodeU32 :=
  steady_takeByte.bind fun tag =>
    .ite (.pure tag.toNat) <| .ite (steady_takeNumber 2) <| .ite (steady_takeNumber 4) <|
      .ite (steady_refuse _ _) <| .ite (steady_refuse _ _) (steady_refuse _ _)

/-- **A number within the limit on states is read back where 32 bits are allowed.** -/
theorem reads_decodeU32 {n : Nat} (h : n ≤ stateLimit) : Reads decodeU32 (encodeNumber n) n :=
  reads_encodeNumber (fun _ hByte => if_pos hByte) rfl rfl (Or.inl (Nat.lt_succ_of_le h))

/-- Reading a number of at most 64 bits where a refused tag is reported against `expected`. -/
def decodeU64As (expected : Width) : Decoder Nat := do
  let tag := (← takeByte).toNat
  if tag < 251 then return tag
  else if tag = 251 then takeNumber 2
  else if tag = 252 then takeNumber 4
  else if tag = 253 then takeNumber 8
  else if tag = 254 then refuse expected .u128
  else refuse expected .reserved

theorem decodeU64_apply (bytes : Bytes) :
    decodeU64 bytes = decodeU64As (reportedWidth bytes.length) bytes := rfl

theorem steady_decodeU64As (expected : Width) : Steady (decodeU64As expected) :=
  steady_takeByte.bind fun tag =>
    .ite (.pure tag.toNat) <| .ite (steady_takeNumber 2) <| .ite (steady_takeNumber 4) <|
      .ite (steady_takeNumber 8) <| .ite (steady_refuse _ _) (steady_refuse _ _)

theorem decodeU64As_ok {e e' : Width} {bytes : Bytes} {p : Nat × Bytes}
    (h : decodeU64As e bytes = .ok p) : decodeU64As e' bytes = .ok p := by
  obtain ⟨tag, between, hTag, h⟩ := bind_eq_ok.mp h
  refine bind_eq_ok.mpr ⟨tag, between, hTag, ?_⟩
  split_ifs at h ⊢
  · exact h
  · exact h
  · exact h
  · exact h
  · cases h
  · cases h

theorem steady_decodeU64 : Steady decodeU64 := by
  intro bytes n rest h more
  rw [decodeU64_apply] at h ⊢
  exact decodeU64As_ok (steady_decodeU64As _ _ _ _ h more)

/-- **A number of at most 64 bits is read back where so many are allowed.** -/
theorem reads_decodeU64 {n : Nat} (h : n < 0x10000000000000000) :
    Reads decodeU64 (encodeNumber n) n := by
  intro rest
  rw [decodeU64_apply]
  refine reads_encodeNumber ?_ rfl rfl (Or.inr ⟨rfl, h⟩) rest
  exact fun _ hByte => if_pos hByte

end Automata.Binary
