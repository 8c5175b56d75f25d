import Automata.Text.Basic

/-! # Numerals read back

A decimal numeral consists of digits, has no sign, and denotes the number it was made from, so
reading it gives the number back as long as the limit allows it (`numeral?_decimal`). What else is
read has leading zeros or a plus sign (`numeral?_eq_some_iff`).
-/

namespace Automata.Text

theorem isDigit_of_mem_decimal {n : Nat} {c : Char} (h : c ∈ decimal n) : c.isDigit = true :=
  Nat.isDigit_of_mem_toDigits (by omega) (by omega) h

theorem decimal_ne_nil (n : Nat) : decimal n ≠ [] := Nat.toDigits_ne_nil

theorem digitsFrom_eq {t : Text} (h : ∀ c ∈ t, c.isDigit = true) (n : Nat) :
    digitsFrom n t = some (Nat.ofDigitChars 10 t n) := by
  induction t generalizing n with
  | nil => rw [digitsFrom, Nat.ofDigitChars_nil]
  | cons c t ih =>
      have hc : c.isDigit = true := h c (List.mem_cons_self ..)
      have ht : ∀ d ∈ t, d.isDigit = true := fun d hd => h d (List.mem_cons_of_mem c hd)
      rw [digitsFrom, if_pos hc, ih ht, Nat.ofDigitChars_cons]

theorem isDigit_of_digitsFrom {t : Text} {n m : Nat} (h : digitsFrom n t = some m) {c : Char}
    (hc : c ∈ t) : c.isDigit = true := by
  induction t generalizing n with
  | nil => exact absurd hc List.not_mem_nil
  | cons d t ih =>
      rw [digitsFrom] at h
      split at h
      · next hd =>
          rcases List.mem_cons.mp hc with rfl | hc
          · exact hd
          · exact ih h hc
      · cases h

theorem digits?_eq_some_iff {t : Text} {n : Nat} :
    digits? t = some n ↔
      t ≠ [] ∧ (∀ c ∈ t, c.isDigit = true) ∧ Nat.ofDigitChars 10 t 0 = n := by
  rw [digits?]
  cases t with
  | nil => simp
  | cons c t =>
      have hNonempty : ¬ (c :: t).isEmpty = true := Bool.false_ne_true
      rw [if_neg hNonempty]
      refine ⟨fun h => ?_, fun ⟨_, hDigits, hValue⟩ => ?_⟩
      · have hDigits : ∀ d ∈ c :: t, d.isDigit = true := fun d => isDigit_of_digitsFrom h
        rw [digitsFrom_eq hDigits] at h
        exact ⟨List.cons_ne_nil c t, hDigits, Option.some.inj h⟩
      · rw [digitsFrom_eq hDigits, hValue]

/-- **A numeral is read when it consists of digits, perhaps after a plus sign, and denotes a number
within the limit.** -/
theorem numeral?_eq_some_iff {limit n : Nat} {t : Text} :
    numeral? limit t = some n ↔ ∃ digits, (t = digits ∨ t = '+' :: digits) ∧ digits ≠ [] ∧
      (∀ c ∈ digits, c.isDigit = true) ∧ Nat.ofDigitChars 10 digits 0 = n ∧ n ≤ limit := by
  have hRead : ∀ body, (digits? body).filter (· ≤ limit) = some n ↔ body ≠ [] ∧
      (∀ c ∈ body, c.isDigit = true) ∧ Nat.ofDigitChars 10 body 0 = n ∧ n ≤ limit := by
    intro body
    rw [Option.filter_eq_some_iff, decide_eq_true_iff, digits?_eq_some_iff, and_assoc, and_assoc]
  rw [numeral?]
  simp only [hRead]
  refine ⟨fun h => ⟨_, ?_, h⟩, ?_⟩
  · split
    · next hPlus =>
        obtain ⟨rest, rfl⟩ := List.head?_eq_some_iff.mp hPlus
        exact Or.inr rfl
    · exact Or.inl rfl
  · rintro ⟨digits, rfl | rfl, h⟩
    · -- a digit is no plus sign
      have hPlus : ¬ t.head? = some '+' := fun hHead =>
        absurd (h.2.1 '+' (List.mem_of_head? hHead)) (by decide)
      rw [if_neg hPlus]
      exact h
    · exact h

/-- **A numeral reads back as its number.** -/
theorem numeral?_decimal {limit n : Nat} (h : n ≤ limit) : numeral? limit (decimal n) = some n :=
  numeral?_eq_some_iff.mpr ⟨decimal n, Or.inl rfl, decimal_ne_nil n,
    fun _ hc => isDigit_of_mem_decimal hc, Nat.ofDigitChars_ten_toDigits, h⟩

theorem isBlank_eq_false_of_isDigit {c : Char} (h : c.isDigit = true) : isBlank c = false := by
  have hRange : 48 ≤ c.toNat ∧ c.toNat ≤ 57 := by
    simpa [Char.isDigit, UInt32.le_iff_toNat_le] using h
  simp [isBlank]
  omega

end Automata.Text
