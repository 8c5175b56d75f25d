/-! # Ranks

A rank is a natural number that tells the elements of a type apart and puts them in order. Sets
and tables are kept in ascending rank, so equal contents are equal values and every listing comes
out in one fixed order.
-/

namespace Automata

/-- A type whose elements are told apart, and put in order, by a natural number. -/
class Ranked (α : Type) where
  rank : α → Nat
  rank_injective : ∀ {a b : α}, rank a = rank b → a = b

export Ranked (rank)

theorem rank_inj {α : Type} [Ranked α] {a b : α} : rank a = rank b ↔ a = b :=
  ⟨Ranked.rank_injective, fun h => h ▸ rfl⟩

instance : Ranked Nat where
  rank n := n
  rank_injective h := h

instance : Ranked Char where
  rank c := c.toNat
  rank_injective h := Char.toNat_inj.mp h

@[simp] theorem rank_nat (n : Nat) : rank n = n := rfl

@[simp] theorem rank_char (c : Char) : rank c = c.toNat := rfl

end Automata
