import Automata.Automaton.Listing
import Automata.Proofs.Text.Numeral

/-! # What listings tell apart

A listing is not escaped, but each of its parts tells where it ends: a numeral is followed by a
character that is no digit, and a symbol by a hyphen, which is not how the text of the empty move
goes on after the bracket that it begins with. So two texts that begin with parts of one sort and
are equal begin with the same part, and what comes after it is equal again (`decimal_append_inj`,
`text_append_inj`, `listed_append_inj`). Part by part, equal listings list the same things
(`eq_of_listing_eq`).
-/

namespace Automata

open Text (decimal)

/-! ### Numerals -/

namespace Text

variable {s t : Text}

theorem takeWhile_decimal_append (n : Nat) (hs : s.takeWhile Char.isDigit = []) :
    (decimal n ++ s).takeWhile Char.isDigit = decimal n := by
  rw [List.takeWhile_append_of_pos fun _ => isDigit_of_mem_decimal, hs, List.append_nil]

/-- **A numeral is known by its first digits**, if what comes after it begins with no digit. -/
theorem decimal_append_inj {m n : Nat} (h : decimal m ++ s = decimal n ++ t)
    (hs : s.takeWhile Char.isDigit = []) (ht : t.takeWhile Char.isDigit = []) : m = n ∧ s = t := by
  have hDigits : decimal m = decimal n := by
    rw [← takeWhile_decimal_append m hs, h, takeWhile_decimal_append n ht]
  refine ⟨?_, List.append_cancel_left (hDigits ▸ h)⟩
  have hValue := congrArg (Nat.ofDigitChars 10 · 0) hDigits
  simpa only [decimal, Nat.ofDigitChars_ten_toDigits] using hValue

theorem decimal_append_ne_cons {n : Nat} {c : Char} (hc : c.isDigit = false) :
    decimal n ++ s ≠ c :: t := by
  intro h
  cases hDecimal : decimal n with
  | nil => exact decimal_ne_nil n hDecimal
  | cons d ds =>
      rw [hDecimal, List.cons_append, List.cons.injEq] at h
      have hd : d.isDigit = true := isDigit_of_mem_decimal (hDecimal ▸ List.mem_cons_self)
      rw [h.1, hc] at hd
      cases hd

theorem join_cons (between first : Text) (rest : List Text) :
    join between (first :: rest) = first ++ rest.flatMap (between ++ ·) := by
  induction rest generalizing first with
  | nil => exact (List.append_nil first).symm
  | cons u rest ih =>
      have hJoin : join between (first :: u :: rest) =
          first ++ between ++ join between (u :: rest) := rfl
      rw [hJoin, ih, List.flatMap_cons, List.append_assoc, List.append_assoc]

/-- What follows the first of several numerals: the others, each after a comma, and a bracket. -/
def tailed (ns : List Nat) (s : Text) : Text :=
  (ns.map decimal).flatMap ([',', ' '] ++ ·) ++ ']' :: s

theorem takeWhile_tailed (ns : List Nat) (s : Text) :
    (tailed ns s).takeWhile Char.isDigit = [] := by
  cases ns <;> rfl

theorem tailed_inj {ns ms : List Nat} (h : tailed ns s = tailed ms t) : ns = ms ∧ s = t := by
  induction ns generalizing ms with
  | nil =>
      cases ms with
      | nil => exact ⟨rfl, (List.cons.inj h).2⟩
      | cons m ms => exact absurd (List.cons.inj h).1 (by decide)
  | cons n ns ih =>
      cases ms with
      | nil => exact absurd (List.cons.inj h).1 (by decide)
      | cons m ms =>
          have hSplit : ∀ k ks u, tailed (k :: ks) u = [',', ' '] ++ (decimal k ++ tailed ks u) :=
            fun k ks u => by simp [tailed]
          rw [hSplit, hSplit, List.append_cancel_left_eq] at h
          obtain ⟨rfl, hRest⟩ := decimal_append_inj h (takeWhile_tailed _ _) (takeWhile_tailed _ _)
          obtain ⟨rfl, hAfter⟩ := ih hRest
          exact ⟨rfl, hAfter⟩

/-- Numerals between brackets are known up to the closing bracket. -/
theorem numerals_append_inj {ns ms : List Nat}
    (h : numerals '[' ']' ns ++ s = numerals '[' ']' ms ++ t) : ns = ms ∧ s = t := by
  have hNil : ∀ u, numerals '[' ']' [] ++ u = '[' :: (']' :: u) := fun u => rfl
  have hCons : ∀ k ks u, numerals '[' ']' (k :: ks) ++ u = '[' :: (decimal k ++ tailed ks u) :=
    fun k ks u => by simp [numerals, join_cons, tailed]
  cases ns with
  | nil =>
      cases ms with
      | nil => exact ⟨rfl, List.append_cancel_left h⟩
      | cons m ms =>
          rw [hNil, hCons, List.cons.injEq] at h
          exact absurd h.2.symm (decimal_append_ne_cons (by decide))
  | cons n ns =>
      cases ms with
      | nil =>
          rw [hNil, hCons, List.cons.injEq] at h
          exact absurd h.2 (decimal_append_ne_cons (by decide))
      | cons m ms =>
          rw [hCons, hCons, List.cons.injEq] at h
          obtain ⟨rfl, hRest⟩ :=
            decimal_append_inj h.2 (takeWhile_tailed _ _) (takeWhile_tailed _ _)
          obtain ⟨rfl, hAfter⟩ := tailed_inj hRest
          exact ⟨rfl, hAfter⟩

end Text

/-! ### Lines -/

variable {s t : Text}

/-- **A symbol is known up to the hyphen after it**, also when it is a bracket or a hyphen
itself. -/
theorem Symbol.text_append_inj {x y : Symbol} (h : x.text ++ '-' :: s = y.text ++ '-' :: t) :
    x = y ∧ s = t := by
  cases x with
  | char c =>
      cases y with
      | char d =>
          obtain ⟨rfl, hRest⟩ := List.cons.inj h
          exact ⟨rfl, (List.cons.inj hRest).2⟩
      | epsilon =>
          -- after a bracket that stands for itself comes a hyphen, not the rest of the token
          exact absurd (List.cons.inj (List.cons.inj h).2).1 (by decide)
  | epsilon =>
      cases y with
      | char d => exact absurd (List.cons.inj (List.cons.inj h).2).1 (by decide)
      | epsilon => exact ⟨rfl, (List.cons.inj (List.append_cancel_left h)).2⟩

/-- A listed transition is known up to the end of its line. -/
theorem Transition.listed_append_inj {p q : Transition}
    (h : p.listed ++ '\n' :: s = q.listed ++ '\n' :: t) : p = q ∧ s = t := by
  have hParts : ∀ (r : Transition) (u : Text), r.listed ++ '\n' :: u =
      decimal r.source ++ (" --".toList ++ (r.symbol.text ++ '-' :: ("-> ".toList ++
        (decimal r.target ++ '\n' :: u)))) := by
    intro r u
    have hArrow : "--> ".toList = '-' :: "-> ".toList := rfl
    unfold listed
    rw [hArrow]
    simp only [List.append_assoc, List.cons_append]
  rw [hParts, hParts] at h
  obtain ⟨hSource, h⟩ := Text.decimal_append_inj h rfl rfl
  obtain ⟨hSymbol, h⟩ := Symbol.text_append_inj (List.append_cancel_left h)
  obtain ⟨hTarget, hRest⟩ := Text.decimal_append_inj (List.append_cancel_left h) rfl rfl
  cases p
  cases q
  cases hSource
  cases hSymbol
  cases hTarget
  exact ⟨rfl, (List.cons.inj hRest).2⟩

/-- **Lines of transitions are known line by line.** -/
theorem Transition.unlines_listed_inj {ps qs : List Transition}
    (h : Text.unlines (ps.map listed) = Text.unlines (qs.map listed)) : ps = qs := by
  have hCons : ∀ (p : Transition) (ps : List Transition), Text.unlines ((p :: ps).map listed) =
      p.listed ++ '\n' :: Text.unlines (ps.map listed) := fun p ps => by
    simp [Text.unlines]
  induction ps generalizing qs with
  | nil =>
      cases qs with
      | nil => rfl
      | cons q qs =>
          rw [hCons] at h
          exact absurd h.symm (List.append_ne_nil_of_right_ne_nil _ (List.cons_ne_nil _ _))
  | cons p ps ih =>
      cases qs with
      | nil =>
          rw [hCons] at h
          exact absurd h (List.append_ne_nil_of_right_ne_nil _ (List.cons_ne_nil _ _))
      | cons q qs =>
          rw [hCons, hCons] at h
          obtain ⟨rfl, hRest⟩ := listed_append_inj h
          rw [ih hRest]

theorem Kind.name_append_inj {j k : Kind} (h : j.name ++ s = k.name ++ t) : j = k ∧ s = t := by
  cases j with
  | nfa =>
      cases k with
      | nfa => exact ⟨rfl, List.append_cancel_left h⟩
      | dfa => exact absurd (List.cons.inj h).1 (by decide)
  | dfa =>
      cases k with
      | nfa => exact absurd (List.cons.inj h).1 (by decide)
      | dfa => exact ⟨rfl, List.append_cancel_left h⟩

namespace Automaton

variable {j k : Kind}

def listedInitial : Option State → Text
  | some s => decimal s
  | none => ['-']

theorem listedInitial_append_inj {i i' : Option State}
    (h : listedInitial i ++ '\n' :: s = listedInitial i' ++ '\n' :: t) : i = i' ∧ s = t := by
  cases i with
  | none =>
      cases i' with
      | none => exact ⟨rfl, (List.cons.inj (List.cons.inj h).2).2⟩
      | some p => exact absurd h.symm (Text.decimal_append_ne_cons (by decide))
  | some p =>
      cases i' with
      | none => exact absurd h (Text.decimal_append_ne_cons (by decide))
      | some q =>
          obtain ⟨rfl, hRest⟩ := Text.decimal_append_inj h rfl rfl
          exact ⟨rfl, (List.cons.inj hRest).2⟩

theorem listing_eq (a : Automaton k) : a.listing =
    k.name ++ (" with ".toList ++ (decimal a.stateCount ++ (" states".toList ++
      ('\n' :: "initial: ".toList ++ (listedInitial a.initial ++ '\n' :: ("final: ".toList ++
        (Text.numerals '[' ']' a.finals.toList ++
          '\n' :: Text.unlines (a.transitions.map Transition.listed)))))))) := by
  unfold listing listingLines
  cases a.initial <;>
    simp only [listedInitial, Text.unlines, List.flatMap_cons, List.append_assoc,
      List.cons_append, List.nil_append]

/-- **Equal listings list automata of one kind with the same number of states, initial state, final
states and transitions.** -/
theorem eq_of_listing_eq {a : Automaton j} {b : Automaton k} (h : a.listing = b.listing) :
    j = k ∧ a.stateCount = b.stateCount ∧ a.initial = b.initial ∧ a.finals = b.finals ∧
      a.transitions = b.transitions := by
  rw [listing_eq, listing_eq] at h
  obtain ⟨hKind, h⟩ := Kind.name_append_inj h
  obtain ⟨hCount, h⟩ := Text.decimal_append_inj (List.append_cancel_left h) rfl rfl
  have h := List.append_cancel_left (List.append_cancel_left h)
  obtain ⟨hInitial, h⟩ := listedInitial_append_inj h
  obtain ⟨hFinals, h⟩ := Text.numerals_append_inj (List.append_cancel_left h)
  exact ⟨hKind, hCount, hInitial, OrderedSet.eq_of_toList_eq hFinals,
    Transition.unlines_listed_inj (List.cons.inj h).2⟩

end Automaton

end Automata
