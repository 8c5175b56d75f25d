import Automata.Proofs.Pattern.Fuel

/-! # Unopened brackets

The parser stops at the end of a text or at a closing bracket that was not opened
(`stops_alternatives`). In the first case the text is a pattern, as far as it can be read, in the
second it closes a bracket that it did not open, and is none (`not_unopened_of_parse?`). What stands
before such a bracket can be read by itself (`Unopened.split`), since the parser reads locally.
-/

namespace Automata.Pattern

/-- Whether the parser stands at the end of the text or at a closing bracket. -/
def Cursor.AtEnd (s : Cursor) : Prop := ∀ c ∈ s.rest.head?, c = ')'

namespace Parser

variable {α β : Type}

/-- A parser that stops at the end of the text or at a closing bracket only. -/
def Stops (p : Parser α) : Prop := ∀ s v t, p s = some (v, t) → t.AtEnd

theorem Stops.bind {p : Parser α} {k : α → Parser β} (hk : ∀ v, Stops (k v)) : Stops (p >>= k) := by
  intro s v t h
  obtain ⟨a, r, _, hThen⟩ := bind_eq_some.mp h
  exact hk a r v t hThen

theorem Stops.peek_bind {k : Option Char → Parser α} (hNone : ∃ v, k none = pure v)
    (hEnd : ∃ v, k (some ')') = pure v) (hk : ∀ c, c ≠ ')' → Stops (k (some c))) :
    Stops (peek >>= k) := by
  intro s v t h
  obtain ⟨o, r, hPeek, hThen⟩ := bind_eq_some.mp h
  cases hPeek
  cases hHead : s.rest.head? with
  | none =>
      obtain ⟨w, hw⟩ := hNone
      rw [hHead, hw] at hThen
      cases hThen
      intro c hc
      rw [hHead] at hc
      cases hc
  | some c =>
      rw [hHead] at hThen
      by_cases hc : c = ')'
      · obtain ⟨w, hw⟩ := hEnd
        rw [hc, hw] at hThen
        cases hThen
        intro d hd
        rw [hHead] at hd
        cases hd
        exact hc
      · exact hk c hc _ _ _ hThen

theorem stops_failure : Stops (failure : Parser α) := fun _ _ _ h => nomatch h

theorem stops_alternatives (fuel : Nat) (done parts : List Tree) :
    Stops (alternatives fuel done parts) := by
  induction fuel generalizing done parts with
  | zero => exact stops_failure
  | succ fuel ih =>
      refine Stops.bind fun _ => Stops.peek_bind ⟨_, rfl⟩ ⟨_, rfl⟩ fun c hc => ?_
      split
      · rename_i h
        cases h
      · rename_i h
        cases h
        exact absurd rfl hc
      · exact Stops.bind fun _ => ih _ _
      · refine Stops.bind fun o => ?_
        cases o with
        | flags changes =>
            dsimp only
            split
            · exact Stops.bind fun _ => ih _ _
            · exact ih _ _
        | group number changes =>
            exact Stops.bind fun _ => Stops.bind fun _ => Stops.bind fun _ => Stops.bind fun _ =>
              Stops.bind fun _ => ih _ _
      · exact Stops.bind fun _ => Stops.bind fun _ => ih _ _
      · split
        · split
          · exact Stops.bind fun _ => Stops.bind fun _ => ih _ _
          · exact stops_failure
        · exact Stops.bind fun _ => ih _ _

end Parser

/-- The tree of the pattern that a text begins with, which ends with the text or before a closing
bracket that was not opened, and what is left of the text. -/
def Tree.front? (t : Text) : Option (Tree × Text) :=
  (Parser.alternatives (t.length + 1) [] [] ⟨t, false, 0, []⟩).map fun (tree, s) => (tree, s.rest)

/-- Whether a text closes a bracket that it did not open. -/
def Unopened (t : Text) : Prop := ∃ tree rest, Tree.front? t = some (tree, ')' :: rest)

theorem Tree.front?_eq_some {t rest : Text} {tree : Tree} :
    Tree.front? t = some (tree, rest) ↔
      ∃ s : Cursor, Parser.alternatives (t.length + 1) [] [] ⟨t, false, 0, []⟩ = some (tree, s) ∧
        s.rest = rest := by
  rw [front?, Option.map_eq_some_iff]
  refine ⟨?_, ?_⟩
  · rintro ⟨⟨tree', s⟩, h, hEq⟩
    cases hEq
    exact ⟨s, h, rfl⟩
  · rintro ⟨s, h, rfl⟩
    exact ⟨(tree, s), h, rfl⟩

theorem Tree.parse?_eq_some {t : Text} {tree : Tree} :
    Tree.parse? t = some tree ↔
      Tree.front? t = some (tree, []) ∧ tree.depth ≤ Parser.nestLimit := by
  rw [front?_eq_some, parse?]
  refine Option.bind_eq_some_iff.trans ⟨?_, ?_⟩
  · rintro ⟨⟨tree', s⟩, h, hEnd⟩
    dsimp only at hEnd
    split_ifs at hEnd with hAll
    cases hEnd
    exact ⟨⟨s, h, List.isEmpty_iff.mp hAll.1⟩, hAll.2⟩
  · rintro ⟨⟨s, h, hEnd⟩, hDepth⟩
    exact ⟨(tree, s), h, if_pos ⟨List.isEmpty_iff.mpr hEnd, hDepth⟩⟩

theorem not_unopened_of_parse? {t : Text} {tree : Tree} (h : Tree.parse? t = some tree) :
    ¬ Unopened t := by
  rintro ⟨tree', rest, hFront⟩
  rw [(Tree.parse?_eq_some.mp h).1] at hFront
  cases hFront

/-- What stands before a bracket that was not opened can be read by itself. -/
theorem Unopened.split {t : Text} (h : Unopened t) :
    ∃ front after tree, t = front ++ ')' :: after ∧ Tree.front? front = some (tree, []) := by
  obtain ⟨tree, after, hFront⟩ := h
  obtain ⟨s, hRun, hRest⟩ := Tree.front?_eq_some.mp hFront
  have hLocal := Parser.local_alternatives (t.length + 1) [] []
  obtain ⟨front, hSplit⟩ := (hLocal.takes hRun).1
  rw [hRest] at hSplit
  subst hSplit
  refine ⟨front, after, tree, rfl, Tree.front?_eq_some.mpr ?_⟩
  rcases hLocal.agrees (s := ⟨front, false, 0, []⟩) hRun with hSeen | ⟨r, hAlone, rfl⟩
  · rw [hRest] at hSeen
    exact absurd hSeen (Nat.not_succ_le_self _)
  · refine ⟨r, ?_, List.append_left_eq_self.mp hRest⟩
    rw [← hAlone]
    refine Parser.alternatives_fuel (Nat.lt_succ_self _) ?_
    rw [List.length_append]
    exact Nat.lt_succ_of_le (Nat.le_add_right _ _)

end Automata.Pattern
