import Automata.Proofs.Automaton.Edits

/-! # Well-formed automata

An automaton is well formed when it mentions none but its own states and, if it is deterministic,
has no empty move. This is what `validate` checks (`validate_eq_ok_iff`), and edits keep it
(`WellFormed.apply`).
-/

namespace Automata.Automaton

variable {k : Kind} {a b : Automaton k}

/-- Every state that is mentioned is one of the states, and a deterministic automaton has no empty
move. -/
structure WellFormed (a : Automaton k) : Prop where
  initial : ∀ s, a.initial = some s → s < a.stateCount
  finals : ∀ s ∈ a.finals, s < a.stateCount
  source : ∀ t ∈ a.transitions, t.source < a.stateCount
  target : ∀ t ∈ a.transitions, t.target < a.stateCount
  noEmpty : k = .dfa → ∀ t ∈ a.transitions, t.symbol ≠ .epsilon

/-! ### Validation -/

theorem forM_eq_ok_iff {ε α : Type} {l : List α} {f : α → Except ε Unit} :
    l.forM f = .ok () ↔ ∀ x ∈ l, f x = .ok () := by
  induction l with
  | nil => exact ⟨fun _ x hx => absurd hx List.not_mem_nil, fun _ => rfl⟩
  | cons x l ih =>
      have hStep : (x :: l).forM f = f x >>= fun _ => l.forM f := rfl
      rw [hStep, bind_eq_ok_iff, List.forall_mem_cons, ih]
      refine ⟨?_, ?_⟩
      · intro h
        rcases h with ⟨⟨⟩, hx, hRest⟩
        exact ⟨hx, hRest⟩
      · intro h
        rcases h with ⟨hx, hRest⟩
        exact ⟨(), hx, hRest⟩

theorem validate_transition_iff {t : Transition} :
    (do a.checkState t.source
        a.checkState t.target
        if k = .dfa ∧ t.symbol = .epsilon then throw (.unexpectedEpsilon t.source)) =
        (Except.ok () : Except Error Unit) ↔
      t.source < a.stateCount ∧ t.target < a.stateCount ∧ (k = .dfa → t.symbol ≠ .epsilon) := by
  rw [checkState_bind_ok_iff, checkState_bind_ok_iff]
  refine and_congr_right fun _ => and_congr_right fun _ => ?_
  by_cases hBoth : k = .dfa ∧ t.symbol = .epsilon
  · rw [if_pos hBoth]
    refine ⟨fun h => ?_, fun h => absurd hBoth.2 (h hBoth.1)⟩
    cases h
  · rw [if_neg hBoth]
    exact ⟨fun _ hKind hSymbol => hBoth ⟨hKind, hSymbol⟩, fun _ => rfl⟩

/-- What is checked after the initial state. -/
theorem validate_rest_iff :
    (do a.finals.toList.forM a.checkState
        a.transitions.forM fun t => do
          a.checkState t.source
          a.checkState t.target
          if k = .dfa ∧ t.symbol = .epsilon then throw (.unexpectedEpsilon t.source)) =
        (Except.ok () : Except Error Unit) ↔
      (∀ s ∈ a.finals, s < a.stateCount) ∧ ∀ t ∈ a.transitions,
        t.source < a.stateCount ∧ t.target < a.stateCount ∧ (k = .dfa → t.symbol ≠ .epsilon) := by
  rw [bind_eq_ok_iff]
  refine ⟨?_, ?_⟩
  · intro h
    rcases h with ⟨⟨⟩, hFinals, hTransitions⟩
    refine ⟨fun s hs => ?_, fun t ht => ?_⟩
    · exact checkState_eq_ok_iff.mp (forM_eq_ok_iff.mp hFinals s hs)
    · exact validate_transition_iff.mp (forM_eq_ok_iff.mp hTransitions t ht)
  · intro h
    rcases h with ⟨hFinals, hTransitions⟩
    refine ⟨(), forM_eq_ok_iff.mpr fun s hs => ?_, forM_eq_ok_iff.mpr fun t ht => ?_⟩
    · exact checkState_eq_ok_iff.mpr (hFinals s hs)
    · exact validate_transition_iff.mpr (hTransitions t ht)

/-- **Validation finds out whether an automaton is well formed.** -/
theorem validate_eq_ok_iff : a.validate = .ok () ↔ a.WellFormed := by
  have hSplit : a.validate = .ok () ↔ (∀ s, a.initial = some s → s < a.stateCount) ∧
      (∀ s ∈ a.finals, s < a.stateCount) ∧ ∀ t ∈ a.transitions,
        t.source < a.stateCount ∧ t.target < a.stateCount ∧ (k = .dfa → t.symbol ≠ .epsilon) := by
    rw [← validate_rest_iff, validate]
    cases a.initial with
    | none =>
        refine ⟨fun h => ⟨fun s hs => ?_, h⟩, fun h => h.2⟩
        cases hs
    | some s =>
        simp only [checkState_bind_ok_iff, Option.some.injEq, forall_eq']
  rw [hSplit]
  refine ⟨?_, ?_⟩
  · intro h
    rcases h with ⟨hInitial, hFinals, hTransitions⟩
    refine ⟨hInitial, hFinals, ?_, ?_, ?_⟩
    · exact fun t ht => (hTransitions t ht).1
    · exact fun t ht => (hTransitions t ht).2.1
    · exact fun hKind t ht => (hTransitions t ht).2.2 hKind
  · intro h
    exact ⟨h.initial, h.finals, fun t ht =>
      ⟨h.source t ht, h.target t ht, fun hKind => h.noEmpty hKind t ht⟩⟩

/-! ### Edits -/

theorem wellFormed_withStates (k : Kind) (n : Nat) : (withStates k n).WellFormed where
  initial s hs := by cases hs
  finals s hs := absurd hs (OrderedSet.not_mem_empty s)
  source t ht := absurd ht List.not_mem_nil
  target t ht := absurd ht List.not_mem_nil
  noEmpty _ t ht := absurd ht List.not_mem_nil

theorem WellFormed.grow (h : a.WellFormed) {n : Nat} (hn : a.stateCount ≤ n) :
    ({ a with stateCount := n } : Automaton k).WellFormed where
  initial s hs := Nat.lt_of_lt_of_le (h.initial s hs) hn
  finals s hs := Nat.lt_of_lt_of_le (h.finals s hs) hn
  source t ht := Nat.lt_of_lt_of_le (h.source t ht) hn
  target t ht := Nat.lt_of_lt_of_le (h.target t ht) hn
  noEmpty := h.noEmpty

theorem WellFormed.markInitial (h : a.WellFormed) {s : State} (hOk : a.markInitial s = .ok b) :
    b.WellFormed := by
  obtain ⟨hLt, _, rfl⟩ := markInitial_ok.mp hOk
  refine ⟨fun t ht => ?_, h.finals, h.source, h.target, h.noEmpty⟩
  obtain rfl := Option.some.inj ht
  exact hLt

theorem WellFormed.markFinal (h : a.WellFormed) {s : State} (hOk : a.markFinal s = .ok b) :
    b.WellFormed := by
  obtain ⟨hLt, rfl⟩ := markFinal_ok.mp hOk
  refine ⟨h.initial, fun t ht => ?_, h.source, h.target, h.noEmpty⟩
  rcases OrderedSet.mem_insert.mp ht with rfl | ht
  · exact hLt
  · exact h.finals t ht

theorem WellFormed.connect (h : a.WellFormed) {t : Transition}
    (hSymbol : k = .dfa → t.symbol ≠ .epsilon) (hOk : a.connect t = .ok b) : b.WellFormed := by
  obtain ⟨hSource, hTarget, hCount, hInitial, hFinals, hMem⟩ := connect_ok hOk
  have hAll : ∀ p : Transition → Prop, p t → (∀ u ∈ a.transitions, p u) →
      ∀ u ∈ b.transitions, p u := by
    intro p ht hOld u hu
    rcases (hMem u).mp hu with rfl | hu
    · exact ht
    · exact hOld u hu
  constructor
  case initial => rw [hInitial, hCount]; exact h.initial
  case finals => rw [hFinals, hCount]; exact h.finals
  case source => rw [hCount]; exact hAll (·.source < a.stateCount) hSource h.source
  case target => rw [hCount]; exact hAll (·.target < a.stateCount) hTarget h.target
  case noEmpty =>
    exact fun hKind => hAll (·.symbol ≠ .epsilon) (hSymbol hKind) (h.noEmpty hKind)

/-- **Edits keep automata well formed.** -/
theorem WellFormed.apply (h : a.WellFormed) {e : Edit k} (hOk : e.apply a = .ok b) :
    b.WellFormed := by
  cases e with
  | addState =>
      obtain rfl := Except.ok.inj hOk
      exact h.grow (Nat.le_succ _)
  | requireStates n =>
      obtain rfl := Except.ok.inj hOk
      exact h.grow (Nat.le_max_left _ _)
  | markInitial s => exact h.markInitial hOk
  | markFinal s => exact h.markFinal hOk
  | addTransition source c target =>
      exact h.connect (fun _ hEq => by cases hEq) hOk
  | addEpsilon source target =>
      exact h.connect (fun hKind => by cases hKind) hOk

end Automata.Automaton
