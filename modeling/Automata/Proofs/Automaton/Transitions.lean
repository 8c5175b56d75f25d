import Automata.Automaton.Basic

/-! # Transitions of an automaton

The transitions are listed row by row; the queries look single rows up. The lemmas here say that
both speak of the same transitions, and that the alphabet and the test for empty moves miss none of
them. Both look for entries (`mem_alphabet_iff`, `hasEpsilon_iff`), and since the set of targets of
an entry may be empty, they may also find symbols that no transition uses.
-/

namespace Automata

theorem ite_none_some_eq_some_iff {α : Type} {p : α → Prop} [DecidablePred p] {x y : α} :
    (if p x then none else some x) = some y ↔ x = y ∧ ¬ p y := by
  rw [Option.ite_none_left_eq_some, Option.some.injEq, and_comm]
  refine and_congr_right fun hEq => ?_
  rw [hEq]

namespace Automaton

variable {k : Kind} {a : Automaton k}

theorem target?_eq_some_iff {s : State} {x : Symbol} {t : k.Target} :
    a.target? s x = some t ↔ ∃ row, a.rows.get? s = some row ∧ row.get? x = some t := by
  rw [target?, row]
  cases hRow : a.rows.get? s with
  | none => simp
  | some row => simp

theorem targets_eq {s : State} {x : Symbol} {held : k.Target} (h : a.target? s x = some held) :
    a.targets s x = Target.toList held := by
  rw [targets, h]

theorem mem_targets_iff {s q : State} {x : Symbol} :
    q ∈ a.targets s x ↔ ∃ held, a.target? s x = some held ∧ q ∈ Target.toList held := by
  rw [targets]
  cases a.target? s x with
  | none => simp
  | some held => simp

/-- A transition is listed when its target is among those that the row of its source gives. -/
theorem mem_transitions {t : Transition} :
    t ∈ a.transitions ↔ t.target ∈ a.targets t.source t.symbol := by
  simp only [transitions, List.mem_flatMap, List.mem_map, mem_targets_iff, target?_eq_some_iff,
    Table.get?_eq_some_iff]
  refine ⟨?_, ?_⟩
  · intro h
    rcases h with ⟨⟨s, row⟩, hRow, ⟨x, held⟩, hHeld, q, hq, rfl⟩
    exact ⟨held, ⟨row, hRow, hHeld⟩, hq⟩
  · intro h
    rcases h with ⟨held, ⟨row, hRow, hHeld⟩, hq⟩
    exact ⟨(t.source, row), hRow, (t.symbol, held), hHeld, t.target, hq, rfl⟩

theorem mem_targets {s q : State} {x : Symbol} :
    q ∈ a.targets s x ↔ ⟨s, x, q⟩ ∈ a.transitions :=
  (mem_transitions (t := ⟨s, x, q⟩)).symm

theorem exists_row_of_mem {s q : State} {x : Symbol} (h : ⟨s, x, q⟩ ∈ a.transitions) :
    ∃ row held, a.rows.get? s = some row ∧ row.get? x = some held ∧ q ∈ Target.toList held := by
  obtain ⟨held, hTarget, hq⟩ := mem_targets_iff.mp (mem_transitions.mp h)
  obtain ⟨row, hRow, hHeld⟩ := target?_eq_some_iff.mp hTarget
  exact ⟨row, held, hRow, hHeld, hq⟩

theorem mem_keys_of_mem {s q : State} {x : Symbol} (h : ⟨s, x, q⟩ ∈ a.transitions) :
    s ∈ a.rows.keys := by
  obtain ⟨row, _, hRow, _⟩ := exists_row_of_mem h
  exact Table.mem_keys.mpr ⟨row, hRow⟩

theorem exists_target?_of_mem {s q : State} {x : Symbol} (h : ⟨s, x, q⟩ ∈ a.transitions) :
    ∃ held, a.target? s x = some held := by
  obtain ⟨held, hHeld, _⟩ := mem_targets_iff.mp (mem_transitions.mp h)
  exact ⟨held, hHeld⟩

/-! ### Entries -/

/-- The alphabet holds the characters under which some row has an entry. -/
theorem mem_alphabet_iff {c : Char} :
    c ∈ a.alphabet ↔ ∃ s held, a.target? s (.char c) = some held := by
  simp only [alphabet, OrderedSet.mem_ofList, List.mem_flatMap, target?_eq_some_iff]
  refine ⟨?_, ?_⟩
  · intro h
    rcases h with ⟨⟨s, row⟩, hRow, hKey⟩
    obtain ⟨x, hKey, hChar⟩ := List.mem_filterMap.mp hKey
    obtain ⟨held, hHeld⟩ := Table.mem_keys.mp hKey
    rw [Symbol.char?_eq_some_iff.mp hChar] at hHeld
    exact ⟨s, held, row, Table.get?_eq_some_iff.mpr hRow, hHeld⟩
  · intro h
    rcases h with ⟨s, held, row, hRow, hHeld⟩
    have hKey : Symbol.char c ∈ row.keys := Table.mem_keys.mpr ⟨held, hHeld⟩
    exact ⟨(s, row), Table.get?_eq_some_iff.mp hRow, List.mem_filterMap.mpr ⟨_, hKey, rfl⟩⟩

theorem mem_alphabet_of_mem {s q : State} {c : Char} (h : ⟨s, .char c, q⟩ ∈ a.transitions) :
    c ∈ a.alphabet := by
  obtain ⟨held, hHeld⟩ := exists_target?_of_mem h
  exact mem_alphabet_iff.mpr ⟨s, held, hHeld⟩

theorem hasEpsilon_iff : a.hasEpsilon = true ↔ ∃ s held, a.target? s .epsilon = some held := by
  simp only [hasEpsilon, List.any_eq_true, Option.isSome_iff_exists, target?_eq_some_iff]
  refine ⟨?_, ?_⟩
  · intro h
    rcases h with ⟨⟨s, row⟩, hRow, held, hHeld⟩
    exact ⟨s, held, row, Table.get?_eq_some_iff.mpr hRow, hHeld⟩
  · intro h
    rcases h with ⟨s, held, row, hRow, hHeld⟩
    exact ⟨(s, row), Table.get?_eq_some_iff.mp hRow, held, hHeld⟩

theorem hasEpsilon_eq_false_iff :
    a.hasEpsilon = false ↔ ∀ s row, a.rows.get? s = some row → row.get? .epsilon = none := by
  rw [← Bool.not_eq_true, hasEpsilon_iff]
  simp only [target?_eq_some_iff, not_exists, not_and, Option.eq_none_iff_forall_ne_some]
  exact ⟨fun h s row hRow held => h s held row hRow, fun h s held row hRow => h s row hRow held⟩

theorem not_mem_of_hasEpsilon_eq_false (hEps : a.hasEpsilon = false) {s q : State} :
    ⟨s, .epsilon, q⟩ ∉ a.transitions := by
  intro h
  obtain ⟨held, hHeld⟩ := exists_target?_of_mem h
  rw [hasEpsilon_iff.mpr ⟨s, held, hHeld⟩] at hEps
  cases hEps

/-- Whether some transition carries the symbol. -/
def Uses (a : Automaton k) (x : Symbol) : Prop := ∃ s q, ⟨s, x, q⟩ ∈ a.transitions

end Automaton

namespace Dfa

variable {d : Dfa}

theorem mem_transitions_iff {s t : State} {x : Symbol} :
    ⟨s, x, t⟩ ∈ d.transitions ↔ d.target? s x = some t := by
  rw [Automaton.mem_transitions, Automaton.mem_targets_iff]
  simp only [Target.toList, List.mem_singleton, exists_eq_right']

/-- A deterministic automaton leads from a state to one state on a symbol. -/
theorem eq_of_mem_transitions {s p q : State} {x : Symbol} (hp : ⟨s, x, p⟩ ∈ d.transitions)
    (hq : ⟨s, x, q⟩ ∈ d.transitions) : p = q := by
  have hTarget := (mem_transitions_iff.mp hp).symm.trans (mem_transitions_iff.mp hq)
  exact Option.some.inj hTarget

end Dfa

end Automata
