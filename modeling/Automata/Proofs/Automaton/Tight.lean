import Automata.Proofs.Automaton.Edits

/-! # Tight automata

An automaton is tight when none of its rows and none of its sets of targets is empty. What it
consists of then shows in its transitions: tight automata with the same states, final states and
transitions are equal (`eq_of_tight`), and the entries of its rows are those that some transition
uses (`Tight.mem_alphabet`, `Tight.hasEpsilon`). Edits keep automata tight.
-/

namespace Automata

theorem Target.eq_of_mem_iff {k : Kind} {s t : k.Target}
    (h : ∀ q, q ∈ Target.toList s ↔ q ∈ Target.toList t) : s = t := by
  cases k with
  | nfa => exact OrderedSet.ext h
  | dfa => exact List.mem_singleton.mp ((h s).mp (List.mem_singleton.mpr rfl))

namespace Automaton

variable {k : Kind} {a b : Automaton k}

/-- Whether no row and no target is empty. -/
structure Tight (a : Automaton k) : Prop where
  row : ∀ s row, a.rows.get? s = some row → row ≠ ∅
  target : ∀ s x held, a.target? s x = some held → ∃ q, q ∈ Target.toList held

/-! ### Equality -/

/-- A tight automaton has the rows that are not empty. -/
theorem Tight.get?_rows (h : a.Tight) (s : State) :
    a.rows.get? s = if (a.row s).isEmpty then none else some (a.row s) := by
  rw [Automaton.row]
  cases hRow : a.rows.get? s with
  | none => rfl
  | some row =>
      have hNonempty : ¬ row.isEmpty = true := fun hEmpty =>
        h.row s row hRow (Table.isEmpty_iff.mp hEmpty)
      rw [Option.getD_some, if_neg hNonempty]

theorem Tight.exists_transition (h : a.Tight) {s : State} {x : Symbol} {held : k.Target}
    (hHeld : a.target? s x = some held) : ∃ q, ⟨s, x, q⟩ ∈ a.transitions := by
  obtain ⟨q, hq⟩ := h.target s x held hHeld
  exact ⟨q, mem_targets.mp (mem_targets_iff.mpr ⟨held, hHeld, hq⟩)⟩

theorem target?_of_tight (ha : a.Tight) (h : ∀ t, t ∈ a.transitions ↔ t ∈ b.transitions)
    {s : State} {x : Symbol} {held : k.Target} (hHeld : a.target? s x = some held) :
    b.target? s x = some held := by
  obtain ⟨q, hq⟩ := ha.exists_transition hHeld
  obtain ⟨other, hOther⟩ := exists_target?_of_mem ((h _).mp hq)
  have hTargets : ∀ r, r ∈ a.targets s x ↔ r ∈ b.targets s x := fun r => by
    rw [mem_targets, mem_targets, h]
  rw [targets_eq hHeld, targets_eq hOther] at hTargets
  rw [hOther, Target.eq_of_mem_iff hTargets]

/-- **Tight automata are equal when they have the same states and transitions.** -/
theorem eq_of_tight (ha : a.Tight) (hb : b.Tight) (hCount : a.stateCount = b.stateCount)
    (hInitial : a.initial = b.initial) (hFinals : ∀ s, s ∈ a.finals ↔ s ∈ b.finals)
    (hTransitions : ∀ t, t ∈ a.transitions ↔ t ∈ b.transitions) : a = b := by
  have hTarget : ∀ s x, a.target? s x = b.target? s x := fun s x => Option.ext fun _ =>
    ⟨target?_of_tight ha hTransitions, target?_of_tight hb fun t => (hTransitions t).symm⟩
  have hRow : ∀ s, a.row s = b.row s := fun s => Table.ext (hTarget s)
  have hRows : a.rows = b.rows := Table.ext fun s => by rw [ha.get?_rows, hb.get?_rows, hRow s]
  cases a
  cases b
  rw [mk.injEq]
  exact ⟨hCount, hInitial, OrderedSet.ext hFinals, hRows⟩

/-! ### Entries -/

theorem Tight.exists_target?_iff (h : a.Tight) {x : Symbol} :
    (∃ s held, a.target? s x = some held) ↔ a.Uses x := by
  refine ⟨?_, ?_⟩
  · intro hEntry
    obtain ⟨s, held, hHeld⟩ := hEntry
    exact ⟨s, h.exists_transition hHeld⟩
  · intro hUses
    obtain ⟨s, q, hMem⟩ := hUses
    exact ⟨s, exists_target?_of_mem hMem⟩

theorem Tight.mem_alphabet (h : a.Tight) {c : Char} : c ∈ a.alphabet ↔ a.Uses (.char c) := by
  rw [mem_alphabet_iff, h.exists_target?_iff]

theorem Tight.hasEpsilon (h : a.Tight) : a.hasEpsilon = true ↔ a.Uses .epsilon := by
  rw [hasEpsilon_iff, h.exists_target?_iff]

/-! ### Edits -/

theorem tight_of_rows_eq_empty (h : a.rows = ∅) : a.Tight := by
  refine ⟨fun s row hRow => ?_, fun s x held hHeld => ?_⟩
  · rw [h] at hRow
    cases hRow
  · rw [target?, row, h] at hHeld
    cases hHeld

theorem Tight.markFinal {s : State} (h : a.Tight) (hOk : a.markFinal s = .ok b) : b.Tight := by
  obtain ⟨_, rfl⟩ := markFinal_ok.mp hOk
  exact ⟨h.row, h.target⟩

theorem Tight.setTarget {s : State} {x : Symbol} {t : k.Target} (h : a.Tight)
    (ht : ∃ q, q ∈ Target.toList t) : (a.setTarget s x t).Tight := by
  refine ⟨fun p row hRow hEmpty => ?_, fun p y held hHeld => ?_⟩
  · by_cases hState : s = p
    · subst hState
      rw [Automaton.setTarget, Table.get?_insert_self] at hRow
      obtain rfl := Option.some.inj hRow
      have hEntry := Table.get?_insert_self (a.row s) x t
      rw [hEmpty] at hEntry
      cases hEntry
    · rw [Automaton.setTarget, Table.get?_insert_of_ne hState] at hRow
      exact h.row p row hRow hEmpty
  · rw [target?_setTarget] at hHeld
    split at hHeld
    · obtain rfl := Option.some.inj hHeld
      exact ht
    · exact h.target p y held hHeld

theorem Tight.connect {t : Transition} (h : a.Tight) (hOk : a.connect t = .ok b) : b.Tight := by
  obtain ⟨_, _, grown, rfl, hGrown⟩ := exists_grown_of_connect hOk
  exact h.setTarget ⟨t.target, (hGrown t.target).mpr (Or.inl rfl)⟩

theorem Tight.apply {e : Edit k} (h : a.Tight) (hOk : e.apply a = .ok b) : b.Tight := by
  cases e with
  | addState =>
      obtain rfl := Except.ok.inj hOk
      exact ⟨h.row, h.target⟩
  | requireStates n =>
      obtain rfl := Except.ok.inj hOk
      exact ⟨h.row, h.target⟩
  | markInitial s =>
      obtain ⟨_, _, rfl⟩ := markInitial_ok.mp hOk
      exact ⟨h.row, h.target⟩
  | markFinal s => exact h.markFinal hOk
  | addTransition source c target => exact h.connect hOk
  | addEpsilon source target => exact h.connect hOk

theorem Tight.attempt (h : a.Tight) (e : Edit k) : (e.attempt a).Tight := by
  rw [Edit.attempt]
  cases hApply : e.apply a with
  | error err => exact h
  | ok b => exact h.apply hApply

end Automaton

end Automata
