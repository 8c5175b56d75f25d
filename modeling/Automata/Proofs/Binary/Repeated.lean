import Automata.Proofs.Binary.Enumeration

/-! # Repeated keys

A layout may spell several rows for one state and, in a row, several entries for one symbol. They
are written over one another: the last row of the state and in it the last entry for the symbol
settle where the state moves (`Layout.Settles`). What only earlier ones spell is lost, and no error
tells of it, since the automaton is validated after the rows have been put together
(`ofBinary_keeps_last`).
-/

namespace Automata.Binary

variable {k : Kind}

def Spelled.states : {k : Kind} → Spelled k → List State
  | .nfa, states => states
  | .dfa, state => [state]

theorem Spelled.mem_target {t : Spelled k} {q : State} :
    q ∈ Target.toList t.target ↔ q ∈ t.states := by
  cases k with
  | nfa => exact OrderedSet.mem_ofList
  | dfa => exact Iff.rfl

namespace Layout

variable {l : Layout k} {s q : State} {x : Symbol} {t : Transition}

/-! ### What is spelled and what stands -/

/-- Whether some row of the source has an entry that spells the transition. -/
def Spells (l : Layout k) (t : Transition) : Prop :=
  ∃ row entry, (t.source, row) ∈ l.rows ∧ (t.symbol, entry) ∈ row ∧ t.target ∈ entry.states

/-- Whether the last row of `s` has `entry` as its last entry for `x`. -/
def Settles (l : Layout k) (s : State) (x : Symbol) (entry : Spelled k) : Prop :=
  ∃ row, Table.IsLast l.rows s row ∧ Table.IsLast row x entry

/-- Whether a transition is spelled where nothing can be written over it. -/
def SpellsLast (l : Layout k) (t : Transition) : Prop :=
  ∃ entry, l.Settles t.source t.symbol entry ∧ t.target ∈ entry.states

theorem SpellsLast.spells (h : l.SpellsLast t) : l.Spells t := by
  obtain ⟨entry, ⟨row, hRow, hEntry⟩, hTarget⟩ := h
  exact ⟨row, entry, hRow.mem, hEntry.mem, hTarget⟩

/-- Whether no state has two rows and no row has two entries for a symbol. -/
def KeysDistinct (l : Layout k) : Prop :=
  (l.rows.map Prod.fst).Nodup ∧ ∀ p ∈ l.rows, (p.2.map Prod.fst).Nodup

theorem KeysDistinct.spellsLast (h : l.KeysDistinct) (hSpells : l.Spells t) : l.SpellsLast t := by
  obtain ⟨row, entry, hRow, hEntry, hTarget⟩ := hSpells
  have hLastRow : Table.IsLast l.rows t.source row := (Table.isLast_iff_mem h.1).mpr hRow
  have hLastEntry : Table.IsLast row t.symbol entry :=
    (Table.isLast_iff_mem (h.2 _ hRow)).mpr hEntry
  exact ⟨entry, ⟨row, hLastRow, hLastEntry⟩, hTarget⟩

/-! ### The automaton -/

theorem get?_rowOf {entries : List (Symbol × Spelled k)} {held : k.Target} :
    (rowOf entries).get? x = some held ↔
      ∃ entry, Table.IsLast entries x entry ∧ entry.target = held := by
  rw [rowOf, Table.get?_ofList_iff, Table.isLast_map]

theorem get?_rows_automaton {row : Row k} :
    l.automaton.rows.get? s = some row ↔
      ∃ entries, Table.IsLast l.rows s entries ∧ rowOf entries = row := by
  rw [automaton, Table.get?_ofList_iff, Table.isLast_map]

theorem target?_automaton {held : k.Target} :
    l.automaton.target? s x = some held ↔ ∃ entry, l.Settles s x entry ∧ entry.target = held := by
  simp only [Automaton.target?_eq_some_iff, get?_rows_automaton]
  refine ⟨?_, ?_⟩
  · intro h
    obtain ⟨_, ⟨entries, hEntries, rfl⟩, hHeld⟩ := h
    obtain ⟨entry, hEntry, hTarget⟩ := get?_rowOf.mp hHeld
    exact ⟨entry, ⟨entries, hEntries, hEntry⟩, hTarget⟩
  · intro h
    obtain ⟨entry, ⟨entries, hEntries, hEntry⟩, hTarget⟩ := h
    exact ⟨rowOf entries, ⟨entries, hEntries, rfl⟩, get?_rowOf.mpr ⟨entry, hEntry, hTarget⟩⟩

/-- **The transitions are those that are spelled last.** -/
theorem mem_transitions_automaton : t ∈ l.automaton.transitions ↔ l.SpellsLast t := by
  rw [Automaton.mem_transitions, Automaton.mem_targets_iff]
  simp only [target?_automaton]
  refine ⟨?_, ?_⟩
  · intro h
    obtain ⟨_, ⟨entry, hSettles, rfl⟩, hState⟩ := h
    exact ⟨entry, hSettles, Spelled.mem_target.mp hState⟩
  · intro h
    obtain ⟨entry, hSettles, hState⟩ := h
    exact ⟨entry.target, ⟨entry, hSettles, rfl⟩, Spelled.mem_target.mpr hState⟩

end Layout

/-! ### Decoding -/

open Layout

/-- **Decoding keeps what is spelled last.** All final states are kept, and of the transitions
exactly those that the last entry in the last row spells. So none are made up, and nothing is lost
if every transition is spelled there as well, as it is when no key is repeated, while something is
lost if a deterministic automaton is to move to two states on one symbol. -/
theorem ofBinary_keeps_last {bytes : Bytes} {a : Automaton k}
    (h : Automaton.ofBinary k bytes = .ok a) :
    ∃ l rest, Layout.decode k bytes = .ok (l, rest) ∧
      (∀ s, s ∈ a.finals ↔ s ∈ l.finals) ∧ (∀ t, t ∈ a.transitions ↔ l.SpellsLast t) ∧
      (∀ t ∈ a.transitions, l.Spells t) ∧
      ((∀ t, l.Spells t → t ∈ a.transitions) ↔ ∀ t, l.Spells t → l.SpellsLast t) ∧
      (l.KeysDistinct → ∀ t, l.Spells t → t ∈ a.transitions) ∧
      (k = .dfa → ∀ s x p q, p ≠ q → l.Spells ⟨s, x, p⟩ → l.Spells ⟨s, x, q⟩ →
        ¬ ∀ t, l.Spells t → t ∈ a.transitions) := by
  obtain ⟨l, rest, hDecode, _, rfl⟩ := exists_layout_of_ofBinary h
  refine ⟨l, rest, hDecode, fun s => OrderedSet.mem_ofList, fun t => mem_transitions_automaton,
    ?_, ?_, ?_, ?_⟩
  · exact fun t hMem => (mem_transitions_automaton.mp hMem).spells
  · simp only [mem_transitions_automaton]
  · exact fun hDistinct t hSpells => mem_transitions_automaton.mpr (hDistinct.spellsLast hSpells)
  · rintro rfl s x p q hNe hp hq hKept
    exact hNe (Dfa.eq_of_mem_transitions (hKept _ hp) (hKept _ hq))

/-- Two rows of state 0. Both entries for `b` in the second one lead to state 2. -/
def twoRows : Layout .nfa :=
  ⟨3, some 0, [2, 2], [(0, [(.char 'a', [1])]), (0, [(.char 'b', [2]), (.char 'b', [1, 2, 1])])]⟩

theorem ofBinary_keeps_last_twoRows :
    Automaton.ofBinary .nfa twoRows.encode = .ok twoRows.automaton ∧
      ∃ l rest, Layout.decode .nfa twoRows.encode = .ok (l, rest) ∧
        ∀ t, t ∈ twoRows.automaton.transitions ↔ l.SpellsLast t := by
  have hDecoded : Automaton.ofBinary .nfa twoRows.encode = .ok twoRows.automaton := rfl
  obtain ⟨l, rest, hDecode, _, hTransitions, _⟩ := ofBinary_keeps_last hDecoded
  exact ⟨hDecoded, l, rest, hDecode, hTransitions⟩

def twoTargets : Layout .dfa :=
  ⟨3, some 0, [1], [(0, [(.char 'a', 1), (.char 'a', 2)])]⟩

/-- The first of the two targets is lost, although the bytes spell it and are accepted. -/
theorem ofBinary_loses_first_target :
    Automaton.ofBinary .dfa twoTargets.encode = .ok twoTargets.automaton ∧
      Layout.decode .dfa twoTargets.encode = .ok (twoTargets, []) ∧
      twoTargets.Spells ⟨0, .char 'a', 1⟩ ∧
      ⟨0, .char 'a', 1⟩ ∉ twoTargets.automaton.transitions := by
  refine ⟨rfl, rfl, ?_, by decide⟩
  exact ⟨_, 1, List.mem_singleton.mpr rfl, List.mem_cons_self, List.mem_singleton.mpr rfl⟩

end Automata.Binary
