import Automata.Proofs.Binary.Repeated
import Automata.Proofs.Conversion.Subsets

/-! # Idle symbols

A layout may spell an empty set of targets. If all that it settles for a symbol is empty, the symbol
is idle: the decoded automaton has entries for it and no transition on it (`Layout.idle_iff`). The
alphabet and the test for empty moves look for entries, so they are wrong about idle symbols and
right about all others, and an automaton without empty moves is refused by determinization just
when the empty move is idle (`ofBinary_idle`).
-/

namespace Automata.Binary

namespace Layout

variable {k : Kind} {l : Layout k} {x : Symbol}

/-- Whether entries settle where states move on the symbol and all of them say nowhere. -/
def Idle (l : Layout k) (x : Symbol) : Prop :=
  (∃ s entry, l.Settles s x entry) ∧ ∀ s entry, l.Settles s x entry → entry.states = []

theorem uses_automaton_iff :
    l.automaton.Uses x ↔ ∃ s entry, l.Settles s x entry ∧ entry.states ≠ [] := by
  simp only [Automaton.Uses, mem_transitions_automaton, SpellsLast]
  refine ⟨?_, ?_⟩
  · intro h
    obtain ⟨s, q, entry, hSettles, hTarget⟩ := h
    exact ⟨s, entry, hSettles, List.ne_nil_of_mem hTarget⟩
  · intro h
    obtain ⟨s, entry, hSettles, hNonempty⟩ := h
    obtain ⟨q, hq⟩ := List.exists_mem_of_ne_nil _ hNonempty
    exact ⟨s, q, entry, hSettles, hq⟩

/-- **An idle symbol has entries and no transitions.** -/
theorem idle_iff :
    l.Idle x ↔ (∃ s held, l.automaton.target? s x = some held) ∧ ¬ l.automaton.Uses x := by
  have hEntries : (∃ s held, l.automaton.target? s x = some held) ↔
      ∃ s entry, l.Settles s x entry := by
    simp only [target?_automaton]
    exact ⟨fun ⟨s, _, entry, hSettles, _⟩ => ⟨s, entry, hSettles⟩,
      fun ⟨s, entry, hSettles⟩ => ⟨s, entry.target, entry, hSettles, rfl⟩⟩
  rw [Idle, hEntries, uses_automaton_iff]
  simp only [not_exists, not_and, not_not]

/-- What looks for entries is right about a symbol that is not idle, and about no other. -/
theorem entries_iff_uses :
    ((∃ s held, l.automaton.target? s x = some held) ↔ l.automaton.Uses x) ↔ ¬ l.Idle x := by
  have hEntry : l.automaton.Uses x → ∃ s held, l.automaton.target? s x = some held :=
    fun ⟨s, _, hMem⟩ => ⟨s, Automaton.exists_target?_of_mem hMem⟩
  rw [idle_iff, not_and, not_not]
  exact ⟨Iff.mp, fun h => ⟨h, hEntry⟩⟩

end Layout

open Layout

/-- **A decoded automaton is seen as it is, but for idle symbols.** The test for empty moves is
right unless the empty move is idle, and the alphabet is right about a character unless that is
idle. So an automaton is refused for its empty moves if it has one or if the empty move is idle; one
that has an initial state and no empty move is determinized exactly when the empty move is not
idle. -/
theorem ofBinary_idle {bytes : Bytes} {n : Nfa} (h : Automaton.ofBinary .nfa bytes = .ok n) :
    ∃ l rest, Layout.decode .nfa bytes = .ok (l, rest) ∧
      ((n.hasEpsilon = true ↔ n.Uses .epsilon) ↔ ¬ l.Idle .epsilon) ∧
      (∀ c, (c ∈ n.alphabet ↔ n.Uses (.char c)) ↔ ¬ l.Idle (.char c)) ∧
      (n.determinize = .error .epsilonPresent ↔ n.Uses .epsilon ∨ l.Idle .epsilon) ∧
      ∀ s, n.initial = some s → ¬ n.Uses .epsilon →
        ((∃ d, n.determinize = .ok d) ↔ ¬ l.Idle .epsilon) := by
  obtain ⟨l, rest, hDecode, _, rfl⟩ := exists_layout_of_ofBinary h
  have hEpsilon : l.automaton.hasEpsilon = true ↔ l.automaton.Uses .epsilon ∨ l.Idle .epsilon := by
    rw [Automaton.hasEpsilon_iff, idle_iff]
    by_cases hUses : l.automaton.Uses .epsilon
    · obtain ⟨s, _, hMem⟩ := hUses
      exact iff_of_true ⟨s, Automaton.exists_target?_of_mem hMem⟩ (Or.inl ⟨s, _, hMem⟩)
    · rw [or_iff_right hUses, and_iff_left hUses]
  refine ⟨l, rest, hDecode, ?_, fun c => ?_, ?_, ?_⟩
  · rw [Automaton.hasEpsilon_iff, entries_iff_uses]
  · rw [Automaton.mem_alphabet_iff, entries_iff_uses]
  · rw [Nfa.determinize_eq_epsilonPresent_iff, hEpsilon]
  · intro s hInitial hUses
    rw [Nfa.exists_determinize_iff hInitial, ← Bool.not_eq_true, hEpsilon, or_iff_right hUses]

/-- The empty move has an entry that leads somewhere and one that does not; `b` has one of the
latter only. -/
def partlyIdle : Layout .nfa :=
  ⟨2, some 0, [1], [(0, [(.epsilon, []), (.char 'b', [])]), (1, [(.epsilon, [0])])]⟩

theorem ofBinary_idle_partly :
    Automaton.ofBinary .nfa partlyIdle.encode = .ok partlyIdle.automaton ∧
      ∃ l rest, Layout.decode .nfa partlyIdle.encode = .ok (l, rest) ∧ ¬ l.Idle .epsilon ∧
        l.Idle (.char 'b') := by
  have hDecoded : Automaton.ofBinary .nfa partlyIdle.encode = .ok partlyIdle.automaton := rfl
  have hEpsilon : partlyIdle.automaton.Uses .epsilon := ⟨1, 0, by decide⟩
  have hUnused : ¬ partlyIdle.automaton.Uses (.char 'b') := by
    rintro ⟨s, q, hMem⟩
    have hOnly : partlyIdle.automaton.transitions = [⟨1, .epsilon, 0⟩] := rfl
    rw [hOnly, List.mem_singleton] at hMem
    cases hMem
  obtain ⟨l, rest, hDecode, hTest, hAlphabet, _, _⟩ := ofBinary_idle hDecoded
  refine ⟨hDecoded, l, rest, hDecode, hTest.mp (iff_of_true rfl hEpsilon), ?_⟩
  by_contra hIdle
  exact hUnused (((hAlphabet 'b').mpr hIdle).mp (by decide))

/-- A state with an empty set of targets for the empty move and for `a`. -/
def idle : Layout .nfa := ⟨1, some 0, [], [(0, [(.epsilon, []), (.char 'a', [])])]⟩

/-- An automaton without transitions that has empty moves by the test and a character in its
alphabet, and is refused by determinization. -/
theorem ofBinary_refused_for_idle :
    Automaton.ofBinary .nfa idle.encode = .ok idle.automaton ∧ idle.automaton.initial = some 0 ∧
      idle.automaton.transitions = [] ∧ idle.automaton.hasEpsilon = true ∧
      'a' ∈ idle.automaton.alphabet ∧ Nfa.determinize idle.automaton = .error .epsilonPresent :=
  ⟨rfl, rfl, rfl, rfl, by decide, rfl⟩

end Automata.Binary
