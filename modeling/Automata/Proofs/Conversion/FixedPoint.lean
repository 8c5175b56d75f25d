import Automata.Proofs.Conversion.Embedding
import Automata.Proofs.Machine.Alike

/-! # Converted automata are fixed points

An automaton that comes out of a conversion has its states numbered in the order of their discovery.
When it is converted again, it never is in more than one state, and the set of place `i` moves like
the node that was found in place `i` (`alike_number`). So the second exploration goes through the
same nodes in the same order and numbers them as before, although it tries only the characters that
are left in the automaton. There are no empty moves to be removed and no empty rows to be dropped
(`withoutEpsilon_eq_self`), so it makes no difference whether removal comes first.
-/

namespace Automata

/-! ### Nothing to remove -/

namespace Nfa

theorem tight_withoutEpsilon (n : Nfa) : n.withoutEpsilon.Tight where
  row s row hRow hEmpty := by
    obtain ⟨_, _, hNonempty⟩ := get?_rows_withoutEpsilon.mp hRow
    rw [Table.isEmpty_iff.mpr hEmpty] at hNonempty
    cases hNonempty
  target s x held hHeld := by
    obtain ⟨row, hRow, hEntry⟩ := Automaton.target?_eq_some_iff.mp hHeld
    obtain ⟨_, rfl, _⟩ := get?_rows_withoutEpsilon.mp hRow
    obtain ⟨c, _, _, _, hNonempty⟩ := get?_closedRow.mp hEntry
    rw [ne_eq, OrderedSet.eq_empty_iff, not_forall_not] at hNonempty
    exact hNonempty

/-- **Without empty moves and empty rows nothing is removed.** -/
theorem withoutEpsilon_eq_self {n : Nfa} (hEps : n.hasEpsilon = false) (hTight : n.Tight) :
    n.withoutEpsilon = n := by
  refine Automaton.eq_of_tight (tight_withoutEpsilon n) hTight rfl rfl (fun s => ?_) (fun t => ?_)
  · rw [mem_finals_withoutEpsilon]
    simp only [Automaton.emptyReach_iff_eq hEps, exists_eq_right']
  · obtain ⟨s, x, t⟩ := t
    rw [mem_transitions_withoutEpsilon]
    simp only [Automaton.emptyReach_iff_eq hEps]
    cases x with
    | epsilon => simp [Automaton.not_mem_of_hasEpsilon_eq_false hEps]
    | char c => simp

end Nfa

/-! ### The second exploration -/

namespace Machine

variable {σ : Type} [DecidableEq σ] {m : Machine σ} {alphabet : OrderedSet Char} {found : List σ}

theorem next_subsetMachine_singleton (d : Dfa) (start i : State) (c : Char) :
    (d.toNfa.subsetMachine start).next (.singleton i) c = (d.next? i c).map .singleton := by
  have hMove : d.toNfa.move (.singleton i) c = Dfa.current (d.next? i c) :=
    Dfa.move_current (some i) c
  cases hNext : d.next? i c with
  | none =>
      rw [hNext] at hMove
      exact Nfa.next_subsetMachine_eq_none.mpr hMove
  | some j =>
      rw [hNext] at hMove
      exact Nfa.next_subsetMachine.mpr ⟨hMove, Nfa.singleton_ne_empty j⟩

/-- **The set of a place moves like the node in that place.** -/
theorem alike_number (hWithin : m.Within alphabet) (h : m.Numbered found) :
    Alike (fun S q => ∃ i, .singleton i = S ∧ found[i]? = some q)
      ((m.number alphabet found).toNfa.subsetMachine 0) m := by
  constructor
  case unique =>
    refine ⟨?_, ?_⟩
    · rintro _ _ q ⟨i, rfl, hi⟩ ⟨j, rfl, hj⟩
      rw [← h.idxOf_eq hi, ← h.idxOf_eq hj]
    · rintro _ p q ⟨i, rfl, hp⟩ ⟨j, hSame, hq⟩
      obtain rfl : j = i := by simpa using congrArg OrderedSet.toList hSame
      exact Option.some.inj (hp.symm.trans hq)
  case start => exact ⟨0, rfl, h.getElem?_zero⟩
  case next =>
    rintro _ q c ⟨i, rfl, hq⟩
    rw [next_subsetMachine_singleton, next?_number hWithin hq]
    cases hNext : m.next q c with
    | none => exact .none
    | some r =>
        have hr : r ∈ found := h.next_mem (List.mem_of_getElem? hq) hNext
        exact .some ⟨found.idxOf r, rfl, getElem?_idxOf hr⟩
  case accepting =>
    rintro _ q ⟨i, rfl, hq⟩
    have hFinal : (m.number alphabet found).toNfa.anyFinal (.singleton i) =
        (m.number alphabet found).isFinal i := Dfa.anyFinal_current (some i)
    rw [Bool.eq_iff_iff]
    show (m.number alphabet found).toNfa.anyFinal (.singleton i) = true ↔ _
    rw [hFinal, isFinal_number]
    simp [hq]

/-- The automaton of a machine is converted to itself, with and without removal of empty moves. -/
theorem fixed_toDfa (hWithin : m.Within alphabet) {fuel : Nat}
    (hFuel : Exploration.Covers (m.successors alphabet) [m.start] fuel) :
    (m.toDfa alphabet fuel).toNfa.toDfa = .ok (m.toDfa alphabet fuel) ∧
      (m.toDfa alphabet fuel).toNfa.determinize = .ok (m.toDfa alphabet fuel) := by
  let d := m.toDfa alphabet fuel
  have hNumbered : m.Numbered (m.nodes alphabet fuel) := numbered_nodes hWithin hFuel
  have hEps : d.toNfa.hasEpsilon = false := Dfa.hasEpsilon_toNfa (wellFormed_number hNumbered)
  have hTight : d.toNfa.Tight := Dfa.tight_toNfa (tight_number m alphabet _)
  have hInitial : d.toNfa.initial = some 0 := rfl
  have hDeterminize : d.toNfa.determinize = .ok d := by
    rw [Nfa.determinize_eq hEps hInitial]
    exact congrArg Except.ok (toDfa_eq_of_alike (alike_number hWithin hNumbered)
      (Nfa.within_subsetMachine d.toNfa 0) hWithin (Nfa.covers_subsets d.toNfa 0) hFuel)
  refine ⟨?_, hDeterminize⟩
  show d.toNfa.withoutEpsilon.determinize = .ok d
  rw [Nfa.withoutEpsilon_eq_self hEps hTight]
  exact hDeterminize

end Machine

namespace Dfa

/-- The automata that come out of conversions. Patterns may be compiled by any engine. -/
inductive Converted : Dfa → Prop
  | determinize {n : Nfa} {d : Dfa} : n.determinize = .ok d → Converted d
  | toDfa {n : Nfa} {d : Dfa} : n.toDfa = .ok d → Converted d
  | ofEngine {compile : Text → Except PatternError Engine} {r : Text} {d : Dfa} :
      ofEngine compile r = .ok d → Converted d

theorem fixed_of_determinize {n : Nfa} {d : Dfa} (h : n.determinize = .ok d) :
    d.toNfa.toDfa = .ok d ∧ d.toNfa.determinize = .ok d := by
  obtain ⟨start, rfl⟩ := Nfa.exists_toDfa_of_determinize h
  exact Machine.fixed_toDfa (Nfa.within_subsetMachine n start) (Nfa.covers_subsets n start)

/-- **Converted automata are fixed points of conversion.** States, their numbers, final states and
transitions all stay as they are. -/
theorem converted_fixed {d : Dfa} (h : Converted d) :
    d.toNfa.toDfa = .ok d ∧ d.toNfa.determinize = .ok d := by
  cases h with
  | determinize h => exact fixed_of_determinize h
  | toDfa h => exact fixed_of_determinize h
  | ofEngine h =>
      obtain ⟨b, rfl⟩ := exists_byteAutomaton_of_ofEngine h
      exact Machine.fixed_toDfa b.within_asciiMachine b.covers_asciiMachine

/-- Words over two letters that end in `ab`, by how much of the end has been read. -/
def endingInAb : Dfa :=
  Edit.attemptAll (.withStates .dfa 3)
    [.markInitial 0, .markFinal 2, .addTransition 0 'a' 1, .addTransition 0 'b' 0,
      .addTransition 1 'a' 1, .addTransition 1 'b' 2, .addTransition 2 'a' 1,
      .addTransition 2 'b' 0]

theorem converted_fixed_endingInAb :
    Nfa.endsInAb.determinize = .ok endingInAb ∧
      ofEngine Pattern.engine "[ab]*ab".toList = .ok endingInAb ∧
      endingInAb.toNfa.toDfa = .ok endingInAb ∧ endingInAb.toNfa.determinize = .ok endingInAb := by
  have hSubsets : Nfa.endsInAb.determinize = .ok endingInAb := by decide +kernel
  have hPattern : ofEngine Pattern.engine "[ab]*ab".toList = .ok endingInAb := by decide +kernel
  exact ⟨hSubsets, hPattern, converted_fixed (.ofEngine hPattern)⟩

end Dfa

end Automata
