import Automata.Conversion.Rebuilding
import Automata.Proofs.Session.Extensional

/-! # What is left when empty moves are removed

The automaton without empty moves has a transition for each transition on a character with empty
moves before and after it, and the final states are those from which empty moves lead to a final
state. An automaton that is rebuilt state by state is that automaton (`rebuilt_eq`): after some of
the states it has the marks and the transitions of these and no others (`Rebuilt`), and a character
that leads nowhere opens no row. As the result has neither empty moves nor empty rows, a second
removal finds nothing to change, and automata of this kind are the only ones that a removal leaves
as they are (`withoutEpsilon_eq_self_iff`).
-/

namespace Automata.Nfa

variable {n b : Nfa} {s : State} {x : Symbol} {added active : StateSet}

/-! ### Adding targets -/

theorem extend_of_ne_empty (h : added ≠ ∅) :
    n.extend s x added =
      n.setTarget s x (added.union ((n.target? s x).getD (∅ : StateSet))) := by
  rw [extend, if_neg fun hEmpty => h (OrderedSet.isEmpty_iff.mp hEmpty)]

theorem extend_empty (n : Nfa) (s : State) (x : Symbol) : n.extend s x ∅ = n := rfl

theorem exists_rows_extend (n : Nfa) (s : State) (x : Symbol) (added : StateSet) :
    ∃ rows, n.extend s x added = { n with rows := rows } := by
  by_cases hEmpty : added = ∅
  · exact ⟨n.rows, by rw [hEmpty, extend_empty]⟩
  · exact ⟨_, extend_of_ne_empty hEmpty⟩

theorem mem_transitions_extend {t : Transition} :
    t ∈ (n.extend s x added).transitions ↔
      t ∈ n.transitions ∨ (t.source = s ∧ t.symbol = x) ∧ t.target ∈ added := by
  by_cases hEmpty : added = ∅
  · rw [hEmpty, extend_empty]
    simp
  · rw [extend_of_ne_empty hEmpty, Automaton.mem_transitions_setTarget]
    by_cases hKey : t.source = s ∧ t.symbol = x
    · obtain ⟨rfl, rfl⟩ := hKey
      rw [if_pos ⟨rfl, rfl⟩, Automaton.mem_transitions, Automaton.mem_targets_iff]
      show t.target ∈ added.union _ ↔ _
      rw [OrderedSet.mem_union, or_comm]
      cases n.target? t.source t.symbol with
      | none => simp
      | some held => simp [Target.toList, OrderedSet.mem_def]
    · simp [hKey]

theorem tight_extend (h : n.Tight) : (n.extend s x added).Tight := by
  by_cases hEmpty : added = ∅
  · rw [hEmpty, extend_empty]
    exact h
  · rw [extend_of_ne_empty hEmpty]
    rw [OrderedSet.eq_empty_iff, not_forall_not] at hEmpty
    obtain ⟨q, hq⟩ := hEmpty
    exact h.setTarget ⟨q, OrderedSet.mem_union.mpr (Or.inl hq)⟩

/-! ### One state -/

/-- The automaton with the targets of `s`, whose closure is `active`, added for some characters. -/
def extendAll (n b : Nfa) (s : State) (active : StateSet) (cs : List Char) : Nfa :=
  cs.foldl (fun b c => b.extend s (.char c) (n.closedMove active c)) b

theorem exists_rows_extendAll (n b : Nfa) (s : State) (active : StateSet) (cs : List Char) :
    ∃ rows, n.extendAll b s active cs = { b with rows := rows } := by
  induction cs generalizing b with
  | nil => exact ⟨b.rows, rfl⟩
  | cons c cs ih =>
      obtain ⟨rows, hRows⟩ := exists_rows_extend b s (.char c) (n.closedMove active c)
      obtain ⟨rest, hRest⟩ := ih { b with rows := rows }
      refine ⟨rest, ?_⟩
      rw [extendAll, List.foldl_cons, hRows]
      exact hRest

theorem tight_extendAll (h : b.Tight) (cs : List Char) : (n.extendAll b s active cs).Tight := by
  induction cs generalizing b with
  | nil => exact h
  | cons c cs ih => exact ih (tight_extend h)

theorem mem_transitions_extendAll {cs : List Char} {t : Transition} :
    t ∈ (n.extendAll b s active cs).transitions ↔
      t ∈ b.transitions ∨
        t.source = s ∧ ∃ c ∈ cs, t.symbol = .char c ∧ t.target ∈ n.closedMove active c := by
  induction cs generalizing b with
  | nil => simp [extendAll]
  | cons c cs ih =>
      have hStep : n.extendAll b s active (c :: cs) =
          n.extendAll (b.extend s (.char c) (n.closedMove active c)) s active cs := rfl
      rw [hStep, ih, mem_transitions_extend, or_assoc, and_assoc, ← and_or_left]
      simp only [List.exists_mem_cons_iff]

/-- **All closures that are needed for a state are in the table**, if the automaton is
well-formed. -/
theorem foldlM_rebuildMove (hWf : n.WellFormed) (s : State) (active : StateSet) (b : Nfa)
    (cs : List Char) :
    cs.foldlM (n.rebuildMove s active) b = some (n.extendAll b s active cs) := by
  induction cs generalizing b with
  | nil => rfl
  | cons c cs ih =>
      rw [List.foldlM_cons, rebuildMove, lookUp_closures hWf]
      exact ih _

theorem anyFinal_closure_iff : n.anyFinal (n.closure [s]) = true ↔ s ∈ n.withoutEpsilon.finals := by
  rw [anyFinal_iff, mem_finals_withoutEpsilon]
  simp only [mem_closure_singleton, and_comm]

theorem mem_finals_rebuildMark {p : State} :
    p ∈ (n.rebuildMark s (n.closure [s]) b).finals ↔
      p ∈ b.finals ∨ p = s ∧ p ∈ n.withoutEpsilon.finals := by
  rw [rebuildMark]
  by_cases hFinal : n.anyFinal (n.closure [s]) = true
  · rw [if_pos hFinal]
    have hs := anyFinal_closure_iff.mp hFinal
    refine OrderedSet.mem_insert.trans (or_comm.trans (or_congr_right ?_))
    exact ⟨fun hEq => ⟨hEq, hEq ▸ hs⟩, And.left⟩
  · rw [if_neg hFinal]
    refine (or_iff_left fun h => hFinal ?_).symm
    exact anyFinal_closure_iff.mpr (h.1 ▸ h.2)

/-- What the alphabet adds for a state are its transitions after the removal. -/
theorem exists_closedMove_iff {y : Symbol} {q : State} :
    (∃ c ∈ n.alphabet.toList, y = .char c ∧ q ∈ n.closedMove (n.closure [s]) c) ↔
      ⟨s, y, q⟩ ∈ n.withoutEpsilon.transitions := by
  rw [mem_transitions_withoutEpsilon]
  refine ⟨?_, ?_⟩
  · intro h
    obtain ⟨c, _, rfl, hMoved⟩ := h
    obtain ⟨p, hp, r, hMove, hReach⟩ := mem_closedMove.mp hMoved
    exact ⟨c, p, r, rfl, mem_closure_singleton.mp hp, hMove, hReach⟩
  · intro h
    obtain ⟨c, p, r, rfl, hBefore, hMove, hAfter⟩ := h
    refine ⟨c, Automaton.mem_alphabet_of_mem hMove, rfl, ?_⟩
    exact mem_closedMove.mpr ⟨p, mem_closure_singleton.mpr hBefore, r, hMove, hAfter⟩

/-! ### All states -/

/-- What is there after some states: their marks and their transitions, and no others. -/
structure Rebuilt (n : Nfa) (done : List State) (b : Nfa) : Prop where
  stateCount : b.stateCount = n.stateCount
  initial : b.initial = n.initial
  tight : b.Tight
  mem_finals : ∀ s, s ∈ b.finals ↔ s ∈ done ∧ s ∈ n.withoutEpsilon.finals
  mem_transitions : ∀ t, t ∈ b.transitions ↔ t.source ∈ done ∧ t ∈ n.withoutEpsilon.transitions

/-- **One more state is done.** -/
theorem Rebuilt.step (hWf : n.WellFormed) {done : List State} (h : Rebuilt n done b) (s : State) :
    ∃ next, n.rebuildState b s = some next ∧ Rebuilt n (done ++ [s]) next := by
  refine ⟨_, foldlM_rebuildMove hWf s (n.closure [s]) _ _, ?_⟩
  obtain ⟨rows, hRows⟩ := exists_rows_extendAll n (n.rebuildMark s (n.closure [s]) b) s
    (n.closure [s]) n.alphabet.toList
  have hMark : ∃ finals, n.rebuildMark s (n.closure [s]) b = { b with finals := finals } := by
    rw [rebuildMark]
    split
    · exact ⟨_, rfl⟩
    · exact ⟨b.finals, rfl⟩
  obtain ⟨finals, hFinals⟩ := hMark
  constructor
  case stateCount => rw [hRows, hFinals]; exact h.stateCount
  case initial => rw [hRows, hFinals]; exact h.initial
  case tight =>
    refine tight_extendAll ?_ _
    rw [hFinals]
    exact ⟨h.tight.row, h.tight.target⟩
  case mem_finals =>
    intro p
    rw [hRows]
    show p ∈ (n.rebuildMark s (n.closure [s]) b).finals ↔ _
    rw [mem_finals_rebuildMark, h.mem_finals, List.mem_append, List.mem_singleton, or_and_right]
  case mem_transitions =>
    intro t
    have hBefore : (n.rebuildMark s (n.closure [s]) b).transitions = b.transitions := by
      rw [hFinals]
      rfl
    obtain ⟨p, y, q⟩ := t
    rw [mem_transitions_extendAll, hBefore, h.mem_transitions, List.mem_append,
      List.mem_singleton, or_and_right, exists_closedMove_iff]
    refine or_congr_right (and_congr_right fun hEq => ?_)
    rw [show p = s from hEq]

/-- **States are done one after the other**, whichever have been done before. -/
theorem Rebuilt.foldlM (hWf : n.WellFormed) {done : List State} (h : Rebuilt n done b)
    (states : List State) :
    ∃ last, states.foldlM n.rebuildState b = some last ∧ Rebuilt n (done ++ states) last := by
  induction states generalizing done b with
  | nil => exact ⟨b, rfl, (List.append_nil done).symm ▸ h⟩
  | cons s states ih =>
      obtain ⟨next, hStep, hNext⟩ := h.step hWf s
      obtain ⟨last, hFold, hLast⟩ := ih hNext
      rw [List.append_assoc, List.singleton_append] at hLast
      exact ⟨last, by rw [List.foldlM_cons, hStep]; exact hFold, hLast⟩

/-- **State by state, the automaton without empty moves is rebuilt.** -/
theorem rebuilt_eq (hWf : n.WellFormed) : n.rebuilt = some n.withoutEpsilon := by
  have hStart : Rebuilt n [] { Automaton.withStates .nfa n.stateCount with initial := n.initial } :=
    ⟨rfl, rfl, Automaton.tight_of_rows_eq_empty rfl, fun _ => by simp [Automaton.withStates],
      fun _ => by simp [Automaton.withStates, Automaton.transitions]⟩
  obtain ⟨last, hFold, hLast⟩ := hStart.foldlM hWf (List.range n.stateCount)
  rw [List.nil_append] at hLast
  refine hFold.trans (congrArg some ?_)
  refine Automaton.eq_of_tight hLast.tight (tight_withoutEpsilon n) hLast.stateCount hLast.initial
    (fun s => ?_) (fun t => ?_)
  · rw [hLast.mem_finals, List.mem_range]
    exact and_iff_right_of_imp (hWf.withoutEpsilon.finals s)
  · rw [hLast.mem_transitions, List.mem_range]
    exact and_iff_right_of_imp (hWf.withoutEpsilon.source t)

/-! ### Fixed points -/

theorem withoutEpsilon_withoutEpsilon (n : Nfa) :
    n.withoutEpsilon.withoutEpsilon = n.withoutEpsilon :=
  withoutEpsilon_eq_self (hasEpsilon_withoutEpsilon n) (tight_withoutEpsilon n)

/-- **A removal leaves exactly those automata as they are that have no entry for the empty move and
neither empty rows nor empty sets of targets.** -/
theorem withoutEpsilon_eq_self_iff : n.withoutEpsilon = n ↔ n.hasEpsilon = false ∧ n.Tight := by
  refine ⟨fun h => ?_, fun h => withoutEpsilon_eq_self h.1 h.2⟩
  rw [← h]
  exact ⟨hasEpsilon_withoutEpsilon n, tight_withoutEpsilon n⟩

/-- **What is left when empty moves are removed.** A transition is a transition on a character with
empty moves before and after it, and a state is final when empty moves lead from it to a final
state. This is what rebuilding the automaton state by state comes to, and a second removal changes
nothing. What is left as it is has no entry for the empty move and nothing empty; in particular,
every automaton without empty moves that was not decoded is left as it is. -/
theorem withoutEpsilon_structure {n : Nfa} (h : Obtainable n) :
    (∀ s x t, ⟨s, x, t⟩ ∈ n.withoutEpsilon.transitions ↔
      ∃ c p q, x = .char c ∧ n.EmptyReach s p ∧ ⟨p, .char c, q⟩ ∈ n.transitions ∧
        n.EmptyReach q t) ∧
    (∀ s, s ∈ n.withoutEpsilon.finals ↔ ∃ f ∈ n.finals, n.EmptyReach s f) ∧
    n.rebuilt = some n.withoutEpsilon ∧
    n.withoutEpsilon.withoutEpsilon = n.withoutEpsilon ∧
    (n.withoutEpsilon = n ↔ n.hasEpsilon = false ∧ n.Tight) ∧
    ∀ calls, (∀ call ∈ calls, call.decodes = false) → ⟨.nfa, n⟩ ∈ Session.run calls →
      ¬ n.Uses .epsilon → n.withoutEpsilon = n := by
  refine ⟨fun s x t => mem_transitions_withoutEpsilon, fun s => mem_finals_withoutEpsilon,
    rebuilt_eq h.wellFormed.1, withoutEpsilon_withoutEpsilon n, withoutEpsilon_eq_self_iff, ?_⟩
  intro calls hCalls hMem hUses
  have hTight : n.Tight := Session.tight_of_mem_run hCalls _ hMem
  refine withoutEpsilon_eq_self ?_ hTight
  rw [← Bool.not_eq_true, hTight.hasEpsilon]
  exact hUses

/-- Empty moves go back and forth between 1 and 2 and on from 3; state 5 cannot be reached. -/
def bypassed : Nfa :=
  Edit.attemptAll (.withStates .nfa 6)
    [.markInitial 0, .markFinal 4, .addTransition 0 'a' 1, .addEpsilon 1 2, .addEpsilon 2 1,
      .addTransition 2 'b' 3, .addEpsilon 3 4, .addEpsilon 5 3]

def plainCalls : List Call :=
  [.withStates .nfa 2, .edit .nfa 0 (.addTransition 1 'a' 0), .edit .nfa 0 (.addTransition 1 'a' 1),
    .edit .nfa 0 (.addEpsilon 1 2), .edit .nfa 0 (.markInitial 1)]

def plain : Nfa :=
  Edit.attemptAll (.withStates .nfa 2)
    [.markInitial 1, .addTransition 1 'a' 1, .addTransition 1 'a' 0]

theorem withoutEpsilon_structure_bypassed :
    Obtainable bypassed ∧ ⟨1, .char 'b', 4⟩ ∈ bypassed.withoutEpsilon.transitions ∧
      5 ∈ bypassed.withoutEpsilon.finals ∧ bypassed.withoutEpsilon ≠ bypassed ∧
      ⟨.nfa, plain⟩ ∈ Session.run plainCalls ∧ plain.withoutEpsilon = plain := by
  have hObtainable : Obtainable bypassed :=
    (Obtainable.withStates .nfa 6 (by decide)).attemptAll (by decide)
  obtain ⟨hTransitions, hFinals, _, _, hFixed, _⟩ := withoutEpsilon_structure hObtainable
  have hTransition := (hTransitions 1 (.char 'b') 4).mpr
    ⟨'b', 2, 3, rfl, .single (by decide), by decide, .single (by decide)⟩
  have hFinal := (hFinals 5).mpr ⟨4, by decide, .head (b := 3) (by decide) (.single (by decide))⟩
  have hMoves : bypassed.hasEpsilon = true := rfl
  have hChanged : bypassed.withoutEpsilon ≠ bypassed := fun hEq =>
    Bool.false_ne_true ((hFixed.mp hEq).1.symm.trans hMoves)
  have hMem : ⟨.nfa, plain⟩ ∈ Session.run plainCalls := by decide +kernel
  have hUses : ¬ plain.Uses .epsilon := by
    rintro ⟨s, q, hMove⟩
    have hAll : ∀ t ∈ plain.transitions, t.symbol = .char 'a' := by decide
    cases hAll _ hMove
  have hPlain : Obtainable plain := Session.obtainable_of_mem_run plainCalls _ hMem
  obtain ⟨_, _, _, _, _, hSame⟩ := withoutEpsilon_structure hPlain
  exact ⟨hObtainable, hTransition, hFinal, hChanged, hMem,
    hSame plainCalls (by decide) hMem hUses⟩

end Automata.Nfa
