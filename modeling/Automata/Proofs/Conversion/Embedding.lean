import Automata.Automaton.Drawing
import Automata.Proofs.Automaton.Obtainable
import Automata.Proofs.Automaton.Tight
import Automata.Proofs.Conversion.Language
import Automata.Proofs.TransitionList.Enumerated

/-! # Deterministic automata among the others

A deterministic automaton is a nondeterministic one whose sets of targets have one member each. Both
list the same transitions (`transitions_toNfa`), so they are written and drawn alike. On a word the
set of states of the one holds the state of the other, and it is empty when that has stopped
(`run_toNfa`). So the two accept the same words, and converting back keeps them.
-/

namespace Automata

namespace Nfa

variable {n : Nfa}

/-! ### Runs without empty moves -/

theorem closure_eq_ofList (hEps : n.hasEpsilon = false) (seeds : List State) :
    n.closure seeds = .ofList seeds := by
  apply OrderedSet.ext
  intro q
  simp only [mem_closure, Automaton.emptyReach_iff_eq hEps, exists_eq_right, OrderedSet.mem_ofList]

theorem closedMove_eq_move (hEps : n.hasEpsilon = false) (active : StateSet) (c : Char) :
    n.closedMove active c = n.move active c := by
  rw [closedMove, closure_eq_ofList hEps, OrderedSet.ofList_toList]

/-! ### Conversion -/

theorem toDfa_of_not_initial (h : n.initial = none) : n.toDfa = .error .noInitial := by
  have hNew : n.withoutEpsilon.initial = none := h
  rw [toDfa, determinize, subsetConstruction_of_not_initial (hasEpsilon_withoutEpsilon n) hNew]
  rfl

theorem exists_toDfa {s : State} (h : n.initial = some s) :
    ∃ d, n.toDfa = .ok d ∧ ∀ word, d.accepts word = n.accepts word := by
  have hNew : n.withoutEpsilon.initial = some s := h
  obtain ⟨d, hResult, hAccepts⟩ := exists_determinize (hasEpsilon_withoutEpsilon n) hNew
  refine ⟨d, hResult, fun word => ?_⟩
  rw [hAccepts, accepts_withoutEpsilon]

end Nfa

namespace Dfa

variable {d : Dfa}

/-! ### Transitions and texts -/

theorem hasEpsilon_toNfa (hWf : d.WellFormed) : d.toNfa.hasEpsilon = false := by
  rw [Automaton.hasEpsilon_eq_false_iff]
  intro s row hRow
  rw [Option.eq_none_iff_forall_ne_some]
  intro held hHeld
  have hTarget : d.toNfa.target? s .epsilon = some held :=
    Automaton.target?_eq_some_iff.mpr ⟨row, hRow, hHeld⟩
  rw [target?_toNfa, Option.map_eq_some_iff] at hTarget
  obtain ⟨q, hq, _⟩ := hTarget
  exact hWf.noEmpty rfl ⟨s, .epsilon, q⟩ (mem_transitions_iff.mpr hq) rfl

theorem tight_toNfa (h : d.Tight) : d.toNfa.Tight where
  row s row hRow hEmpty := by
    rw [toNfa, Table.get?_map, Option.map_eq_some_iff] at hRow
    obtain ⟨held, hHeld, rfl⟩ := hRow
    have hEntries : held.entries.map (fun p => (p.1, Target.single .nfa p.2)) = [] :=
      congrArg Table.entries hEmpty
    exact h.row s held hHeld (Table.eq_of_entries_eq (List.map_eq_nil_iff.mp hEntries))
  target s x held hHeld := by
    rw [target?_toNfa, Option.map_eq_some_iff] at hHeld
    obtain ⟨q, _, rfl⟩ := hHeld
    exact ⟨q, by simp⟩

theorem write_toNfa (d : Dfa) : TransitionList.write d.toNfa = TransitionList.write d := by
  simp only [TransitionList.write, TransitionList.unwritable, TransitionList.writtenLines,
    transitions_toNfa]
  rfl

theorem drawing_toNfa (d : Dfa) : d.toNfa.drawing = d.drawing := by
  simp only [Automaton.drawing, Automaton.drawingBody, transitions_toNfa]
  rfl

/-! ### Runs -/

/-- The states that a deterministic run is in: one, or none if it has stopped. -/
def current : Option State → StateSet
  | some s => .singleton s
  | none => ∅

theorem mem_current {here : Option State} {q : State} : q ∈ current here ↔ here = some q := by
  cases here with
  | none => simp [current]
  | some s => rw [current, OrderedSet.mem_singleton, Option.some.injEq, eq_comm]

theorem move_current (here : Option State) (c : Char) :
    d.toNfa.move (current here) c = current (here.bind (d.next? · c)) := by
  apply OrderedSet.ext
  intro q
  simp only [Nfa.mem_move, mem_current, transitions_toNfa, mem_transitions_iff,
    Option.bind_eq_some_iff, next?]

theorem anyFinal_current (here : Option State) :
    d.toNfa.anyFinal (current here) = here.any d.isFinal := by
  have hFinals : d.toNfa.finals = d.finals := rfl
  rw [Bool.eq_iff_iff, Nfa.anyFinal_iff, Option.any_eq_true]
  simp only [mem_current, hFinals, Automaton.isFinal, decide_eq_true_eq]

/-- **The set of states holds the state of the deterministic run**, and it is empty when that run
has stopped. -/
theorem run_toNfa (hWf : d.WellFormed) (here : Option State) (word : Text) :
    d.toNfa.run (current here) word = current (here.bind (d.destination · word)) := by
  have hEps := hasEpsilon_toNfa hWf
  induction word generalizing here with
  | nil => simp
  | cons c word ih =>
      rw [Nfa.run_cons, Nfa.closedMove_eq_move hEps, move_current, ih, Option.bind_assoc]
      simp only [destination_cons]

theorem accepts_toNfa (hWf : d.WellFormed) (word : Text) :
    d.toNfa.accepts word = d.accepts word := by
  cases hInitial : d.initial with
  | none =>
      have hNew : d.toNfa.initial = none := hInitial
      rw [Nfa.accepts_of_not_initial hNew, Automaton.accepts, Automaton.initialState, hInitial]
      rfl
  | some s =>
      have hNew : d.toNfa.initial = some s := hInitial
      have hStart : d.toNfa.closure [s] = current (some s) := by
        rw [Nfa.closure_eq_ofList (hasEpsilon_toNfa hWf)]
        rfl
      rw [Nfa.accepts_of_initial hNew, accepts_of_initial hInitial, hStart, run_toNfa hWf,
        anyFinal_current, Option.bind_some]

/-- **A deterministic automaton acts alike among the nondeterministic ones.** It accepts the same
words, with the same error if it has no initial state; it is written and drawn alike; and converting
it back gives an automaton that accepts the same words, unless there is no initial state. When the
two are enumerated in orders of their own, what is written is the same up to the kind of the error:
each may report another one of several blanks. -/
theorem toNfa_acts_alike {d : Dfa} (h : Obtainable d) :
    (∀ word, d.toNfa.accepts word = d.accepts word) ∧
    TransitionList.write d.toNfa = TransitionList.write d ∧
    (∀ capacity, TransitionList.writeWithin capacity d.toNfa =
      TransitionList.writeWithin capacity d) ∧
    (∀ (o : TransitionList.Enumeration d.toNfa) (p : TransitionList.Enumeration d),
      Alike o.write p.write) ∧
    d.toNfa.drawing = d.drawing ∧
    (∀ e, d.toNfa.toDfa = .error e ↔ d.initial = none ∧ e = .noInitial) ∧
    ∀ s, d.initial = some s →
      ∃ back, d.toNfa.toDfa = .ok back ∧ ∀ word, back.accepts word = d.accepts word := by
  have hWf : d.WellFormed := h.wellFormed.1
  have hWrite := write_toNfa d
  refine ⟨accepts_toNfa hWf, hWrite, fun capacity => ?_, fun o p => ?_, drawing_toNfa d,
    fun e => ?_, fun s hs => ?_⟩
  · rw [TransitionList.writeWithin, TransitionList.writeWithin, hWrite]
  · have hAlike := o.alike_write
    rw [hWrite] at hAlike
    exact hAlike.trans p.alike_write.symm
  · cases hInitial : d.initial with
    | none =>
        have hNew : d.toNfa.initial = none := hInitial
        rw [Nfa.toDfa_of_not_initial hNew]
        simp [eq_comm]
    | some s =>
        have hNew : d.toNfa.initial = some s := hInitial
        obtain ⟨back, hBack, _⟩ := Nfa.exists_toDfa hNew
        rw [hBack]
        simp
  · have hNew : d.toNfa.initial = some s := hs
    obtain ⟨back, hBack, hAccepts⟩ := Nfa.exists_toDfa hNew
    refine ⟨back, hBack, fun word => ?_⟩
    rw [hAccepts, accepts_toNfa hWf]

/-- A partial automaton that begins in state 1 and has a quote among its characters. -/
def quoting : Dfa :=
  Edit.attemptAll (.withStates .dfa 3)
    [.markInitial 1, .markFinal 2, .addTransition 1 '\"' 2, .addTransition 2 'a' 2,
      .addTransition 2 '\"' 0]

theorem toNfa_acts_alike_quoting :
    Obtainable quoting ∧ quoting.initial = some 1 ∧
      (∀ word, quoting.toNfa.accepts word = quoting.accepts word) ∧
      TransitionList.write quoting.toNfa = TransitionList.write quoting ∧
      quoting.toNfa.drawing = quoting.drawing ∧
      ∃ back, quoting.toNfa.toDfa = .ok back ∧
        ∀ word, back.accepts word = quoting.accepts word := by
  have hObtainable : Obtainable quoting :=
    (Obtainable.withStates .dfa 3 (by decide)).attemptAll (by decide)
  obtain ⟨hAccepts, hWrite, _, _, hDrawing, _, hBack⟩ := toNfa_acts_alike hObtainable
  exact ⟨hObtainable, by decide, hAccepts, hWrite, hDrawing, hBack 1 (by decide)⟩

end Dfa

end Automata
