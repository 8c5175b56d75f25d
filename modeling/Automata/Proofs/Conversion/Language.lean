import Automata.Proofs.Conversion.EpsilonRemoval
import Automata.Proofs.Conversion.Subsets

/-! # Conversion keeps the language

Removing empty moves keeps what is accepted, and so does determinization of an automaton without
empty moves. One after the other they turn any automaton with an initial state into a deterministic
one that accepts the same words.
-/

namespace Automata.Nfa

variable {n : Nfa} {start : State}

theorem accepts_of_tracks {d : Determinized} (h : d.Tracks n start)
    (hInitial : d.dfa.initial = some 0) (word : Text) :
    d.dfa.accepts word = .ok true ↔ ∃ f ∈ n.finals, n.Spells start word f := by
  rw [Dfa.accepts_of_initial hInitial, Except.ok.injEq, Option.any_eq_true]
  refine ⟨?_, ?_⟩
  · intro hExists
    rcases hExists with ⟨k, hk, hFinal⟩
    obtain ⟨states, hStates, hLast⟩ := (Dfa.exists_stateSequence_iff hInitial).mpr hk
    obtain ⟨subset, hSubset, hMem⟩ := h.follows word states k hStates hLast
    obtain ⟨other, hOther, f, hf, hIn⟩ := (h.final k).mp hFinal
    obtain rfl := Option.some.inj (hSubset.symm.trans hOther)
    exact ⟨f, hIn, (hMem f).mp hf⟩
  · intro hExists
    rcases hExists with ⟨f, hf, hSpells⟩
    obtain ⟨states, k, hStates, hLast⟩ := (h.runs word).mp ⟨f, hSpells⟩
    obtain ⟨subset, hSubset, hMem⟩ := h.follows word states k hStates hLast
    refine ⟨k, (Dfa.exists_stateSequence_iff hInitial).mp ⟨states, hStates, hLast⟩, ?_⟩
    exact (h.final k).mpr ⟨subset, hSubset, f, (hMem f).mpr hSpells, hf⟩

theorem exists_determinize (hEps : n.hasEpsilon = false) (hStart : n.initial = some start) :
    ∃ d, n.determinize = .ok d ∧ ∀ word, d.accepts word = n.accepts word := by
  let found := (n.subsetMachine start).nodes n.alphabet n.subsetBound
  let d := (n.subsetMachine start).number n.alphabet found
  refine ⟨d, determinize_eq hEps hStart, fun word => ?_⟩
  have hTracks : Determinized.Tracks ⟨d, found⟩ n start :=
    tracks_number hEps (numbered_subsets n start)
  have hInitial : d.initial = some 0 := rfl
  have hAccepts := accepts_of_tracks hTracks hInitial word
  rw [Dfa.accepts_of_initial hInitial, Except.ok.injEq, ← anyFinal_run_iff] at hAccepts
  rw [accepts_of_initial hStart, Dfa.accepts_of_initial hInitial, Except.ok.injEq, Bool.eq_iff_iff]
  exact hAccepts

/-- **Conversion keeps the language.** It fails only when there is no initial state, and otherwise
gives a deterministic automaton that accepts the same words, whatever characters they are made
of. -/
theorem toDfa_accepts (n : Nfa) :
    ((∃ d, n.toDfa = .ok d) ↔ ∃ s, n.initial = some s) ∧
    (∀ e, n.toDfa = .error e ↔ n.initial = none ∧ e = .noInitial) ∧
    ∀ d, n.toDfa = .ok d → ∀ word, d.accepts word = n.accepts word := by
  have hEps := hasEpsilon_withoutEpsilon n
  cases hInitial : n.initial with
  | none =>
      have hNew : n.withoutEpsilon.initial = none := hInitial
      have hResult : n.toDfa = .error .noInitial := by
        rw [toDfa, determinize, subsetConstruction_of_not_initial hEps hNew]
        rfl
      rw [hResult]
      refine ⟨?_, ?_, ?_⟩
      · simp
      · intro e
        simp [eq_comm]
      · intro d hd
        exact absurd hd (by simp)
  | some s =>
      have hNew : n.withoutEpsilon.initial = some s := hInitial
      obtain ⟨d, hResult, hAccepts⟩ := exists_determinize hEps hNew
      rw [toDfa, hResult]
      refine ⟨?_, ?_, ?_⟩
      · simp
      · intro e
        simp
      · intro d' hd word
        obtain rfl := Except.ok.inj hd
        rw [hAccepts word, accepts_withoutEpsilon]

end Automata.Nfa
