import Automata.Conversion.EpsilonRemoval
import Automata.Proofs.Run.Closure

/-! # Acceptance and paths

A nondeterministic run keeps the set of states that the word read so far leads to. `mem_run` is the
invariant: from a closed set the run holds exactly the states that a path from a member, spelling
the word, ends in. A set that has become empty stays empty (`run_empty`), so stopping early gives
the answer of the whole run (`acceptsFrom_eq_anyFinal_run`).
-/

namespace Automata.Nfa

variable {n : Nfa}

theorem mem_move {active : StateSet} {c : Char} {q : State} :
    q ∈ n.move active c ↔ ∃ p ∈ active, ⟨p, .char c, q⟩ ∈ n.transitions := by
  simp only [move, OrderedSet.mem_bind, Automaton.mem_targets]

@[simp] theorem isFinal_iff {q : State} : n.isFinal q = true ↔ q ∈ n.finals :=
  decide_eq_true_iff

theorem anyFinal_iff {active : StateSet} :
    n.anyFinal active = true ↔ ∃ q ∈ active, q ∈ n.finals := by
  simp only [anyFinal, OrderedSet.any_eq_true, isFinal_iff]

theorem mem_closedMove {active : StateSet} {c : Char} {q : State} :
    q ∈ n.closedMove active c ↔
      ∃ p ∈ active, ∃ r, ⟨p, .char c, r⟩ ∈ n.transitions ∧ n.EmptyReach r q := by
  rw [closedMove, mem_closure]
  refine ⟨?_, ?_⟩
  · intro h
    rcases h with ⟨r, hr, hReach⟩
    obtain ⟨p, hp, hMove⟩ := mem_move.mp (OrderedSet.mem_def.mpr hr)
    exact ⟨p, hp, r, hMove, hReach⟩
  · intro h
    rcases h with ⟨p, hp, r, hMove, hReach⟩
    exact ⟨r, mem_move.mpr ⟨p, hp, hMove⟩, hReach⟩

theorem closed_closedMove (n : Nfa) (active : StateSet) (c : Char) :
    n.Closed (n.closedMove active c) :=
  closed_closure n _

/-! ### Runs -/

/-- The states that a word leads to from the closed set `active`. -/
def run (n : Nfa) (active : StateSet) (word : Text) : StateSet :=
  word.foldl n.closedMove active

@[simp] theorem run_nil (active : StateSet) : n.run active [] = active := rfl

@[simp] theorem run_cons (active : StateSet) (c : Char) (word : Text) :
    n.run active (c :: word) = n.run (n.closedMove active c) word := rfl

@[simp] theorem closedMove_empty (c : Char) : n.closedMove ∅ c = ∅ := by
  rw [OrderedSet.eq_empty_iff]
  intro q hq
  obtain ⟨p, hp, _⟩ := mem_closedMove.mp hq
  exact OrderedSet.not_mem_empty p hp

theorem run_empty (word : Text) : n.run ∅ word = ∅ := by
  induction word with
  | nil => rfl
  | cons c word ih => rw [run_cons, closedMove_empty, ih]

/-- **A run from a closed set holds the states that the word leads to from its members.** -/
theorem mem_run {active : StateSet} (hClosed : n.Closed active) {word : Text} {q : State} :
    q ∈ n.run active word ↔ ∃ p ∈ active, n.Spells p word q := by
  induction word generalizing active with
  | nil =>
      simp only [run_nil, Automaton.spells_nil]
      refine ⟨?_, ?_⟩
      · intro hq
        exact ⟨q, hq, .refl⟩
      · intro h
        rcases h with ⟨p, hp, hReach⟩
        exact hClosed p hp q hReach
  | cons c word ih =>
      rw [run_cons, ih (closed_closedMove n active c)]
      refine ⟨?_, ?_⟩
      · intro h
        rcases h with ⟨r, hr, hRest⟩
        obtain ⟨p, hp, m, hMove, hReach⟩ := mem_closedMove.mp hr
        exact ⟨p, hp, (hReach.spells hRest).char_step hMove⟩
      · intro h
        rcases h with ⟨p, hp, hSpells⟩
        obtain ⟨m, r, hReach, hMove, hRest⟩ := Automaton.spells_cons.mp hSpells
        -- the empty moves before the character stay inside the closed set
        have hm : m ∈ active := hClosed p hp m hReach
        exact ⟨r, mem_closedMove.mpr ⟨m, hm, r, hMove, .refl⟩, hRest⟩

theorem mem_run_closure {s q : State} {word : Text} :
    q ∈ n.run (n.closure [s]) word ↔ n.Spells s word q := by
  rw [mem_run (closed_closure n [s])]
  refine ⟨?_, ?_⟩
  · intro h
    rcases h with ⟨p, hp, hSpells⟩
    exact (mem_closure_singleton.mp hp).spells hSpells
  · intro hSpells
    exact ⟨s, mem_closure_singleton.mpr .refl, hSpells⟩

/-! ### Acceptance -/

theorem anyFinal_empty : n.anyFinal ∅ = false := rfl

/-- **Stopping at an empty set gives the answer of the whole run.** -/
theorem acceptsFrom_eq_anyFinal_run (active : StateSet) (word : Text) :
    n.acceptsFrom active word = n.anyFinal (n.run active word) := by
  induction word generalizing active with
  | nil => rfl
  | cons c word ih =>
      have hStep : n.acceptsFrom active (c :: word) =
          if (n.closedMove active c).isEmpty then false
          else n.acceptsFrom (n.closedMove active c) word := rfl
      rw [hStep, run_cons]
      by_cases hEmpty : (n.closedMove active c).isEmpty = true
      · rw [if_pos hEmpty, OrderedSet.isEmpty_iff.mp hEmpty, run_empty, anyFinal_empty]
      · rw [if_neg hEmpty, ih]

theorem accepts_of_initial {s : State} (h : n.initial = some s) (word : Text) :
    n.accepts word = .ok (n.anyFinal (n.run (n.closure [s]) word)) := by
  rw [Automaton.accepts, Automaton.initialState, h, ← acceptsFrom_eq_anyFinal_run]
  rfl

theorem accepts_of_not_initial (h : n.initial = none) (word : Text) :
    n.accepts word = .error .noInitial := by
  rw [Automaton.accepts, Automaton.initialState, h]
  rfl

theorem anyFinal_run_iff {s : State} {word : Text} :
    n.anyFinal (n.run (n.closure [s]) word) = true ↔ ∃ f ∈ n.finals, n.Spells s word f := by
  rw [anyFinal_iff]
  refine ⟨?_, ?_⟩
  · intro h
    rcases h with ⟨f, hf, hFinal⟩
    exact ⟨f, hFinal, mem_run_closure.mp hf⟩
  · intro h
    rcases h with ⟨f, hFinal, hSpells⟩
    exact ⟨f, mem_run_closure.mpr hSpells, hFinal⟩

/-- **Acceptance is exact.** A word is accepted when a path from the initial state to a final state
spells it, and refused when there is none; the only error is a missing initial state. The answer is
that of the run over the whole word, so nothing is lost by stopping early. -/
theorem accepts_exact (n : Nfa) (word : Text) :
    (n.accepts word = .ok true ↔
      ∃ s f, n.initial = some s ∧ f ∈ n.finals ∧ n.Spells s word f) ∧
    (n.accepts word = .ok false ↔
      ∃ s, n.initial = some s ∧ ∀ f ∈ n.finals, ¬ n.Spells s word f) ∧
    (∀ e, n.accepts word = .error e ↔ n.initial = none ∧ e = .noInitial) ∧
    ∀ s, n.initial = some s →
      n.accepts word = .ok (n.anyFinal (n.run (n.closure [s]) word)) := by
  cases hInitial : n.initial with
  | none =>
      rw [accepts_of_not_initial hInitial]
      refine ⟨?_, ?_, ?_, ?_⟩
      · simp
      · simp
      · intro e
        simp [eq_comm]
      · intro s hs
        exact absurd hs (by simp)
  | some s =>
      rw [accepts_of_initial hInitial]
      refine ⟨?_, ?_, ?_, ?_⟩
      · rw [Except.ok.injEq, anyFinal_run_iff]
        simp
      · rw [Except.ok.injEq, ← Bool.not_eq_true, anyFinal_run_iff]
        simp
      · intro e
        simp
      · intro t ht
        obtain rfl := Option.some.inj ht
        rfl

end Automata.Nfa
