import Automata.Run.Acceptance

/-! # Deterministic runs

A deterministic automaton has at most one run on a word. `destination` is the state in which it
ends; the trace of the run ends there and acceptance asks whether that state is final.
-/

namespace Automata.Dfa

variable {d : Dfa}

/-- The state that a word leads to from `s`, unless a move is missing. -/
def destination (d : Dfa) (s : State) : Text → Option State
  | [] => some s
  | c :: word => (d.next? s c).bind (d.destination · word)

@[simp] theorem destination_nil (s : State) : d.destination s [] = some s := rfl

@[simp] theorem destination_cons (s : State) (c : Char) (word : Text) :
    d.destination s (c :: word) = (d.next? s c).bind (d.destination · word) := rfl

theorem trace_cons (s : State) (c : Char) (word : Text) :
    d.trace s (c :: word) =
      (d.next? s c).bind fun q => (d.trace q word).map (q :: ·) := by
  rw [trace]
  cases d.next? s c with
  | none => rfl
  | some q =>
      cases hTrace : d.trace q word with
      | none => simp [hTrace]
      | some rest => simp [hTrace]

theorem getLast?_trace {s : State} {word : Text} {states : List State}
    (h : d.trace s word = some states) :
    (s :: states).getLast? = d.destination s word := by
  induction word generalizing s states with
  | nil =>
      obtain rfl := Option.some.inj h
      rfl
  | cons c word ih =>
      rw [trace_cons, Option.bind_eq_some_iff] at h
      obtain ⟨q, hNext, hRest⟩ := h
      obtain ⟨rest, hTrace, rfl⟩ := Option.map_eq_some_iff.mp hRest
      rw [destination_cons, hNext, Option.bind_some, ← ih hTrace, List.getLast?_cons_cons]

theorem trace_eq_none_iff {s : State} {word : Text} :
    d.trace s word = none ↔ d.destination s word = none := by
  induction word generalizing s with
  | nil => simp [trace]
  | cons c word ih =>
      rw [trace_cons, destination_cons]
      cases d.next? s c with
      | none => simp
      | some q => simp [ih]

theorem acceptsFrom_eq_any_destination (s : State) (word : Text) :
    d.acceptsFrom s word = (d.destination s word).any d.isFinal := by
  induction word generalizing s with
  | nil => rfl
  | cons c word ih =>
      rw [acceptsFrom, destination_cons]
      cases d.next? s c with
      | none => rfl
      | some q => exact ih q

theorem accepts_of_initial {s : State} (h : d.initial = some s) (word : Text) :
    d.accepts word = .ok ((d.destination s word).any d.isFinal) := by
  rw [Automaton.accepts, Automaton.initialState, h, ← acceptsFrom_eq_any_destination]
  rfl

theorem stateSequence_of_initial {s : State} (h : d.initial = some s) (word : Text) :
    d.stateSequence word = .ok ((d.trace s word).map (s :: ·)) := by
  rw [stateSequence, Automaton.initialState, h]
  rfl

theorem exists_stateSequence_iff {s k : State} (h : d.initial = some s) {word : Text} :
    (∃ states, d.stateSequence word = .ok (some states) ∧ states.getLast? = some k) ↔
      d.destination s word = some k := by
  rw [stateSequence_of_initial h]
  refine ⟨?_, ?_⟩
  · intro hExists
    rcases hExists with ⟨states, hStates, hLast⟩
    obtain ⟨rest, hTrace, rfl⟩ := Option.map_eq_some_iff.mp (Except.ok.inj hStates)
    rw [← getLast?_trace hTrace, hLast]
  · intro hDest
    cases hTrace : d.trace s word with
    | none =>
        rw [trace_eq_none_iff, hDest] at hTrace
        exact absurd hTrace (Option.some_ne_none k)
    | some rest =>
        refine ⟨s :: rest, rfl, ?_⟩
        rw [getLast?_trace hTrace, hDest]

theorem stateSequence_eq_none_iff {s : State} (h : d.initial = some s) {word : Text} :
    d.stateSequence word = .ok none ↔ d.destination s word = none := by
  rw [stateSequence_of_initial h, Except.ok.injEq, Option.map_eq_none_iff, trace_eq_none_iff]

end Automata.Dfa
