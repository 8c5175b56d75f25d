import Automata.Proofs.Automaton.Obtainable
import Automata.Proofs.Run.Monotone

/-! # The states that a word visits

Reading a word and recording the states it visits are two loops over the word, the first with the
current state and the second with the states visited as well. They take the same turns, so they stop
at the same character if they stop at all. A recorded sequence is the run itself (`Visits`): it is
the only one that begins with the initial state and goes on, character by character, to the state
that the checked accessor names. The check never fails on it, since no state is visited but the
automaton's own.
-/

namespace Automata.Dfa

variable {d : Dfa}

/-! ### The two loops -/

/-- One turn of the loop that records: the state moved to is put behind those visited. -/
def record (d : Dfa) (visited : List State × State) (c : Char) : Option (List State × State) :=
  (d.next? visited.2 c).map fun q => (visited.1 ++ [q], q)

theorem foldlM_next? (s : State) (word : Text) : word.foldlM d.next? s = d.destination s word := by
  induction word generalizing s with
  | nil => rfl
  | cons c word ih =>
      rw [List.foldlM_cons, destination_cons]
      exact Option.bind_congr fun q _ => ih q

theorem foldlM_record (visited : List State) (s : State) (word : Text) :
    (word.foldlM d.record (visited, s)).map Prod.fst = (d.trace s word).map (visited ++ ·) := by
  induction word generalizing visited s with
  | nil =>
      rw [trace, Option.map_some, List.append_nil]
      rfl
  | cons c word ih =>
      rw [List.foldlM_cons, trace_cons, record]
      cases d.next? s c with
      | none => rfl
      | some q =>
          rw [Option.map_some, Option.bind_eq_bind, Option.bind_some, Option.bind_some, ih,
            Option.map_map]
          refine congrArg (Option.map · _) (funext fun rest => ?_)
          exact List.append_assoc visited [q] rest

theorem accepts_eq_foldlM (d : Dfa) (word : Text) :
    d.accepts word = d.initialState.map fun s => (word.foldlM d.next? s).any d.isFinal := by
  cases h : d.initial with
  | none =>
      rw [Automaton.accepts_of_initial_eq_none h, Automaton.initialState, h]
      rfl
  | some s =>
      rw [accepts_of_initial h, Automaton.initialState, h]
      exact congrArg (fun r : Option State => Except.ok (r.any d.isFinal)) (foldlM_next? s word).symm

theorem stateSequence_eq_foldlM (d : Dfa) (word : Text) :
    d.stateSequence word =
      d.initialState.map fun s => (word.foldlM d.record ([s], s)).map Prod.fst := by
  cases h : d.initial with
  | none =>
      rw [stateSequence, Automaton.initialState, h]
      rfl
  | some s =>
      rw [stateSequence_of_initial h, Automaton.initialState, h]
      exact congrArg Except.ok (foldlM_record [s] s word).symm

/-! ### Where a run stops -/

theorem destination_append (s : State) (u v : Text) :
    d.destination s (u ++ v) = (d.destination s u).bind (d.destination · v) := by
  rw [← foldlM_next?, List.foldlM_append, foldlM_next?]
  exact Option.bind_congr fun q _ => foldlM_next? q v

/-- A run stops at the first character for which the state reached has no move. -/
theorem destination_eq_none_iff {s : State} {word : Text} :
    d.destination s word = none ↔
      ∃ u c p, u ++ [c] <+: word ∧ d.destination s u = some p ∧ d.next? p c = none := by
  refine ⟨?_, ?_⟩
  · intro h
    induction word generalizing s with
    | nil => cases h
    | cons c word ih =>
        cases hNext : d.next? s c with
        | none => exact ⟨[], c, s, ⟨word, rfl⟩, rfl, hNext⟩
        | some q =>
            rw [destination_cons, hNext, Option.bind_some] at h
            obtain ⟨u, x, p, hu, hp, hStop⟩ := ih h
            refine ⟨c :: u, x, p, List.cons_prefix_cons.mpr ⟨rfl, hu⟩, ?_, hStop⟩
            rw [destination_cons, hNext, Option.bind_some, hp]
  · rintro ⟨u, c, p, ⟨v, rfl⟩, hp, hStop⟩
    rw [List.append_assoc, destination_append, hp, Option.bind_some, List.singleton_append,
      destination_cons, hStop, Option.bind_none]

/-! ### The sequence as a run -/

theorem checkNext_eq_ok_iff {p : State} {c : Char} {r : Option State} :
    d.checkNext p c = .ok r ↔ p < d.stateCount ∧ d.next? p c = r := by
  rw [checkNext, Automaton.checkState_bind_ok_iff]
  exact and_congr_right fun _ => ⟨Except.ok.inj, congrArg Except.ok⟩

/-- A trace is what the moves on the characters of the word lead to, one after the other. -/
theorem trace_eq_some_iff {s : State} {word : Text} {rest : List State} :
    d.trace s word = some rest ↔ rest.length = word.length ∧ ∀ i c, word[i]? = some c →
      ∃ p q, (s :: rest)[i]? = some p ∧ (s :: rest)[i + 1]? = some q ∧ d.next? p c = some q := by
  induction word generalizing s rest with
  | nil =>
      rw [trace, Option.some.injEq, List.length_nil, List.length_eq_zero_iff]
      refine ⟨fun h => ⟨h.symm, fun i c hc => ?_⟩, fun h => h.1.symm⟩
      cases hc
  | cons c word ih =>
      rw [trace_cons, Option.bind_eq_some_iff]
      refine ⟨?_, ?_⟩
      · rintro ⟨q, hNext, hRest⟩
        obtain ⟨rest, hTrace, rfl⟩ := Option.map_eq_some_iff.mp hRest
        obtain ⟨hLength, hMoves⟩ := ih.mp hTrace
        refine ⟨congrArg Nat.succ hLength, fun i x hx => ?_⟩
        cases i with
        | zero =>
            obtain rfl := Option.some.inj hx
            exact ⟨s, q, rfl, rfl, hNext⟩
        | succ i => exact hMoves i x hx
      · rintro ⟨hLength, hMoves⟩
        cases rest with
        | nil => cases hLength
        | cons q rest =>
            obtain ⟨p, r, hp, hr, hNext⟩ := hMoves 0 c rfl
            obtain rfl := Option.some.inj hp
            obtain rfl := Option.some.inj hr
            refine ⟨q, hNext, Option.map_eq_some_iff.mpr ⟨rest, ?_, rfl⟩⟩
            exact ih.mpr ⟨Nat.succ.inj hLength, fun i x hx => hMoves (i + 1) x hx⟩

/-- **A run does not leave the states of the automaton.** -/
theorem lt_of_mem_trace (h : d.WellFormed) {s q : State} (hs : s < d.stateCount) {word : Text}
    {rest : List State} (hTrace : d.trace s word = some rest) (hq : q ∈ s :: rest) :
    q < d.stateCount := by
  obtain ⟨hLength, hMoves⟩ := trace_eq_some_iff.mp hTrace
  obtain ⟨i, hi⟩ := List.mem_iff_getElem?.mp hq
  cases i with
  | zero => exact Option.some.inj hi ▸ hs
  | succ i =>
      -- the state is the target of the move on the character before it
      have hLt : i < word.length :=
        hLength ▸ Nat.lt_of_succ_lt_succ (List.getElem?_eq_some_iff.mp hi).1
      obtain ⟨p, r, _, hr, hNext⟩ := hMoves i word[i] (List.getElem?_eq_getElem hLt)
      obtain rfl := Option.some.inj (hr.symm.trans hi)
      exact h.target _ (mem_transitions_iff.mpr hNext)

/-- The states are those that the word visits: the initial state, and for each character the state
that the state before it moves to. -/
structure Visits (d : Dfa) (word : Text) (states : List State) : Prop where
  length : states.length = word.length + 1
  head : states.head? = d.initial
  next : ∀ i c, word[i]? = some c → ∃ p q,
    states[i]? = some p ∧ states[i + 1]? = some q ∧ d.checkNext p c = .ok (some q)
  known : ∀ s ∈ states, s < d.stateCount

theorem Visits.of_prefix {word u : Text} {states : List State} (h : d.Visits word states)
    (hu : u <+: word) : d.Visits u (states.take (u.length + 1)) := by
  obtain ⟨v, rfl⟩ := hu
  have hLe : u.length + 1 ≤ states.length := by
    rw [h.length]
    exact Nat.succ_le_succ (List.prefix_append u v).length_le
  refine ⟨?_, ?_, fun i c hc => ?_, fun s hs => h.known s (List.mem_of_mem_take hs)⟩
  · exact List.length_take_of_le hLe
  · rw [List.head?_take, if_neg (Nat.succ_ne_zero _), h.head]
  · have hi : i < u.length := (List.getElem?_eq_some_iff.mp hc).1
    obtain ⟨p, q, hp, hq, hNext⟩ := h.next i c ((List.getElem?_append_left hi).trans hc)
    refine ⟨p, q, ?_, ?_, hNext⟩
    · rw [List.getElem?_take_of_lt (Nat.lt_succ_of_lt hi), hp]
    · rw [List.getElem?_take_of_lt (Nat.succ_lt_succ hi), hq]

/-- **What is recorded is the run**, and no other sequence is one. -/
theorem stateSequence_eq_some_iff (h : d.WellFormed) {s : State} (hInitial : d.initial = some s)
    {word : Text} {states : List State} :
    d.stateSequence word = .ok (some states) ↔ d.Visits word states := by
  rw [stateSequence_of_initial hInitial, Except.ok.injEq, Option.map_eq_some_iff]
  refine ⟨?_, fun hVisits => ?_⟩
  · rintro ⟨rest, hTrace, rfl⟩
    obtain ⟨hLength, hMoves⟩ := trace_eq_some_iff.mp hTrace
    have hKnown : ∀ q ∈ s :: rest, q < d.stateCount :=
      fun q => lt_of_mem_trace h (h.initial s hInitial) hTrace
    refine ⟨congrArg Nat.succ hLength, hInitial.symm, fun i c hc => ?_, fun q hq => ?_⟩
    · obtain ⟨p, q, hp, hq, hNext⟩ := hMoves i c hc
      have hLt := hKnown p (List.mem_of_getElem? hp)
      exact ⟨p, q, hp, hq, checkNext_eq_ok_iff.mpr ⟨hLt, hNext⟩⟩
    · exact hKnown q hq
  · cases states with
    | nil => cases hVisits.length
    | cons s' rest =>
        obtain rfl : s' = s := Option.some.inj (hVisits.head.trans hInitial)
        refine ⟨rest, trace_eq_some_iff.mpr ⟨Nat.succ.inj hVisits.length, fun i c hc => ?_⟩, rfl⟩
        obtain ⟨p, q, hp, hq, hNext⟩ := hVisits.next i c hc
        exact ⟨p, q, hp, hq, (checkNext_eq_ok_iff.mp hNext).2⟩

/-- **The sequence breaks off at the first character for which the state reached has no move.** -/
theorem stateSequence_eq_none_iff_exists (h : d.WellFormed) {s : State}
    (hInitial : d.initial = some s) {word : Text} :
    d.stateSequence word = .ok none ↔ ∃ u c states p, u ++ [c] <+: word ∧
      d.stateSequence u = .ok (some states) ∧ states.getLast? = some p ∧
      d.checkNext p c = .ok none := by
  rw [stateSequence_eq_none_iff hInitial, destination_eq_none_iff]
  refine ⟨?_, ?_⟩
  · rintro ⟨u, c, p, hu, hp, hStop⟩
    obtain ⟨states, hStates, hLast⟩ := (exists_stateSequence_iff hInitial).mpr hp
    have hVisits := (stateSequence_eq_some_iff h hInitial).mp hStates
    have hLt := hVisits.known p (List.mem_of_getLast? hLast)
    exact ⟨u, c, states, p, hu, hStates, hLast, checkNext_eq_ok_iff.mpr ⟨hLt, hStop⟩⟩
  · rintro ⟨u, c, states, p, hu, hStates, hLast, hStop⟩
    exact ⟨u, c, p, hu, (exists_stateSequence_iff hInitial).mp ⟨states, hStates, hLast⟩,
      (checkNext_eq_ok_iff.mp hStop).2⟩

/-! ### Verdict and sequence -/

theorem accepts_iff_getLast?_stateSequence {s : State} (hInitial : d.initial = some s)
    {word : Text} :
    d.accepts word = .ok true ↔ ∃ states f,
      d.stateSequence word = .ok (some states) ∧ states.getLast? = some f ∧ f ∈ d.finals := by
  rw [accepts_of_initial hInitial, Except.ok.injEq, Option.any_eq_true]
  refine ⟨?_, ?_⟩
  · rintro ⟨f, hDest, hf⟩
    obtain ⟨states, hStates, hLast⟩ := (exists_stateSequence_iff hInitial).mpr hDest
    exact ⟨states, f, hStates, hLast, of_decide_eq_true hf⟩
  · rintro ⟨states, f, hStates, hLast, hf⟩
    exact ⟨f, (exists_stateSequence_iff hInitial).mp ⟨states, hStates, hLast⟩, decide_eq_true hf⟩

/-- A word on which the run breaks off is the beginning of no accepted word. -/
theorem accepts_of_stateSequence_eq_none {s : State} (hInitial : d.initial = some s)
    {word v : Text} (hNone : d.stateSequence word = .ok none) (hv : word <+: v) :
    d.accepts v = .ok false := by
  obtain ⟨rest, rfl⟩ := hv
  rw [accepts_of_initial hInitial, destination_append,
    (stateSequence_eq_none_iff hInitial).mp hNone]
  rfl

/-- **The states visited and the verdict agree.** Without an initial state there is neither. With
one there are both: the word is accepted if the sequence is there and ends in a final state; the
sequence is the run and has the sequences of the beginnings of the word as its beginnings; and where
it breaks off, a state reached has no move, so no word that begins alike is accepted. -/
theorem stateSequence_accepts (h : Obtainable d) (word : Text) :
    (d.initial = none →
      d.accepts word = .error .noInitial ∧ d.stateSequence word = .error .noInitial) ∧
    ∀ s, d.initial = some s →
      (∃ verdict, d.accepts word = .ok verdict) ∧
      (∃ result, d.stateSequence word = .ok result) ∧
      (d.accepts word = .ok true ↔ ∃ states f,
        d.stateSequence word = .ok (some states) ∧ states.getLast? = some f ∧ f ∈ d.finals) ∧
      (∀ states, d.stateSequence word = .ok (some states) ↔ d.Visits word states) ∧
      (∀ states, d.stateSequence word = .ok (some states) → ∀ u, u <+: word →
        d.stateSequence u = .ok (some (states.take (u.length + 1)))) ∧
      (d.stateSequence word = .ok none ↔ ∃ u c states p, u ++ [c] <+: word ∧
        d.stateSequence u = .ok (some states) ∧ states.getLast? = some p ∧
        d.checkNext p c = .ok none) ∧
      (d.stateSequence word = .ok none → ∀ v, word <+: v → d.accepts v = .ok false) := by
  have hWell := h.wellFormed.1
  refine ⟨fun hInitial => ⟨?_, ?_⟩, fun s hInitial => ⟨?_, ?_, ?_, ?_, ?_, ?_, ?_⟩⟩
  · exact Automaton.accepts_of_initial_eq_none hInitial word
  · rw [stateSequence_eq_foldlM, Automaton.initialState, hInitial]
    rfl
  · exact Automaton.exists_accepts_of_initial hInitial word
  · exact ⟨_, stateSequence_of_initial hInitial word⟩
  · exact accepts_iff_getLast?_stateSequence hInitial
  · exact fun states => stateSequence_eq_some_iff hWell hInitial
  · intro states hStates u hu
    have hVisits := (stateSequence_eq_some_iff hWell hInitial).mp hStates
    exact (stateSequence_eq_some_iff hWell hInitial).mpr (hVisits.of_prefix hu)
  · exact stateSequence_eq_none_iff_exists hWell hInitial
  · exact fun hNone v => accepts_of_stateSequence_eq_none hInitial hNone

/-- Accepts `ab` and nothing else; its last state is visited by no word. -/
def onlyAB : Dfa :=
  Edit.attemptAll (.withStates .dfa 4)
    [.markInitial 0, .markFinal 2, .addTransition 0 'a' 1, .addTransition 1 'b' 2]

/-- The word `ab` ends in the final state, and so no beginning of it breaks off; `aa` does, at its
second character. -/
theorem stateSequence_accepts_onlyAB :
    onlyAB.Visits "ab".toList [0, 1, 2] ∧ onlyAB.accepts "ab".toList = .ok true ∧
      onlyAB.stateSequence "a".toList = .ok (some [0, 1]) ∧
      onlyAB.stateSequence "aa".toList = .ok none ∧ onlyAB.accepts "aab".toList = .ok false := by
  have hObtainable : Obtainable onlyAB :=
    Obtainable.attemptAll (.withStates .dfa 4 (by decide)) (by decide)
  have hStates : onlyAB.stateSequence "ab".toList = .ok (some [0, 1, 2]) := rfl
  have hNone : onlyAB.stateSequence "aa".toList = .ok none := rfl
  obtain ⟨_, _, hVerdict, hVisits, hBeginning, _⟩ :=
    (stateSequence_accepts hObtainable "ab".toList).2 0 rfl
  obtain ⟨_, _, _, _, _, _, hRefused⟩ := (stateSequence_accepts hObtainable "aa".toList).2 0 rfl
  refine ⟨(hVisits _).mp hStates, hVerdict.mpr ⟨_, 2, hStates, rfl, by decide⟩, ?_, hNone, ?_⟩
  · exact hBeginning _ hStates "a".toList ⟨['b'], rfl⟩
  · exact hRefused hNone "aab".toList ⟨['b'], rfl⟩

end Automata.Dfa
