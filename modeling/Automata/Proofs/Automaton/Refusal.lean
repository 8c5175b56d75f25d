import Automata.Proofs.Automaton.InPlace

/-! # Refused edits

An edit is refused for a state that is not there, by an automaton that begins elsewhere, or by a
deterministic automaton that moves elsewhere, and the error says what stands in the way
(`apply_eq_error_iff`). What is refused leaves the automaton as it was. So of edits that are each
tried in their turn, those that fail might as well not be there: the others go through one after the
other and come to the same automaton (`refused_leave_nothing`).
-/

namespace Automata

namespace Automaton

variable {k : Kind} {a : Automaton k}

theorem checkState_bind_error_iff {s : State} {β : Type} {f : Unit → Except Error β} {e : Error} :
    (a.checkState s >>= f) = .error e ↔
      a.stateCount ≤ s ∧ .invalidState s a.stateCount = e ∨ s < a.stateCount ∧ f () = .error e := by
  rw [checkState]
  by_cases hLt : s < a.stateCount
  · rw [if_pos hLt]
    refine ⟨fun h => Or.inr ⟨hLt, h⟩, fun h => ?_⟩
    exact (h.resolve_left fun hBoth => Nat.not_le_of_lt hLt hBoth.1).2
  · rw [if_neg hLt]
    refine ⟨fun h => Or.inl ⟨Nat.le_of_not_lt hLt, Except.error.inj h⟩, fun h => ?_⟩
    exact congrArg Except.error (h.resolve_right fun hBoth => hLt hBoth.1).2

theorem markFinal_eq_error_iff {s : State} {e : Error} :
    a.markFinal s = .error e ↔ a.stateCount ≤ s ∧ .invalidState s a.stateCount = e := by
  rw [markFinal, checkState_bind_error_iff, or_iff_left]
  rintro ⟨_, h⟩
  cases h

theorem markInitial_eq_error_iff {s : State} {e : Error} :
    a.markInitial s = .error e ↔
      a.stateCount ≤ s ∧ .invalidState s a.stateCount = e ∨
      s < a.stateCount ∧
        ∃ current, a.initial = some current ∧ current ≠ s ∧ .initialAlreadySet current s = e := by
  rw [markInitial, checkState_bind_error_iff]
  refine or_congr_right (and_congr_right fun _ => ?_)
  cases hInitial : a.initial with
  | none => simp [Pure.pure, Except.pure]
  | some current =>
      by_cases hEq : current = s
      · simp [hEq, Pure.pure, Except.pure]
      · simp only [Option.some.injEq, exists_eq_left', ne_eq, hEq, not_false_eq_true,
          true_and]
        exact ⟨Except.error.inj, congrArg Except.error⟩

/-- **A transition is refused for its source, for its target, or by a deterministic automaton that
moves elsewhere.** -/
theorem connect_eq_error_iff {t : Transition} {e : Error} :
    a.connect t = .error e ↔
      a.stateCount ≤ t.source ∧ .invalidState t.source a.stateCount = e ∨
      t.source < a.stateCount ∧ (a.stateCount ≤ t.target ∧ .invalidState t.target a.stateCount = e ∨
        t.target < a.stateCount ∧ ∃ q, k = .dfa ∧ ⟨t.source, t.symbol, q⟩ ∈ a.transitions ∧
          q ≠ t.target ∧ .conflictingMove t.source t.symbol q t.target = e) := by
  rw [connect, checkState_bind_error_iff, checkState_bind_error_iff]
  refine or_congr_right (and_congr_right fun _ => or_congr_right (and_congr_right fun _ => ?_))
  cases k with
  | nfa =>
      refine ⟨fun h => ?_, ?_⟩
      · cases hHeld : a.target? t.source t.symbol with
        | none => simp only [hHeld] at h; cases h
        | some held => simp only [hHeld, Target.add] at h; cases h
      · rintro ⟨_, hKind, _⟩
        cases hKind
  | dfa =>
      simp only [true_and, Dfa.mem_transitions_iff]
      cases hHeld : a.target? t.source t.symbol with
      | none => simp [Pure.pure, Except.pure]
      | some held =>
          by_cases hSame : held = t.target
          · simp [Target.add, hSame, Pure.pure, Except.pure]
          · simp only [Target.add, Option.some.injEq, exists_eq_left', ne_eq, hSame,
              not_false_eq_true, true_and]
            exact ⟨Except.error.inj, congrArg Except.error⟩

end Automaton

namespace Edit

variable {k : Kind} {a b : Automaton k} {e : Edit k} {err : Error}

/-! ### Single edits -/

/-- Why an edit is refused, and the error that says so. -/
inductive Refused (a : Automaton k) : Edit k → Error → Prop
  /-- Of the states that the edit names, this is the first that is not there. -/
  | unknown {e : Edit k} {s : State} :
      e.named.find? (a.stateCount ≤ ·) = some s → Refused a e (.invalidState s a.stateCount)
  /-- The automaton begins in another state. -/
  | elsewhere {s current : State} :
      s < a.stateCount → a.initial = some current → current ≠ s →
        Refused a (.markInitial s) (.initialAlreadySet current s)
  /-- The automaton is deterministic and moves to another state. -/
  | taken {source target existing : State} {c : Char} :
      k = .dfa → source < a.stateCount → target < a.stateCount →
        ⟨source, .char c, existing⟩ ∈ a.transitions → existing ≠ target →
          Refused a (.addTransition source c target)
            (.conflictingMove source (.char c) existing target)

theorem find?_singleton {s t : State} :
    [s].find? (a.stateCount ≤ ·) = some t ↔ a.stateCount ≤ s ∧ s = t := by
  simp [List.find?_singleton]

/-- Of two states the second is reported if the first is there. -/
theorem find?_pair {s t u : State} :
    [s, t].find? (a.stateCount ≤ ·) = some u ↔
      a.stateCount ≤ s ∧ s = u ∨ s < a.stateCount ∧ a.stateCount ≤ t ∧ t = u := by
  by_cases hs : a.stateCount ≤ s
  · simp [hs, Nat.not_lt_of_le hs]
  · simp [hs, Nat.lt_of_not_le hs, List.find?_singleton]

/-- A transition is refused for the first of its ends that is not there, or for the move that is. -/
theorem connect_eq_error_iff_find? {t : Transition} :
    a.connect t = .error err ↔
      (∃ s, [t.source, t.target].find? (a.stateCount ≤ ·) = some s ∧
        .invalidState s a.stateCount = err) ∨
      t.source < a.stateCount ∧ t.target < a.stateCount ∧
        ∃ q, k = .dfa ∧ ⟨t.source, t.symbol, q⟩ ∈ a.transitions ∧ q ≠ t.target ∧
          .conflictingMove t.source t.symbol q t.target = err := by
  rw [Automaton.connect_eq_error_iff]
  simp only [find?_pair]
  refine ⟨?_, ?_⟩
  · rintro (⟨hSource, rfl⟩ | ⟨hSource, ⟨hTarget, rfl⟩ | hTaken⟩)
    · exact Or.inl ⟨_, Or.inl ⟨hSource, rfl⟩, rfl⟩
    · exact Or.inl ⟨_, Or.inr ⟨hSource, hTarget, rfl⟩, rfl⟩
    · exact Or.inr ⟨hSource, hTaken⟩
  · rintro (⟨s, ⟨hSource, rfl⟩ | ⟨hSource, hTarget, rfl⟩, hErr⟩ | ⟨hSource, hTaken⟩)
    · exact Or.inl ⟨hSource, hErr⟩
    · exact Or.inr ⟨hSource, Or.inl ⟨hTarget, hErr⟩⟩
    · exact Or.inr ⟨hSource, Or.inr hTaken⟩

/-- **An edit fails for the reasons given, with the error given, and for no other.** -/
theorem apply_eq_error_iff : e.apply a = .error err ↔ Refused a e err := by
  cases e with
  | addState =>
      refine ⟨fun h => ?_, fun h => ?_⟩
      · cases h
      · cases h with
        | unknown hFind => cases hFind
  | requireStates n =>
      refine ⟨fun h => ?_, fun h => ?_⟩
      · cases h
      · cases h with
        | unknown hFind => cases hFind
  | markInitial s =>
      rw [apply, Automaton.markInitial_eq_error_iff]
      refine ⟨?_, fun h => ?_⟩
      · rintro (⟨hState, rfl⟩ | ⟨hState, current, hInitial, hNe, rfl⟩)
        · exact .unknown (find?_singleton.mpr ⟨hState, rfl⟩)
        · exact .elsewhere hState hInitial hNe
      · cases h with
        | unknown hFind =>
            obtain ⟨hState, rfl⟩ := find?_singleton.mp hFind
            exact Or.inl ⟨hState, rfl⟩
        | elsewhere hState hInitial hNe => exact Or.inr ⟨hState, _, hInitial, hNe, rfl⟩
  | markFinal s =>
      rw [apply, Automaton.markFinal_eq_error_iff]
      refine ⟨?_, fun h => ?_⟩
      · rintro ⟨hState, rfl⟩
        exact .unknown (find?_singleton.mpr ⟨hState, rfl⟩)
      · cases h with
        | unknown hFind =>
            obtain ⟨hState, rfl⟩ := find?_singleton.mp hFind
            exact ⟨hState, rfl⟩
  | addTransition source c target =>
      rw [apply, Automaton.addTransition, connect_eq_error_iff_find?]
      refine ⟨?_, fun h => ?_⟩
      · rintro (⟨s, hFind, rfl⟩ | ⟨hSource, hTarget, q, hKind, hMem, hNe, rfl⟩)
        · exact .unknown hFind
        · exact .taken hKind hSource hTarget hMem hNe
      · cases h with
        | unknown hFind => exact Or.inl ⟨_, hFind, rfl⟩
        | taken hKind hSource hTarget hMem hNe =>
            exact Or.inr ⟨hSource, hTarget, _, hKind, hMem, hNe, rfl⟩
  | addEpsilon source target =>
      rw [apply, Nfa.addEpsilon, connect_eq_error_iff_find?]
      refine ⟨?_, fun h => ?_⟩
      · rintro (⟨s, hFind, rfl⟩ | ⟨_, _, _, hKind, _⟩)
        · exact .unknown hFind
        · cases hKind
      · cases h with
        | unknown hFind => exact Or.inl ⟨_, hFind, rfl⟩

theorem run_perform_eq_error_iff :
    e.perform.run a = .error err b ↔ Refused a e err ∧ b = a := by
  rw [← apply_eq_error_iff, run_perform]
  cases e.apply a with
  | ok c => simp [InPlace.ending]
  | error err' => simp [InPlace.ending, eq_comm]

/-! ### Edits one after the other -/

theorem run_performAll_cons (a : Automaton k) (e : Edit k) (edits : List (Edit k)) :
    (performAll (e :: edits)).run a =
      match e.apply a with
      | .ok b => (performAll edits).run b
      | .error err => .error err a := by
  have hStep : performAll (e :: edits) = e.perform >>= fun _ => performAll edits := rfl
  rw [hStep, EStateM.run_bind, run_perform]
  cases e.apply a with
  | ok b => rfl
  | error err => rfl

theorem left_of_apply_ok (h : e.apply a = .ok b) : e.left a = b := by
  rw [left_eq_attempt, attempt, h]

theorem left_of_apply_error (h : e.apply a = .error err) : e.left a = a := by
  rw [left_eq_attempt, attempt, h]

theorem passed_cons_of_ok {edits : List (Edit k)} (h : e.apply a = .ok b) :
    passed a (e :: edits) = e :: passed b edits := by
  have hRun := run_perform a e
  rw [h] at hRun
  rw [passed, hRun]
  rfl

theorem passed_cons_of_error {edits : List (Edit k)} (h : e.apply a = .error err) :
    passed a (e :: edits) = passed a edits := by
  have hRun := run_perform a e
  rw [h] at hRun
  rw [passed, hRun]
  rfl

/-- The edits that go through in their turn go through one after the other when the rest is left
out, and come to the same automaton. -/
theorem run_performAll_passed (a : Automaton k) (edits : List (Edit k)) :
    (performAll (passed a edits)).run a = .ok () (leftAll a edits) := by
  induction edits generalizing a with
  | nil => rfl
  | cons e edits ih =>
      rw [leftAll, List.foldl_cons, ← leftAll]
      cases hApply : e.apply a with
      | ok b =>
          rw [left_of_apply_ok hApply, passed_cons_of_ok hApply, run_performAll_cons, hApply]
          exact ih b
      | error err =>
          rw [left_of_apply_error hApply, passed_cons_of_error hApply]
          exact ih a

/-- **What is refused leaves nothing behind.** Of edits that are each tried in their turn, those
that go through come to the same automaton without the others. An edit is refused exactly for a
state that is not there, for another initial state or for another target of a deterministic
automaton, with the error that names it, and leaves the automaton as it was. -/
theorem refused_leave_nothing (a : Automaton k) (edits : List (Edit k)) :
    (performAll (passed a edits)).run a = .ok () (leftAll a edits) ∧
    ∀ (c d : Automaton k) (e : Edit k) (err : Error),
      e.perform.run c = .error err d ↔ Refused c e err ∧ d = c :=
  ⟨run_performAll_passed a edits, fun _ _ _ _ => run_perform_eq_error_iff⟩

end Edit

end Automata
