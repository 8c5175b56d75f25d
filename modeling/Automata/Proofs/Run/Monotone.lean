import Automata.Proofs.Automaton.Growth
import Automata.Proofs.Run.Acceptance
import Automata.Proofs.Run.Trace

/-! # Acceptance grows with the automaton

A run does not end because there are more transitions and more final states: a nondeterministic
automaton still has the path that spells the word, and a deterministic one moves as before, since a
move that is there cannot be replaced. So whatever is accepted stays accepted while an automaton is
edited, and calls for more states and calls that fail do not touch acceptance at all
(`accepts_leftAll`).
-/

namespace Automata

namespace Dfa

theorem destination_mono {d e : Dfa} (hSub : ∀ t ∈ d.transitions, t ∈ e.transitions) {s q : State}
    {word : Text} (h : d.destination s word = some q) : e.destination s word = some q := by
  induction word generalizing s with
  | nil => exact h
  | cons c word ih =>
      rw [destination_cons, Option.bind_eq_some_iff] at h
      obtain ⟨r, hNext, hRest⟩ := h
      have hNext' : e.next? s c = some r :=
        mem_transitions_iff.mp (hSub _ (mem_transitions_iff.mpr hNext))
      rw [destination_cons, hNext', Option.bind_some, ih hRest]

end Dfa

namespace Automaton

variable {k : Kind} {a b : Automaton k}

theorem accepts_of_initial_eq_none (h : a.initial = none) (word : Text) :
    a.accepts word = .error .noInitial := by
  cases k with
  | nfa => exact Nfa.accepts_of_not_initial h word
  | dfa =>
      rw [accepts, initialState, h]
      rfl

theorem exists_accepts_of_initial {s : State} (h : a.initial = some s) (word : Text) :
    ∃ r, a.accepts word = .ok r := by
  cases k with
  | nfa => exact ⟨_, Nfa.accepts_of_initial h word⟩
  | dfa => exact ⟨_, Dfa.accepts_of_initial h word⟩

/-- **More final states and more transitions accept more words.** -/
theorem accepts_mono {s : State} (hInitial : a.initial = some s) (hInitial' : b.initial = some s)
    (hFinals : ∀ f ∈ a.finals, f ∈ b.finals) (hSub : ∀ t ∈ a.transitions, t ∈ b.transitions)
    {word : Text} (h : a.accepts word = .ok true) : b.accepts word = .ok true := by
  cases k with
  | nfa =>
      rw [Nfa.accepts_of_initial hInitial, Except.ok.injEq, Nfa.anyFinal_run_iff] at h
      obtain ⟨f, hf, hSpells⟩ := h
      rw [Nfa.accepts_of_initial hInitial', Except.ok.injEq, Nfa.anyFinal_run_iff]
      exact ⟨f, hFinals f hf, hSpells.mono hSub⟩
  | dfa =>
      rw [Dfa.accepts_of_initial hInitial, Except.ok.injEq, Option.any_eq_true] at h
      obtain ⟨f, hDest, hf⟩ := h
      have hFinal : b.isFinal f = true := decide_eq_true (hFinals f (of_decide_eq_true hf))
      rw [Dfa.accepts_of_initial hInitial', Dfa.destination_mono hSub hDest, Option.any_some,
        hFinal]

theorem PartOf.accepts {s : State} (h : a.PartOf b) (hInitial : a.initial = some s) {word : Text}
    (hWord : a.accepts word = .ok true) : b.accepts word = .ok true :=
  accepts_mono hInitial (h.initial s hInitial) h.finals (fun _ => h.mem_transitions) hWord

theorem accepts_congr (hInitial : a.initial = b.initial)
    (hFinals : ∀ f, f ∈ a.finals ↔ f ∈ b.finals)
    (hTransitions : ∀ t, t ∈ a.transitions ↔ t ∈ b.transitions) (word : Text) :
    a.accepts word = b.accepts word := by
  cases hStart : a.initial with
  | none =>
      rw [accepts_of_initial_eq_none hStart, accepts_of_initial_eq_none (hInitial ▸ hStart)]
  | some s =>
      have hStart' : b.initial = some s := hInitial ▸ hStart
      obtain ⟨r, hr⟩ := exists_accepts_of_initial hStart word
      obtain ⟨r', hr'⟩ := exists_accepts_of_initial hStart' word
      have hUp : a.accepts word = .ok true → b.accepts word = .ok true :=
        accepts_mono hStart hStart' (fun f => (hFinals f).mp) (fun t => (hTransitions t).mp)
      have hDown : b.accepts word = .ok true → a.accepts word = .ok true :=
        accepts_mono hStart' hStart (fun f => (hFinals f).mpr) (fun t => (hTransitions t).mpr)
      rw [hr, hr', Except.ok.injEq, Except.ok.injEq] at hUp hDown
      rw [hr, hr', Bool.eq_iff_iff.mpr ⟨hUp, hDown⟩]

theorem accepts_stateCount (a : Automaton k) (n : Nat) (word : Text) :
    accepts { a with stateCount := n } word = a.accepts word := by
  refine accepts_congr ?_ ?_ ?_ word
  · rfl
  · exact fun _ => Iff.rfl
  · exact fun _ => Iff.rfl

end Automaton

namespace Edit

variable {k : Kind} {a : Automaton k} {e : Edit k} {edits : List (Edit k)}

theorem accepts_of_addsStates {b : Automaton k} (hStates : e.addsStates = true)
    (h : e.apply a = .ok b) (word : Text) : b.accepts word = a.accepts word := by
  cases e with
  | addState =>
      obtain rfl := Except.ok.inj h
      exact a.accepts_stateCount (a.stateCount + 1) word
  | requireStates n =>
      obtain rfl := Except.ok.inj h
      exact a.accepts_stateCount (max a.stateCount n) word
  | markInitial s => cases hStates
  | markFinal s => cases hStates
  | addTransition source c target => cases hStates
  | addEpsilon source target => cases hStates

theorem accepts_leftAll_of_addsStates (h : ∀ e ∈ passed a edits, e.addsStates = true)
    (word : Text) : (leftAll a edits).accepts word = a.accepts word := by
  induction edits generalizing a with
  | nil => rfl
  | cons e edits ih =>
      rw [leftAll, List.foldl_cons, ← leftAll]
      cases hApply : e.apply a with
      | ok b =>
          rw [passed_cons_of_ok hApply, List.forall_mem_cons] at h
          rw [left_of_apply_ok hApply, ih h.2, accepts_of_addsStates h.1 hApply]
      | error err =>
          rw [passed_cons_of_error hApply] at h
          rw [left_of_apply_error hApply, ih h]

/-- **Nothing that is accepted is lost by editing**, whichever edits are tried in whatever order and
whether they go through or fail. The initial state stays, and so do the states, the final states and
the transitions. If nothing but calls for states goes through, what is accepted is the same. -/
theorem accepts_leftAll {s : State} (hInitial : a.initial = some s) (edits : List (Edit k)) :
    (∀ word, a.accepts word = .ok true → (leftAll a edits).accepts word = .ok true) ∧
    (leftAll a edits).initial = some s ∧
    a.stateCount ≤ (leftAll a edits).stateCount ∧
    (∀ f ∈ a.finals, f ∈ (leftAll a edits).finals) ∧
    (∀ t ∈ a.transitions, t ∈ (leftAll a edits).transitions) ∧
    ((∀ e ∈ passed a edits, e.addsStates = true) →
      ∀ word, (leftAll a edits).accepts word = a.accepts word) := by
  have hPart := partOf_leftAll a edits
  refine ⟨fun word => hPart.accepts hInitial, hPart.initial s hInitial, hPart.stateCount,
    hPart.finals, fun t => hPart.mem_transitions, fun hStates => ?_⟩
  exact accepts_leftAll_of_addsStates hStates

/-- Accepts `a` and nothing else. -/
def onlyA : Dfa :=
  leftAll (.withStates .dfa 2) [.markInitial 0, .markFinal 1, .addTransition 0 'a' 1]

/-- Some of these edits are refused: a second move on `a`, a second initial state, a state that is
not there yet. -/
def extension : List (Edit .dfa) :=
  [.addTransition 0 'a' 0, .markFinal 2, .addState, .markInitial 1, .addTransition 1 'b' 2,
    .markFinal 2]

/-- Of these edits only the calls for states go through. -/
def fruitless : List (Edit .dfa) :=
  [.addTransition 0 'a' 0, .requireStates 4, .markInitial 3, .addState, .markFinal 5]

theorem accepts_leftAll_onlyA :
    onlyA.initial = some 0 ∧ (leftAll onlyA extension).accepts "a".toList = .ok true ∧
      (leftAll onlyA extension).initial = some 0 ∧
      ∀ word, (leftAll onlyA fruitless).accepts word = onlyA.accepts word := by
  have hInitial : onlyA.initial = some 0 := rfl
  obtain ⟨hAccepts, hStart, _⟩ := accepts_leftAll hInitial extension
  obtain ⟨_, _, _, _, _, hSame⟩ := accepts_leftAll hInitial fruitless
  exact ⟨hInitial, hAccepts _ rfl, hStart, hSame (by decide)⟩

end Edit

end Automata
