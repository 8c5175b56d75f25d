import Automata.Automaton.Edit
import Automata.Proofs.Automaton.Transitions

/-! # What edits change

An edit that goes through does one thing and leaves the rest as it was: the lemmas `markInitial_ok`,
`markFinal_ok` and `connect_ok` say all that it can do, guards included. A transition is refused
only for a state that does not exist, or by a deterministic automaton that moves elsewhere on the
symbol (`exists_connect`).
-/

namespace Automata

theorem bind_eq_ok_iff {ε α β : Type} {x : Except ε α} {f : α → Except ε β} {b : β} :
    (x >>= f) = .ok b ↔ ∃ a, x = .ok a ∧ f a = .ok b := by
  cases x with
  | error e =>
      refine ⟨?_, ?_⟩
      · intro h
        cases h
      · intro hExists
        rcases hExists with ⟨a, h, _⟩
        cases h
  | ok a =>
      refine ⟨fun h => ⟨a, rfl, h⟩, ?_⟩
      intro hExists
      rcases hExists with ⟨c, hEq, h⟩
      rw [Except.ok.inj hEq]
      exact h

/-! ### Targets -/

namespace Target

variable {k : Kind}

theorem mem_add {held grown : k.Target} {s q : State} (h : add held s = .ok grown) :
    q ∈ toList grown ↔ q = s ∨ q ∈ toList held := by
  cases k with
  | nfa =>
      obtain rfl := Except.ok.inj h
      exact OrderedSet.mem_insert
  | dfa =>
      rw [add] at h
      split at h
      · next hEq =>
          obtain rfl := Except.ok.inj h
          show q ∈ [held] ↔ q = s ∨ q ∈ [held]
          rw [List.mem_singleton, ← hEq, or_self]
      · cases h

/-- A state can be added unless a different one is held and only one can be. -/
theorem exists_add {held : k.Target} {s : State} (h : k = .dfa → ∀ q ∈ toList held, q = s) :
    ∃ grown, add held s = .ok grown := by
  cases k with
  | nfa => exact ⟨_, rfl⟩
  | dfa =>
      have hEq : held = s := h rfl held (List.mem_singleton.mpr rfl)
      exact ⟨held, if_pos hEq⟩

end Target

namespace Automaton

variable {k : Kind} {a b : Automaton k}

/-! ### Changing a row -/

theorem target?_setTarget {s p : State} {x y : Symbol} {t : k.Target} :
    (a.setTarget s x t).target? p y = if p = s ∧ y = x then some t else a.target? p y := by
  rw [target?, row, setTarget]
  by_cases hState : p = s
  · subst hState
    rw [Table.get?_insert_self, Option.getD_some]
    by_cases hSymbol : y = x
    · subst hSymbol
      rw [Table.get?_insert_self, if_pos ⟨rfl, rfl⟩]
    · rw [Table.get?_insert_of_ne (Ne.symm hSymbol), if_neg (fun h => hSymbol h.2), target?]
  · rw [Table.get?_insert_of_ne (Ne.symm hState), if_neg (fun h => hState h.1), target?, row]

theorem mem_transitions_setTarget {s : State} {x : Symbol} {t : k.Target} {u : Transition} :
    u ∈ (a.setTarget s x t).transitions ↔
      if u.source = s ∧ u.symbol = x then u.target ∈ Target.toList t else u ∈ a.transitions := by
  rw [mem_transitions, targets, target?_setTarget]
  by_cases hKey : u.source = s ∧ u.symbol = x
  · rw [if_pos hKey, if_pos hKey]
  · rw [if_neg hKey, if_neg hKey]
    exact mem_transitions.symm

/-! ### Checks -/

theorem checkState_eq_ok_iff {s : State} : a.checkState s = .ok () ↔ s < a.stateCount := by
  rw [checkState]
  by_cases hLt : s < a.stateCount
  · rw [if_pos hLt]
    exact ⟨fun _ => hLt, fun _ => rfl⟩
  · rw [if_neg hLt]
    refine ⟨fun h => ?_, fun h => absurd h hLt⟩
    cases h

theorem checkState_bind_ok_iff {s : State} {β : Type} {f : Unit → Except Error β} {r : β} :
    (a.checkState s >>= f) = .ok r ↔ s < a.stateCount ∧ f () = .ok r := by
  rw [bind_eq_ok_iff]
  refine ⟨?_, ?_⟩
  · intro h
    rcases h with ⟨⟨⟩, hCheck, h⟩
    exact ⟨checkState_eq_ok_iff.mp hCheck, h⟩
  · intro h
    rcases h with ⟨hLt, h⟩
    exact ⟨(), checkState_eq_ok_iff.mpr hLt, h⟩

/-! ### Marks -/

theorem markFinal_ok {s : State} :
    a.markFinal s = .ok b ↔ s < a.stateCount ∧ { a with finals := a.finals.insert s } = b := by
  rw [markFinal, checkState_bind_ok_iff]
  exact and_congr_right fun _ => ⟨Except.ok.inj, congrArg Except.ok⟩

theorem markInitial_ok {s : State} :
    a.markInitial s = .ok b ↔
      s < a.stateCount ∧ (∀ t, a.initial = some t → t = s) ∧ { a with initial := some s } = b := by
  rw [markInitial, checkState_bind_ok_iff]
  refine and_congr_right fun _ => ?_
  cases hInitial : a.initial with
  | none =>
      refine ⟨fun h => ⟨fun t ht => ?_, Except.ok.inj h⟩, fun h => congrArg Except.ok h.2⟩
      cases ht
  | some current =>
      have hSame : current = s → { a with initial := some s } = a := by
        rintro rfl
        rw [← hInitial]
      by_cases hEq : current = s
      · simp only [if_pos hEq, hSame hEq]
        refine ⟨fun h => ⟨fun t ht => ?_, Except.ok.inj h⟩, fun h => congrArg Except.ok h.2⟩
        rw [← Option.some.inj ht, hEq]
      · simp only [if_neg hEq]
        refine ⟨fun h => ?_, fun h => absurd (h.1 current rfl) hEq⟩
        cases h

/-! ### Transitions -/

theorem mem_transitions_setTarget_grown {t u : Transition} {grown : k.Target}
    (hGrown : ∀ q, q ∈ Target.toList grown ↔ q = t.target ∨ q ∈ a.targets t.source t.symbol) :
    u ∈ (a.setTarget t.source t.symbol grown).transitions ↔ u = t ∨ u ∈ a.transitions := by
  obtain ⟨p, y, q⟩ := u
  obtain ⟨s, x, r⟩ := t
  rw [mem_transitions_setTarget, Transition.mk.injEq]
  by_cases hKey : p = s ∧ y = x
  · obtain ⟨rfl, rfl⟩ := hKey
    rw [if_pos ⟨rfl, rfl⟩, hGrown, mem_targets]
    simp only [true_and]
  · rw [if_neg hKey, or_iff_right fun hEq => hKey ⟨hEq.1, hEq.2.1⟩]

/-- An entered transition is written into the row of its source, next to the targets that were
there. -/
theorem exists_grown_of_connect {t : Transition} (h : a.connect t = .ok b) :
    t.source < a.stateCount ∧ t.target < a.stateCount ∧
      ∃ grown : k.Target, a.setTarget t.source t.symbol grown = b ∧
        ∀ q, q ∈ Target.toList grown ↔ q = t.target ∨ q ∈ a.targets t.source t.symbol := by
  rw [connect, checkState_bind_ok_iff, checkState_bind_ok_iff] at h
  obtain ⟨hSource, hTarget, h⟩ := h
  refine ⟨hSource, hTarget, ?_⟩
  cases hHeld : a.target? t.source t.symbol with
  | none =>
      rw [hHeld] at h
      refine ⟨_, Except.ok.inj h, fun q => ?_⟩
      rw [Target.toList_single, targets, hHeld, List.mem_singleton, or_iff_left List.not_mem_nil]
  | some held =>
      simp only [hHeld] at h
      cases hAdd : Target.add held t.target with
      | error existing =>
          rw [hAdd] at h
          cases h
      | ok grown =>
          rw [hAdd] at h
          refine ⟨grown, Except.ok.inj h, fun q => ?_⟩
          rw [Target.mem_add hAdd, targets_eq hHeld]

/-- **A transition that is entered joins those that were there, and nothing else changes.** -/
theorem connect_ok {t : Transition} (h : a.connect t = .ok b) :
    t.source < a.stateCount ∧ t.target < a.stateCount ∧
      b.stateCount = a.stateCount ∧ b.initial = a.initial ∧ b.finals = a.finals ∧
      ∀ u, u ∈ b.transitions ↔ u = t ∨ u ∈ a.transitions := by
  obtain ⟨hSource, hTarget, grown, rfl, hGrown⟩ := exists_grown_of_connect h
  exact ⟨hSource, hTarget, rfl, rfl, rfl, fun u => mem_transitions_setTarget_grown hGrown⟩

/-- A transition between states is entered unless a deterministic automaton moves elsewhere. -/
theorem exists_connect {t : Transition} (hSource : t.source < a.stateCount)
    (hTarget : t.target < a.stateCount)
    (hAgree : k = .dfa → ∀ q, ⟨t.source, t.symbol, q⟩ ∈ a.transitions → q = t.target) :
    ∃ b, a.connect t = .ok b := by
  simp only [connect, checkState_bind_ok_iff]
  cases hHeld : a.target? t.source t.symbol with
  | none => exact ⟨_, hSource, hTarget, rfl⟩
  | some held =>
      obtain ⟨grown, hGrown⟩ : ∃ grown, Target.add held t.target = .ok grown := by
        refine Target.exists_add fun hKind q hq => hAgree hKind q (mem_targets.mp ?_)
        exact mem_targets_iff.mpr ⟨held, hHeld, hq⟩
      simp only [hGrown]
      exact ⟨_, hSource, hTarget, rfl⟩

end Automaton

/-! ### Runs of edits -/

namespace Edit

variable {k : Kind} {a b : Automaton k}

theorem stateCount_le_of_apply {e : Edit k} (h : e.apply a = .ok b) :
    a.stateCount ≤ b.stateCount := by
  cases e with
  | addState =>
      obtain rfl := Except.ok.inj h
      exact Nat.le_succ _
  | requireStates n =>
      obtain rfl := Except.ok.inj h
      exact Nat.le_max_left _ _
  | markInitial s =>
      obtain ⟨_, _, rfl⟩ := Automaton.markInitial_ok.mp h
      exact Nat.le_refl _
  | markFinal s =>
      obtain ⟨_, rfl⟩ := Automaton.markFinal_ok.mp h
      exact Nat.le_refl _
  | addTransition source c target =>
      obtain ⟨_, _, hCount, _⟩ := Automaton.connect_ok h
      exact Nat.le_of_eq hCount.symm
  | addEpsilon source target =>
      obtain ⟨_, _, hCount, _⟩ := Automaton.connect_ok h
      exact Nat.le_of_eq hCount.symm

theorem stateCount_le_attempt (a : Automaton k) (e : Edit k) :
    a.stateCount ≤ (attempt a e).stateCount := by
  rw [attempt]
  split
  · next h => exact stateCount_le_of_apply h
  · exact Nat.le_refl _

theorem stateCount_le_attemptAll (a : Automaton k) (edits : List (Edit k)) :
    a.stateCount ≤ (attemptAll a edits).stateCount := by
  induction edits generalizing a with
  | nil => exact Nat.le_refl _
  | cons e edits ih => exact Nat.le_trans (stateCount_le_attempt a e) (ih (attempt a e))

end Edit

end Automata
