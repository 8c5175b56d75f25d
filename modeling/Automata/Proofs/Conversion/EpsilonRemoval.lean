import Automata.Proofs.Run.Acceptance

/-! # Removing empty moves keeps the language

`mem_transitions_withoutEpsilon` and `mem_finals_withoutEpsilon` say what the automaton without
empty moves consists of: a transition on a character stands for the character with empty moves on
both sides of it, and a state is final when empty moves lead from it to a final state. The initial
state is not closed. A path for a word in the new automaton therefore stops short of the old one by
empty moves at most, which is what finality makes up for (`exists_spells_withoutEpsilon`). When the
word has a character, the last transition takes these empty moves in, so that from every state the
same states are reached (`spells_withoutEpsilon_of_cons`).
-/

namespace Automata.Nfa

variable {n : Nfa}

/-! ### The new automaton -/

/-- A state from which empty moves lead to a state with a row has a row itself. -/
theorem mem_keys_of_emptyReach {s p : State} (h : n.EmptyReach s p) (hp : p ∈ n.rows.keys) :
    s ∈ n.rows.keys := by
  rcases Relation.ReflTransGen.cases_head h with rfl | ⟨q, hStep, _⟩
  · exact hp
  · exact Automaton.mem_keys_of_mem hStep

theorem mem_support_of_mem_keys {s : State} (h : s ∈ n.rows.keys) : s ∈ n.support :=
  OrderedSet.mem_union.mpr (Or.inr h)

theorem mem_support_of_emptyReach {s f : State} (h : n.EmptyReach s f) (hf : f ∈ n.finals) :
    s ∈ n.support := by
  rcases Relation.ReflTransGen.cases_head h with rfl | ⟨q, hStep, _⟩
  · exact OrderedSet.mem_union.mpr (Or.inl hf)
  · exact mem_support_of_mem_keys (Automaton.mem_keys_of_mem hStep)

theorem get?_rows_withoutEpsilon {s : State} {row : Row .nfa} :
    n.withoutEpsilon.rows.get? s = some row ↔
      s ∈ n.support ∧ n.closedRow n.characterSymbols (n.closure [s]) = row ∧
        row.isEmpty = false := by
  simp only [withoutEpsilon, Table.get?_tabulate_eq_some_iff,
    ite_none_some_eq_some_iff (p := fun row : Row .nfa => row.isEmpty = true), Bool.not_eq_true]

theorem get?_closedRow {symbols : OrderedSet Symbol} {active held : StateSet} {x : Symbol} :
    (n.closedRow symbols active).get? x = some held ↔
      ∃ c, x = .char c ∧ x ∈ symbols ∧ n.closedMove active c = held ∧ held ≠ ∅ := by
  rw [closedRow, Table.get?_tabulate_eq_some_iff]
  cases x with
  | epsilon => simp
  | char c =>
      simp only [ite_none_some_eq_some_iff (p := fun s : StateSet => s.isEmpty = true),
        Symbol.char.injEq, exists_eq_left']
      rw [OrderedSet.isEmpty_iff]

theorem char_mem_characterSymbols {c : Char} :
    Symbol.char c ∈ n.characterSymbols ↔ c ∈ n.alphabet := by
  rw [characterSymbols, OrderedSet.mem_ofList, List.mem_map]
  simp [OrderedSet.mem_def]

/-- **A transition of the new automaton is a transition on a character with empty moves before and
after it.** -/
theorem mem_transitions_withoutEpsilon {s t : State} {x : Symbol} :
    ⟨s, x, t⟩ ∈ n.withoutEpsilon.transitions ↔
      ∃ c p q, x = .char c ∧ n.EmptyReach s p ∧ ⟨p, .char c, q⟩ ∈ n.transitions ∧
        n.EmptyReach q t := by
  refine ⟨?_, ?_⟩
  · intro h
    obtain ⟨row, held, hRow, hHeld, ht⟩ := Automaton.exists_row_of_mem h
    obtain ⟨_, rfl, _⟩ := get?_rows_withoutEpsilon.mp hRow
    obtain ⟨c, rfl, _, rfl, _⟩ := get?_closedRow.mp hHeld
    obtain ⟨p, hp, q, hMove, hReach⟩ := mem_closedMove.mp (OrderedSet.mem_def.mpr ht)
    exact ⟨c, p, q, rfl, mem_closure_singleton.mp hp, hMove, hReach⟩
  · intro h
    rcases h with ⟨c, p, q, rfl, hBefore, hMove, hAfter⟩
    have ht : t ∈ n.closedMove (n.closure [s]) c :=
      mem_closedMove.mpr ⟨p, mem_closure_singleton.mpr hBefore, q, hMove, hAfter⟩
    have hNonempty : n.closedMove (n.closure [s]) c ≠ ∅ := fun hEmpty =>
      OrderedSet.not_mem_empty t (hEmpty ▸ ht)
    have hSymbol : Symbol.char c ∈ n.characterSymbols :=
      char_mem_characterSymbols.mpr (Automaton.mem_alphabet_of_mem hMove)
    have hHeld := get?_closedRow.mpr ⟨c, rfl, hSymbol, rfl, hNonempty⟩
    have hSupport : s ∈ n.support :=
      mem_support_of_mem_keys (mem_keys_of_emptyReach hBefore (Automaton.mem_keys_of_mem hMove))
    have hRow := get?_rows_withoutEpsilon.mpr
      ⟨hSupport, rfl, Table.isEmpty_eq_false_of_get? hHeld⟩
    have hTarget := Automaton.target?_eq_some_iff.mpr ⟨_, hRow, hHeld⟩
    exact Automaton.mem_transitions.mpr (Automaton.mem_targets_iff.mpr ⟨_, hTarget, ht⟩)

/-- **A state of the new automaton is final when empty moves lead from it to a final state.** -/
theorem mem_finals_withoutEpsilon {s : State} :
    s ∈ n.withoutEpsilon.finals ↔ ∃ f ∈ n.finals, n.EmptyReach s f := by
  rw [withoutEpsilon, OrderedSet.mem_filter, anyFinal_iff]
  refine ⟨?_, ?_⟩
  · intro h
    rcases h with ⟨_, f, hf, hFinal⟩
    exact ⟨f, hFinal, mem_closure_singleton.mp hf⟩
  · intro h
    rcases h with ⟨f, hFinal, hReach⟩
    exact ⟨mem_support_of_emptyReach hReach hFinal, f, mem_closure_singleton.mpr hReach, hFinal⟩

theorem hasEpsilon_withoutEpsilon (n : Nfa) : n.withoutEpsilon.hasEpsilon = false := by
  rw [Automaton.hasEpsilon_eq_false_iff]
  intro s row hRow
  obtain ⟨_, rfl, _⟩ := get?_rows_withoutEpsilon.mp hRow
  cases hHeld : (n.closedRow n.characterSymbols (n.closure [s])).get? .epsilon with
  | none => rfl
  | some held =>
      obtain ⟨c, hc, _⟩ := get?_closedRow.mp hHeld
      exact absurd hc (by simp)

/-! ### Simulation -/

theorem spells_of_withoutEpsilon {s t : State} {word : Text}
    (h : n.withoutEpsilon.Spells s word t) : n.Spells s word t := by
  induction word generalizing s with
  | nil =>
      rw [Automaton.spells_nil, Automaton.emptyReach_iff_eq (hasEpsilon_withoutEpsilon n)] at h
      rw [h]
      exact .refl t
  | cons c word ih =>
      rw [Automaton.spells_cons_of_not_hasEpsilon (hasEpsilon_withoutEpsilon n)] at h
      obtain ⟨r, hStep, hRest⟩ := h
      obtain ⟨d, p, q, hd, hBefore, hMove, hAfter⟩ := mem_transitions_withoutEpsilon.mp hStep
      obtain rfl := Symbol.char.inj hd
      exact hBefore.spells ((hAfter.spells (ih hRest)).char_step hMove)

/-- **A path of the old automaton is matched in the new one, up to empty moves at its end.** -/
theorem exists_spells_withoutEpsilon {s t : State} {word : Text} (h : n.Spells s word t) :
    ∃ q, n.withoutEpsilon.Spells s word q ∧ n.EmptyReach q t := by
  induction word generalizing s with
  | nil => exact ⟨s, .refl s, Automaton.spells_nil.mp h⟩
  | cons c word ih =>
      obtain ⟨p, r, hBefore, hMove, hRest⟩ := Automaton.spells_cons.mp h
      obtain ⟨q, hSpells, hReach⟩ := ih hRest
      have hStep : ⟨s, .char c, r⟩ ∈ n.withoutEpsilon.transitions :=
        mem_transitions_withoutEpsilon.mpr ⟨c, p, r, rfl, hBefore, hMove, .refl⟩
      exact ⟨q, hSpells.char_step hStep, hReach⟩

/-- From every state a word leads to a final state of the new automaton when it leads to one of the
old. -/
theorem exists_final_withoutEpsilon {s : State} {word : Text} :
    (∃ f ∈ n.withoutEpsilon.finals, n.withoutEpsilon.Spells s word f) ↔
      ∃ f ∈ n.finals, n.Spells s word f := by
  refine ⟨?_, ?_⟩
  · intro h
    rcases h with ⟨q, hq, hSpells⟩
    obtain ⟨f, hFinal, hReach⟩ := mem_finals_withoutEpsilon.mp hq
    exact ⟨f, hFinal, (spells_of_withoutEpsilon hSpells).emptyReach hReach⟩
  · intro h
    rcases h with ⟨f, hFinal, hSpells⟩
    obtain ⟨q, hNew, hReach⟩ := exists_spells_withoutEpsilon hSpells
    exact ⟨q, mem_finals_withoutEpsilon.mpr ⟨f, hFinal, hReach⟩, hNew⟩

/-- **A path for a word that is not empty is matched in the new automaton to its end.** The empty
moves that would be left over go into the last transition. -/
theorem spells_withoutEpsilon_of_cons {s t : State} {c : Char} {word : Text}
    (h : n.Spells s (c :: word) t) : n.withoutEpsilon.Spells s (c :: word) t := by
  induction word generalizing s c with
  | nil =>
      obtain ⟨p, r, hBefore, hMove, hRest⟩ := Automaton.spells_cons.mp h
      have hAfter : n.EmptyReach r t := Automaton.spells_nil.mp hRest
      have hStep : ⟨s, .char c, t⟩ ∈ n.withoutEpsilon.transitions :=
        mem_transitions_withoutEpsilon.mpr ⟨c, p, r, rfl, hBefore, hMove, hAfter⟩
      exact (Automaton.Spells.refl t).char_step hStep
  | cons d word ih =>
      obtain ⟨p, r, hBefore, hMove, hRest⟩ := Automaton.spells_cons.mp h
      have hStep : ⟨s, .char c, r⟩ ∈ n.withoutEpsilon.transitions :=
        mem_transitions_withoutEpsilon.mpr ⟨c, p, r, rfl, hBefore, hMove, .refl⟩
      exact (ih hRest).char_step hStep

theorem accepts_withoutEpsilon (n : Nfa) (word : Text) :
    n.withoutEpsilon.accepts word = n.accepts word := by
  cases hInitial : n.initial with
  | none =>
      have hNew : n.withoutEpsilon.initial = none := hInitial
      rw [accepts_of_not_initial hInitial, accepts_of_not_initial hNew]
  | some s =>
      have hNew : n.withoutEpsilon.initial = some s := hInitial
      rw [accepts_of_initial hInitial, accepts_of_initial hNew, Except.ok.injEq,
        Bool.eq_iff_iff, anyFinal_run_iff, anyFinal_run_iff, exists_final_withoutEpsilon]

/-- **Removing empty moves changes nothing that can be seen from any state.** States and initial
state stay, and no empty move is left. From every state, reading a word that is not empty leads to
the states that paths spelling it led to before, and reading any word leads to a final state when
some path spelling it did. So the same words are accepted, and the same error is given. -/
theorem withoutEpsilon_simulates (n : Nfa) :
    n.withoutEpsilon.stateCount = n.stateCount ∧ n.withoutEpsilon.initial = n.initial ∧
    n.withoutEpsilon.hasEpsilon = false ∧
    (∀ s c word t,
      n.withoutEpsilon.Path s ((c :: word).map .char) t ↔ n.Spells s (c :: word) t) ∧
    (∀ s word,
      (∃ f ∈ n.withoutEpsilon.finals, n.withoutEpsilon.Path s (word.map .char) f) ↔
        ∃ f ∈ n.finals, n.Spells s word f) ∧
    ∀ word, n.withoutEpsilon.accepts word = n.accepts word := by
  have hEps := hasEpsilon_withoutEpsilon n
  refine ⟨rfl, rfl, hEps, fun s c word t => ?_, fun s word => ?_, accepts_withoutEpsilon n⟩
  · rw [Automaton.path_map_char hEps]
    exact ⟨spells_of_withoutEpsilon, spells_withoutEpsilon_of_cons⟩
  · simp only [Automaton.path_map_char hEps]
    exact exists_final_withoutEpsilon

end Automata.Nfa
