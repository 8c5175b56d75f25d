import Automata.Proofs.Automaton.Obtainable
import Automata.Proofs.TransitionList.Enumerated
import Automata.Proofs.TransitionList.Saving

/-! # Lists that are written and read back

The records of an automaton that can be obtained name its states, which are within the limit, and
agree with each other if the automaton is deterministic. So unless there is a blank to be written,
each line is read back as its record, all records can be entered, and what is read is the automaton
with its initial state and state zero swapped (`read_write`).
-/

namespace Automata.TransitionList

variable {k : Kind} {a b : Automaton k} {i : State}

/-! ### The records of an automaton -/

theorem largest_lt_of_mem_records (hWf : a.WellFormed) (hInitial : a.initial = some i) {r : Record}
    (hr : r ∈ records i a) : r.largest < a.stateCount := by
  have hi : i < a.stateCount := hWf.initial i hInitial
  cases r with
  | final s =>
      obtain ⟨f, hf, rfl⟩ := final_mem_records.mp hr
      exact rename_lt hi (hWf.finals f hf)
  | transition u =>
      obtain ⟨t, ht, rfl⟩ := transition_mem_records.mp hr
      exact Nat.max_lt.mpr ⟨rename_lt hi (hWf.source t ht), rename_lt hi (hWf.target t ht)⟩

/-- Every record of an automaton whose states can be named has a line that is read back. -/
theorem writable_of_mem_records (hWf : a.WellFormed) (hLimit : a.stateCount ≤ stateLimit)
    (hInitial : a.initial = some i) (hBlank : NoBlank a) {r : Record} (hr : r ∈ records i a) :
    r.Writable k := by
  have hLargest : r.largest < a.stateCount := largest_lt_of_mem_records hWf hInitial hr
  cases r with
  | final s => exact Nat.le_of_lt (Nat.lt_of_lt_of_le hLargest hLimit)
  | transition u =>
      have hBound := Nat.max_le.mp (Nat.le_of_lt (Nat.lt_of_lt_of_le hLargest hLimit))
      obtain ⟨⟨s, x, q⟩, ht, rfl⟩ := transition_mem_records.mp hr
      refine ⟨hBound.1, hBound.2, fun c hc => ?_, fun hKind => hWf.noEmpty hKind ⟨s, x, q⟩ ht⟩
      have hSymbol : x = .char c := hc
      subst hSymbol
      exact hBlank s c q ht

/-- Renamed transitions of a deterministic automaton do not disagree, since renaming is one to
one. -/
theorem deterministic_records (hKind : k = .dfa) :
    Deterministic fun t => .transition t ∈ records i a := by
  subst hKind
  intro s x p q hp hq
  obtain ⟨⟨s₁, x₁, t₁⟩, h₁, hEq₁⟩ := transition_mem_records.mp hp
  obtain ⟨⟨s₂, x₂, t₂⟩, h₂, hEq₂⟩ := transition_mem_records.mp hq
  obtain ⟨hs₁, rfl, rfl⟩ := Transition.mk.inj hEq₁
  obtain ⟨hs₂, rfl, rfl⟩ := Transition.mk.inj hEq₂
  have hSource : s₁ = s₂ := rename_injective i (hs₁.trans hs₂.symm)
  subst hSource
  exact congrArg (rename i) (Dfa.eq_of_mem_transitions h₁ h₂)

/-! ### The round trip -/

/-- `b` is `a` with state `i` and state zero swapped. It begins in state zero and has one state more
than the largest one it mentions. -/
structure Swapped (i : State) (a b : Automaton k) : Prop where
  initial : b.initial = some 0
  mem_finals : ∀ s, s ∈ b.finals ↔ ∃ f ∈ a.finals, Equiv.swap 0 i f = s
  mem_transitions : ∀ u, u ∈ b.transitions ↔
    ∃ t ∈ a.transitions, ⟨Equiv.swap 0 i t.source, t.symbol, Equiv.swap 0 i t.target⟩ = u
  stateCount : b.stateCount = (mentioned b).foldl max 0 + 1

theorem swapped_of_assemble {es : List Entry} (hRecords : es.map Entry.record = records i a)
    (hFit : ∀ e ∈ es, e.record.largest < stateLimit) (h : assemble k es = .ok b) :
    Swapped i a b := by
  have hEntered := assemble_ok h
  rw [hRecords] at hEntered
  refine ⟨hEntered.initial, fun s => ?_, fun u => ?_, stateCount_of_assemble hFit h⟩
  · have hNone : s ∉ (blank k es).finals := OrderedSet.not_mem_empty s
    simp only [hEntered.mem_finals, or_iff_left hNone, final_mem_records, rename_eq_swap]
  · have hNone : u ∉ (blank k es).transitions := List.not_mem_nil
    simp only [hEntered.mem_transitions, or_iff_left hNone, transition_mem_records, renamed,
      rename_eq_swap]

/-- The list of records that fit and do not disagree is read, whatever is to be done with malformed
lines. -/
theorem exists_read_of_records {rs : List Record} (hWritable : ∀ r ∈ rs, r.Writable k)
    (hFit : ∀ r ∈ rs, r.largest < stateLimit)
    (hAgree : k = .dfa → Deterministic fun t => .transition t ∈ rs) :
    ∃ es b, es.map Entry.record = rs ∧ (∀ e ∈ es, e.record.largest < stateLimit) ∧
      assemble k es = .ok b ∧
      ∀ policy, read k policy (Utf8.encode (Text.unlines (rs.map Record.text))) = .ok b := by
  have hRecords : (entriesFrom 1 rs).map Entry.record = rs := map_record_entriesFrom 1 rs
  have hEntries : ∀ e ∈ entriesFrom 1 rs, e.record.largest < stateLimit := fun e he =>
    hFit e.record (hRecords ▸ List.mem_map.mpr ⟨e, he, rfl⟩)
  obtain ⟨b, hAssemble⟩ : ∃ b, assemble k (entriesFrom 1 rs) = .ok b := by
    refine exists_assemble hEntries fun hKind => ?_
    rw [hRecords]
    exact hAgree hKind
  refine ⟨entriesFrom 1 rs, b, hRecords, hEntries, hAssemble, fun policy => ?_⟩
  rw [read, entries_of_records hWritable policy]
  exact hAssemble

/-- **What is written is read back.** The list of an automaton with an initial state and no blank to
be written is read, under either policy, as the automaton with its initial state and state zero
swapped. Writing fails without an initial state or on a blank, and for no other reason. Then no line
is put out: the files stay as they were, and one that was opened to be written stays empty. None of
this depends on the order in which the automaton is enumerated. -/
theorem read_write (h : Obtainable a) :
    (∀ i, a.initial = some i → NoBlank a →
      ∃ text b, write a = .ok text ∧ (∀ policy, read k policy (Utf8.encode text) = .ok b) ∧
        Swapped i a b) ∧
    (∀ e, write a = .error e → (a.initial = none ∧ e = .noInitial) ∨
      ∃ s c q, ⟨s, .char c, q⟩ ∈ a.transitions ∧ isBlank c = true ∧ e = .unwritableSymbol s c) ∧
    (∀ e, write a = .error e → ∀ path files,
      (putOut path a).run files = .error e files ∧
      (saving path a).run files = .error e (files.write path []) ∧
      save path a files = (.error e, files.write path [])) ∧
    ∀ o : Enumeration a, Alike o.write (write a) := by
  obtain ⟨hWf, hLimit⟩ := h.wellFormed
  refine ⟨fun i hInitial hBlank => ?_, fun e he => write_error he, fun e he path files => ?_,
    Enumeration.alike_write⟩
  · obtain ⟨es, b, hRecords, hFit, hAssemble, hRead⟩ := exists_read_of_records
      (fun r hr => writable_of_mem_records hWf hLimit hInitial hBlank hr)
      (fun r hr => Nat.lt_of_lt_of_le (largest_lt_of_mem_records hWf hInitial hr) hLimit)
      (fun hKind => deterministic_records (i := i) hKind)
    have hSwapped := swapped_of_assemble hRecords hFit hAssemble
    exact ⟨_, b, write_of_initial hInitial hBlank, hRead, hSwapped⟩
  · have hSave : save path a files = (.error e, files.write path []) :=
      save_of_write_eq_error he
    have hRun : (saving path a).run files = Filing.ending (save path a files) := run_saving
    rw [hSave] at hRun
    exact ⟨run_putOut_of_write_eq_error he, hRun, hSave⟩

/-- An automaton that begins in state 2 and has a bracket, an empty move and a gap in its states. -/
def bracketed : Nfa :=
  Edit.attemptAll (.withStates .nfa 6)
    [.markInitial 2, .markFinal 0, .markFinal 2, .addTransition 2 '<' 0, .addTransition 0 '1' 2,
      .addEpsilon 0 4]

theorem read_write_bracketed :
    Obtainable bracketed ∧ bracketed.initial = some 2 ∧ NoBlank bracketed ∧
      ∃ text b, write bracketed = .ok text ∧
        (∀ policy, read .nfa policy (Utf8.encode text) = .ok b) ∧ Swapped 2 bracketed b := by
  have hObtainable : Obtainable bracketed :=
    (Obtainable.withStates .nfa 6 (by decide)).attemptAll (by decide)
  have hBlank : NoBlank bracketed := unwritable_eq_nil_iff.mp (by decide)
  exact ⟨hObtainable, by decide, hBlank, (read_write hObtainable).1 2 (by decide) hBlank⟩

end Automata.TransitionList
