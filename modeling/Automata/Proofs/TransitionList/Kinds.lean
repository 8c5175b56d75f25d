import Automata.Proofs.Conversion.Embedding
import Automata.Proofs.TransitionList.Outcome

/-! # One list read as either kind

The kind of automaton that a list is read as matters in two places: a line with an empty move is bad
for a deterministic automaton, and a record is refused by one that already leads elsewhere. Where
neither happens, the same records are read and entered whatever the kind
(`exists_read_of_read`), and the automata that hold them differ only in how they keep their targets.
So reading as the one kind tells what reading as the other gives (`read_kinds`).
-/

namespace Automata.TransitionList

variable {j k : Kind} {policy : Policy} {bytes : Bytes} {rs : List Record} {n : Nat}

/-! ### Changing the kind -/

theorem Says.change {ts : List Text} {r : Option Record} (h : Says j policy ts r)
    (hEps : k = .dfa → ∀ p q, r ≠ some (.transition ⟨p, .epsilon, q⟩)) : Says k policy ts r := by
  cases h with
  | blank => exact .blank
  | final ha => exact .final ha
  | @transition a b c p q x ha hb hc _ =>
      refine .transition ha hb hc fun hKind hx => ?_
      subst hx
      exact hEps hKind p q rfl
  | skipped hPolicy hIrregular => exact .skipped hPolicy hIrregular

theorem Records.change {ls : List Bytes} (h : Records j policy ls rs)
    (hEps : k = .dfa → ∀ p q, .transition ⟨p, .epsilon, q⟩ ∉ rs) : Records k policy ls rs := by
  induction h with
  | nil => exact .nil
  | @cons line ls r rs hGood _ ih =>
      obtain ⟨ts, hTokens, hSays⟩ := hGood
      have hHead : k = .dfa → ∀ p q, r ≠ some (.transition ⟨p, .epsilon, q⟩) := by
        rintro hKind p q rfl
        exact hEps hKind p q (List.mem_append_left _ (List.mem_singleton.mpr rfl))
      have hTail : k = .dfa → ∀ p q, .transition ⟨p, .epsilon, q⟩ ∉ rs := fun hKind p q hMem =>
        hEps hKind p q (List.mem_append_right _ hMem)
      exact .cons ⟨ts, hTokens, hSays.change hHead⟩ (ih hTail)

theorem Accepted.change (h : Accepted j n rs)
    (hAgree : k = .dfa → Deterministic fun t => .transition t ∈ rs) : Accepted k n rs :=
  accepted_iff.mpr ⟨(accepted_iff.mp h).1, hAgree⟩

/-! ### Reading -/

/-- **A list that is read as one kind is read as the other**, and the same records are held, unless
a deterministic automaton would get an empty move or two targets. -/
theorem exists_read_of_read {a : Automaton j} (h : read j policy bytes = .ok a)
    (hEps : k = .dfa → ∀ p q, ⟨p, .epsilon, q⟩ ∉ a.transitions)
    (hAgree : k = .dfa → Deterministic (· ∈ a.transitions)) :
    ∃ n rs, ∃ b : Automaton k, read k policy bytes = .ok b ∧ Holds n rs a ∧ Holds n rs b := by
  obtain ⟨rs, m, hRecords, hLargest, hAccepted, hHolds⟩ := exists_records_of_read h
  simp only [hHolds.mem_transitions] at hEps hAgree
  obtain ⟨b, hRead, hHolds'⟩ :=
    exists_readLines (hRecords.change hEps) hLargest (hAccepted.change hAgree)
  exact ⟨_, rs, b, hRead, hHolds, hHolds'⟩

theorem Holds.toNfa {d : Dfa} (h : Holds n rs d) : Holds n rs (Dfa.toNfa d) where
  stateCount := h.stateCount
  initial := h.initial
  mem_finals := h.mem_finals
  mem_transitions t := by rw [Dfa.transitions_toNfa, h.mem_transitions]
  tight := Dfa.tight_toNfa h.tight

theorem read_toNfa {d : Dfa} (h : read .dfa policy bytes = .ok d) :
    read .nfa policy bytes = .ok (Dfa.toNfa d) := by
  obtain ⟨n, rs, b, hRead, hHolds, hHolds'⟩ := exists_read_of_read (k := .nfa) h
    (fun hKind => by cases hKind) (fun hKind => by cases hKind)
  rw [hRead, hHolds'.unique hHolds.toNfa]

/-- **Reading as one kind tells what reading as the other gives.** What is read as a deterministic
automaton is read as its nondeterministic form. What is read as a nondeterministic automaton is read
as a deterministic one exactly when it has no empty move and never leads from one state to two on a
character. What cannot be read as a nondeterministic automaton cannot be read at all. -/
theorem read_kinds (policy : Policy) (bytes : Bytes) :
    (∀ d, read .dfa policy bytes = .ok d → read .nfa policy bytes = .ok (Dfa.toNfa d)) ∧
    (∀ n, read .nfa policy bytes = .ok n →
      ((∃ d, read .dfa policy bytes = .ok d) ↔
        (∀ p q, ⟨p, .epsilon, q⟩ ∉ n.transitions) ∧
        ∀ s c p q, ⟨s, .char c, p⟩ ∈ n.transitions → ⟨s, .char c, q⟩ ∈ n.transitions → p = q)) ∧
    ∀ e, read .nfa policy bytes = .error e → ∃ e', read .dfa policy bytes = .error e' := by
  refine ⟨fun d h => read_toNfa h, fun n hNfa => ⟨?_, ?_⟩, fun e hNfa => ?_⟩
  · rintro ⟨d, hDfa⟩
    obtain rfl : n = Dfa.toNfa d := Except.ok.inj (hNfa.symm.trans (read_toNfa hDfa))
    have hWf : d.WellFormed := (wellFormed_of_read hDfa).1
    rw [Dfa.transitions_toNfa]
    refine ⟨fun p q hMem => hWf.noEmpty rfl _ hMem rfl, fun s c p q hp hq => ?_⟩
    exact Dfa.eq_of_mem_transitions hp hq
  · rintro ⟨hEps, hAgree⟩
    obtain ⟨_, _, d, hDfa, _⟩ := exists_read_of_read (k := .dfa) hNfa (fun _ => hEps) fun _ => by
      intro s x p q hp hq
      cases x with
      | char c => exact hAgree s c p q hp hq
      | epsilon => exact absurd hp (hEps s p)
    exact ⟨d, hDfa⟩
  · cases hDfa : read .dfa policy bytes with
    | error e' => exact ⟨e', rfl⟩
    | ok d =>
        rw [read_toNfa hDfa] at hNfa
        cases hNfa

/-- A list that names two targets on one character is read as one kind only. -/
example : (read .nfa .strict (Utf8.encode "0 1 a\n0 2 a\n0 1 a".toList)).isOk = true ∧
    read .dfa .strict (Utf8.encode "0 1 a\n0 2 a\n0 1 a".toList) =
      .error (.conflictingMove 0 (.char 'a') 1 2) := by
  decide +kernel

end Automata.TransitionList
