import Automata.Proofs.TransitionList.Kinds
import Automata.Proofs.TransitionList.RoundTrip

/-! # Lists that are read and written again

An automaton that is read begins in state zero, so writing it renames nothing, and its records are
those of the list it was read from (`Holds.mem_records`). Tokens have no blanks, so none of these is
on a blank and all of them can be written (`noBlank_of_holds`). The new list has each record once
and in order, but it names the same states. So it makes up an automaton of the same size, which
holds the same records, and there is only one (`read_normalises`).
-/

namespace Automata.TransitionList

variable {k : Kind} {policy : Policy} {bytes : Bytes} {a b : Automaton k} {n m : Nat}
  {rs : List Record}

/-! ### What is assembled -/

theorem holds_of_assemble {es : List Entry} (hRecords : es.map Entry.record = rs)
    (hLargest : Largest rs m) (h : assemble k es = .ok b) :
    Holds (min (m + 1) stateLimit) rs b := by
  subst hRecords
  obtain rfl := largest_iff.mp hLargest
  rw [assemble_eq] at h
  exact (accepted_of_enterAll (holds_blank es) h).2

/-! ### Nothing to rename -/

theorem rename_zero (s : State) : rename 0 s = s := by
  rw [rename_eq_swap, Equiv.swap_self, Equiv.refl_apply]

theorem renamed_zero (t : Transition) : renamed 0 t = t := by
  rw [renamed, rename_zero, rename_zero]

theorem Holds.mem_records (h : Holds n rs a) (r : Record) : r ∈ records 0 a ↔ r ∈ rs := by
  cases r with
  | final s =>
      simp only [final_mem_records, rename_zero, exists_eq_right]
      exact h.mem_finals s
  | transition t =>
      simp only [transition_mem_records, renamed_zero, exists_eq_right]
      exact h.mem_transitions t

/-! ### Nothing blank -/

theorem Tokens.solid {t : Text} {ts : List Text} (h : Tokens t ts) : ∀ token ∈ ts, Solid token := by
  induction h with
  | nil => exact fun token hMem => absurd hMem List.not_mem_nil
  | blank _ _ ih => exact ih
  | last hSolid => exact List.forall_mem_singleton.mpr hSolid
  | cons hSolid _ _ ih => exact List.forall_mem_cons.mpr ⟨hSolid, ih⟩

/-- The character of a good line is a token of its own, so it is not blank. -/
theorem Good.isBlank_eq_false {line : Bytes} {r : Option Record} (h : Good k policy line r)
    {s q : State} {c : Char} (hr : r = some (.transition ⟨s, .char c, q⟩)) : isBlank c = false := by
  obtain ⟨ts, ⟨t, _, hTokens⟩, hSays⟩ := h
  cases hSays with
  | blank => cases hr
  | final _ => cases hr
  | skipped _ _ => cases hr
  | @transition _ _ token _ _ x _ _ hName _ =>
      obtain ⟨_, rfl, _⟩ := Transition.mk.inj (Record.transition.inj (Option.some.inj hr))
      have hToken : token = [c] := hName
      have hSolid : Solid token := hTokens.solid token (by simp)
      exact hSolid.2 c (hToken ▸ List.mem_singleton.mpr rfl)

theorem Records.isBlank_eq_false {ls : List Bytes} (h : Records k policy ls rs) {s q : State}
    {c : Char} (hMem : .transition ⟨s, .char c, q⟩ ∈ rs) : isBlank c = false := by
  induction h with
  | nil => exact absurd hMem List.not_mem_nil
  | cons hGood _ ih =>
      rcases List.mem_append.mp hMem with hHead | hTail
      · exact hGood.isBlank_eq_false (Option.mem_toList.mp hHead)
      · exact ih hTail

theorem noBlank_of_holds {ls : List Bytes} (hRecords : Records k policy ls rs)
    (h : Holds n rs a) : NoBlank a :=
  fun _ _ _ hMem => hRecords.isBlank_eq_false ((h.mem_transitions _).mp hMem)

/-! ### Reading and writing again -/

theorem exists_write_of_read (h : read k policy bytes = .ok a) :
    ∃ text, write a = .ok text ∧ ∀ policy, read k policy (Utf8.encode text) = .ok a := by
  obtain ⟨hWf, hLimit⟩ := wellFormed_of_read h
  obtain ⟨rs, m, hRecords, hLargest, _, hHolds⟩ := exists_records_of_read h
  have hInitial : a.initial = some 0 := hHolds.initial
  have hBlank : NoBlank a := noBlank_of_holds hRecords hHolds
  have hSame : ∀ r, r ∈ rs ↔ r ∈ records 0 a := fun r => (hHolds.mem_records r).symm
  obtain ⟨es, b, hEntries, _, hAssemble, hRead⟩ := exists_read_of_records
    (fun r hr => writable_of_mem_records hWf hLimit hInitial hBlank hr)
    (fun r hr => Nat.lt_of_lt_of_le (largest_lt_of_mem_records hWf hInitial hr) hLimit)
    (fun hKind => deterministic_records (i := 0) hKind)
  have hNew : Holds (min (m + 1) stateLimit) (records 0 a) b :=
    holds_of_assemble hEntries (hLargest.congr hSame) hAssemble
  obtain rfl : b = a := hNew.unique (hHolds.congr hSame)
  exact ⟨_, write_of_initial hInitial hBlank, hRead⟩

/-- **What is read is written in a form of its own.** The list of an automaton that was read can be
written. Under either policy the new list is read as the same automaton, which is written as the
same list again, and no other automaton that is read is written as that list. -/
theorem read_normalises (h : read k policy bytes = .ok a) :
    ∃ text, write a = .ok text ∧
      (∀ policy, ∃ b, read k policy (Utf8.encode text) = .ok b ∧ b = a ∧ write b = .ok text) ∧
      ∀ policy' bytes' c, read k policy' bytes' = .ok c → write c = .ok text → c = a := by
  obtain ⟨text, hWrite, hRead⟩ := exists_write_of_read h
  refine ⟨text, hWrite, fun policy => ⟨a, hRead policy, rfl, hWrite⟩, ?_⟩
  intro policy' bytes' c hOther hSame
  obtain ⟨text', hWrite', hRead'⟩ := exists_write_of_read hOther
  obtain rfl : text' = text := Except.ok.inj (hWrite'.symm.trans hSame)
  exact Except.ok.inj ((hRead' policy).symm.trans (hRead policy))

/-- A list with plus signs and zeros before its numerals, odd blanks, a repeated record, and two
lines to be passed over, which name states that no record names. -/
def untidy : Bytes :=
  Utf8.encode "+2\t\r\n 1   +002 b\n\n7 7\n0 1 <eps>\r\n01\t2 b\n2\n1 0 <\n9 9 9 9".toList

def tidied : Nfa :=
  Edit.attemptAll (.withStates .nfa 3)
    [.markInitial 0, .markFinal 2, .addEpsilon 0 1, .addTransition 1 '<' 0, .addTransition 1 'b' 2]

def tidyText : Text := "0 1 <eps>\n1 0 <\n1 2 b\n2\n".toList

theorem read_normalises_untidy :
    read .nfa .lenient untidy = .ok tidied ∧ write tidied = .ok tidyText ∧
      ∀ policy, ∃ b, read .nfa policy (Utf8.encode tidyText) = .ok b ∧ b = tidied ∧
        write b = .ok tidyText := by
  have hRead : read .nfa .lenient untidy = .ok tidied := by decide +kernel
  have hTidy : write tidied = .ok tidyText := by decide +kernel
  obtain ⟨text, hWrite, hAgain, _⟩ := read_normalises hRead
  obtain rfl : text = tidyText := Except.ok.inj (hWrite.symm.trans hTidy)
  exact ⟨hRead, hTidy, hAgain⟩

end Automata.TransitionList
