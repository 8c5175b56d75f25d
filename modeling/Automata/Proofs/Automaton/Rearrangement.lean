import Automata.Proofs.Automaton.Growth

/-! # The order of edits

Marks and transitions that go through one after the other come to the least automaton that has them
all: it has them (`has_of_performAll`), and it is part of every automaton with the same states that
has them (`exists_performAll_of_has`). Which automaton is least does not depend on the order of the
edits nor on how often each is made, and neither does it whether they go through
(`performAll_rearranged`).
-/

namespace Automata.Edit

open Automaton (PartOf)

variable {k : Kind} {a b c : Automaton k} {e : Edit k} {edits : List (Edit k)}

theorem run_performAll_cons_eq_ok_iff :
    (performAll (e :: edits)).run a = .ok () b ↔
      ∃ c, e.apply a = .ok c ∧ (performAll edits).run c = .ok () b := by
  rw [run_performAll_cons]
  cases e.apply a with
  | ok c => simp
  | error err => simp

/-- **The result has all that was asked for**, on top of what was there. -/
theorem has_of_performAll (hStates : ∀ e ∈ edits, e.addsStates = false)
    (hOk : (performAll edits).run a = .ok () b) :
    a.PartOf b ∧ a.stateCount = b.stateCount ∧ ∀ e ∈ edits, Has b e := by
  induction edits generalizing a with
  | nil =>
      have hEq : a = b := by
        injection hOk
      subst hEq
      exact ⟨PartOf.refl a, rfl, fun e he => absurd he List.not_mem_nil⟩
  | cons e edits ih =>
      obtain ⟨hHead, hTail⟩ := List.forall_mem_cons.mp hStates
      obtain ⟨c, hApply, hRest⟩ := run_performAll_cons_eq_ok_iff.mp hOk
      obtain ⟨hPart, hCount, hHas⟩ := ih hTail hRest
      refine ⟨(partOf_of_apply hApply).trans hPart, ?_, List.forall_mem_cons.mpr ⟨?_, hHas⟩⟩
      · rw [← hCount, stateCount_of_apply hHead hApply]
      · exact (has_of_apply hHead hApply).mono hPart

/-- **Edits go through as long as some automaton above has them all**, and come to a part of it. -/
theorem exists_performAll_of_has (hStates : ∀ e ∈ edits, e.addsStates = false) (hPart : a.PartOf c)
    (hCount : a.stateCount = c.stateCount) (hHas : ∀ e ∈ edits, Has c e) :
    ∃ b, (performAll edits).run a = .ok () b ∧ b.PartOf c := by
  induction edits generalizing a with
  | nil => exact ⟨a, rfl, hPart⟩
  | cons e edits ih =>
      obtain ⟨hHead, hTail⟩ := List.forall_mem_cons.mp hStates
      obtain ⟨hHasHead, hHasTail⟩ := List.forall_mem_cons.mp hHas
      obtain ⟨d, hApply, hNext⟩ := exists_apply_of_has hPart hCount hHasHead
      have hCount' : d.stateCount = c.stateCount :=
        (stateCount_of_apply hHead hApply).trans hCount
      obtain ⟨b, hRest, hEnd⟩ := ih hTail hNext hCount' hHasTail
      exact ⟨b, run_performAll_cons_eq_ok_iff.mpr ⟨d, hApply, hRest⟩, hEnd⟩

theorem exists_performAll_of_subset {other : List (Edit k)}
    (hStates : ∀ e ∈ edits, e.addsStates = false) (hOk : (performAll edits).run a = .ok () b)
    (hSub : ∀ e ∈ other, e ∈ edits) : ∃ c, (performAll other).run a = .ok () c ∧ c.PartOf b := by
  obtain ⟨hPart, hCount, hHas⟩ := has_of_performAll hStates hOk
  exact exists_performAll_of_has (fun e he => hStates e (hSub e he)) hPart hCount
    fun e he => hHas e (hSub e he)

theorem performAll_eq_of_same {other : List (Edit k)}
    (hStates : ∀ e ∈ edits, e.addsStates = false) (hOk : (performAll edits).run a = .ok () b)
    (hSame : ∀ e, e ∈ other ↔ e ∈ edits) : (performAll other).run a = .ok () b := by
  obtain ⟨c, hOther, hPart⟩ := exists_performAll_of_subset hStates hOk fun e => (hSame e).mp
  have hStates' : ∀ e ∈ other, e.addsStates = false := fun e he => hStates e ((hSame e).mp he)
  -- each of the two results is least, so they are part of each other
  obtain ⟨d, hAgain, hBack⟩ := exists_performAll_of_subset hStates' hOther fun e => (hSame e).mpr
  have hEq : d = b := by
    rw [hOk] at hAgain
    injection hAgain with _ hEq
    exact hEq.symm
  rw [hOther, hPart.antisymm (hEq ▸ hBack)]

/-- **The order of marks and transitions does not matter**, nor how often each is made. When they
go through one after the other, so does every rearrangement of them, with or without repetitions,
and it comes to the same automaton; any choice of them goes through too and comes to a part of
it. -/
theorem performAll_rearranged (hStates : ∀ e ∈ edits, e.addsStates = false)
    (hOk : (performAll edits).run a = .ok () b) :
    (∀ other : List (Edit k), other.Perm edits → (performAll other).run a = .ok () b) ∧
    (∀ other : List (Edit k), (∀ e, e ∈ other ↔ e ∈ edits) →
      (performAll other).run a = .ok () b) ∧
    ∀ other : List (Edit k), (∀ e ∈ other, e ∈ edits) →
      ∃ c, (performAll other).run a = .ok () c ∧ c.PartOf b := by
  refine ⟨fun other hPerm => ?_, fun other hSame => ?_, fun other hSub => ?_⟩
  · exact performAll_eq_of_same hStates hOk fun e => hPerm.mem_iff
  · exact performAll_eq_of_same hStates hOk hSame
  · exact exists_performAll_of_subset hStates hOk hSub

/-- The marks and moves of an automaton for `ab` and `b`. -/
def abEdits : List (Edit .dfa) :=
  [.markInitial 0, .addTransition 0 'a' 1, .addTransition 1 'b' 2, .markFinal 2,
    .addTransition 0 'b' 2]

theorem performAll_rearranged_ab :
    (∀ e ∈ abEdits, e.addsStates = false) ∧
      (performAll abEdits).run (.withStates .dfa 3) =
        .ok () (leftAll (.withStates .dfa 3) abEdits) ∧
      (performAll (abEdits.reverse ++ abEdits)).run (.withStates .dfa 3) =
        .ok () (leftAll (.withStates .dfa 3) abEdits) := by
  have hStates : ∀ e ∈ abEdits, e.addsStates = false := by decide
  have hOk : (performAll abEdits).run (.withStates .dfa 3) =
      .ok () (leftAll (.withStates .dfa 3) abEdits) := rfl
  exact ⟨hStates, hOk, (performAll_rearranged hStates hOk).2.1 _ (by simp)⟩

end Automata.Edit
