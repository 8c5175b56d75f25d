import Automata.Proofs.Automaton.Listing
import Automata.Proofs.Session.Extensional

/-! # Listings of built automata

A listing tells the kind of an automaton, its number of states, its initial state, its final states
and its transitions. In a session that decodes no stored form there is nothing else to an automaton,
so its listing determines it (`run_listing`).
-/

namespace Automata.Session

/-- **Automata that are built by any calls but decoding have the same listing exactly when they are
of the same kind and equal**, whatever characters their transitions carry. -/
theorem run_listing {calls calls' : List Call} (hCalls : ∀ call ∈ calls, call.decodes = false)
    (hCalls' : ∀ call ∈ calls', call.decodes = false) :
    ∀ g ∈ run calls, ∀ h ∈ run calls', g.2.listing = h.2.listing ↔ g = h := by
  rintro ⟨j, a⟩ ha ⟨k, b⟩ hb
  refine ⟨fun hListing => ?_, ?_⟩
  · obtain ⟨rfl, hCount, hInitial, hFinals, hTransitions⟩ :=
      Automaton.eq_of_listing_eq hListing
    have hEqual : a = b :=
      Automaton.eq_of_tight (tight_of_mem_run hCalls _ ha) (tight_of_mem_run hCalls' _ hb) hCount
        hInitial (fun s => by rw [hFinals]) fun t => by rw [hTransitions]
    rw [hEqual]
  · intro hEqual
    cases hEqual
    rfl

/-- Calls that build an automaton with transitions on a line break, a hyphen, brackets and a digit,
and an empty move. -/
def strangeCalls : List Call :=
  [.withStates .nfa 12, .edit .nfa 0 (.markFinal 11), .edit .nfa 0 (.markInitial 1),
    .edit .nfa 0 (.addTransition 1 '\n' 11), .edit .nfa 0 (.addTransition 1 '-' 1),
    .edit .nfa 0 (.addTransition 11 '<' 1), .edit .nfa 0 (.addEpsilon 11 1),
    .edit .nfa 0 (.addTransition 1 '>' 0), .edit .nfa 0 (.addTransition 1 '1' 1)]

/-- The transitions, added in another order to an automaton that grows on the way. -/
def strangeAgain : List Call :=
  [.withStates .nfa 3, .edit .nfa 0 (.markInitial 1), .edit .nfa 0 (.addTransition 1 '1' 1),
    .edit .nfa 0 (.addTransition 1 '>' 0), .edit .nfa 0 (.requireStates 12),
    .edit .nfa 0 (.addEpsilon 11 1), .edit .nfa 0 (.addTransition 11 '<' 1),
    .edit .nfa 0 (.addTransition 1 '-' 1), .edit .nfa 0 (.addTransition 1 '\n' 11),
    .edit .nfa 0 (.markFinal 11)]

def strange : Nfa :=
  Edit.attemptAll (.withStates .nfa 12)
    [.addTransition 1 '1' 1, .addTransition 1 '-' 1, .addTransition 1 '>' 0,
      .addTransition 1 '\n' 11, .addTransition 11 '<' 1, .addEpsilon 11 1, .markInitial 1,
      .markFinal 11]

theorem run_listing_strange :
    (∀ call ∈ strangeCalls ++ strangeAgain, call.decodes = false) ∧
      ⟨.nfa, strange⟩ ∈ run strangeCalls ∧
      ∀ h ∈ run strangeAgain, strange.listing = h.2.listing ∧ h = ⟨.nfa, strange⟩ := by
  have hCalls : ∀ call ∈ strangeCalls, call.decodes = false := by decide
  have hCalls' : ∀ call ∈ strangeAgain, call.decodes = false := by decide
  have hStrange : ⟨.nfa, strange⟩ ∈ run strangeCalls := by decide +kernel
  have hAgain : run strangeAgain = [⟨.nfa, strange⟩] := by decide +kernel
  refine ⟨List.forall_mem_append.mpr ⟨hCalls, hCalls'⟩, hStrange, fun h hMem => ?_⟩
  have hEqual : h = ⟨.nfa, strange⟩ := List.mem_singleton.mp (hAgain ▸ hMem)
  exact ⟨(run_listing hCalls hCalls' _ hStrange h hMem).mpr hEqual.symm, hEqual⟩

end Automata.Session
