import Automata.Proofs.Automaton.InPlace
import Automata.Proofs.Conversion.FixedPoint
import Automata.Proofs.Session
import Automata.Proofs.TransitionList.Kinds

/-! # Equality of built automata

In a session that decodes no stored form all automata are tight: no call leaves an empty row or an
empty set of targets behind (`tight_of_makes`). So what can be seen of them decides whether they
are equal, whichever calls have built them, and whatever looks for entries finds transitions
(`run_extensional`).

Nor is a row left empty by an edit that fails half way: the session goes on with what the edit in
place leaves (`step_edit`), and that is tight as well.
-/

namespace Automata

variable {k : Kind}

def Call.decodes : Call → Bool
  | .ofBinary .. => true
  | _ => false

theorem TransitionList.tight_of_read {policy : Policy} {bytes : Bytes} {a : Automaton k}
    (h : read k policy bytes = .ok a) : a.Tight := by
  obtain ⟨_, _, _, _, _, hHolds⟩ := exists_records_of_read h
  exact hHolds.tight

theorem Nfa.tight_of_determinize {n : Nfa} {d : Dfa} (h : n.determinize = .ok d) : d.Tight := by
  obtain ⟨start, rfl⟩ := exists_toDfa_of_determinize h
  exact Machine.tight_number ..

theorem Dfa.tight_of_ofEngine {compile : Text → Except PatternError Engine} {r : Text} {d : Dfa}
    (h : ofEngine compile r = .ok d) : d.Tight := by
  obtain ⟨b, rfl⟩ := exists_byteAutomaton_of_ofEngine h
  exact Machine.tight_number ..

namespace Session

variable {held : List Held}

/-! ### Tightness -/

/-- **A call that decodes nothing makes a tight automaton of tight ones.** -/
theorem tight_of_makes (hHeld : ∀ h ∈ held, h.2.Tight) {call : Call} {h : Held}
    (hCall : call.decodes = false) (hMakes : Makes held call h) : h.2.Tight := by
  have hPlaced {k : Kind} {place : Nat} {a : Automaton k} (hPlace : held[place]? = some ⟨k, a⟩) :
      a.Tight := hHeld _ (List.mem_of_getElem? hPlace)
  cases hMakes with
  | withStates k n => exact Automaton.tight_of_rows_eq_empty rfl
  | edit hPlace hOk => exact (hPlaced hPlace).apply hOk
  | read hOk => exact TransitionList.tight_of_read hOk
  | ofBinary hOk => cases hCall
  | ofEngine hOk => exact Dfa.tight_of_ofEngine hOk
  | withoutEpsilon hPlace => exact Nfa.tight_withoutEpsilon _
  | determinize hPlace hOk => exact Nfa.tight_of_determinize hOk
  | toDfa hPlace hOk => exact Nfa.tight_of_determinize hOk
  | toNfa hPlace => exact Dfa.tight_toNfa (hPlaced hPlace)

theorem tight_of_mem_run {calls : List Call} (hCalls : ∀ call ∈ calls, call.decodes = false) :
    ∀ h ∈ run calls, h.2.Tight := by
  refine forall_mem_run fun held hHeld call hCall h hMade => ?_
  exact tight_of_makes hHeld (hCalls call hCall) (makes_of_made hMade).1

theorem made_edit {place : Nat} {a : Automaton k} {e : Edit k}
    (hPlace : held[place]? = some ⟨k, a⟩) :
    made held (.edit k place e) = keep? (e.apply a) := by
  rw [made, get?_eq_some_iff.mpr hPlace]
  rfl

/-- The session goes on with the automaton that an edit in place leaves, also when it fails. -/
theorem step_edit {place : Nat} {a : Automaton k} {e : Edit k} (hPlace : held[place]? = some ⟨k, a⟩)
    (hCount : (e.left a).stateCount ≤ stateLimit) :
    step held (.edit k place e) = held.set place ⟨k, e.left a⟩ := by
  rw [Edit.left_eq_attempt, Edit.attempt] at hCount ⊢
  rw [step, made_edit hPlace]
  cases hApply : e.apply a with
  | error err =>
      obtain ⟨hLt, hGet⟩ := List.getElem?_eq_some_iff.mp hPlace
      show held = held.set place ⟨k, a⟩
      rw [← hGet, List.set_getElem_self]
  | ok b =>
      rw [hApply] at hCount
      have hKeep : keep? (.ok b) = some (⟨k, b⟩ : Held) := if_pos hCount
      rw [hKeep]
      rfl

/-! ### Equality -/

/-- **Automata that are built by any calls but decoding are equal exactly when they have the same
states, initial state, final states and transitions.** Their alphabets and their tests for empty
moves tell of transitions only, since no call leaves an empty row or an empty set of targets, nor
does an edit that fails in place. -/
theorem run_extensional {calls calls' : List Call} (hCalls : ∀ call ∈ calls, call.decodes = false)
    (hCalls' : ∀ call ∈ calls', call.decodes = false) :
    (∀ (k : Kind) (a b : Automaton k), ⟨k, a⟩ ∈ run calls → ⟨k, b⟩ ∈ run calls' →
      (a = b ↔ a.stateCount = b.stateCount ∧ a.initial = b.initial ∧
        (∀ s, s ∈ a.finals ↔ s ∈ b.finals) ∧ ∀ t, t ∈ a.transitions ↔ t ∈ b.transitions)) ∧
    ∀ (k : Kind) (a : Automaton k), ⟨k, a⟩ ∈ run calls →
      (∀ c, c ∈ a.alphabet ↔ a.Uses (.char c)) ∧ (a.hasEpsilon = true ↔ a.Uses .epsilon) ∧
      a.Tight ∧ ∀ e : Edit k, (e.left a).Tight := by
  refine ⟨?_, ?_⟩
  · intro k a b ha hb
    have hTight : a.Tight := tight_of_mem_run hCalls _ ha
    have hTight' : b.Tight := tight_of_mem_run hCalls' _ hb
    refine ⟨?_, ?_⟩
    · rintro rfl
      exact ⟨rfl, rfl, fun _ => Iff.rfl, fun _ => Iff.rfl⟩
    · intro h
      obtain ⟨hCount, hInitial, hFinals, hTransitions⟩ := h
      exact Automaton.eq_of_tight hTight hTight' hCount hInitial hFinals hTransitions
  · intro k a ha
    have hTight : a.Tight := tight_of_mem_run hCalls _ ha
    refine ⟨fun c => hTight.mem_alphabet, hTight.hasEpsilon, hTight, fun e => ?_⟩
    rw [Edit.left_eq_attempt]
    exact hTight.attempt e

/-- Calls that build an automaton; one of them tries to add a second target. -/
def refusedCalls : List Call :=
  [.withStates .dfa 3, .edit .dfa 0 (.markFinal 2), .edit .dfa 0 (.markInitial 0),
    .edit .dfa 0 (.addTransition 0 'a' 1), .edit .dfa 0 (.addTransition 0 'a' 2),
    .edit .dfa 0 (.addTransition 1 'b' 2)]

/-- A call that reads the same automaton from a list. -/
def listedCalls : List Call := [.read .dfa .strict (Utf8.encode "1 2 b\n0 1 a\n2".toList)]

def accepted : Dfa :=
  Edit.attemptAll (.withStates .dfa 3)
    [.markInitial 0, .addTransition 1 'b' 2, .addTransition 0 'a' 1, .markFinal 2]

def listed : Dfa :=
  ⟨3, some 0, .singleton 2, .ofList [(1, .ofList [(.char 'b', 2)]), (0, .ofList [(.char 'a', 1)])]⟩

theorem run_extensional_refused :
    (∀ call ∈ refusedCalls ++ listedCalls, call.decodes = false) ∧
      ⟨.dfa, accepted⟩ ∈ run refusedCalls ∧ ⟨.dfa, listed⟩ ∈ run listedCalls ∧ accepted = listed ∧
      (∀ c, c ∈ accepted.alphabet ↔ accepted.Uses (.char c)) := by
  have hCalls : ∀ call ∈ refusedCalls, call.decodes = false := by decide
  have hCalls' : ∀ call ∈ listedCalls, call.decodes = false := by decide
  have ha : ⟨.dfa, accepted⟩ ∈ run refusedCalls := by decide +kernel
  have hb : ⟨.dfa, listed⟩ ∈ run listedCalls := by decide +kernel
  have hFinals : accepted.finals = listed.finals := by decide
  have hTransitions : accepted.transitions = listed.transitions := by decide
  obtain ⟨hEqual, hEntries⟩ := run_extensional hCalls hCalls'
  refine ⟨List.forall_mem_append.mpr ⟨hCalls, hCalls'⟩, ha, hb, ?_, (hEntries _ _ ha).1⟩
  exact (hEqual _ _ _ ha hb).mpr ⟨rfl, rfl, fun s => by rw [hFinals], fun t => by rw [hTransitions]⟩

end Session

end Automata
