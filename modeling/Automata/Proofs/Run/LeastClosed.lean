import Automata.Proofs.Automaton.Obtainable
import Automata.Proofs.Automaton.Refusal
import Automata.Proofs.Run.Search

/-! # The least closed set

The closure of states is the least set that holds them and that no empty move leads out of
(`closureOf_closure`). A search with a stack finds it, whatever the order in which it follows the
empty moves of a state, and puts each of its states on the stack once. Since the closure is
determined by what is reached, it does not depend on the order of the seeds, and it is idempotent,
monotone and additive (`epsilonClosure_exact`).
-/

namespace Automata.Nfa

open Exploration (Reachable Covers covers_of_subset)

variable {n : Nfa} {seeds : List State} {c : StateSet}

/-- Whether `order` lists the states that empty moves lead to, in some order. -/
def ListsEmptyMoves (n : Nfa) (order : State → List State) : Prop :=
  ∀ s q, q ∈ order s ↔ ⟨s, .epsilon, q⟩ ∈ n.transitions

/-- `c` is the closure of the seeds under empty moves. -/
structure ClosureOf (n : Nfa) (seeds : List State) (c : StateSet) : Prop where
  /-- It holds what empty moves lead to from a seed. -/
  mem_iff : ∀ q, q ∈ c ↔ ∃ s ∈ seeds, n.EmptyReach s q
  /-- It holds the seeds, no empty move leads out of it, and it is least of all such sets. -/
  seeded : ∀ s ∈ seeds, s ∈ c
  closed : ∀ p ∈ c, ∀ q, ⟨p, .epsilon, q⟩ ∈ n.transitions → q ∈ c
  least : ∀ holds : State → Prop, (∀ s ∈ seeds, holds s) →
    (∀ p, holds p → ∀ q, ⟨p, .epsilon, q⟩ ∈ n.transitions → holds q) → ∀ q ∈ c, holds q
  /-- A search puts no state on the stack twice. -/
  once : ∀ order, n.ListsEmptyMoves order → ∀ fuel,
    (Search.run order fuel (.start seeds)).pushed.Nodup
  /-- A search that may take off as many states as `c` has ends with an empty stack. Then it has
  marked `c`, and each state of `c` was put on the stack once. -/
  found : ∀ order, n.ListsEmptyMoves order → ∀ fuel, c.size ≤ fuel →
    (Search.run order fuel (.start seeds)).stack = [] ∧
      (Search.run order fuel (.start seeds)).marked = c ∧
      (Search.run order fuel (.start seeds)).pushed.Perm c.toList

theorem reachable_order_iff {order : State → List State} (hOrder : n.ListsEmptyMoves order)
    {q : State} : Reachable order seeds q ↔ q ∈ n.closure seeds := by
  rw [mem_closure]
  simp only [Reachable, hOrder _ _]
  rfl

/-- As many steps as the closure has states are enough for a search. -/
theorem covers_order {order : State → List State} (hOrder : n.ListsEmptyMoves order) {fuel : Nat}
    (hFuel : (n.closure seeds).size ≤ fuel) : Covers order seeds fuel :=
  covers_of_subset (n.closure seeds).toList (fun _ hq => (reachable_order_iff hOrder).mp hq) hFuel

/-- **A search finds the closure**, each of its states once. -/
theorem search_closure {order : State → List State} (hOrder : n.ListsEmptyMoves order) {fuel : Nat}
    (hFuel : (n.closure seeds).size ≤ fuel) :
    (Search.run order fuel (.start seeds)).stack = [] ∧
      (Search.run order fuel (.start seeds)).marked = n.closure seeds ∧
      (Search.run order fuel (.start seeds)).pushed.Perm (n.closure seeds).toList := by
  obtain ⟨hStack, hFound⟩ := Search.run_of_covers (covers_order hOrder hFuel)
  refine ⟨hStack, OrderedSet.ext fun q => ?_, ?_⟩
  · exact (hFound q).1.trans (reachable_order_iff hOrder)
  · refine (List.perm_ext_iff_of_nodup (Search.nodup_pushed_run order seeds fuel)
      (OrderedSet.nodup_toList _)).mpr fun q => ?_
    exact (hFound q).2.trans (reachable_order_iff hOrder)

theorem closureOf_closure (n : Nfa) (seeds : List State) :
    n.ClosureOf seeds (n.closure seeds) where
  mem_iff _ := mem_closure
  seeded s hs := mem_closure.mpr ⟨s, hs, .refl⟩
  closed p hp q hMove := closed_closure n seeds p hp q (.single hMove)
  least holds hSeeds hClosed q hq := by
    obtain ⟨s, hs, hReach⟩ := mem_closure.mp hq
    induction hReach with
    | refl => exact hSeeds s hs
    | tail hBefore hMove ih => exact hClosed _ (ih (mem_closure.mpr ⟨s, hs, hBefore⟩)) _ hMove
  once order _ fuel := Search.nodup_pushed_run order seeds fuel
  found _ hOrder _ hFuel := search_closure hOrder hFuel

/-! ### Laws -/

theorem closure_congr {seeds' : List State} (h : ∀ s, s ∈ seeds' ↔ s ∈ seeds) :
    n.closure seeds' = n.closure seeds :=
  OrderedSet.ext fun q => by simp only [mem_closure, h]

theorem closure_closure (n : Nfa) (seeds : List State) :
    n.closure (n.closure seeds).toList = n.closure seeds := by
  refine OrderedSet.ext fun q => ⟨fun hq => ?_, fun hq => mem_closure.mpr ⟨q, hq, .refl⟩⟩
  obtain ⟨p, hp, hReach⟩ := mem_closure.mp hq
  exact closed_closure n seeds p hp q hReach

theorem closure_mono {seeds' : List State} (h : ∀ s ∈ seeds, s ∈ seeds') :
    ∀ q ∈ n.closure seeds, q ∈ n.closure seeds' := by
  intro q hq
  obtain ⟨s, hs, hReach⟩ := mem_closure.mp hq
  exact mem_closure.mpr ⟨s, h s hs, hReach⟩

theorem closure_append (n : Nfa) (seeds seeds' : List State) :
    n.closure (seeds ++ seeds') = (n.closure seeds).union (n.closure seeds') :=
  OrderedSet.ext fun q => by
    simp only [OrderedSet.mem_union, mem_closure, List.mem_append, or_and_right, exists_or]

/-! ### Checked seeds -/

theorem epsilonClosure_eq_error_iff {e : Error} :
    n.epsilonClosure seeds = .error e ↔
      ∃ s, seeds.find? (n.stateCount ≤ ·) = some s ∧ .invalidState s n.stateCount = e := by
  rw [epsilonClosure]
  generalize n.closure seeds = c
  induction seeds with
  | nil => exact ⟨fun h => (by cases h), fun ⟨s, hs, _⟩ => by cases hs⟩
  | cons s seeds ih =>
      have hStep : (do (s :: seeds).forM n.checkState; return c) =
          (n.checkState s >>= fun _ => do seeds.forM n.checkState; return c) := by
        show (n.checkState s >>= fun _ => seeds.forM n.checkState) >>= _ = _
        rw [bind_assoc]
      rw [hStep, Automaton.checkState_bind_error_iff, ih, List.find?_cons]
      by_cases hs : n.stateCount ≤ s
      · simp [hs, Nat.not_lt_of_le hs]
      · simp [hs, Nat.lt_of_not_le hs]

theorem epsilonClosure_eq_ok_iff :
    n.epsilonClosure seeds = .ok c ↔ (∀ s ∈ seeds, s < n.stateCount) ∧ n.closure seeds = c := by
  rw [epsilonClosure, bind_eq_ok_iff]
  refine ⟨fun h => ?_, fun h => ⟨(), ?_, congrArg Except.ok h.2⟩⟩
  · obtain ⟨⟨⟩, hCheck, hOk⟩ := h
    exact ⟨fun s hs => Automaton.checkState_eq_ok_iff.mp (Automaton.forM_eq_ok_iff.mp hCheck s hs),
      Except.ok.inj hOk⟩
  · exact Automaton.forM_eq_ok_iff.mpr fun s hs => Automaton.checkState_eq_ok_iff.mpr (h.1 s hs)

theorem lt_of_mem_closure (hWf : n.WellFormed) (hSeeds : ∀ s ∈ seeds, s < n.stateCount) :
    ∀ q ∈ n.closure seeds, q < n.stateCount := by
  intro q hq
  obtain ⟨s, hs, hReach⟩ := mem_closure.mp hq
  exact hWf.emptyReach_lt hReach (hSeeds s hs)

/-- **The closure is exact.** The first seed that is not a state is the error. Seeds that are states
have a closure, the least set that holds them and that no empty move leads out of, and a search with
a stack finds it. The same states in any order and number have the same closure, the closure of a
closure is that closure, more seeds have a larger closure, and the closure of all seeds together is
the union of the closures. -/
theorem epsilonClosure_exact {n : Nfa} (h : Obtainable n) (seeds : List State) :
    (∀ e, n.epsilonClosure seeds = .error e ↔
      ∃ s, seeds.find? (n.stateCount ≤ ·) = some s ∧ .invalidState s n.stateCount = e) ∧
    ((∀ s ∈ seeds, s < n.stateCount) →
      ∃ c, n.epsilonClosure seeds = .ok c ∧ n.ClosureOf seeds c) ∧
    ∀ c, n.epsilonClosure seeds = .ok c →
      (∀ seeds', (∀ s, s ∈ seeds' ↔ s ∈ seeds) → n.epsilonClosure seeds' = .ok c) ∧
      n.epsilonClosure c.toList = .ok c ∧
      ∀ seeds' c', n.epsilonClosure seeds' = .ok c' →
        ((∀ s ∈ seeds, s ∈ seeds') → ∀ q ∈ c, q ∈ c') ∧
        n.epsilonClosure (seeds ++ seeds') = .ok (c.union c') := by
  refine ⟨fun e => epsilonClosure_eq_error_iff, fun hSeeds => ?_, fun c hOk => ?_⟩
  · exact ⟨_, epsilonClosure_eq_ok_iff.mpr ⟨hSeeds, rfl⟩, closureOf_closure n seeds⟩
  · obtain ⟨hSeeds, rfl⟩ := epsilonClosure_eq_ok_iff.mp hOk
    refine ⟨fun seeds' hSame => ?_, ?_, fun seeds' c' hOk' => ?_⟩
    · exact epsilonClosure_eq_ok_iff.mpr
        ⟨fun s hs => hSeeds s ((hSame s).mp hs), closure_congr hSame⟩
    · exact epsilonClosure_eq_ok_iff.mpr
        ⟨lt_of_mem_closure h.wellFormed.1 hSeeds, closure_closure n seeds⟩
    · obtain ⟨hSeeds', rfl⟩ := epsilonClosure_eq_ok_iff.mp hOk'
      refine ⟨closure_mono, epsilonClosure_eq_ok_iff.mpr ⟨fun s hs => ?_, closure_append ..⟩⟩
      exact (List.mem_append.mp hs).elim (hSeeds s) (hSeeds' s)

/-- Empty moves go round in a circle, a transition on a character leads out of it. -/
def circle : Nfa :=
  Edit.attemptAll (.withStates .nfa 5)
    [.addEpsilon 0 1, .addEpsilon 1 2, .addEpsilon 2 0, .addEpsilon 1 1, .addTransition 2 'x' 3,
      .addEpsilon 3 4]

theorem epsilonClosure_exact_circle :
    Obtainable circle ∧
      circle.epsilonClosure [4, 7, 0, 5] = .error (.invalidState 7 5) ∧
      ∃ c, circle.epsilonClosure [2, 4, 2] = .ok c ∧ c.toList = [0, 1, 2, 4] ∧
        circle.ClosureOf [2, 4, 2] c ∧ circle.epsilonClosure [4, 2] = .ok c ∧
        circle.epsilonClosure c.toList = .ok c := by
  have hCircle : Obtainable circle :=
    Obtainable.attemptAll (.withStates .nfa 5 (by decide)) (by decide)
  obtain ⟨hError, _⟩ := epsilonClosure_exact hCircle [4, 7, 0, 5]
  obtain ⟨_, hOk, hLaws⟩ := epsilonClosure_exact hCircle [2, 4, 2]
  obtain ⟨c, hClosure, hOf⟩ := hOk (by decide)
  obtain ⟨hSame, hTwice, _⟩ := hLaws c hClosure
  have hList : (circle.epsilonClosure [2, 4, 2]).toOption.map OrderedSet.toList =
      some [0, 1, 2, 4] := by decide
  rw [hClosure] at hList
  exact ⟨hCircle, (hError _).mpr ⟨7, by decide, rfl⟩, c, hClosure, Option.some.inj hList, hOf,
    hSame [4, 2] (by grind), hTwice⟩

end Automata.Nfa
