import Automata.Automaton.Edit
import Automata.Conversion.Subsets
import Automata.Proofs.Run.Acceptance
import Automata.Proofs.Machine.Numbering
import Mathlib.Data.List.Sublists

/-! # Determinization follows all paths at once

The machine of sets of states runs through the sets of states that words lead to, and stops where
such a set is empty (`run_subsetMachine`). Apart from the start, each set met is a nonempty set of
targets, so the bound on their number covers the exploration (`covers_subsets`). The sets are
therefore listed each once, and the numbered automaton is in state `k` after a word exactly when the
`k`-th set is what the word leads to (`subsetConstruction_tracks`).
-/

namespace Automata.Nfa

variable {n : Nfa} {start : State}

/-! ### Sets reached by words -/

/-- The states that a word leads to from `active`, one transition for each character. -/
def reached (n : Nfa) (active : StateSet) (word : Text) : StateSet :=
  word.foldl n.move active

@[simp] theorem reached_nil (active : StateSet) : n.reached active [] = active := rfl

@[simp] theorem reached_cons (active : StateSet) (c : Char) (word : Text) :
    n.reached active (c :: word) = n.reached (n.move active c) word := rfl

theorem move_empty (c : Char) : n.move ∅ c = ∅ := rfl

theorem reached_empty (word : Text) : n.reached ∅ word = ∅ := by
  induction word with
  | nil => rfl
  | cons c word ih => rw [reached_cons, move_empty, ih]

/-- Without empty moves a set moves on to the states that paths from its members end in. -/
theorem mem_reached (hEps : n.hasEpsilon = false) {active : StateSet} {word : Text} {q : State} :
    q ∈ n.reached active word ↔ ∃ p ∈ active, n.Spells p word q := by
  induction word generalizing active with
  | nil =>
      simp only [reached_nil, Automaton.spells_nil, Automaton.emptyReach_iff_eq hEps]
      simp
  | cons c word ih =>
      rw [reached_cons, ih]
      simp only [mem_move, Automaton.spells_cons_of_not_hasEpsilon hEps]
      refine ⟨?_, ?_⟩
      · intro h
        rcases h with ⟨r, ⟨p, hp, hMove⟩, hRest⟩
        exact ⟨p, hp, r, hMove, hRest⟩
      · intro h
        rcases h with ⟨p, hp, r, hMove, hRest⟩
        exact ⟨r, ⟨p, hp, hMove⟩, hRest⟩

theorem mem_reached_singleton (hEps : n.hasEpsilon = false) {word : Text} {q : State} :
    q ∈ n.reached (.singleton start) word ↔ n.Spells start word q := by
  simp [mem_reached hEps]

/-! ### The machine of sets -/

theorem next_subsetMachine {active next : StateSet} {c : Char} :
    (n.subsetMachine start).next active c = some next ↔ n.move active c = next ∧ next ≠ ∅ := by
  simp only [subsetMachine, ite_none_some_eq_some_iff (p := fun s : StateSet => s.isEmpty = true)]
  rw [OrderedSet.isEmpty_iff]

theorem next_subsetMachine_eq_none {active : StateSet} {c : Char} :
    (n.subsetMachine start).next active c = none ↔ n.move active c = ∅ := by
  simp only [subsetMachine, ite_eq_left_iff, reduceCtorEq, imp_false, OrderedSet.isEmpty_iff,
    Decidable.not_not]

/-- **The machine runs through the sets that words lead to, as long as they are not empty.** -/
theorem run_subsetMachine {active next : StateSet} (hActive : active ≠ ∅) {word : Text} :
    (n.subsetMachine start).run active word = some next ↔
      n.reached active word = next ∧ next ≠ ∅ := by
  induction word generalizing active with
  | nil =>
      rw [Machine.run_nil, Option.some.injEq, reached_nil]
      refine ⟨?_, ?_⟩
      · rintro rfl
        exact ⟨rfl, hActive⟩
      · exact And.left
  | cons c word ih =>
      rw [Machine.run_cons, reached_cons]
      by_cases hMove : n.move active c = ∅
      · rw [next_subsetMachine_eq_none.mpr hMove, hMove, reached_empty, Option.bind_none]
        refine ⟨?_, ?_⟩
        · intro h
          exact absurd h.symm (Option.some_ne_none next)
        · intro h
          rcases h with ⟨rfl, hNonempty⟩
          exact absurd rfl hNonempty
      · rw [next_subsetMachine.mpr ⟨rfl, hMove⟩, Option.bind_some]
        exact ih hMove

theorem singleton_ne_empty (s : State) : OrderedSet.singleton s ≠ (∅ : StateSet) := by
  intro h
  exact OrderedSet.not_mem_empty s (h ▸ OrderedSet.mem_singleton.mpr rfl)

theorem within_subsetMachine (n : Nfa) (start : State) :
    (n.subsetMachine start).Within n.alphabet := by
  intro active c next hNext
  obtain ⟨rfl, hNonempty⟩ := next_subsetMachine.mp hNext
  rw [ne_eq, OrderedSet.eq_empty_iff, not_forall_not] at hNonempty
  obtain ⟨q, hq⟩ := hNonempty
  obtain ⟨p, _, hMove⟩ := mem_move.mp hq
  exact Automaton.mem_alphabet_of_mem hMove

/-! ### The number of sets -/

theorem mem_characterTargets_of_mem {p q : State} {c : Char}
    (h : ⟨p, .char c, q⟩ ∈ n.transitions) : q ∈ n.characterTargets := by
  rw [characterTargets, OrderedSet.mem_ofList, List.mem_filterMap]
  exact ⟨_, h, by simp⟩

/-- No set that can be met is empty, and apart from the start it holds targets only. -/
theorem ne_empty_of_reachable {subset : StateSet}
    (h : Exploration.Reachable ((n.subsetMachine start).successors n.alphabet)
      [.singleton start] subset) :
    subset ≠ ∅ ∧ (subset = .singleton start ∨ ∀ q ∈ subset, q ∈ n.characterTargets) := by
  refine h.mem_of_closed (p := fun s => s ≠ ∅ ∧
    (s = .singleton start ∨ ∀ q ∈ s, q ∈ n.characterTargets)) ?_ ?_
  · intro s hs
    obtain rfl := List.mem_singleton.mp hs
    exact ⟨singleton_ne_empty start, Or.inl rfl⟩
  · intro active _ next hNext
    obtain ⟨c, _, hStep⟩ := Machine.mem_successors.mp hNext
    obtain ⟨rfl, hNonempty⟩ := next_subsetMachine.mp hStep
    refine ⟨hNonempty, Or.inr ?_⟩
    intro q hq
    obtain ⟨p, _, hMove⟩ := mem_move.mp hq
    exact mem_characterTargets_of_mem hMove

theorem toList_sublist {s t : StateSet} (h : ∀ q ∈ s, q ∈ t) : s.toList.Sublist t.toList := by
  rw [← OrderedSet.filter_mem_eq h]
  exact List.filter_sublist

/-- The list that tells a set from the others that are met. The start need not hold targets, but no
set is empty, so the start can have the list of the empty set. -/
def codeOf (start : State) (subset : StateSet) : List State :=
  if subset = .singleton start then [] else subset.toList

theorem codeOf_start (start : State) : codeOf start (.singleton start) = [] := if_pos rfl

theorem codeOf_of_ne {subset : StateSet} (h : subset ≠ .singleton start) :
    codeOf start subset = subset.toList := if_neg h

theorem codeOf_ne_nil {subset : StateSet} (h : subset ≠ .singleton start) (hEmpty : subset ≠ ∅) :
    codeOf start subset ≠ [] := by
  rw [codeOf_of_ne h]
  intro hNil
  exact hEmpty (OrderedSet.eq_of_toList_eq hNil)

theorem codeOf_injective {s t : StateSet} (hs : s ≠ ∅) (ht : t ≠ ∅)
    (h : codeOf start s = codeOf start t) : s = t := by
  by_cases hsStart : s = .singleton start
  · subst hsStart
    by_contra hNe
    rw [codeOf_start] at h
    exact codeOf_ne_nil (Ne.symm hNe) ht h.symm
  · by_cases htStart : t = .singleton start
    · subst htStart
      rw [codeOf_start] at h
      exact absurd h (codeOf_ne_nil hsStart hs)
    · rw [codeOf_of_ne hsStart, codeOf_of_ne htStart] at h
      exact OrderedSet.eq_of_toList_eq h

/-- **The bound covers the exploration.** The sets that are met are told apart by sublists of the
list of targets. -/
theorem covers_subsets (n : Nfa) (start : State) :
    Exploration.Covers ((n.subsetMachine start).successors n.alphabet)
      [(n.subsetMachine start).start] n.subsetBound := by
  intro l hNodup hReach
  have hMet : ∀ s ∈ l, s ≠ ∅ ∧ (s = .singleton start ∨ ∀ q ∈ s, q ∈ n.characterTargets) :=
    fun s hs => ne_empty_of_reachable (hReach s hs)
  have hCodes : (l.map (codeOf start)).Nodup :=
    hNodup.map_on fun s hs t ht => codeOf_injective (hMet s hs).1 (hMet t ht).1
  have hSub : l.map (codeOf start) ⊆ n.characterTargets.toList.sublists := by
    intro x hx
    obtain ⟨s, hs, rfl⟩ := List.mem_map.mp hx
    rw [List.mem_sublists]
    by_cases hStart : s = .singleton start
    · rw [hStart, codeOf_start]
      exact List.nil_sublist _
    · rw [codeOf_of_ne hStart]
      exact toList_sublist ((hMet s hs).2.resolve_left hStart)
  calc l.length = (l.map (codeOf start)).length := (List.length_map _).symm
    _ ≤ n.characterTargets.toList.sublists.length := hCodes.length_le_of_subset hSub
    _ = n.subsetBound := List.length_sublists _

theorem numbered_subsets (n : Nfa) (start : State) :
    (n.subsetMachine start).Numbered
      ((n.subsetMachine start).nodes n.alphabet n.subsetBound) :=
  Machine.numbered_nodes (within_subsetMachine n start) (covers_subsets n start)

/-! ### The deterministic automaton -/

/-- What determinization returns when there are no empty moves and an initial state. -/
theorem subsetConstruction_eq (hEps : n.hasEpsilon = false) (hStart : n.initial = some start) :
    n.subsetConstruction =
      .ok ⟨(n.subsetMachine start).number n.alphabet
          ((n.subsetMachine start).nodes n.alphabet n.subsetBound),
        (n.subsetMachine start).nodes n.alphabet n.subsetBound⟩ := by
  rw [subsetConstruction, hEps, Automaton.initialState, hStart]
  rfl

theorem subsetConstruction_of_not_initial (hEps : n.hasEpsilon = false)
    (hStart : n.initial = none) : n.subsetConstruction = .error .noInitial := by
  rw [subsetConstruction, hEps, Automaton.initialState, hStart]
  rfl

theorem initial_of_subsetConstruction {d : Determinized} (h : n.subsetConstruction = .ok d) :
    n.hasEpsilon = false ∧ ∃ start, n.initial = some start := by
  cases hEps : n.hasEpsilon with
  | true =>
      rw [subsetConstruction, hEps] at h
      cases h
  | false =>
      cases hStart : n.initial with
      | none =>
          rw [subsetConstruction_of_not_initial hEps hStart] at h
          cases h
      | some start => exact ⟨rfl, start, rfl⟩

/-- Whatever determinization returns is made of numbered sets. -/
theorem exists_numbered_of_subsetConstruction {d : Determinized}
    (h : n.subsetConstruction = .ok d) :
    ∃ start, (n.subsetMachine start).Numbered d.subsets ∧
      (n.subsetMachine start).number n.alphabet d.subsets = d.dfa := by
  obtain ⟨hEps, start, hStart⟩ := initial_of_subsetConstruction h
  rw [subsetConstruction_eq hEps hStart] at h
  obtain rfl := Except.ok.inj h
  exact ⟨start, numbered_subsets n start, rfl⟩

theorem determinize_eq (hEps : n.hasEpsilon = false) (hStart : n.initial = some start) :
    n.determinize = .ok ((n.subsetMachine start).toDfa n.alphabet n.subsetBound) := by
  rw [determinize, subsetConstruction_eq hEps hStart]
  rfl

theorem determinize_eq_epsilonPresent_iff :
    n.determinize = .error .epsilonPresent ↔ n.hasEpsilon = true := by
  cases hEps : n.hasEpsilon with
  | true =>
      rw [determinize, subsetConstruction, hEps]
      exact iff_of_true rfl rfl
  | false =>
      refine ⟨fun h => ?_, fun h => absurd h (by decide)⟩
      cases hStart : n.initial with
      | none =>
          rw [determinize, subsetConstruction_of_not_initial hEps hStart] at h
          cases h
      | some start =>
          rw [determinize_eq hEps hStart] at h
          cases h

theorem exists_determinize_iff (hStart : n.initial = some start) :
    (∃ d, n.determinize = .ok d) ↔ n.hasEpsilon = false := by
  refine ⟨fun h => ?_, fun hEps => ⟨_, determinize_eq hEps hStart⟩⟩
  obtain ⟨d, hOk⟩ := h
  rw [← Bool.not_eq_true, ← determinize_eq_epsilonPresent_iff, hOk]
  exact fun hError => by cases hError

theorem exists_toDfa_of_determinize {d : Dfa} (h : n.determinize = .ok d) :
    ∃ start, (n.subsetMachine start).toDfa n.alphabet n.subsetBound = d := by
  cases hSubsets : n.subsetConstruction with
  | error e =>
      rw [determinize, hSubsets] at h
      cases h
  | ok r =>
      obtain ⟨hEps, start, hStart⟩ := initial_of_subsetConstruction hSubsets
      rw [determinize_eq hEps hStart] at h
      exact ⟨start, Except.ok.inj h⟩

/-- A determinized automaton follows the sets of states that words lead to from `start`. -/
structure Determinized.Tracks (d : Determinized) (n : Nfa) (start : State) : Prop where
  /-- There is a run on a word when the word leads somewhere. -/
  runs : ∀ word, (∃ q, n.Spells start word q) ↔
    ∃ states k, d.dfa.stateSequence word = .ok (some states) ∧ states.getLast? = some k
  /-- The run ends in the state whose set is what the word leads to. -/
  follows : ∀ word states k, d.dfa.stateSequence word = .ok (some states) →
    states.getLast? = some k →
      ∃ subset, d.subsets[k]? = some subset ∧ ∀ q, q ∈ subset ↔ n.Spells start word q
  /-- There is no run on a word when the word leads nowhere. -/
  stops : ∀ word, d.dfa.stateSequence word = .ok none ↔ ∀ q, ¬ n.Spells start word q
  /-- The final states are those whose set holds a final state. -/
  final : ∀ k, d.dfa.isFinal k = true ↔
    ∃ subset, d.subsets[k]? = some subset ∧ ∃ q ∈ subset, q ∈ n.finals
  /-- Each state has its set, and the sets are different and not empty. -/
  count : d.subsets.length = d.dfa.stateCount
  first : d.subsets[0]? = some (.singleton start)
  nonempty : ∀ subset ∈ d.subsets, subset ≠ ∅
  nodup : d.subsets.Nodup
  /-- Each set is what some word leads to. -/
  spelled : ∀ subset ∈ d.subsets, ∃ word, ∀ q, q ∈ subset ↔ n.Spells start word q

section Numbered

variable {found : List StateSet}

/-- The run of the numbered automaton ends in the place of the set that the word leads to. -/
theorem destination_subsets (hEps : n.hasEpsilon = false)
    (h : (n.subsetMachine start).Numbered found) {word : Text} {k : State} :
    ((n.subsetMachine start).number n.alphabet found).destination 0 word = some k ↔
      ∃ subset, found[k]? = some subset ∧ subset ≠ ∅ ∧
        ∀ q, q ∈ subset ↔ n.Spells start word q := by
  rw [Machine.destination_number_eq_some_iff (within_subsetMachine n start) h]
  have hRun : ∀ subset, (n.subsetMachine start).run (.singleton start) word = some subset ↔
      n.reached (.singleton start) word = subset ∧ subset ≠ ∅ := fun subset =>
    run_subsetMachine (singleton_ne_empty start)
  refine ⟨?_, ?_⟩
  · intro hExists
    rcases hExists with ⟨subset, hSubset, hk⟩
    obtain ⟨rfl, hNonempty⟩ := (hRun subset).mp hSubset
    exact ⟨_, hk, hNonempty, fun q => mem_reached_singleton hEps⟩
  · intro hExists
    rcases hExists with ⟨subset, hk, hNonempty, hMem⟩
    refine ⟨subset, (hRun subset).mpr ⟨?_, hNonempty⟩, hk⟩
    exact OrderedSet.ext fun q => (mem_reached_singleton hEps).trans (hMem q).symm

/-- Each listed set is nonempty and what some word leads to. -/
theorem exists_word_of_mem (hEps : n.hasEpsilon = false)
    (h : (n.subsetMachine start).Numbered found) {subset : StateSet} (hMem : subset ∈ found) :
    subset ≠ ∅ ∧ ∃ word, ∀ q, q ∈ subset ↔ n.Spells start word q := by
  obtain ⟨word, hRun⟩ := (h.mem_iff subset).mp hMem
  obtain ⟨rfl, hNonempty⟩ := (run_subsetMachine (singleton_ne_empty start)).mp hRun
  exact ⟨hNonempty, word, fun q => mem_reached_singleton hEps⟩

theorem exists_destination_subsets (hEps : n.hasEpsilon = false)
    (h : (n.subsetMachine start).Numbered found) {word : Text} {q : State}
    (hq : n.Spells start word q) :
    ∃ k, ((n.subsetMachine start).number n.alphabet found).destination 0 word = some k := by
  let subset := n.reached (.singleton start) word
  have hNonempty : subset ≠ ∅ := fun hEmpty =>
    OrderedSet.not_mem_empty q (hEmpty ▸ (mem_reached_singleton hEps).mpr hq)
  have hRun : (n.subsetMachine start).run (.singleton start) word = some subset :=
    (run_subsetMachine (singleton_ne_empty start)).mpr ⟨rfl, hNonempty⟩
  have hMem : subset ∈ found := (h.mem_iff subset).mpr ⟨word, hRun⟩
  exact ⟨found.idxOf subset, (destination_subsets hEps h).mpr
    ⟨subset, Machine.getElem?_idxOf hMem, hNonempty, fun r => mem_reached_singleton hEps⟩⟩

theorem tracks_number (hEps : n.hasEpsilon = false)
    (h : (n.subsetMachine start).Numbered found) :
    Determinized.Tracks ⟨(n.subsetMachine start).number n.alphabet found, found⟩ n start := by
  have hInitial : ((n.subsetMachine start).number n.alphabet found).initial = some 0 := rfl
  constructor
  case runs =>
    intro word
    rw [exists_comm]
    simp only [Dfa.exists_stateSequence_iff hInitial]
    refine ⟨?_, ?_⟩
    · intro hExists
      rcases hExists with ⟨q, hq⟩
      exact exists_destination_subsets hEps h hq
    · intro hExists
      rcases hExists with ⟨k, hk⟩
      obtain ⟨subset, _, hNonempty, hMem⟩ := (destination_subsets hEps h).mp hk
      rw [ne_eq, OrderedSet.eq_empty_iff, not_forall_not] at hNonempty
      obtain ⟨q, hq⟩ := hNonempty
      exact ⟨q, (hMem q).mp hq⟩
  case follows =>
    intro word states k hStates hLast
    have hDest := (Dfa.exists_stateSequence_iff hInitial).mp ⟨states, hStates, hLast⟩
    obtain ⟨subset, hk, _, hMem⟩ := (destination_subsets hEps h).mp hDest
    exact ⟨subset, hk, hMem⟩
  case stops =>
    intro word
    rw [Dfa.stateSequence_eq_none_iff hInitial, Option.eq_none_iff_forall_ne_some]
    refine ⟨?_, ?_⟩
    · intro hNone q hq
      obtain ⟨k, hk⟩ := exists_destination_subsets hEps h hq
      exact hNone k hk
    · intro hNone k hk
      obtain ⟨subset, _, hNonempty, hMem⟩ := (destination_subsets hEps h).mp hk
      refine hNonempty (OrderedSet.eq_empty_iff.mpr fun q hq => ?_)
      exact hNone q ((hMem q).mp hq)
  case final =>
    intro k
    simp only [Machine.isFinal_number, subsetMachine, anyFinal_iff]
  case count => rfl
  case first => exact h.getElem?_zero
  case nonempty => exact fun subset hMem => (exists_word_of_mem hEps h hMem).1
  case nodup => exact h.nodup
  case spelled => exact fun subset hMem => (exists_word_of_mem hEps h hMem).2

end Numbered

/-- **Determinization follows all paths at once.** Without empty moves and with an initial state it
returns an automaton whose states are the sets of states that words lead to. -/
theorem subsetConstruction_tracks (n : Nfa) (start : State) (hEps : n.hasEpsilon = false)
    (hStart : n.initial = some start) :
    ∃ d, n.subsetConstruction = .ok d ∧ d.Tracks n start :=
  ⟨_, subsetConstruction_eq hEps hStart, tracks_number hEps (numbered_subsets n start)⟩

/-- Words over two letters that end in `ab`; state 0 stays where it is or guesses the end. -/
def endsInAb : Nfa :=
  Edit.attemptAll (.withStates .nfa 3)
    [.markInitial 0, .markFinal 2, .addTransition 0 'a' 0, .addTransition 0 'b' 0,
      .addTransition 0 'a' 1, .addTransition 1 'b' 2]

theorem subsetConstruction_endsInAb :
    endsInAb.hasEpsilon = false ∧ endsInAb.initial = some 0 ∧
      ∃ d, endsInAb.subsetConstruction = .ok d ∧ d.Tracks endsInAb 0 :=
  ⟨by decide, by decide, subsetConstruction_tracks endsInAb 0 (by decide) (by decide)⟩

end Automata.Nfa
