import Automata.Proofs.Automaton.WellFormed
import Automata.Proofs.Conversion.Subsets
import Automata.Proofs.Machine.NarrowWalk

/-! # How many turns determinization takes

The sets of states that are met are not empty, and a well-formed automaton with `n` states has
`2 ^ n - 1` sets to offer (`length_le_of_proper`). That many turns can be needed for any `n`: in
`sieve n` one letter fills the set, and then each of `n` letters moves all states on and lets the
last one around or drops it, so every nonempty set is met (`proper_mem_sieve`).

Up to 32 states the sets can therefore be counted with 32 bits, and a walk that cuts its numbers
down makes the automaton that determinization returns.
-/

namespace Automata.Nfa

open Exploration (Covers Reachable)

variable {n : Nfa} {start : State} {count : Nat}

/-! ### The number of proper sets -/

/-- A set that can be met in an automaton with `count` states: not empty, and of its states only. -/
def Proper (count : Nat) (subset : StateSet) : Prop :=
  subset ≠ ∅ ∧ ∀ q ∈ subset, q < count

def properLists (count : Nat) : List (List State) := (List.range count).sublists.erase []

theorem nodup_sublists_range (count : Nat) : (List.range count).sublists.Nodup :=
  List.nodup_sublists.mpr List.nodup_range

theorem nodup_properLists (count : Nat) : (properLists count).Nodup :=
  (nodup_sublists_range count).erase []

theorem length_properLists (count : Nat) : (properLists count).length = Nat.pow 2 count - 1 := by
  rw [properLists, List.length_erase_of_mem (List.mem_sublists.mpr (List.nil_sublist _)),
    List.length_sublists, List.length_range]
  rfl

theorem mem_properLists {l : List State} :
    l ∈ properLists count ↔ l ≠ [] ∧ l.Sublist (List.range count) := by
  rw [properLists, (nodup_sublists_range count).mem_erase_iff, List.mem_sublists]

theorem Proper.toList_mem {subset : StateSet} (h : Proper count subset) :
    subset.toList ∈ properLists count := by
  refine mem_properLists.mpr ⟨fun hNil => h.1 (OrderedSet.eq_of_toList_eq hNil), ?_⟩
  exact toList_sublist (t := .below count) fun q hq => OrderedSet.mem_below.mpr (h.2 q hq)

theorem exists_proper_of_mem {l : List State} (h : l ∈ properLists count) :
    ∃ subset, Proper count subset ∧ subset.toList = l := by
  obtain ⟨hNe, hSub⟩ := mem_properLists.mp h
  refine ⟨⟨l, (OrderedSet.below count).ascending.sublist hSub⟩, ⟨fun hEmpty => ?_, ?_⟩, rfl⟩
  · exact hNe (congrArg OrderedSet.toList hEmpty)
  · exact fun q hq => List.mem_range.mp (hSub.subset hq)

/-- **There are no more than `2 ^ count - 1` proper sets.** -/
theorem length_le_of_proper {found : List StateSet} (hNodup : found.Nodup)
    (hProper : ∀ s ∈ found, Proper count s) : found.length ≤ Nat.pow 2 count - 1 := by
  have hLists : (found.map OrderedSet.toList).Nodup :=
    hNodup.map fun _ _ => OrderedSet.eq_of_toList_eq
  have hSub : found.map OrderedSet.toList ⊆ properLists count := by
    intro l hl
    obtain ⟨s, hs, rfl⟩ := List.mem_map.mp hl
    exact (hProper s hs).toList_mem
  calc found.length = (found.map OrderedSet.toList).length := (List.length_map _).symm
    _ ≤ (properLists count).length := hLists.length_le_of_subset hSub
    _ = Nat.pow 2 count - 1 := length_properLists count

/-- There are no fewer, either. -/
theorem le_length_of_proper {found : List StateSet} (h : ∀ s, Proper count s → s ∈ found) :
    Nat.pow 2 count - 1 ≤ found.length := by
  have hSub : properLists count ⊆ found.map OrderedSet.toList := by
    intro l hl
    obtain ⟨s, hs, rfl⟩ := exists_proper_of_mem hl
    exact List.mem_map_of_mem (h s hs)
  calc Nat.pow 2 count - 1 = (properLists count).length := (length_properLists count).symm
    _ ≤ (found.map OrderedSet.toList).length := (nodup_properLists count).length_le_of_subset hSub
    _ = found.length := List.length_map _

/-! ### The sets that are met -/

theorem proper_of_reachable (hWf : n.WellFormed) (hStart : n.initial = some start)
    {subset : StateSet}
    (h : Reachable ((n.subsetMachine start).successors n.alphabet) [.singleton start] subset) :
    Proper n.stateCount subset := by
  refine h.mem_of_closed (p := Proper n.stateCount) ?_ ?_
  · intro s hs
    obtain rfl := List.mem_singleton.mp hs
    refine ⟨singleton_ne_empty start, fun q hq => ?_⟩
    rw [OrderedSet.mem_singleton.mp hq]
    exact hWf.initial start hStart
  · intro active _ next hNext
    obtain ⟨c, _, hStep⟩ := Machine.mem_successors.mp hNext
    obtain ⟨rfl, hNonempty⟩ := next_subsetMachine.mp hStep
    refine ⟨hNonempty, fun q hq => ?_⟩
    obtain ⟨p, _, hMove⟩ := mem_move.mp hq
    exact hWf.target _ hMove

theorem covers_proper (hWf : n.WellFormed) (hStart : n.initial = some start) :
    Covers ((n.subsetMachine start).successors n.alphabet) [(n.subsetMachine start).start]
      (Nat.pow 2 n.stateCount - 1) := fun _ hNodup hReach =>
  length_le_of_proper hNodup fun s hs => proper_of_reachable hWf hStart (hReach s hs)

/-! ### Automata that meet all proper sets -/

/-- Where a state of the sieve moves. On `a` state 0 moves to all states, and the others nowhere. On
`d` and on `k` a state moves to the next one; the last state moves nowhere on `d`, and round to 0 on
`k`. -/
def sieveMoves (count : Nat) (s : State) (c : Char) : StateSet :=
  (OrderedSet.below count).filter fun q =>
    c = 'a' ∧ s = 0 ∨ c ≠ 'a' ∧ q = s + 1 ∨ c = 'k' ∧ s + 1 = count ∧ q = 0

def sieveLetters : List Char := ['a', 'd', 'k']

def sieveRow (count : Nat) (s : State) : Row .nfa :=
  .tabulate (.ofList (sieveLetters.map Symbol.char)) fun x =>
    match x with
    | .char c =>
        let states := sieveMoves count s c
        if states.isEmpty then none else some states
    | .epsilon => none

/-- The sieve with `count` states. -/
def sieve (count : Nat) : Nfa where
  stateCount := count
  initial := some 0
  finals := ∅
  rows := .tabulate (.below count) fun s => some (sieveRow count s)

theorem mem_sieveMoves {s q : State} {c : Char} :
    q ∈ sieveMoves count s c ↔ q < count ∧
      (c = 'a' ∧ s = 0 ∨ c ≠ 'a' ∧ q = s + 1 ∨ c = 'k' ∧ s + 1 = count ∧ q = 0) := by
  rw [sieveMoves, OrderedSet.mem_filter, OrderedSet.mem_below, decide_eq_true_iff]

theorem get?_sieveRow {s : State} {x : Symbol} {states : StateSet} :
    (sieveRow count s).get? x = some states ↔
      ∃ c ∈ sieveLetters, .char c = x ∧ sieveMoves count s c = states ∧ states ≠ ∅ := by
  rw [sieveRow, Table.get?_tabulate_eq_some_iff, OrderedSet.mem_ofList, List.mem_map]
  cases x with
  | epsilon => simp
  | char c =>
      rw [ite_none_some_eq_some_iff (p := fun s : StateSet => s.isEmpty = true),
        OrderedSet.isEmpty_iff]
      simp

theorem target?_sieve {s : State} {x : Symbol} {states : StateSet} :
    (sieve count).target? s x = some states ↔
      s < count ∧ ∃ c ∈ sieveLetters, .char c = x ∧ sieveMoves count s c = states ∧
        states ≠ ∅ := by
  rw [Automaton.target?_eq_some_iff, ← get?_sieveRow]
  simp [sieve, Table.get?_tabulate_eq_some_iff, and_assoc]

theorem mem_transitions_sieve {s q : State} {x : Symbol} :
    ⟨s, x, q⟩ ∈ (sieve count).transitions ↔
      s < count ∧ ∃ c ∈ sieveLetters, .char c = x ∧ q ∈ sieveMoves count s c := by
  rw [← Automaton.mem_targets, Automaton.mem_targets_iff]
  refine ⟨?_, ?_⟩
  · rintro ⟨states, hTarget, hq⟩
    obtain ⟨hs, c, hc, hx, rfl, _⟩ := target?_sieve.mp hTarget
    exact ⟨hs, c, hc, hx, hq⟩
  · rintro ⟨hs, c, hc, hx, hq⟩
    refine ⟨_, target?_sieve.mpr ⟨hs, c, hc, hx, rfl, fun hEmpty => ?_⟩, hq⟩
    exact OrderedSet.not_mem_empty q (hEmpty ▸ hq)

theorem hasEpsilon_sieve (count : Nat) : (sieve count).hasEpsilon = false := by
  rw [← Bool.not_eq_true, Automaton.hasEpsilon_iff]
  rintro ⟨s, states, hTarget⟩
  obtain ⟨_, c, _, hx, _⟩ := target?_sieve.mp hTarget
  cases hx

theorem wellFormed_sieve (hCount : 0 < count) : (sieve count).WellFormed where
  initial s hs := Option.some.inj hs ▸ hCount
  finals s hs := absurd hs (OrderedSet.not_mem_empty s)
  source t ht := (mem_transitions_sieve.mp ht).1
  target t ht := by
    obtain ⟨_, c, _, _, hq⟩ := mem_transitions_sieve.mp ht
    exact (mem_sieveMoves.mp hq).1
  noEmpty hKind := by cases hKind

theorem mem_move_sieve {active : StateSet} {c : Char} {q : State} (hc : c ∈ sieveLetters) :
    q ∈ (sieve count).move active c ↔ ∃ p ∈ active, p < count ∧ q ∈ sieveMoves count p c := by
  rw [mem_move]
  refine exists_congr fun p => and_congr_right fun _ => ?_
  rw [mem_transitions_sieve]
  simp [hc]

/-- What is left of all states when `left` letters are still to come: a state that has not been the
last one yet, and one that has if it is going to end in `subset`. -/
def sieved (count : Nat) (subset : StateSet) (left : Nat) : StateSet :=
  (OrderedSet.below count).filter fun q => count ≤ q + left ∨ q + left ∈ subset

/-- The letter that is followed by `left` others. The last state would go round to 0 and end in
`left`, so it is dropped unless `subset` has that state. -/
def sieveLetter (subset : StateSet) (left : Nat) : Char := if left ∈ subset then 'k' else 'd'

theorem sieveLetter_mem (subset : StateSet) (left : Nat) :
    sieveLetter subset left ∈ sieveLetters := by
  rw [sieveLetter]
  split <;> decide

/-- The letters that leave `subset`, one for each of the first `left` states, last state first. -/
def sieveWord (subset : StateSet) : Nat → Text
  | 0 => []
  | left + 1 => sieveLetter subset left :: sieveWord subset left

theorem mem_sieved {subset : StateSet} {left : Nat} {q : State} :
    q ∈ sieved count subset left ↔ q < count ∧ (count ≤ q + left ∨ q + left ∈ subset) := by
  rw [sieved, OrderedSet.mem_filter, OrderedSet.mem_below, decide_eq_true_iff]

theorem move_fill (subset : StateSet) (hCount : 0 < count) :
    (sieve count).move (.singleton 0) 'a' = sieved count subset count := by
  apply OrderedSet.ext
  intro q
  rw [mem_move_sieve (by decide), mem_sieved]
  simp only [OrderedSet.mem_singleton, mem_sieveMoves, exists_eq_left]
  refine ⟨fun h => ⟨h.2.1, Or.inl (Nat.le_add_left _ _)⟩, fun h => ?_⟩
  exact ⟨hCount, h.1, Or.inl ⟨trivial, trivial⟩⟩

theorem mem_sieveMoves_sieveLetter {subset : StateSet} {left : Nat} {p q : State} :
    q ∈ sieveMoves count p (sieveLetter subset left) ↔
      q < count ∧ (q = p + 1 ∨ left ∈ subset ∧ p + 1 = count ∧ q = 0) := by
  rw [mem_sieveMoves, sieveLetter]
  split <;> simp [*]

/-- **Each further letter decides about the last state**, and the others move on. -/
theorem move_sieved {subset : StateSet} {left : Nat} (hLeft : left < count) :
    (sieve count).move (sieved count subset (left + 1)) (sieveLetter subset left) =
      sieved count subset left := by
  apply OrderedSet.ext
  intro q
  rw [mem_move_sieve (sieveLetter_mem subset left), mem_sieved]
  simp only [mem_sieved, mem_sieveMoves_sieveLetter]
  cases q with
  | zero =>
      -- only the last state leads to state 0
      rw [Nat.zero_add]
      refine ⟨?_, ?_⟩
      · rintro ⟨p, _, _, hq, hNext | ⟨hMem, _⟩⟩
        · exact absurd hNext (Nat.succ_ne_zero p).symm
        · exact ⟨hq, Or.inr hMem⟩
      · rintro ⟨hq, hLe | hMem⟩
        · exact absurd hLeft (Nat.not_lt.mpr hLe)
        · obtain ⟨last, rfl⟩ := Nat.exists_eq_add_one.mpr hq
          have hLast : last + 1 ≤ last + (left + 1) := by omega
          exact ⟨last, ⟨Nat.lt_succ_self last, Or.inl hLast⟩, Nat.lt_succ_self last, hq,
            Or.inr ⟨hMem, rfl, rfl⟩⟩
  | succ q =>
      -- only the state before leads to any other, and it ends in the same place
      rw [Nat.succ_add_eq_add_succ]
      refine ⟨?_, ?_⟩
      · rintro ⟨p, ⟨_, hp⟩, _, hq, hNext | ⟨_, _, hZero⟩⟩
        · exact ⟨hq, Nat.succ.inj hNext ▸ hp⟩
        · exact absurd hZero (Nat.succ_ne_zero q)
      · rintro ⟨hq, h⟩
        exact ⟨q, ⟨Nat.lt_of_succ_lt hq, h⟩, Nat.lt_of_succ_lt hq, hq, Or.inl rfl⟩

theorem reached_sieveWord {subset : StateSet} {left : Nat} (hLeft : left ≤ count) :
    (sieve count).reached (sieved count subset left) (sieveWord subset left) =
      sieved count subset 0 := by
  induction left with
  | zero => rfl
  | succ left ih =>
      rw [sieveWord, reached_cons, move_sieved hLeft, ih (Nat.le_of_succ_le hLeft)]

theorem sieved_zero {subset : StateSet} (h : ∀ q ∈ subset, q < count) :
    sieved count subset 0 = subset := by
  apply OrderedSet.ext
  intro q
  rw [mem_sieved, Nat.add_zero]
  refine ⟨?_, fun hq => ⟨h q hq, Or.inr hq⟩⟩
  rintro ⟨hq, hLe | hMem⟩
  · exact absurd hq (Nat.not_lt.mpr hLe)
  · exact hMem

/-- **Every proper set is what some word leads to.** -/
theorem exists_reached_sieve {subset : StateSet} (hCount : 0 < count)
    (h : ∀ q ∈ subset, q < count) :
    ∃ word, (sieve count).reached (.singleton 0) word = subset :=
  ⟨'a' :: sieveWord subset count, by
    rw [reached_cons, move_fill subset hCount, reached_sieveWord le_rfl, sieved_zero h]⟩

/-! ### Turns -/

section Turns

variable {taken : List (StateSet × State)} {w : NarrowWalk StateSet}

/-- What holds of determinization after it has taken some numbered sets from the queue, in turn. -/
structure Bounded (n : Nfa) (taken : List (StateSet × State)) (w : NarrowWalk StateSet) :
    Prop where
  /-- The sets met are nonempty sets of states, and each was put in the queue once. -/
  proper : ∀ subset ∈ w.met, subset ≠ ∅ ∧ ∀ q ∈ subset, q < n.stateCount
  queued : w.queued = w.met
  once : w.queued.Nodup
  /-- Those taken and those that wait are all the numbered sets, in this order. -/
  named : w.numbers.map Prod.fst = w.met
  served : taken ++ w.queue = w.numbers
  turns : taken.length ≤ Nat.pow 2 n.stateCount - 1
  /-- Of up to 32 states no count of sets is cut down, and different sets have different numbers. -/
  counts : n.stateCount ≤ 32 → ∀ count ≤ w.met.length, truncated count = count
  places : n.stateCount ≤ 32 → w.numbers = w.met.zipIdx
  different : n.stateCount ≤ 32 → (w.numbers.map Prod.snd).Nodup

/-- Up to 32 states leave no more sets than can be counted with 32 bits. -/
theorem pow_sub_one_le_stateLimit (h : count ≤ 32) : Nat.pow 2 count - 1 ≤ stateLimit :=
  Nat.sub_le_sub_right (Nat.pow_le_pow_right (by decide) h) 1

theorem length_met_le (hWf : n.WellFormed) (hStart : n.initial = some start)
    (h : NarrowWalk.After (n.subsetMachine start) n.alphabet taken w) :
    w.met.length ≤ Nat.pow 2 n.stateCount - 1 :=
  (h.length_le (covers_proper hWf hStart)).2

/-- **Each turn keeps within the bound.** -/
theorem bounded_after (hWf : n.WellFormed) (hStart : n.initial = some start)
    (h : NarrowWalk.After (n.subsetMachine start) n.alphabet taken w) : Bounded n taken w := by
  have hServed := h.served
  have hBound := h.length_le (covers_proper hWf hStart)
  have hLimit (hSmall : n.stateCount ≤ 32) : w.met.length ≤ stateLimit :=
    Nat.le_trans hBound.2 (pow_sub_one_le_stateLimit hSmall)
  constructor
  case proper => exact fun subset hMet => proper_of_reachable hWf hStart (h.reachable subset hMet)
  case queued => exact hServed.queued
  case once => exact hServed.once
  case named => rw [hServed.numbers, Walk.fst_numbersOf]
  case served => exact hServed.served
  case turns => exact Nat.le_trans hBound.1 hBound.2
  case counts =>
    exact fun hSmall count hCount => truncated_of_le (Nat.le_trans hCount (hLimit hSmall))
  case places =>
    exact fun hSmall => hServed.numbers.trans
      (Walk.numbersOf_eq_zipIdx (Nat.le_succ_of_le (hLimit hSmall)))
  case different =>
    intro hSmall
    rw [hServed.numbers]
    exact Walk.nodup_snd_numbersOf (Nat.le_succ_of_le (hLimit hSmall))

/-- When no set waits, all sets met have been taken, and they are those that determinization
returns. Up to 32 states the walk has made its automaton. -/
theorem subsetConstruction_of_after (hWf : n.WellFormed) (hEps : n.hasEpsilon = false)
    (hStart : n.initial = some start)
    (h : NarrowWalk.After (n.subsetMachine start) n.alphabet taken w)
    (hEnd : w.turn (n.subsetMachine start) n.alphabet = none) :
    taken.map Prod.fst = w.met ∧ ∃ d, n.subsetConstruction = .ok d ∧ d.subsets = w.met ∧
      (n.stateCount ≤ 32 → d.dfa = w.toDfa) := by
  refine ⟨?_, _, subsetConstruction_eq hEps hStart, ?_, fun hSmall => ?_⟩
  · rw [h.taken_eq hEnd, Walk.fst_numbersOf]
  · exact (h.met_eq (covers_subsets n start) hEnd).symm
  · have hCount : w.met.length ≤ stateLimit :=
      Nat.le_trans (length_met_le hWf hStart h) (pow_sub_one_le_stateLimit hSmall)
    exact (h.toDfa_eq (within_subsetMachine n start) (covers_subsets n start) hEnd hCount).symm

theorem proper_mem_sieve (hCount : 0 < count)
    (h : NarrowWalk.After ((sieve count).subsetMachine 0) (sieve count).alphabet taken w)
    (hEnd : w.turn ((sieve count).subsetMachine 0) (sieve count).alphabet = none)
    {subset : StateSet} (hProper : Proper count subset) : subset ∈ w.met := by
  obtain ⟨word, hReached⟩ := exists_reached_sieve hCount hProper.2
  rw [h.met_eq (covers_subsets (sieve count) 0) hEnd, (numbered_subsets (sieve count) 0).mem_iff]
  exact ⟨word, (run_subsetMachine (singleton_ne_empty 0)).mpr ⟨hReached, hProper.1⟩⟩

/-- **The bound is reached**: the sieve takes `2 ^ count - 1` turns. -/
theorem exists_after_sieve (hCount : 0 < count) :
    ∃ taken w, NarrowWalk.After ((sieve count).subsetMachine 0) (sieve count).alphabet taken w ∧
      taken.length = Nat.pow 2 count - 1 := by
  have hCovers := covers_proper (wellFormed_sieve hCount) (rfl : (sieve count).initial = some 0)
  obtain ⟨taken, w, hAfter, hEnd⟩ := NarrowWalk.exists_after_all hCovers
  have hTaken : taken.length = w.met.length := by
    rw [hAfter.taken_eq hEnd, Walk.length_numbersOf]
  refine ⟨taken, w, hAfter, Nat.le_antisymm ?_ ?_⟩
  · exact Nat.le_trans (hAfter.length_le hCovers).1 (hAfter.length_le hCovers).2
  · rw [hTaken]
    exact le_length_of_proper fun _ => proper_mem_sieve hCount hAfter hEnd

/-- **Determinization takes at most `2 ^ n - 1` turns for `n` states, and may take as many.** No set
is put in the queue twice, and no turn comes after all sets met have been taken. Up to 32 states,
numbers of 32 bits are enough. -/
theorem subsetConstruction_turns (n : Nfa) (start : State) (hWf : n.WellFormed)
    (hEps : n.hasEpsilon = false) (hStart : n.initial = some start) :
    (∀ taken w, NarrowWalk.After (n.subsetMachine start) n.alphabet taken w → Bounded n taken w) ∧
      (∃ taken w, NarrowWalk.After (n.subsetMachine start) n.alphabet taken w ∧
        w.turn (n.subsetMachine start) n.alphabet = none ∧ taken.map Prod.fst = w.met ∧
        ∃ d, n.subsetConstruction = .ok d ∧ d.subsets = w.met ∧
          (n.stateCount ≤ 32 → d.dfa = w.toDfa)) ∧
      ∃ s : Nfa, s.WellFormed ∧ s.hasEpsilon = false ∧ s.initial = some 0 ∧
        s.stateCount = n.stateCount ∧
        ∃ taken w, NarrowWalk.After (s.subsetMachine 0) s.alphabet taken w ∧
          taken.length = Nat.pow 2 n.stateCount - 1 := by
  have hCount : 0 < n.stateCount := Nat.zero_lt_of_lt (hWf.initial start hStart)
  refine ⟨fun _ _ => bounded_after hWf hStart, ?_, ?_⟩
  · obtain ⟨taken, w, hAfter, hEnd⟩ := NarrowWalk.exists_after_all (covers_proper hWf hStart)
    exact ⟨taken, w, hAfter, hEnd, subsetConstruction_of_after hWf hEps hStart hAfter hEnd⟩
  · exact ⟨sieve n.stateCount, wellFormed_sieve hCount, hasEpsilon_sieve _, rfl, rfl,
      exists_after_sieve hCount⟩

/-- Three states leave seven sets, so there are at most seven turns. -/
theorem subsetConstruction_turns_endsInAb :
    endsInAb.WellFormed ∧ endsInAb.hasEpsilon = false ∧ endsInAb.initial = some 0 ∧
      (∀ taken w, NarrowWalk.After (endsInAb.subsetMachine 0) endsInAb.alphabet taken w →
        taken.length ≤ 7 ∧ w.queued.Nodup) ∧
      ∃ taken w, NarrowWalk.After (endsInAb.subsetMachine 0) endsInAb.alphabet taken w ∧
        ∃ d, endsInAb.subsetConstruction = .ok d ∧ d.subsets = w.met ∧ d.dfa = w.toDfa := by
  have hWf : endsInAb.WellFormed := Automaton.validate_eq_ok_iff.mp (by decide)
  have hEps : endsInAb.hasEpsilon = false := by decide
  have hStart : endsInAb.initial = some 0 := by decide
  obtain ⟨hTurns, hEnd, _⟩ := subsetConstruction_turns endsInAb 0 hWf hEps hStart
  refine ⟨hWf, hEps, hStart, fun taken w hAfter => ?_, ?_⟩
  · exact ⟨(hTurns taken w hAfter).turns, (hTurns taken w hAfter).once⟩
  · obtain ⟨taken, w, hAfter, _, _, d, hOk, hSubsets, hDfa⟩ := hEnd
    exact ⟨taken, w, hAfter, d, hOk, hSubsets, hDfa (by decide)⟩

end Turns

end Automata.Nfa
