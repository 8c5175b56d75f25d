import Automata.Machine.NarrowWalk
import Automata.Proofs.Machine.Walk

/-! # Walks with numbers of 32 bits follow other walks

Cutting numbers down takes the notes of a walk to those of a walk with numbers of 32 bits
(`narrow`), whatever the numbers are: nodes are looked up by themselves and not by their numbers, so
the two walks meet the same nodes (`expand_narrow`). After each turn the notes are therefore those
of the nodes that exploration has expanded and of those that it has pending, with numbers cut down
(`After.exists_explores`). So nothing is put in the queue twice (`After.served`), and there are no
more turns than nodes that can be reached (`After.length_le`). As long as the nodes met can be
counted with 32 bits, no number is changed by cutting it down, and the automaton is that of the
machine (`After.toDfa_eq`).
-/

namespace Automata

open Exploration (fresh explore Explored Covers)

theorem truncated_of_le {count : Nat} (h : count ≤ stateLimit) : truncated count = count :=
  Nat.mod_eq_of_lt (Nat.lt_succ_of_le h)

theorem Transition.truncated_of_le {t : Transition} (hSource : t.source ≤ stateLimit)
    (hTarget : t.target ≤ stateLimit) : t.truncated = t := by
  rw [Transition.truncated, Automata.truncated_of_le hSource, Automata.truncated_of_le hTarget]

namespace Walk

variable {σ : Type}

/-- The number of each node of a list, cut down. -/
def numbersOf (met : List σ) : List (σ × State) :=
  met.zipIdx.map (Prod.map id truncated)

/-- The notes of a walk with its numbers cut down. -/
def narrow (w : Walk σ) : NarrowWalk σ where
  met := w.met
  queue := w.queue.map (Prod.map id truncated)
  finals := w.finals.map truncated
  moves := w.moves.map Transition.truncated
  numbers := numbersOf w.met
  queued := w.met

theorem fst_numbersOf (met : List σ) : (numbersOf met).map Prod.fst = met := by
  rw [numbersOf, List.map_map]
  exact List.zipIdx_map_fst 0 met

theorem length_numbersOf (met : List σ) : (numbersOf met).length = met.length := by
  rw [numbersOf, List.length_map, List.length_zipIdx]

theorem numbersOf_append (met new : List σ) :
    numbersOf (met ++ new) =
      numbersOf met ++ (new.zipIdx met.length).map (Prod.map id truncated) := by
  rw [numbersOf, List.zipIdx_append, List.map_append, Nat.zero_add, numbersOf]

theorem numbersOf_eq_zipIdx {met : List σ} (h : met.length ≤ stateLimit + 1) :
    numbersOf met = met.zipIdx := by
  refine (List.map_congr_left fun p hp => ?_).trans (List.map_id _)
  have hPlace : p.2 < met.length := by
    simpa using List.snd_lt_of_mem_zipIdx hp
  exact Prod.ext rfl (truncated_of_le (by omega))

theorem nodup_snd_numbersOf {met : List σ} (h : met.length ≤ stateLimit + 1) :
    ((numbersOf met).map Prod.snd).Nodup := by
  rw [numbersOf_eq_zipIdx h, List.zipIdx_map_snd]
  exact List.nodup_range'

end Walk

namespace NarrowWalk

open Walk (narrow numbersOf)

variable {σ : Type} [DecidableEq σ] {m : Machine σ} {alphabet : OrderedSet Char}

/-! ### One turn -/

/-- A node is looked up by itself, and its number is its place, cut down. -/
theorem lookup_map_zipIdx {met : List σ} {q : σ} {first : Nat} :
    ((met.zipIdx first).map (Prod.map id truncated)).lookup q =
      if q ∈ met then some (truncated (first + met.idxOf q)) else none := by
  induction met generalizing first with
  | nil => rfl
  | cons p met ih =>
      rw [List.zipIdx_cons, List.map_cons, Prod.map_apply, id, List.lookup_cons]
      by_cases hEq : q = p
      · subst hEq
        simp
      · rw [beq_false_of_ne hEq, ih, List.idxOf_cons_ne _ (Ne.symm hEq)]
        simp only [List.mem_cons, hEq, false_or, Nat.succ_eq_add_one]
        rw [Nat.add_right_comm, Nat.add_assoc]

theorem lookup_numbersOf_of_mem {met : List σ} {q : σ} (h : q ∈ met) :
    (numbersOf met).lookup q = some (truncated (met.idxOf q)) := by
  rw [numbersOf, lookup_map_zipIdx, if_pos h, Nat.zero_add]

theorem lookup_numbersOf_of_not_mem {met : List σ} {q : σ} (h : q ∉ met) :
    (numbersOf met).lookup q = none := by
  rw [numbersOf, lookup_map_zipIdx, if_neg h]

theorem meet_narrow (w : Walk σ) (q : σ) :
    (narrow w).meet q = (truncated ((w.meet q).met.idxOf q), narrow (w.meet q)) := by
  by_cases hMet : q ∈ w.met
  · have hLookup : (narrow w).numbers.lookup q = some (truncated (w.met.idxOf q)) :=
      lookup_numbersOf_of_mem hMet
    rw [meet, hLookup, Walk.meet, if_pos hMet]
  · have hLookup : (narrow w).numbers.lookup q = none := lookup_numbersOf_of_not_mem hMet
    have hPlace : (w.met ++ [q]).idxOf q = w.met.length := by
      rw [List.idxOf_append_of_notMem hMet, List.idxOf_cons_self, Nat.add_zero]
    rw [meet, hLookup, Walk.meet, if_neg hMet]
    simp only [narrow, hPlace, Walk.numbersOf_append, List.map_append, List.zipIdx_singleton,
      List.map_singleton, Prod.map_apply, id]

theorem follow_narrow (q : σ) (i : State) (w : Walk σ) (c : Char) :
    follow m q (truncated i) (narrow w) c = narrow (Walk.follow m q i w c) := by
  rw [follow, Walk.follow]
  cases m.next q c with
  | none => rfl
  | some r =>
      simp only [meet_narrow]
      simp only [narrow, List.map_append, List.map_singleton]
      rfl

omit [DecidableEq σ] in
theorem noteFinal_narrow (q : σ) (i : State) (w : Walk σ) :
    noteFinal m q (truncated i) (narrow w) = narrow (Walk.noteFinal m q i w) := by
  rw [noteFinal, Walk.noteFinal]
  by_cases hAccepting : m.accepting q = true
  · rw [if_pos hAccepting, if_pos hAccepting]
    simp only [narrow, List.map_append, List.map_singleton]
  · rw [if_neg hAccepting, if_neg hAccepting]

/-- **Both walks expand a node alike.** -/
theorem expand_narrow (q : σ) (i : State) (w : Walk σ) :
    expand m alphabet q (truncated i) (narrow w) = narrow (Walk.expand m alphabet q i w) := by
  rw [expand, Walk.expand, noteFinal_narrow]
  generalize Walk.noteFinal m q i w = v
  generalize alphabet.toList = cs
  induction cs generalizing v with
  | nil => rfl
  | cons c cs ih => rw [List.foldl_cons, List.foldl_cons, follow_narrow, ih]

theorem turn_eq_none_iff {w : NarrowWalk σ} : w.turn m alphabet = none ↔ w.queue = [] := by
  rw [turn]
  cases w.queue with
  | nil => exact iff_of_true rfl rfl
  | cons p queue => exact iff_of_false (Option.some_ne_none _) (List.cons_ne_nil _ _)

/-! ### All turns -/

/-- After some turns the notes are those of exploration, with numbers cut down: `done` have been
taken and expanded, last one first, and `pending` wait. -/
structure Explores (m : Machine σ) (alphabet : OrderedSet Char) (taken : List (σ × State))
    (w : NarrowWalk σ) (done pending : List σ) : Prop where
  explored : Explored (m.successors alphabet) [m.start] done pending
  taken : numbersOf done.reverse = taken
  notes : narrow (m.notes alphabet done pending) = w
  /-- Exploration goes on from here to what it finds from the start. -/
  onward : ∀ fuel, explore (m.successors alphabet) fuel done pending =
    m.nodes alphabet (done.length + fuel)

variable {taken : List (σ × State)} {w next : NarrowWalk σ} {done pending : List σ}

theorem explores_start : Explores m alphabet [] (.start m.start) [] [m.start] where
  explored := by
    have hStart : Explored (m.successors alphabet) [m.start] [] (fresh [] [] [m.start]) :=
      Exploration.explored_start
    rwa [Exploration.fresh_singleton] at hStart
  taken := rfl
  notes := rfl
  onward fuel := by
    rw [Machine.nodes, Exploration.discover, Exploration.fresh_singleton, List.length_nil,
      Nat.zero_add]

/-- **One turn is one expansion of exploration.** -/
theorem Explores.turn {p : σ × State} (h : Explores m alphabet taken w done pending)
    (hTurn : w.turn m alphabet = some (p, next)) :
    ∃ a rest, Explores m alphabet (taken ++ [p]) next (a :: done)
      (rest ++ fresh (a :: done) rest (m.successors alphabet a)) := by
  obtain rfl := h.notes
  cases pending with
  | nil => cases hTurn
  | cons a rest =>
      have hNotes : expand m alphabet a (truncated done.length) (narrow
          { m.notes alphabet done (a :: rest) with queue := rest.zipIdx (done.length + 1) }) =
          next := (Prod.mk.inj (Option.some.inj hTurn)).2
      obtain rfl : (a, truncated done.length) = p := (Prod.mk.inj (Option.some.inj hTurn)).1
      refine ⟨a, rest, h.explored.expand_head, ?_, ?_, fun fuel => ?_⟩
      · rw [List.reverse_cons, Walk.numbersOf_append, h.taken, List.length_reverse]
        rfl
      · rw [← hNotes, expand_narrow, Machine.expand_notes h.explored]
      · have hOnward := h.onward (fuel + 1)
        rw [explore] at hOnward
        rw [hOnward, List.length_cons, Nat.add_assoc, Nat.add_comm 1 fuel]

theorem After.exists_explores (h : After m alphabet taken w) :
    ∃ done pending, Explores m alphabet taken w done pending := by
  induction h with
  | start => exact ⟨[], [m.start], explores_start⟩
  | turn _ hTurn ih =>
      obtain ⟨done, pending, hExplores⟩ := ih
      obtain ⟨a, rest, hNext⟩ := hExplores.turn hTurn
      exact ⟨a :: done, _, hNext⟩

theorem Explores.length_taken (h : Explores m alphabet taken w done pending) :
    taken.length = done.length := by
  rw [← h.taken, Walk.length_numbersOf, List.length_reverse]

/-- What the queue has to do with the nodes met and with those taken, after any turns. -/
structure Served (taken : List (σ × State)) (w : NarrowWalk σ) : Prop where
  /-- The nodes met are those that were put in the queue, each once. -/
  queued : w.queued = w.met
  once : w.queued.Nodup
  /-- Each has a number, and those taken and those that wait are all there are, in order. -/
  numbers : w.numbers = numbersOf w.met
  served : taken ++ w.queue = w.numbers

/-- **Whatever is put in the queue is put there once, and is taken or waits.** -/
theorem After.served (h : After m alphabet taken w) : Served taken w := by
  obtain ⟨done, pending, hExplores⟩ := h.exists_explores
  obtain rfl := hExplores.notes
  refine ⟨rfl, ?_, rfl, ?_⟩
  · show (done.reverse ++ pending).Nodup
    exact ((List.reverse_perm done).append_right pending).nodup_iff.mpr hExplores.explored.nodup
  · show taken ++ (pending.zipIdx done.length).map (Prod.map id truncated) =
      numbersOf (done.reverse ++ pending)
    rw [Walk.numbersOf_append, hExplores.taken, List.length_reverse]

theorem After.reachable (h : After m alphabet taken w) :
    ∀ q ∈ w.met, Exploration.Reachable (m.successors alphabet) [m.start] q := by
  obtain ⟨done, pending, hExplores⟩ := h.exists_explores
  obtain rfl := hExplores.notes
  intro q hq
  refine hExplores.explored.sound q ?_
  rwa [List.mem_append, ← List.mem_reverse, ← List.mem_append]

/-- **There are no more turns than nodes that can be reached.** -/
theorem After.length_le {fuel : Nat} (h : After m alphabet taken w)
    (hFuel : Covers (m.successors alphabet) [m.start] fuel) :
    taken.length ≤ w.met.length ∧ w.met.length ≤ fuel := by
  have hServed := h.served
  have hMet : w.met.length = taken.length + w.queue.length := by
    rw [← List.length_append, hServed.served, hServed.numbers, Walk.length_numbersOf]
  exact ⟨by omega, hFuel w.met (hServed.queued ▸ hServed.once) h.reachable⟩

theorem exists_after (m : Machine σ) (alphabet : OrderedSet Char) (count : Nat) :
    ∃ taken w, After m alphabet taken w ∧ (w.turn m alphabet = none ∨ taken.length = count) := by
  induction count with
  | zero => exact ⟨[], _, .start, Or.inr rfl⟩
  | succ count ih =>
      obtain ⟨taken, w, hAfter, hEnd⟩ := ih
      cases hTurn : w.turn m alphabet with
      | none => exact ⟨taken, w, hAfter, Or.inl hTurn⟩
      | some p =>
          have hLength : taken.length = count := hEnd.resolve_left (by simp [hTurn])
          refine ⟨taken ++ [p.1], p.2, hAfter.turn hTurn, Or.inr ?_⟩
          rw [List.length_append, hLength, List.length_singleton]

/-- **The turns come to an end.** -/
theorem exists_after_all {fuel : Nat} (hFuel : Covers (m.successors alphabet) [m.start] fuel) :
    ∃ taken w, After m alphabet taken w ∧ w.turn m alphabet = none := by
  obtain ⟨taken, w, hAfter, hEnd⟩ := exists_after m alphabet (fuel + 1)
  refine ⟨taken, w, hAfter, hEnd.resolve_right fun hLength => ?_⟩
  have hBound := hAfter.length_le hFuel
  omega

/-! ### The end -/

/-- When no node waits, the notes are those of the nodes that exploration finds. -/
theorem After.eq_narrow_notes {fuel : Nat} (h : After m alphabet taken w)
    (hFuel : Covers (m.successors alphabet) [m.start] fuel) (hEnd : w.turn m alphabet = none) :
    narrow (m.notes alphabet (m.nodes alphabet fuel).reverse []) = w := by
  have hBound := h.length_le hFuel
  obtain ⟨done, pending, hExplores⟩ := h.exists_explores
  have hDone : done.length + (fuel - done.length) = fuel := by
    have hTaken := hExplores.length_taken
    omega
  have hPending : pending = [] := by
    have hQueue := turn_eq_none_iff.mp hEnd
    rw [← hExplores.notes] at hQueue
    have hNil : pending.zipIdx done.length = [] := List.map_eq_nil_iff.mp hQueue
    exact List.zipIdx_eq_nil_iff.mp hNil
  subst hPending
  have hFound := hExplores.onward (fuel - done.length)
  have hExplore : ∀ more, explore (m.successors alphabet) more done [] = done.reverse := by
    intro more
    cases more with
    | zero => rw [explore, List.append_nil]
    | succ more => rw [explore]
  rw [hDone, hExplore] at hFound
  rw [← hFound, List.reverse_reverse, hExplores.notes]

theorem After.met_eq {fuel : Nat} (h : After m alphabet taken w)
    (hFuel : Covers (m.successors alphabet) [m.start] fuel) (hEnd : w.turn m alphabet = none) :
    w.met = m.nodes alphabet fuel := by
  rw [← h.eq_narrow_notes hFuel hEnd]
  show (m.nodes alphabet fuel).reverse.reverse ++ [] = m.nodes alphabet fuel
  rw [List.append_nil, List.reverse_reverse]

theorem After.taken_eq (h : After m alphabet taken w) (hEnd : w.turn m alphabet = none) :
    taken = numbersOf w.met := by
  have hServed := h.served
  rw [← hServed.numbers, ← hServed.served, turn_eq_none_iff.mp hEnd, List.append_nil]

omit [DecidableEq σ] in
/-- Numbers that can be counted with 32 bits make the same automaton. -/
theorem toDfa_narrow {v : Walk σ} (hCount : v.met.length ≤ stateLimit)
    (hFinals : ∀ i ∈ v.finals, i < v.met.length)
    (hMoves : ∀ t ∈ v.moves, t.source < v.met.length ∧ t.target < v.met.length) :
    (narrow v).toDfa = v.toDfa := by
  have hFinals' : v.finals.map truncated = v.finals := by
    refine (List.map_congr_left fun i hi => ?_).trans (List.map_id _)
    exact truncated_of_le (Nat.le_of_lt (Nat.lt_of_lt_of_le (hFinals i hi) hCount))
  have hMoves' : v.moves.map Transition.truncated = v.moves := by
    refine (List.map_congr_left fun t ht => ?_).trans (List.map_id _)
    obtain ⟨hSource, hTarget⟩ := hMoves t ht
    exact Transition.truncated_of_le (Nat.le_of_lt (Nat.lt_of_lt_of_le hSource hCount))
      (Nat.le_of_lt (Nat.lt_of_lt_of_le hTarget hCount))
  simp only [toDfa, Walk.toDfa, Walk.states, narrow, hFinals', hMoves', truncated_of_le hCount]
  rfl

/-- **The walk makes the automaton of the machine** when the nodes met can be counted. -/
theorem After.toDfa_eq {fuel : Nat} (h : After m alphabet taken w) (hWithin : m.Within alphabet)
    (hFuel : Covers (m.successors alphabet) [m.start] fuel) (hEnd : w.turn m alphabet = none)
    (hCount : w.met.length ≤ stateLimit) : w.toDfa = m.toDfa alphabet fuel := by
  let v := m.notes alphabet (m.nodes alphabet fuel).reverse []
  have hMet : v.met = m.nodes alphabet fuel := by
    simp only [v, Machine.notes, List.reverse_reverse, List.append_nil]
  have hNumbered : m.Numbered (m.nodes alphabet fuel) := Machine.numbered_nodes hWithin hFuel
  have hPlace : ∀ {i : State} {q : σ}, (m.nodes alphabet fuel)[i]? = some q → i < v.met.length := by
    intro i q hi
    rw [hMet]
    exact (List.getElem?_eq_some_iff.mp hi).1
  have hFinals : ∀ i ∈ v.finals, i < v.met.length := by
    intro i hi
    obtain ⟨q, hq, _⟩ := Machine.mem_finalsOf.mp hi
    exact hPlace hq
  have hMoves : ∀ t ∈ v.moves, t.source < v.met.length ∧ t.target < v.met.length := by
    intro t ht
    obtain ⟨q, c, r, hq, _, _, hNext, hTarget⟩ := Machine.mem_moves_notes.mp ht
    have hr := hNumbered.next_mem (List.mem_of_getElem? hq) hNext
    rw [← hTarget]
    exact ⟨hPlace hq, hPlace (Machine.getElem?_idxOf hr)⟩
  have hNotes : narrow v = w := h.eq_narrow_notes hFuel hEnd
  rw [← hNotes] at hCount ⊢
  exact (toDfa_narrow (v := v) hCount hFinals hMoves).trans (Machine.toDfa_notes m alphabet _)

end NarrowWalk

end Automata
