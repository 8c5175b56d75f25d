import Automata.Machine.Walk
import Automata.Proofs.Machine.Alike
import Mathlib.Data.List.Induction

/-! # A walk finds what exploration finds

Expanding a node follows its moves one after the other and meets the nodes that are fresh
(`foldl_follow`). So the notes of a walk are at any time those of the nodes that exploration has
expanded and of those that it has pending (`notes`): one expansion takes the notes to those of
exploration's next step (`expand_notes`), and a walk ends with the notes on all nodes that can be
reached (`walk_eq_notes`). The automaton put together from them is the one in which each node is
named by its place (`toDfa_walk`).
-/

namespace Automata

open Exploration (fresh explore Explored Covers)

/-! ### Setting transitions -/

namespace Dfa

variable {d : Dfa} {moves : List Transition}

/-- Whether transitions from one state on one symbol have one target. -/
def OneTarget (moves : List Transition) : Prop :=
  ∀ t ∈ moves, ∀ u ∈ moves, t.source = u.source → t.symbol = u.symbol → t.target = u.target

theorem exists_rows_foldl_setMove (d : Dfa) (moves : List Transition) :
    ∃ rows, moves.foldl setMove d = { d with rows := rows } := by
  induction moves generalizing d with
  | nil => exact ⟨d.rows, rfl⟩
  | cons t moves ih => exact ih (d.setMove t)

theorem tight_foldl_setMove (h : d.Tight) (moves : List Transition) :
    (moves.foldl setMove d).Tight := by
  induction moves generalizing d with
  | nil => exact h
  | cons t moves ih => exact ih (h.setTarget ⟨t.target, List.mem_singleton.mpr rfl⟩)

/-- Transitions that do not compete for a target are all there after they have been set. -/
theorem mem_transitions_foldl_setMove (hBare : d.transitions = []) (hOne : OneTarget moves)
    {t : Transition} : t ∈ (moves.foldl setMove d).transitions ↔ t ∈ moves := by
  induction moves using List.reverseRecOn with
  | nil => rw [List.foldl_nil, hBare]
  | append_singleton moves u ih =>
      have hBefore : OneTarget moves := fun p hp q hq =>
        hOne p (List.mem_append_left _ hp) q (List.mem_append_left _ hq)
      have hLast : u ∈ moves ++ [u] := List.mem_append_right _ (List.mem_singleton.mpr rfl)
      rw [List.foldl_append, List.foldl_cons, List.foldl_nil, setMove,
        Automaton.mem_transitions_setTarget, Target.toList_single, List.mem_singleton]
      by_cases hKey : t.source = u.source ∧ t.symbol = u.symbol
      · rw [if_pos hKey]
        refine ⟨fun hTarget => ?_, fun ht => hOne t ht u hLast hKey.1 hKey.2⟩
        have hEq : t = u := by
          cases t
          cases u
          simp_all
        exact hEq ▸ hLast
      · have hNe : t ≠ u := fun hEq => hKey ⟨congrArg _ hEq, congrArg _ hEq⟩
        rw [if_neg hKey, ih hBefore, List.mem_append, List.mem_singleton, or_iff_left hNe]

end Dfa

namespace Machine

variable {σ : Type} {m : Machine σ} {alphabet : OrderedSet Char}

/-! ### Notes on nodes -/

/-- The numbers of the accepting ones among the nodes that have been expanded, last one first. -/
def finalsOf (m : Machine σ) (done : List σ) : List State :=
  (done.reverse.zipIdx.filter fun p => m.accepting p.1).map Prod.snd

theorem mem_finalsOf {found : List σ} {i : State} :
    i ∈ m.finalsOf found.reverse ↔ ∃ q, found[i]? = some q ∧ m.accepting q = true := by
  simp [finalsOf, List.mem_zipIdx_iff_getElem?]

theorem zipIdx_reverse_cons (a : σ) (done : List σ) :
    (a :: done).reverse.zipIdx = done.reverse.zipIdx ++ [(a, done.length)] := by
  rw [List.reverse_cons, List.zipIdx_append, List.length_reverse, Nat.zero_add]
  rfl

theorem noteFinal_of_finals {a : σ} {done : List σ} {w : Walk σ} (h : w.finals = m.finalsOf done) :
    Walk.noteFinal m a done.length w = { w with finals := m.finalsOf (a :: done) } := by
  rw [finalsOf, zipIdx_reverse_cons, List.filter_append, List.map_append, ← finalsOf, ← h,
    Walk.noteFinal]
  by_cases hAccepting : m.accepting a = true
  · simp [hAccepting]
  · simp [hAccepting]

variable [DecidableEq σ]

/-- The moves of the node `q`, numbered `i`, on some characters, when nodes are named by their
places in a list. -/
def movesFrom (m : Machine σ) (cs : List Char) (met : List σ) (q : σ) (i : State) :
    List Transition :=
  cs.filterMap fun c => (m.next q c).map fun r => ⟨i, .char c, met.idxOf r⟩

/-- The notes on the nodes that have been expanded, last one first, and on those that wait. -/
def notes (m : Machine σ) (alphabet : OrderedSet Char) (done pending : List σ) : Walk σ where
  met := done.reverse ++ pending
  queue := pending.zipIdx done.length
  finals := m.finalsOf done
  moves := done.reverse.zipIdx.flatMap fun p =>
    m.movesFrom alphabet.toList (done.reverse ++ pending) p.1 p.2

/-! ### One expansion -/

theorem movesFrom_cons_of_none {c : Char} {cs : List Char} {met : List σ} {q : σ} {i : State}
    (h : m.next q c = none) : m.movesFrom (c :: cs) met q i = m.movesFrom cs met q i := by
  rw [movesFrom, List.filterMap_cons_none (by rw [h]; rfl), movesFrom]

theorem movesFrom_cons_of_some {c : Char} {cs : List Char} {met : List σ} {q r : σ} {i : State}
    (h : m.next q c = some r) :
    m.movesFrom (c :: cs) met q i = ⟨i, .char c, met.idxOf r⟩ :: m.movesFrom cs met q i := by
  rw [movesFrom, List.filterMap_cons_some (by rw [h]; rfl), movesFrom]

theorem movesFrom_append {cs : List Char} {met new : List σ} {q : σ} {i : State}
    (h : ∀ r ∈ cs.filterMap (m.next q), r ∈ met) :
    m.movesFrom cs (met ++ new) q i = m.movesFrom cs met q i := by
  refine List.filterMap_congr fun c hc => ?_
  cases hNext : m.next q c with
  | none => rfl
  | some r =>
      have hMem : r ∈ met := h r (List.mem_filterMap.mpr ⟨c, hc, hNext⟩)
      rw [Option.map_some, Option.map_some, List.idxOf_append_of_mem hMem]

theorem follow_of_none {c : Char} {q : σ} {i : State} {w : Walk σ} (h : m.next q c = none) :
    Walk.follow m q i w c = w := by
  rw [Walk.follow, h]

theorem follow_of_met {c : Char} {q r : σ} {i : State} {w : Walk σ} (h : m.next q c = some r)
    (hMet : r ∈ w.met) :
    Walk.follow m q i w c = { w with moves := w.moves ++ [⟨i, .char c, w.met.idxOf r⟩] } := by
  rw [Walk.follow, h]
  simp only [Walk.meet, if_pos hMet]

theorem follow_of_new {c : Char} {q r : σ} {i : State} {w : Walk σ} (h : m.next q c = some r)
    (hNew : r ∉ w.met) :
    Walk.follow m q i w c =
      { w with
        met := w.met ++ [r]
        queue := w.queue ++ [(r, w.met.length)]
        moves := w.moves ++ [⟨i, .char c, (w.met ++ [r]).idxOf r⟩] } := by
  rw [Walk.follow, h]
  simp only [Walk.meet, if_neg hNew]

/-- **Following the moves of a node meets the fresh ones among the nodes that it moves to.** -/
theorem foldl_follow (q : σ) (i : State) (cs : List Char) (w : Walk σ) :
    cs.foldl (Walk.follow m q i) w =
      let new := fresh w.met [] (cs.filterMap (m.next q))
      { met := w.met ++ new
        queue := w.queue ++ new.zipIdx w.met.length
        finals := w.finals
        moves := w.moves ++ m.movesFrom cs (w.met ++ new) q i } := by
  induction cs generalizing w with
  | nil => simp [fresh, movesFrom]
  | cons c cs ih =>
      cases hNext : m.next q c with
      | none =>
          rw [List.foldl_cons, follow_of_none hNext, ih, List.filterMap_cons_none hNext]
          simp only [movesFrom_cons_of_none hNext]
      | some r =>
          rw [List.filterMap_cons_some hNext, List.foldl_cons, fresh]
          by_cases hMet : r ∈ w.met
          · rw [follow_of_met hNext hMet, ih, if_pos (Or.inl hMet)]
            simp only [movesFrom_cons_of_some hNext, List.idxOf_append_of_mem hMet,
              List.append_assoc, List.singleton_append]
          · have hFresh : fresh (r :: w.met) [] (cs.filterMap (m.next q)) =
                fresh (w.met ++ [r]) [] (cs.filterMap (m.next q)) :=
              Exploration.fresh_congr fun b => by simp [or_comm]
            -- the node keeps the number that it gets here when more nodes are met
            have hPlace (new : List σ) : (w.met ++ r :: new).idxOf r = (w.met ++ [r]).idxOf r := by
              rw [List.append_cons, List.idxOf_append_of_mem (by simp)]
            rw [follow_of_new hNext hMet, ih, if_neg (by simpa using hMet), hFresh]
            simp only [movesFrom_cons_of_some hNext, hPlace, List.zipIdx_cons, List.length_append,
              List.length_singleton, List.append_assoc, List.singleton_append]

variable {seeds done pending : List σ}

/-- **Expanding the first node that waits takes the notes to those of exploration's next step.** -/
theorem expand_notes {a : σ} (h : Explored (m.successors alphabet) seeds done (a :: pending)) :
    Walk.expand m alphabet a done.length
        { m.notes alphabet done (a :: pending) with queue := pending.zipIdx (done.length + 1) } =
      m.notes alphabet (a :: done)
        (pending ++ fresh (a :: done) pending (m.successors alphabet a)) := by
  have hFresh : fresh (done.reverse ++ a :: pending) [] (alphabet.toList.filterMap (m.next a)) =
      fresh (a :: done) pending (m.successors alphabet a) := by
    refine Exploration.fresh_congr fun b => ?_
    simp only [List.mem_append, List.mem_reverse, List.mem_cons, List.not_mem_nil]
    tauto
  have hMet (new : List σ) :
      done.reverse ++ a :: pending ++ new = (a :: done).reverse ++ (pending ++ new) := by
    rw [List.reverse_cons, List.append_assoc, List.append_assoc]
    rfl
  have hQueue (new : List σ) :
      pending.zipIdx (done.length + 1) ++ new.zipIdx (done.reverse ++ a :: pending).length =
        (pending ++ new).zipIdx (a :: done).length := by
    rw [List.zipIdx_append, List.length_cons, List.length_append, List.length_reverse,
      List.length_cons, Nat.add_right_comm, Nat.add_assoc]
  -- the notes on earlier nodes stay, because these nodes move to known ones only
  have hMoves (new : List σ) : ∀ p ∈ done.reverse.zipIdx,
      m.movesFrom alphabet.toList (done.reverse ++ a :: pending ++ new) p.1 p.2 =
        m.movesFrom alphabet.toList (done.reverse ++ a :: pending) p.1 p.2 := by
    intro p hp
    have hDone : p.1 ∈ done := List.mem_reverse.mp (List.fst_mem_of_mem_zipIdx hp)
    refine movesFrom_append fun r hr => ?_
    have hKnown := h.expanded p.1 hDone r hr
    rwa [List.mem_append, List.mem_reverse, ← List.mem_append]
  rw [Walk.expand, noteFinal_of_finals rfl, foldl_follow]
  simp only [notes, hFresh]
  rw [hQueue, ← List.flatMap_congr (hMoves _), ← hMet, zipIdx_reverse_cons, List.flatMap_append,
    List.flatMap_singleton]

/-! ### Whole walks -/

/-- **A walk ends with the notes on the nodes that exploration finds.** -/
theorem run_notes {fuel : Nat} (h : Explored (m.successors alphabet) seeds done pending)
    (hFuel : Covers (m.successors alphabet) seeds (done.length + fuel)) :
    Walk.run m alphabet fuel (m.notes alphabet done pending) =
      m.notes alphabet (explore (m.successors alphabet) fuel done pending).reverse [] := by
  induction fuel generalizing done pending with
  | zero =>
      obtain rfl := h.pending_eq_nil hFuel
      rw [Walk.run, explore, List.append_nil, List.reverse_reverse]
  | succ fuel ih =>
      cases pending with
      | nil =>
          rw [explore, List.reverse_reverse]
          rfl
      | cons a pending =>
          have hStep : Walk.run m alphabet (fuel + 1) (m.notes alphabet done (a :: pending)) =
              Walk.run m alphabet fuel (m.notes alphabet (a :: done)
                (pending ++ fresh (a :: done) pending (m.successors alphabet a))) := by
            rw [← expand_notes h]
            rfl
          rw [hStep, explore]
          refine ih h.expand_head ?_
          rw [List.length_cons, Nat.add_assoc, Nat.add_comm 1 fuel]
          exact hFuel

/-- **A walk ends with nothing left to expand and with the notes on the listed nodes.** -/
theorem walk_eq_notes {fuel : Nat}
    (hFuel : Covers (m.successors alphabet) [m.start] fuel) :
    m.walk alphabet fuel = m.notes alphabet (m.nodes alphabet fuel).reverse [] := by
  have hBegin : Walk.start m.start = m.notes alphabet [] (fresh [] [] [m.start]) := by
    rw [Exploration.fresh_singleton]
    rfl
  rw [walk, hBegin, run_notes Exploration.explored_start (by simpa using hFuel)]
  rfl

/-- A walk ends because no node waits any more, not because the fuel is used up. -/
theorem queue_walk {fuel : Nat} (hFuel : Covers (m.successors alphabet) [m.start] fuel) :
    (m.walk alphabet fuel).queue = [] := by
  rw [walk_eq_notes hFuel]
  rfl

/-! ### The automaton put together -/

theorem mem_moves_notes {found : List σ} {t : Transition} :
    t ∈ (m.notes alphabet found.reverse []).moves ↔
      ∃ q c r, found[t.source]? = some q ∧ t.symbol = .char c ∧ c ∈ alphabet ∧
        m.next q c = some r ∧ found.idxOf r = t.target := by
  rw [notes, List.reverse_reverse, List.append_nil, List.mem_flatMap]
  refine ⟨?_, ?_⟩
  · intro h
    obtain ⟨⟨q, i⟩, hPlace, hMove⟩ := h
    obtain ⟨c, hc, hEq⟩ := List.mem_filterMap.mp hMove
    obtain ⟨r, hNext, rfl⟩ := Option.map_eq_some_iff.mp hEq
    exact ⟨q, c, r, List.mem_zipIdx_iff_getElem?.mp hPlace, rfl, hc, hNext, rfl⟩
  · intro h
    obtain ⟨q, c, r, hq, hSymbol, hc, hNext, hTarget⟩ := h
    refine ⟨(q, t.source), List.mem_zipIdx_iff_getElem?.mpr hq, List.mem_filterMap.mpr ⟨c, hc, ?_⟩⟩
    rw [hNext, Option.map_some, hTarget, ← hSymbol]

/-- **The notes on listed nodes make the automaton in which each node is named by its place.** -/
theorem toDfa_notes (m : Machine σ) (alphabet : OrderedSet Char) (found : List σ) :
    (m.notes alphabet found.reverse []).toDfa = m.number alphabet found := by
  let w := m.notes alphabet found.reverse []
  have hOne : Dfa.OneTarget w.moves := by
    intro t ht u hu hSource hSymbol
    obtain ⟨q, c, r, hq, hc, _, hNext, hTarget⟩ := mem_moves_notes.mp ht
    obtain ⟨p, d, s, hp, hd, _, hOther, hPlace⟩ := mem_moves_notes.mp hu
    rw [hSource, hp] at hq
    obtain rfl := Option.some.inj hq
    rw [hSymbol, hd] at hc
    obtain rfl := Symbol.char.inj hc
    rw [hNext] at hOther
    obtain rfl := Option.some.inj hOther
    exact hTarget.symm.trans hPlace
  have hTight : w.toDfa.Tight :=
    Dfa.tight_foldl_setMove (Automaton.tight_of_rows_eq_empty rfl) w.moves
  have hMet : w.met = found := by
    simp only [w, notes, List.reverse_reverse, List.append_nil]
  obtain ⟨rows, hRows⟩ := Dfa.exists_rows_foldl_setMove w.states w.moves
  refine Automaton.eq_of_tight hTight (tight_number m alphabet found) ?_ ?_ (fun i => ?_)
    fun t => ?_
  · rw [Walk.toDfa, hRows]
    exact congrArg List.length hMet
  · rw [Walk.toDfa, hRows]
    rfl
  · rw [Walk.toDfa, hRows, ← decide_eq_true_iff (p := i ∈ (m.number alphabet found).finals)]
    exact (OrderedSet.mem_ofList.trans mem_finalsOf).trans isFinal_number.symm
  · rw [Walk.toDfa, Dfa.mem_transitions_foldl_setMove rfl hOne, mem_moves_notes]
    exact (Dfa.mem_transitions_iff.trans target?_number).symm

/-- **A walk makes the automaton of the machine.** -/
theorem toDfa_walk {fuel : Nat} (hFuel : Covers (m.successors alphabet) [m.start] fuel) :
    (m.walk alphabet fuel).toDfa = m.toDfa alphabet fuel := by
  rw [walk_eq_notes hFuel, toDfa_notes, toDfa]

end Machine

end Automata
