import Automata.Machine.Basic
import Automata.Proofs.Machine.Exploration
import Automata.Proofs.Run.Trace
import Automata.Proofs.Automaton.Transitions

/-! # Machines and their automata

The nodes of a machine are listed by exploration, and the automaton names each node by its place in
the list. When the list holds each node that can be reached, once (`Numbered`), looking a node up
and finding its place undo each other, so the automaton runs through the places of the nodes that
the machine runs through (`destination_number`).
-/

namespace Automata.Machine

variable {σ : Type} {m : Machine σ}

/-- The node that a word leads to from `q`, unless a move is missing. -/
def run (m : Machine σ) (q : σ) : Text → Option σ
  | [] => some q
  | c :: word => (m.next q c).bind (m.run · word)

@[simp] theorem run_nil (q : σ) : m.run q [] = some q := rfl

@[simp] theorem run_cons (q : σ) (c : Char) (word : Text) :
    m.run q (c :: word) = (m.next q c).bind (m.run · word) := rfl

theorem run_append (q : σ) (v w : Text) : m.run q (v ++ w) = (m.run q v).bind (m.run · w) := by
  induction v generalizing q with
  | nil => rfl
  | cons c v ih =>
      rw [List.cons_append, run_cons, run_cons, Option.bind_assoc]
      exact Option.bind_congr fun r _ => ih r

/-- The machine moves on characters of the alphabet only. -/
def Within (m : Machine σ) (alphabet : OrderedSet Char) : Prop :=
  ∀ q c r, m.next q c = some r → c ∈ alphabet

theorem mem_successors {alphabet : OrderedSet Char} {q r : σ} :
    r ∈ m.successors alphabet q ↔ ∃ c ∈ alphabet, m.next q c = some r := by
  rw [successors, List.mem_filterMap]
  rfl

theorem run_append_singleton {p q r : σ} {word : Text} {c : Char} (hRun : m.run p word = some q)
    (hNext : m.next q c = some r) : m.run p (word ++ [c]) = some r := by
  rw [run_append, hRun, Option.bind_some, run_cons, hNext]
  rfl

theorem reachable_of_run {alphabet : OrderedSet Char} (hWithin : m.Within alphabet) {r q : σ}
    {word : Text} (hr : Exploration.Reachable (m.successors alphabet) [m.start] r)
    (hRun : m.run r word = some q) :
    Exploration.Reachable (m.successors alphabet) [m.start] q := by
  induction word generalizing r with
  | nil =>
      rw [run_nil] at hRun
      exact Option.some.inj hRun ▸ hr
  | cons c word ih =>
      rw [run_cons, Option.bind_eq_some_iff] at hRun
      obtain ⟨t, hNext, hRest⟩ := hRun
      have ht : t ∈ m.successors alphabet r :=
        mem_successors.mpr ⟨c, hWithin r c t hNext, hNext⟩
      exact ih (hr.step ht) hRest

theorem reachable_iff_run {alphabet : OrderedSet Char} (hWithin : m.Within alphabet) {q : σ} :
    Exploration.Reachable (m.successors alphabet) [m.start] q ↔
      ∃ word, m.run m.start word = some q := by
  refine ⟨?_, ?_⟩
  · intro h
    refine h.mem_of_closed (p := fun r => ∃ word, m.run m.start word = some r) ?_ ?_
    · intro s hs
      rw [List.mem_singleton] at hs
      exact ⟨[], by rw [hs, run_nil]⟩
    · rintro r ⟨word, hRun⟩ t ht
      obtain ⟨c, _, hNext⟩ := mem_successors.mp ht
      exact ⟨word ++ [c], run_append_singleton hRun hNext⟩
  · intro h
    rcases h with ⟨word, hRun⟩
    exact reachable_of_run hWithin (.of_mem (List.mem_singleton.mpr rfl)) hRun

/-! ### Numbering -/

/-- A list of nodes by which they can be named: the start comes first, and each node that words lead
to stands in it once. -/
structure Numbered (m : Machine σ) (found : List σ) : Prop where
  nodup : found.Nodup
  head : found.head? = some m.start
  mem_iff : ∀ q, q ∈ found ↔ ∃ word, m.run m.start word = some q

variable {found : List σ}

theorem Numbered.next_mem (h : m.Numbered found) {q r : σ} {c : Char} (hq : q ∈ found)
    (hNext : m.next q c = some r) : r ∈ found := by
  obtain ⟨word, hRun⟩ := (h.mem_iff q).mp hq
  exact (h.mem_iff r).mpr ⟨word ++ [c], run_append_singleton hRun hNext⟩

theorem Numbered.getElem?_zero (h : m.Numbered found) : found[0]? = some m.start := by
  rw [← List.head?_eq_getElem?, h.head]

variable [DecidableEq σ]

/-- Exploration with enough fuel lists the nodes so that they can be named. -/
theorem numbered_nodes {alphabet : OrderedSet Char} {fuel : Nat} (hWithin : m.Within alphabet)
    (hFuel : Exploration.Covers (m.successors alphabet) [m.start] fuel) :
    m.Numbered (m.nodes alphabet fuel) where
  nodup := Exploration.nodup_discover hFuel
  head := Exploration.head?_discover fuel m.start
  mem_iff q := by rw [nodes, Exploration.mem_discover hFuel, reachable_iff_run hWithin]

theorem Numbered.idxOf_eq (h : m.Numbered found) {i : Nat} {q : σ} (hi : found[i]? = some q) :
    found.idxOf q = i := by
  obtain ⟨hLt, rfl⟩ := List.getElem?_eq_some_iff.mp hi
  exact h.nodup.idxOf_getElem i hLt

theorem getElem?_idxOf {q : σ} (hq : q ∈ found) : found[found.idxOf q]? = some q :=
  List.getElem?_idxOf hq

theorem Numbered.idxOf_eq_iff (h : m.Numbered found) {i : Nat} {q : σ} (hq : q ∈ found) :
    found.idxOf q = i ↔ found[i]? = some q := by
  refine ⟨?_, h.idxOf_eq⟩
  rintro rfl
  exact getElem?_idxOf hq

/-! ### The automaton -/

variable {alphabet : OrderedSet Char}

theorem get?_row {q : σ} {x : Symbol} {j : State} :
    (m.row alphabet found q).get? x = some j ↔
      ∃ c r, x = .char c ∧ c ∈ alphabet ∧ m.next q c = some r ∧ found.idxOf r = j := by
  rw [row, Table.get?_tabulate_eq_some_iff, OrderedSet.mem_ofList, List.mem_map]
  cases x with
  | epsilon => simp
  | char c =>
      simp only [Option.map_eq_some_iff, Symbol.char.injEq, exists_eq_right, ↓existsAndEq,
        true_and]
      refine ⟨?_, ?_⟩
      · intro h
        rcases h with ⟨hc, r, hNext, hj⟩
        exact ⟨r, hc, hNext, hj⟩
      · intro h
        rcases h with ⟨r, hc, hNext, hj⟩
        exact ⟨hc, r, hNext, hj⟩

theorem get?_rows_number {i : State} {r : Row .dfa} :
    (m.number alphabet found).rows.get? i = some r ↔
      ∃ q, found[i]? = some q ∧ m.row alphabet found q = r ∧ r.isEmpty = false := by
  rw [number, Table.get?_tabulate_eq_some_iff, OrderedSet.mem_below]
  cases hi : found[i]? with
  | none => simp
  | some q =>
      have hLt : i < found.length := (List.getElem?_eq_some_iff.mp hi).1
      simp only [ite_none_some_eq_some_iff (p := fun row : Row .dfa => row.isEmpty = true),
        Bool.not_eq_true, hLt, true_and, Option.some.injEq, exists_eq_left']

theorem target?_number {i j : State} {x : Symbol} :
    (m.number alphabet found).target? i x = some j ↔
      ∃ q c r, found[i]? = some q ∧ x = .char c ∧ c ∈ alphabet ∧ m.next q c = some r ∧
        found.idxOf r = j := by
  rw [Automaton.target?_eq_some_iff]
  refine ⟨?_, ?_⟩
  · intro h
    rcases h with ⟨r, hRow, hHeld⟩
    obtain ⟨q, hq, rfl, _⟩ := get?_rows_number.mp hRow
    obtain ⟨c, t, hx, hc, hNext, hj⟩ := get?_row.mp hHeld
    exact ⟨q, c, t, hq, hx, hc, hNext, hj⟩
  · intro h
    rcases h with ⟨q, c, t, hq, hx, hc, hNext, hj⟩
    have hHeld := get?_row.mpr ⟨c, t, hx, hc, hNext, hj⟩
    exact ⟨_, get?_rows_number.mpr ⟨q, hq, rfl, Table.isEmpty_eq_false_of_get? hHeld⟩, hHeld⟩

theorem Numbered.mem_transitions (hWithin : m.Within alphabet) (h : m.Numbered found)
    {t : Transition} :
    t ∈ (m.number alphabet found).transitions ↔
      ∃ q c r, found[t.source]? = some q ∧ found[t.target]? = some r ∧ t.symbol = .char c ∧
        m.next q c = some r := by
  obtain ⟨i, x, j⟩ := t
  rw [Dfa.mem_transitions_iff, target?_number]
  refine exists_congr fun q => exists_congr fun c => exists_congr fun r => ?_
  refine ⟨?_, ?_⟩
  · intro hMove
    obtain ⟨hq, hSymbol, _, hNext, hr⟩ := hMove
    have hMem := h.next_mem (List.mem_of_getElem? hq) hNext
    exact ⟨hq, (h.idxOf_eq_iff hMem).mp hr, hSymbol, hNext⟩
  · intro hMove
    obtain ⟨hq, hr, hSymbol, hNext⟩ := hMove
    exact ⟨hq, hSymbol, hWithin q c r hNext, hNext, h.idxOf_eq hr⟩

theorem next?_number (hWithin : m.Within alphabet) {i : State} {q : σ}
    (hq : found[i]? = some q) (c : Char) :
    (m.number alphabet found).next? i c = (m.next q c).map (found.idxOf ·) := by
  apply Option.ext
  intro j
  rw [Dfa.next?, target?_number, Option.map_eq_some_iff]
  refine ⟨?_, ?_⟩
  · intro h
    rcases h with ⟨p, d, r, hp, hd, _, hNext, hj⟩
    obtain rfl := Option.some.inj (hq.symm.trans hp)
    obtain rfl := Symbol.char.inj hd
    exact ⟨r, hNext, hj⟩
  · intro h
    rcases h with ⟨r, hNext, hj⟩
    exact ⟨q, c, r, hq, rfl, hWithin q c r hNext, hNext, hj⟩

/-- **The automaton runs through the places of the nodes of the machine's run.** -/
theorem destination_number (hWithin : m.Within alphabet) (h : m.Numbered found) {i : State} {q : σ}
    (hq : found[i]? = some q) (word : Text) :
    (m.number alphabet found).destination i word = (m.run q word).map (found.idxOf ·) := by
  induction word generalizing i q with
  | nil => rw [Dfa.destination_nil, run_nil, Option.map_some, h.idxOf_eq hq]
  | cons c word ih =>
      rw [Dfa.destination_cons, run_cons, next?_number hWithin hq]
      cases hNext : m.next q c with
      | none => rfl
      | some r =>
          have hMem : q ∈ found := List.mem_of_getElem? hq
          exact ih (getElem?_idxOf (h.next_mem hMem hNext))

/-- The run on a word ends in the place of the node that the word leads to. -/
theorem destination_number_eq_some_iff (hWithin : m.Within alphabet) (h : m.Numbered found)
    {word : Text} {k : State} :
    (m.number alphabet found).destination 0 word = some k ↔
      ∃ q, m.run m.start word = some q ∧ found[k]? = some q := by
  rw [destination_number hWithin h h.getElem?_zero, Option.map_eq_some_iff]
  refine exists_congr fun q => and_congr_right fun hRun => ?_
  exact h.idxOf_eq_iff ((h.mem_iff q).mpr ⟨word, hRun⟩)

theorem isFinal_number {i : State} :
    (m.number alphabet found).isFinal i = true ↔
      ∃ q, found[i]? = some q ∧ m.accepting q = true := by
  rw [Automaton.isFinal, decide_eq_true_iff, number, OrderedSet.mem_filter, OrderedSet.mem_below]
  cases hi : found[i]? with
  | none => simp
  | some q =>
      have hLt : i < found.length := (List.getElem?_eq_some_iff.mp hi).1
      simp [hLt]

/-- **The automaton accepts the words that lead to accepting nodes.** -/
theorem accepts_number (hWithin : m.Within alphabet) (h : m.Numbered found) (word : Text) :
    (m.number alphabet found).accepts word = .ok ((m.run m.start word).any m.accepting) := by
  rw [Dfa.accepts_of_initial rfl, destination_number hWithin h h.getElem?_zero]
  refine congrArg Except.ok ?_
  cases hRun : m.run m.start word with
  | none => rfl
  | some q =>
      have hPlace := getElem?_idxOf ((h.mem_iff q).mpr ⟨word, hRun⟩)
      rw [Option.map_some, Option.any_some, Option.any_some, Bool.eq_iff_iff, isFinal_number,
        hPlace]
      simp

end Automata.Machine
