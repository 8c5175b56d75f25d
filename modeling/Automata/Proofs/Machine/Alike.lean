import Automata.Proofs.Automaton.Tight
import Automata.Proofs.Machine.Numbering
import Mathlib.Data.List.Forall2

/-! # Machines that move alike

Two machines move alike when a one-to-one pairing of their nodes pairs the starts, pairs what paired
nodes move to, and pairs accepting nodes with accepting ones (`Alike`). Exploration keeps the two
machines in step: whatever it lists for one of them is paired, place by place, with what it lists
for the other (`forall₂_nodes`). A node is named by its place, so both machines have the same
automaton (`toDfa_eq_of_alike`), although their alphabets may hold different characters on which
nothing moves.
-/

namespace Automata

open List (Forall₂)

theorem biUnique_flip {α β : Type} {R : α → β → Prop} (hR : Relator.BiUnique R) :
    Relator.BiUnique (flip R) :=
  ⟨fun _ _ _ ha hb => hR.2 ha hb, hR.1.flip⟩

/-! ### Explorations in step -/

namespace Exploration

variable {α β : Type} [DecidableEq α] [DecidableEq β] {R : α → β → Prop}
  {succ : α → List α} {succ' : β → List β}

theorem forall₂_fresh (hR : Relator.BiUnique R) {done pending new : List α}
    {done' pending' new' : List β} (hDone : Forall₂ R done done')
    (hPending : Forall₂ R pending pending') (hNew : Forall₂ R new new') :
    Forall₂ R (fresh done pending new) (fresh done' pending' new') := by
  induction hNew generalizing done done' with
  | nil => exact .nil
  | @cons a a' new new' ha hNew ih =>
      have hKnown : (a ∈ done ∨ a ∈ pending) ↔ (a' ∈ done' ∨ a' ∈ pending') :=
        or_congr (List.rel_mem hR ha hDone) (List.rel_mem hR ha hPending)
      rw [fresh, fresh]
      by_cases h : a ∈ done ∨ a ∈ pending
      · rw [if_pos h, if_pos (hKnown.mp h)]
        exact ih hDone
      · rw [if_neg h, if_neg (mt hKnown.mpr h)]
        exact .cons ha (ih (.cons ha hDone))

/-- One step expands paired nodes and finds paired nodes. -/
theorem forall₂_explore (hR : Relator.BiUnique R)
    (hSucc : ∀ a a', R a a' → Forall₂ R (succ a) (succ' a')) (fuel : Nat) {done pending : List α}
    {done' pending' : List β} (hDone : Forall₂ R done done')
    (hPending : Forall₂ R pending pending') :
    Forall₂ R (explore succ fuel done pending) (explore succ' fuel done' pending') := by
  induction fuel generalizing done done' pending pending' with
  | zero =>
      rw [explore, explore]
      exact List.rel_append (List.rel_reverse hDone) hPending
  | succ fuel ih =>
      cases hPending with
      | nil =>
          rw [explore, explore]
          exact List.rel_reverse hDone
      | @cons a a' pending pending' ha hRest =>
          have hNow : Forall₂ R (a :: done) (a' :: done') := .cons ha hDone
          rw [explore, explore]
          exact ih hNow (List.rel_append hRest (forall₂_fresh hR hNow hRest (hSucc a a' ha)))

/-- **Explorations of paired nodes find paired nodes**, as long as the fuel covers each of them. -/
theorem forall₂_discover (hR : Relator.BiUnique R)
    (hSucc : ∀ a a', R a a' → Forall₂ R (succ a) (succ' a')) {seeds : List α} {seeds' : List β}
    (hSeeds : Forall₂ R seeds seeds') {fuel fuel' : Nat} (hFuel : Covers succ seeds fuel)
    (hFuel' : Covers succ' seeds' fuel') :
    Forall₂ R (discover succ fuel seeds) (discover succ' fuel' seeds') := by
  rw [← discover_of_le hFuel (Nat.le_max_left fuel fuel'),
    ← discover_of_le hFuel' (Nat.le_max_right fuel fuel')]
  exact forall₂_explore hR hSucc _ .nil (forall₂_fresh hR .nil .nil hSeeds)

end Exploration

/-! ### Machines in step -/

namespace Machine

variable {σ τ : Type} {m : Machine σ} {m' : Machine τ} {R : σ → τ → Prop}

/-- A pairing of nodes along which two machines move alike. -/
structure Alike (R : σ → τ → Prop) (m : Machine σ) (m' : Machine τ) : Prop where
  unique : Relator.BiUnique R
  start : R m.start m'.start
  next : ∀ q q' c, R q q' → Option.Rel R (m.next q c) (m'.next q' c)
  accepting : ∀ q q', R q q' → m.accepting q = m'.accepting q'

theorem Alike.symm (h : Alike R m m') : Alike (flip R) m' m where
  unique := biUnique_flip h.unique
  start := h.start
  next q' q c hq := by
    have hRel := h.next q q' c hq
    generalize m.next q c = r at hRel ⊢
    generalize m'.next q' c = r' at hRel ⊢
    cases hRel with
    | some hr => exact .some hr
    | none => exact .none
  accepting q' q hq := (h.accepting q q' hq).symm

theorem Alike.exists_next (h : Alike R m m') {q r : σ} {q' : τ} {c : Char} (hq : R q q')
    (hNext : m.next q c = some r) : ∃ r', m'.next q' c = some r' ∧ R r r' := by
  have hRel := h.next q q' c hq
  rw [hNext] at hRel
  generalize m'.next q' c = next' at hRel
  cases hRel with
  | some hr => exact ⟨_, rfl, hr⟩

theorem exists_getElem?_of_forall₂ {found : List σ} {found' : List τ}
    (hFound : Forall₂ R found found') {i : Nat} {q : σ} (hq : found[i]? = some q) :
    ∃ q', found'[i]? = some q' ∧ R q q' := by
  obtain ⟨hLt, rfl⟩ := List.getElem?_eq_some_iff.mp hq
  have hLt' : i < found'.length := hFound.length_eq ▸ hLt
  exact ⟨found'[i], List.getElem?_eq_getElem hLt', hFound.get hLt hLt'⟩

variable {alphabet alphabet' : OrderedSet Char}

/-- Characters on which nothing moves do not show in the successors. -/
theorem successors_of_within (hWithin : m.Within alphabet)
    (hSub : ∀ c ∈ alphabet, c ∈ alphabet') (q : σ) :
    m.successors alphabet' q = m.successors alphabet q := by
  have hList : alphabet.toList = alphabet'.toList.filter (· ∈ alphabet) :=
    (congrArg OrderedSet.toList (OrderedSet.filter_mem_eq hSub)).symm
  rw [successors, successors, hList, List.filterMap_filter]
  refine List.filterMap_congr fun c _ => ?_
  by_cases hc : c ∈ alphabet
  · simp [hc]
  · cases hNext : m.next q c with
    | none => simp
    | some r => exact absurd (hWithin q c r hNext) hc

theorem Alike.forall₂_successors (h : Alike R m m') (hWithin : m.Within alphabet)
    (hWithin' : m'.Within alphabet') {q : σ} {q' : τ} (hq : R q q') :
    Forall₂ R (m.successors alphabet q) (m'.successors alphabet' q') := by
  -- both are listed by the characters of either alphabet
  let all := alphabet.union alphabet'
  have hLeft : m.successors all q = m.successors alphabet q :=
    successors_of_within hWithin (fun c hc => OrderedSet.mem_union.mpr (Or.inl hc)) q
  have hRight : m'.successors all q' = m'.successors alphabet' q' :=
    successors_of_within hWithin' (fun c hc => OrderedSet.mem_union.mpr (Or.inr hc)) q'
  rw [← hLeft, ← hRight]
  refine List.rel_filterMap (R := Eq) ?_ (List.forall₂_refl all.toList)
  rintro c _ rfl
  exact h.next q q' c hq

variable [DecidableEq σ] [DecidableEq τ]

/-- **Machines that move alike have their nodes found in the same places.** -/
theorem Alike.forall₂_nodes (h : Alike R m m') (hWithin : m.Within alphabet)
    (hWithin' : m'.Within alphabet') {fuel fuel' : Nat}
    (hFuel : Exploration.Covers (m.successors alphabet) [m.start] fuel)
    (hFuel' : Exploration.Covers (m'.successors alphabet') [m'.start] fuel') :
    Forall₂ R (m.nodes alphabet fuel) (m'.nodes alphabet' fuel') :=
  Exploration.forall₂_discover h.unique (fun _ _ => h.forall₂_successors hWithin hWithin')
    (.cons h.start .nil) hFuel hFuel'

/-! ### The same automaton -/

theorem idxOf_eq_of_forall₂ (hR : Relator.BiUnique R) {found : List σ} {found' : List τ}
    (hFound : Forall₂ R found found') {q : σ} {q' : τ} (hq : R q q') :
    found.idxOf q = found'.idxOf q' := by
  induction hFound with
  | nil => rfl
  | @cons p p' found found' hp _ ih =>
      have hSame : p = q ↔ p' = q' := Relator.rel_eq hR hp hq
      by_cases hEq : p = q
      · rw [hEq, hSame.mp hEq, List.idxOf_cons_self, List.idxOf_cons_self]
      · rw [List.idxOf_cons_ne _ hEq, List.idxOf_cons_ne _ (mt hSame.mpr hEq), ih]

theorem tight_number (m : Machine σ) (alphabet : OrderedSet Char) (found : List σ) :
    (m.number alphabet found).Tight where
  row s row hRow hEmpty := by
    obtain ⟨_, _, _, hNonempty⟩ := get?_rows_number.mp hRow
    rw [Table.isEmpty_iff.mpr hEmpty] at hNonempty
    cases hNonempty
  target s x held _ := ⟨held, List.mem_singleton.mpr rfl⟩

variable {found : List σ} {found' : List τ}

theorem Alike.mem_transitions_number (h : Alike R m m') (hWithin' : m'.Within alphabet')
    (hFound : Forall₂ R found found') {t : Transition}
    (ht : t ∈ (m.number alphabet found).transitions) :
    t ∈ (m'.number alphabet' found').transitions := by
  obtain ⟨i, x, j⟩ := t
  obtain ⟨q, c, r, hq, rfl, _, hNext, rfl⟩ := target?_number.mp (Dfa.mem_transitions_iff.mp ht)
  obtain ⟨q', hq', hPair⟩ := exists_getElem?_of_forall₂ hFound hq
  obtain ⟨r', hNext', hr⟩ := h.exists_next hPair hNext
  have hPlace : found'.idxOf r' = found.idxOf r := (idxOf_eq_of_forall₂ h.unique hFound hr).symm
  exact Dfa.mem_transitions_iff.mpr
    (target?_number.mpr ⟨q', c, r', hq', rfl, hWithin' q' c r' hNext', hNext', hPlace⟩)

theorem Alike.mem_finals_number (h : Alike R m m') (hFound : Forall₂ R found found') {i : State}
    (hi : i ∈ (m.number alphabet found).finals) : i ∈ (m'.number alphabet' found').finals := by
  obtain ⟨q, hq, hAccepting⟩ := isFinal_number.mp (decide_eq_true hi)
  obtain ⟨q', hq', hPair⟩ := exists_getElem?_of_forall₂ hFound hq
  have hFinal : (m'.number alphabet' found').isFinal i = true :=
    isFinal_number.mpr ⟨q', hq', (h.accepting q q' hPair).symm.trans hAccepting⟩
  exact of_decide_eq_true hFinal

/-- **Paired nodes in the same places make the same automaton.** -/
theorem Alike.number_eq (h : Alike R m m') (hWithin : m.Within alphabet)
    (hWithin' : m'.Within alphabet') (hFound : Forall₂ R found found') :
    m.number alphabet found = m'.number alphabet' found' := by
  have hFlip : Forall₂ (flip R) found' found := hFound.flip
  refine Automaton.eq_of_tight (tight_number m alphabet found) (tight_number m' alphabet' found')
    hFound.length_eq rfl (fun i => ⟨?_, ?_⟩) (fun t => ⟨?_, ?_⟩)
  · exact h.mem_finals_number hFound
  · exact h.symm.mem_finals_number hFlip
  · exact h.mem_transitions_number hWithin' hFound
  · exact h.symm.mem_transitions_number hWithin hFlip

/-- **Machines that move alike have the same automaton.** -/
theorem toDfa_eq_of_alike (h : Alike R m m') (hWithin : m.Within alphabet)
    (hWithin' : m'.Within alphabet') {fuel fuel' : Nat}
    (hFuel : Exploration.Covers (m.successors alphabet) [m.start] fuel)
    (hFuel' : Exploration.Covers (m'.successors alphabet') [m'.start] fuel') :
    m.toDfa alphabet fuel = m'.toDfa alphabet' fuel' :=
  h.number_eq hWithin hWithin' (h.forall₂_nodes hWithin hWithin' hFuel hFuel')

end Machine

end Automata
