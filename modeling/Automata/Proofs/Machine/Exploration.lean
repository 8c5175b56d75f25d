import Automata.Machine.Exploration
import Mathlib.Data.List.Nodup
import Mathlib.Logic.Relation

/-! # What breadth-first exploration finds

`explore` keeps two lists, the nodes already expanded and those found but not yet expanded.
`Explored` says what holds of them at any time: no node stands twice, every node can be reached, and
whatever an expanded node leads to is in one of the lists. One step keeps it
(`Explored.expand_head`), and when the fuel covers all nodes that can be reached, a run ends with
nothing left to expand (`explore_induction`). So `discover` lists exactly the nodes that can be
reached, each once (`mem_discover`, `nodup_discover`).
-/

namespace Automata.Exploration

variable {α : Type}

/-- Whether the successor lists lead from some seed to a node. -/
def Reachable (succ : α → List α) (seeds : List α) (a : α) : Prop :=
  ∃ s ∈ seeds, Relation.ReflTransGen (fun p q => q ∈ succ p) s a

theorem Reachable.of_mem {succ : α → List α} {seeds : List α} {a : α} (h : a ∈ seeds) :
    Reachable succ seeds a :=
  ⟨a, h, .refl⟩

theorem Reachable.step {succ : α → List α} {seeds : List α} {a b : α}
    (h : Reachable succ seeds a) (hb : b ∈ succ a) : Reachable succ seeds b := by
  obtain ⟨s, hs, hReach⟩ := h
  exact ⟨s, hs, hReach.tail hb⟩

/-- A set of nodes that holds the seeds and all their successors holds whatever can be reached. -/
theorem Reachable.mem_of_closed {succ : α → List α} {seeds : List α} {p : α → Prop}
    (hSeeds : ∀ s ∈ seeds, p s) (hStep : ∀ a, p a → ∀ b ∈ succ a, p b) {a : α}
    (h : Reachable succ seeds a) : p a := by
  obtain ⟨s, hs, hReach⟩ := h
  induction hReach with
  | refl => exact hSeeds s hs
  | tail _ hb ih => exact hStep _ ih _ hb

/-- The fuel covers the exploration: no list of different nodes that can be reached is longer. -/
def Covers (succ : α → List α) (seeds : List α) (fuel : Nat) : Prop :=
  ∀ l : List α, l.Nodup → (∀ a ∈ l, Reachable succ seeds a) → l.length ≤ fuel

theorem covers_of_subset {succ : α → List α} {seeds : List α} {fuel : Nat} (all : List α)
    (hAll : ∀ a, Reachable succ seeds a → a ∈ all) (hFuel : all.length ≤ fuel) :
    Covers succ seeds fuel := by
  intro l hNodup hReach
  have hSub : l ⊆ all := fun a ha => hAll a (hReach a ha)
  exact Nat.le_trans (hNodup.length_le_of_subset hSub) hFuel

/-! ### The invariant -/

/-- What holds of the expanded and the pending nodes at any time. -/
structure Explored (succ : α → List α) (seeds done pending : List α) : Prop where
  nodup : (done ++ pending).Nodup
  seeded : ∀ a ∈ seeds, a ∈ done ++ pending
  sound : ∀ a ∈ done ++ pending, Reachable succ seeds a
  expanded : ∀ a ∈ done, ∀ b ∈ succ a, b ∈ done ++ pending

variable {succ : α → List α} {seeds done pending : List α}

/-- When nothing is pending, the expanded nodes are those that can be reached. -/
theorem Explored.mem_iff_reachable (h : Explored succ seeds done []) {a : α} :
    a ∈ done ↔ Reachable succ seeds a := by
  have hSound := h.sound
  have hSeeded := h.seeded
  have hExpanded := h.expanded
  rw [List.append_nil] at hSound hSeeded hExpanded
  refine ⟨?_, ?_⟩
  · exact hSound a
  · exact Reachable.mem_of_closed hSeeded hExpanded

/-- When the expanded nodes are as many as can be reached, nothing is pending. -/
theorem Explored.pending_eq_nil (h : Explored succ seeds done pending)
    (hFuel : Covers succ seeds done.length) : pending = [] := by
  have hLength := hFuel _ h.nodup h.sound
  rw [List.length_append] at hLength
  exact List.eq_nil_of_length_eq_zero (by omega)

theorem mem_expanded_iff {a b : α} {new : List α} :
    b ∈ a :: done ++ (pending ++ new) ↔ b ∈ done ++ a :: pending ∨ b ∈ new := by
  simp only [List.cons_append, List.mem_cons, List.mem_append]
  tauto

variable [DecidableEq α]

theorem fresh_congr {done' pending' new : List α}
    (h : ∀ a, (a ∈ done ∨ a ∈ pending) ↔ (a ∈ done' ∨ a ∈ pending')) :
    fresh done pending new = fresh done' pending' new := by
  induction new generalizing done done' with
  | nil => rfl
  | cons a new ih =>
      rw [fresh, fresh]
      by_cases hKnown : a ∈ done ∨ a ∈ pending
      · rw [if_pos hKnown, if_pos ((h a).mp hKnown), ih h]
      · rw [if_neg hKnown, if_neg (mt (h a).mpr hKnown)]
        refine congrArg (a :: ·) (ih fun b => ?_)
        rw [List.mem_cons, List.mem_cons, or_assoc, or_assoc, h b]

theorem fresh_singleton (a : α) : fresh [] [] [a] = [a] := by
  simp [fresh]

theorem explored_start : Explored succ seeds [] (fresh [] [] seeds) where
  nodup := nodup_fresh
  seeded := by
    intro a ha
    rw [List.nil_append, mem_fresh]
    exact ⟨ha, List.not_mem_nil, List.not_mem_nil⟩
  sound := by
    intro a ha
    rw [List.nil_append, mem_fresh] at ha
    exact .of_mem ha.1
  expanded := by
    intro a ha
    exact absurd ha List.not_mem_nil

/-- **Expanding the first pending node keeps the invariant.** -/
theorem Explored.expand_head {a : α} (h : Explored succ seeds done (a :: pending)) :
    Explored succ seeds (a :: done) (pending ++ fresh (a :: done) pending (succ a)) := by
  have hOld : (a :: done ++ pending).Nodup := List.perm_middle.nodup_iff.mp h.nodup
  have hHead : a ∈ done ++ a :: pending := List.mem_append_right _ (List.mem_cons_self ..)
  refine ⟨?_, ?_, ?_, ?_⟩
  · rw [← List.append_assoc]
    refine hOld.append nodup_fresh ?_
    intro b hb hFresh
    rw [List.mem_append] at hb
    have hNew := mem_fresh.mp hFresh
    exact hb.elim hNew.2.1 hNew.2.2
  · intro b hb
    exact mem_expanded_iff.mpr (Or.inl (h.seeded b hb))
  · intro b hb
    rcases mem_expanded_iff.mp hb with hOldMem | hFresh
    · exact h.sound b hOldMem
    · exact (h.sound a hHead).step (mem_fresh.mp hFresh).1
  · intro p hp b hb
    rw [mem_expanded_iff]
    rcases List.mem_cons.mp hp with rfl | hp
    · by_cases hMem : b ∈ done ++ p :: pending
      · exact Or.inl hMem
      · -- a successor that is not known yet is fresh
        right
        rw [mem_fresh]
        simp only [List.mem_append, List.mem_cons, not_or] at hMem ⊢
        exact ⟨hb, ⟨hMem.2.1, hMem.1⟩, hMem.2.2⟩
    · exact Or.inl (h.expanded p hp b hb)

/-! ### Runs -/

/-- **With enough fuel a run ends with all nodes expanded**, and with whatever each expansion
keeps. -/
theorem explore_induction {P : List α → List α → Prop}
    (hStep : ∀ done a pending, Explored succ seeds done (a :: pending) → P done (a :: pending) →
      P (a :: done) (pending ++ fresh (a :: done) pending (succ a)))
    {fuel : Nat} (h : Explored succ seeds done pending) (hP : P done pending)
    (hFuel : Covers succ seeds (done.length + fuel)) :
    ∃ final, explore succ fuel done pending = final.reverse ∧ Explored succ seeds final [] ∧
      P final [] := by
  induction fuel generalizing done pending with
  | zero =>
      obtain rfl := h.pending_eq_nil hFuel
      exact ⟨done, by rw [explore, List.append_nil], h, hP⟩
  | succ fuel ih =>
      cases pending with
      | nil => exact ⟨done, by rw [explore], h, hP⟩
      | cons a pending =>
          rw [explore]
          refine ih h.expand_head (hStep done a pending h hP) ?_
          rw [List.length_cons, Nat.add_assoc, Nat.add_comm 1 fuel]
          exact hFuel

theorem prefix_explore {fuel : Nat} :
    done.reverse ++ pending <+: explore succ fuel done pending := by
  induction fuel generalizing done pending with
  | zero => exact List.prefix_rfl
  | succ fuel ih =>
      cases pending with
      | nil => exact ⟨[], by rw [List.append_nil, List.append_nil, explore]⟩
      | cons a pending =>
          rw [explore]
          refine List.IsPrefix.trans ?_ ih
          rw [List.reverse_cons, List.append_assoc]
          exact (List.prefix_append_right_inj _).mpr (List.prefix_append (a :: pending) _)

/-- What holds at the start and is kept by each expansion holds when exploration has ended. -/
theorem discover_induction {P : List α → List α → Prop}
    (hStep : ∀ done a pending, Explored succ seeds done (a :: pending) → P done (a :: pending) →
      P (a :: done) (pending ++ fresh (a :: done) pending (succ a)))
    {fuel : Nat} (hP : P [] (fresh [] [] seeds)) (hFuel : Covers succ seeds fuel) :
    ∃ final, discover succ fuel seeds = final.reverse ∧ Explored succ seeds final [] ∧
      P final [] := by
  refine explore_induction hStep explored_start hP ?_
  rw [List.length_nil, Nat.zero_add]
  exact hFuel

theorem discover_eq_reverse {fuel : Nat} (hFuel : Covers succ seeds fuel) :
    ∃ final, discover succ fuel seeds = final.reverse ∧ Explored succ seeds final [] := by
  obtain ⟨final, hEq, hExplored, _⟩ :=
    discover_induction (P := fun _ _ => True) (fun _ _ _ _ _ => trivial) trivial hFuel
  exact ⟨final, hEq, hExplored⟩

/-- More fuel than covers the exploration changes nothing: when it would be used, nothing is
pending. -/
theorem explore_add {fuel : Nat} (h : Explored succ seeds done pending)
    (hFuel : Covers succ seeds (done.length + fuel)) (extra : Nat) :
    explore succ (fuel + extra) done pending = explore succ fuel done pending := by
  induction fuel generalizing done pending with
  | zero =>
      obtain rfl := h.pending_eq_nil hFuel
      cases extra with
      | zero => rfl
      | succ extra => rw [Nat.zero_add, explore, explore, List.append_nil]
  | succ fuel ih =>
      rw [Nat.add_right_comm]
      cases pending with
      | nil => rw [explore, explore]
      | cons a pending =>
          rw [explore, explore]
          refine ih h.expand_head ?_
          rw [List.length_cons, Nat.add_assoc, Nat.add_comm 1 fuel]
          exact hFuel

/-- The result does not depend on the fuel as long as it covers the exploration. -/
theorem discover_of_le {fuel more : Nat} (hFuel : Covers succ seeds fuel) (hMore : fuel ≤ more) :
    discover succ more seeds = discover succ fuel seeds := by
  obtain ⟨extra, rfl⟩ := Nat.exists_eq_add_of_le hMore
  refine explore_add explored_start ?_ extra
  rw [List.length_nil, Nat.zero_add]
  exact hFuel

/-- **Exploration finds exactly the nodes that can be reached.** -/
theorem mem_discover {fuel : Nat} (hFuel : Covers succ seeds fuel) {a : α} :
    a ∈ discover succ fuel seeds ↔ Reachable succ seeds a := by
  obtain ⟨final, hEq, hExplored⟩ := discover_eq_reverse hFuel
  rw [hEq, List.mem_reverse, hExplored.mem_iff_reachable]

/-- **Exploration finds each node once.** -/
theorem nodup_discover {fuel : Nat} (hFuel : Covers succ seeds fuel) :
    (discover succ fuel seeds).Nodup := by
  obtain ⟨final, hEq, hExplored⟩ := discover_eq_reverse hFuel
  have hNodup := hExplored.nodup
  rw [List.append_nil] at hNodup
  rw [hEq, List.nodup_reverse]
  exact hNodup

theorem head?_discover (fuel : Nat) (a : α) : (discover succ fuel [a]).head? = some a := by
  have hPrefix : ([] : List α).reverse ++ [a] <+: explore succ fuel [] [a] := prefix_explore
  obtain ⟨rest, hRest⟩ := hPrefix
  rw [discover, fresh_singleton, ← hRest]
  rfl

end Automata.Exploration
