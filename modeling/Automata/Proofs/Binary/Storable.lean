import Automata.Proofs.Automaton.Obtainable
import Automata.Proofs.Binary.Enumeration

/-! # Automata that can be stored

The operations name no state that could not be stored: an edit makes no row but that of a state,
removing empty moves makes rows for final states and for states that had one, and the rows of a
machine are those of its nodes. So every automaton that can be obtained can be stored
(`Obtainable.storable`), also one that was decoded with empty rows.
-/

namespace Automata

/-! ### The keys of a table -/

namespace Table

variable {κ β : Type} [Ranked κ]

theorem mem_keys_ofList {l : List (κ × β)} {j : κ} (h : j ∈ (ofList l).keys) :
    j ∈ l.map Prod.fst := by
  obtain ⟨b, hb⟩ := mem_keys.mp h
  exact List.mem_map.mpr ⟨(j, b), (get?_ofList_iff.mp hb).mem, rfl⟩

theorem mem_keys_ofList_iff {l : List (κ × β)} {j : κ} :
    j ∈ (ofList l).keys ↔ j ∈ l.map Prod.fst := by
  refine ⟨mem_keys_ofList, fun h => ?_⟩
  obtain ⟨b, hLast⟩ := exists_isLast h
  exact mem_keys.mpr ⟨b, get?_ofList_iff.mpr hLast⟩

theorem mem_of_mem_keys_tabulate {ks : OrderedSet κ} {f : κ → Option β} {j : κ}
    (h : j ∈ (tabulate ks f).keys) : j ∈ ks := by
  obtain ⟨b, hb⟩ := mem_keys.mp h
  exact (get?_tabulate_eq_some_iff.mp hb).1

end Table

/-! ### Edited automata -/

namespace Automaton

variable {k : Kind} {a b : Automaton k}

theorem storable_withStates {n : Nat} (hn : n ≤ stateLimit) : (withStates k n).Storable where
  stateCount := hn
  rows _ hs := absurd hs List.not_mem_nil

theorem Storable.markFinal {s : State} (h : a.Storable) (hOk : a.markFinal s = .ok b) :
    b.Storable := by
  obtain ⟨_, rfl⟩ := markFinal_ok.mp hOk
  exact ⟨h.stateCount, h.rows⟩

theorem Storable.connect {t : Transition} (h : a.Storable) (hOk : a.connect t = .ok b) :
    b.Storable := by
  obtain ⟨hSource, _, grown, rfl, _⟩ := exists_grown_of_connect hOk
  refine ⟨h.stateCount, fun s hs => ?_⟩
  rcases Table.mem_keys_insert.mp hs with rfl | hs
  · exact Nat.le_of_lt (Nat.lt_of_lt_of_le hSource h.stateCount)
  · exact h.rows s hs

/-- **Edits keep automata storable as long as their states can be counted.** -/
theorem Storable.apply {e : Edit k} (h : a.Storable) (hOk : e.apply a = .ok b)
    (hCount : b.stateCount ≤ stateLimit) : b.Storable := by
  cases e with
  | addState =>
      obtain rfl := Except.ok.inj hOk
      exact ⟨hCount, h.rows⟩
  | requireStates n =>
      obtain rfl := Except.ok.inj hOk
      exact ⟨hCount, h.rows⟩
  | markInitial s =>
      obtain ⟨_, _, rfl⟩ := markInitial_ok.mp hOk
      exact ⟨h.stateCount, h.rows⟩
  | markFinal s => exact h.markFinal hOk
  | addTransition source c target => exact h.connect hOk
  | addEpsilon source target => exact h.connect hOk

end Automaton

/-! ### Automata that are read -/

namespace TransitionList

variable {k : Kind} {a b : Automaton k}

theorem storable_of_enter {r : Record} (hStorable : a.Storable) (h : enter a r = .ok b) :
    b.Storable := by
  cases r with
  | final s => exact hStorable.markFinal h
  | transition t => exact hStorable.connect h

theorem storable_of_read {policy : Policy} {bytes : Bytes} (h : read k policy bytes = .ok b) :
    b.Storable := by
  obtain ⟨es, _, hAssemble⟩ := bind_eq_ok_iff.mp h
  rw [assemble_eq] at hAssemble
  have hBlank : (blank k es).Storable :=
    ⟨stateCount_le es, fun s hs => absurd hs List.not_mem_nil⟩
  exact enterAll_keeps (fun _ _ _ _ hStorable => storable_of_enter hStorable) hBlank hAssemble

end TransitionList

/-! ### Decoded automata -/

/-- **What is decoded is valid and can be stored again.** -/
theorem Automaton.storable_of_ofBinary {k : Kind} {a : Automaton k} {bytes : Bytes}
    (h : ofBinary k bytes = .ok a) : a.Storable ∧ a.validate = .ok () := by
  obtain ⟨l, rest, hDecode, hValid, rfl⟩ := Binary.exists_layout_of_ofBinary h
  obtain ⟨hCount, hRows⟩ := Binary.Layout.le_of_decode hDecode
  refine ⟨⟨hCount, fun s hs => ?_⟩, hValid⟩
  obtain ⟨q, hq, rfl⟩ := List.mem_map.mp (Table.mem_keys_ofList hs)
  obtain ⟨p, hp, rfl⟩ := List.mem_map.mp hq
  exact hRows p hp

/-! ### Converted automata -/

theorem Automaton.Storable.withoutEpsilon {n : Nfa} (h : n.Storable) (hWf : n.WellFormed) :
    n.withoutEpsilon.Storable := by
  refine ⟨h.stateCount, fun s hs => ?_⟩
  rcases OrderedSet.mem_union.mp (Table.mem_of_mem_keys_tabulate hs) with hFinal | hRow
  · exact Nat.le_of_lt (Nat.lt_of_lt_of_le (hWf.finals s hFinal) h.stateCount)
  · exact h.rows s hRow

theorem Automaton.Storable.toNfa {d : Dfa} (h : d.Storable) : d.toNfa.Storable := by
  refine ⟨h.stateCount, fun s hs => ?_⟩
  obtain ⟨row, hRow⟩ := Table.mem_keys.mp hs
  rw [Dfa.toNfa, Table.get?_map, Option.map_eq_some_iff] at hRow
  obtain ⟨held, hHeld, _⟩ := hRow
  exact h.rows s (Table.mem_keys.mpr ⟨held, hHeld⟩)

theorem Machine.storable_number {σ : Type} [DecidableEq σ] (m : Machine σ)
    (alphabet : OrderedSet Char) {found : List σ} (hCount : found.length ≤ stateLimit) :
    (m.number alphabet found).Storable := by
  refine ⟨hCount, fun s hs => ?_⟩
  have hPlace := OrderedSet.mem_below.mp (Table.mem_of_mem_keys_tabulate hs)
  exact Nat.le_of_lt (Nat.lt_of_lt_of_le hPlace hCount)

theorem Nfa.storable_of_determinize {n : Nfa} {d : Dfa} (h : n.determinize = .ok d)
    (hCount : d.stateCount ≤ stateLimit) : d.Storable := by
  obtain ⟨start, rfl⟩ := exists_toDfa_of_determinize h
  exact Machine.storable_number _ _ hCount

theorem Dfa.storable_of_ofEngine {compile : Text → Except PatternError Engine} {r : Text} {d : Dfa}
    (h : ofEngine compile r = .ok d) (hCount : d.stateCount ≤ stateLimit) : d.Storable := by
  obtain ⟨b, rfl⟩ := exists_byteAutomaton_of_ofEngine h
  exact Machine.storable_number _ _ hCount

/-- **Every automaton that can be obtained can be stored.** -/
theorem Obtainable.storable {k : Kind} {a : Automaton k} (h : Obtainable a) : a.Storable := by
  induction h with
  | withStates k n hn => exact Automaton.storable_withStates hn
  | edit e _ hApply hCount ih => exact ih.apply hApply hCount
  | read policy bytes hRead => exact TransitionList.storable_of_read hRead
  | ofBinary bytes hDecode => exact (Automaton.storable_of_ofBinary hDecode).1
  | withoutEpsilon hObtainable ih => exact ih.withoutEpsilon hObtainable.wellFormed.1
  | determinize _ hOk hCount _ => exact Nfa.storable_of_determinize hOk hCount
  | toNfa _ ih => exact ih.toNfa
  | ofEngine _ _ hOk hCount => exact Dfa.storable_of_ofEngine hOk hCount

end Automata
