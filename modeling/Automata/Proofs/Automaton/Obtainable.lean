import Automata.Pattern.Engine
import Automata.Proofs.Automaton.WellFormed
import Automata.Proofs.Binary.Layout
import Automata.Proofs.Conversion.EpsilonRemoval
import Automata.Proofs.Conversion.Subsets
import Automata.Proofs.Machine.Walk
import Automata.Proofs.TransitionList.Assembly

/-! # Automata that can be obtained

An automaton comes from nowhere but the operations: it is made without transitions, edited, read,
decoded, converted or compiled (`Obtainable`). However it is obtained, it is well formed and its
states have names within the limit (`Obtainable.wellFormed`).
-/

namespace Automata

open Automaton (WellFormed)

/-! ### Decoded automata -/

theorem Automaton.wellFormed_of_ofBinary {k : Kind} {a : Automaton k} {bytes : Bytes}
    (h : ofBinary k bytes = .ok a) : a.WellFormed ∧ a.stateCount ≤ stateLimit := by
  obtain ⟨l, rest, hDecode, hValid, rfl⟩ := Binary.exists_layout_of_ofBinary h
  exact ⟨validate_eq_ok_iff.mp hValid, (Binary.Layout.le_of_decode hDecode).1⟩

/-! ### Converted automata -/

theorem Automaton.WellFormed.emptyReach_lt {k : Kind} {a : Automaton k} (h : a.WellFormed)
    {s t : State} (hReach : a.EmptyReach s t) (hs : s < a.stateCount) : t < a.stateCount := by
  induction hReach with
  | refl => exact hs
  | tail _ hStep _ => exact h.target _ hStep

/-- Empty moves that end in a state begin in one. -/
theorem Automaton.WellFormed.lt_of_emptyReach {k : Kind} {a : Automaton k} (h : a.WellFormed)
    {s t : State} (hReach : a.EmptyReach s t) (ht : t < a.stateCount) : s < a.stateCount := by
  rcases Relation.ReflTransGen.cases_head hReach with rfl | ⟨q, hStep, _⟩
  · exact ht
  · exact h.source _ hStep

theorem Automaton.WellFormed.withoutEpsilon {n : Nfa} (h : n.WellFormed) :
    n.withoutEpsilon.WellFormed where
  initial := h.initial
  finals s hs := by
    obtain ⟨f, hf, hReach⟩ := Nfa.mem_finals_withoutEpsilon.mp hs
    exact h.lt_of_emptyReach hReach (h.finals f hf)
  source t ht := by
    obtain ⟨c, p, q, _, hBefore, hMove, _⟩ := Nfa.mem_transitions_withoutEpsilon.mp ht
    exact h.lt_of_emptyReach hBefore (h.source _ hMove)
  target t ht := by
    obtain ⟨c, p, q, _, _, hMove, hAfter⟩ := Nfa.mem_transitions_withoutEpsilon.mp ht
    exact h.emptyReach_lt hAfter (h.target _ hMove)
  noEmpty hKind := by cases hKind

theorem Dfa.target?_toNfa (d : Dfa) (s : State) (x : Symbol) :
    d.toNfa.target? s x = (d.target? s x).map (Target.single .nfa) := by
  rw [Automaton.target?, Automaton.target?, Automaton.row, Automaton.row, toNfa, Table.get?_map]
  cases d.rows.get? s with
  | none => rfl
  | some row => exact Table.get?_map _ row x

/-- **The transitions are the same, in the same order.** -/
theorem Dfa.transitions_toNfa (d : Dfa) : d.toNfa.transitions = d.transitions := by
  have hRow : ∀ (s : State) (row : Row .dfa),
      ((row.map (Target.single .nfa)).entries.flatMap fun (x, t) =>
        (Target.toList (k := .nfa) t).map fun q => Transition.mk s x q) =
      row.entries.flatMap fun (x, t) => (Target.toList (k := .dfa) t).map fun q => ⟨s, x, q⟩ := by
    intro s row
    exact List.flatMap_map ..
  rw [Automaton.transitions, Automaton.transitions, toNfa]
  simp only [Table.map, List.flatMap_map] at hRow ⊢
  exact List.flatMap_congr fun p _ => hRow p.1 p.2

theorem Automaton.WellFormed.toNfa {d : Dfa} (h : d.WellFormed) : d.toNfa.WellFormed where
  initial := h.initial
  finals := h.finals
  source t ht := h.source t (d.transitions_toNfa ▸ ht)
  target t ht := h.target t (d.transitions_toNfa ▸ ht)
  noEmpty hKind := by cases hKind

/-! ### Automata of machines -/

namespace Machine

variable {σ : Type} [DecidableEq σ] {m : Machine σ} {alphabet : OrderedSet Char} {found : List σ}

theorem wellFormed_number (h : m.Numbered found) : (m.number alphabet found).WellFormed := by
  have hPlace : ∀ {i : State} {q : σ}, found[i]? = some q → i < found.length := fun hi =>
    (List.getElem?_eq_some_iff.mp hi).1
  constructor
  case initial =>
    intro s hs
    obtain rfl := Option.some.inj hs
    exact hPlace h.getElem?_zero
  case finals => exact fun s hs => OrderedSet.mem_below.mp (OrderedSet.mem_filter.mp hs).1
  case source =>
    intro t ht
    obtain ⟨q, _, _, hq, _⟩ := target?_number.mp (Dfa.mem_transitions_iff.mp ht)
    exact hPlace hq
  case target =>
    intro t ht
    obtain ⟨q, c, r, hq, _, _, hNext, hr⟩ := target?_number.mp (Dfa.mem_transitions_iff.mp ht)
    rw [← hr]
    exact List.idxOf_lt_length_of_mem (h.next_mem (List.mem_of_getElem? hq) hNext)
  case noEmpty =>
    intro _ t ht hEps
    obtain ⟨_, c, _, _, hx, _⟩ := target?_number.mp (Dfa.mem_transitions_iff.mp ht)
    rw [hEps] at hx
    cases hx

end Machine

theorem Nfa.wellFormed_of_determinize {n : Nfa} {d : Dfa} (h : n.determinize = .ok d) :
    d.WellFormed := by
  obtain ⟨start, rfl⟩ := exists_toDfa_of_determinize h
  exact Machine.wellFormed_number (numbered_subsets n start)

namespace ByteAutomaton

variable (b : ByteAutomaton)

theorem within_asciiMachine : b.asciiMachine.Within asciiAlphabet := by
  intro q c r hNext
  have hAscii : c.toNat < 128 := by
    by_contra hNot
    rw [asciiMachine] at hNext
    simp only [if_neg hNot] at hNext
    cases hNext
  rw [asciiAlphabet, OrderedSet.mem_ofList, List.mem_map]
  exact ⟨c.toNat, List.mem_range.mpr hAscii, Char.ofNat_toNat c⟩

theorem covers_asciiMachine :
    Exploration.Covers (b.asciiMachine.successors asciiAlphabet) [b.asciiMachine.start] b.size := by
  refine Exploration.covers_of_subset (List.finRange b.size) (fun q _ => List.mem_finRange q) ?_
  rw [List.length_finRange]

theorem numbered_asciiMachine :
    b.asciiMachine.Numbered (b.asciiMachine.nodes asciiAlphabet b.size) :=
  Machine.numbered_nodes b.within_asciiMachine b.covers_asciiMachine

theorem wellFormed_toDfa : b.toDfa.WellFormed :=
  Machine.wellFormed_number b.numbered_asciiMachine

end ByteAutomaton

namespace Engine

variable (e : Engine) (start : Fin e.size)

theorem within_machine : (e.machine start).Within ByteAutomaton.asciiAlphabet :=
  (e.byteAutomaton start).within_asciiMachine

theorem covers_machine :
    Exploration.Covers ((e.machine start).successors ByteAutomaton.asciiAlphabet)
      [(e.machine start).start] e.size :=
  (e.byteAutomaton start).covers_asciiMachine

theorem toDfa_walk : (e.walk start).toDfa = (e.byteAutomaton start).toDfa :=
  Machine.toDfa_walk (e.covers_machine start)

end Engine

/-- **Whatever the engine, what a pattern is compiled to is the automaton of a byte automaton.** -/
theorem Dfa.exists_byteAutomaton_of_ofEngine {compile : Text → Except PatternError Engine}
    {r : Text} {d : Dfa} (h : ofEngine compile r = .ok d) : ∃ b : ByteAutomaton, b.toDfa = d := by
  rw [ofEngine] at h
  split at h
  · cases h
  · next e _ =>
      rw [Engine.toDfa] at h
      split at h
      · next start _ => exact ⟨e.byteAutomaton start, Except.ok.inj (e.toDfa_walk start ▸ h)⟩
      · cases h

theorem Dfa.wellFormed_of_ofEngine {compile : Text → Except PatternError Engine} {r : Text}
    {d : Dfa} (h : ofEngine compile r = .ok d) : d.WellFormed := by
  obtain ⟨b, rfl⟩ := exists_byteAutomaton_of_ofEngine h
  exact b.wellFormed_toDfa

/-! ### All of them -/

/-- The automata that the operations give, as long as their states can be named. Patterns may be
compiled by any engine. -/
inductive Obtainable : {k : Kind} → Automaton k → Prop
  | withStates (k : Kind) (n : Nat) : n ≤ stateLimit → Obtainable (.withStates k n)
  | edit {k : Kind} {a b : Automaton k} (e : Edit k) :
      Obtainable a → e.apply a = .ok b → b.stateCount ≤ stateLimit → Obtainable b
  | read {k : Kind} {a : Automaton k} (policy : TransitionList.Policy) (bytes : Bytes) :
      TransitionList.read k policy bytes = .ok a → Obtainable a
  | ofBinary {k : Kind} {a : Automaton k} (bytes : Bytes) :
      Automaton.ofBinary k bytes = .ok a → Obtainable a
  | withoutEpsilon {n : Nfa} : Obtainable n → Obtainable n.withoutEpsilon
  | determinize {n : Nfa} {d : Dfa} :
      Obtainable n → n.determinize = .ok d → d.stateCount ≤ stateLimit → Obtainable d
  | toNfa {d : Dfa} : Obtainable d → Obtainable d.toNfa
  | ofEngine {d : Dfa} (compile : Text → Except PatternError Engine) (r : Text) :
      Dfa.ofEngine compile r = .ok d → d.stateCount ≤ stateLimit → Obtainable d

/-- An edit that fails leaves the automaton as it was, so edits may be tried in any order. -/
theorem Obtainable.attemptAll {k : Kind} {a : Automaton k} (h : Obtainable a)
    {edits : List (Edit k)} (hCount : (Edit.attemptAll a edits).stateCount ≤ stateLimit) :
    Obtainable (Edit.attemptAll a edits) := by
  induction edits generalizing a with
  | nil => exact h
  | cons e edits ih =>
      have hNext : Obtainable (Edit.attempt a e) := by
        have hBound := Nat.le_trans (Edit.stateCount_le_attemptAll (Edit.attempt a e) edits) hCount
        rw [Edit.attempt] at hBound ⊢
        cases hApply : e.apply a with
        | error err => exact h
        | ok b =>
            rw [hApply] at hBound
            exact h.edit e hApply hBound
      exact ih hNext hCount

/-- **Every automaton that can be obtained is well formed, and its states can be named.** -/
theorem Obtainable.wellFormed {k : Kind} {a : Automaton k} (h : Obtainable a) :
    a.WellFormed ∧ a.stateCount ≤ stateLimit := by
  induction h with
  | withStates k n hn => exact ⟨Automaton.wellFormed_withStates k n, hn⟩
  | edit e _ hApply hCount ih => exact ⟨ih.1.apply hApply, hCount⟩
  | read policy bytes hRead => exact TransitionList.wellFormed_of_read hRead
  | ofBinary bytes hDecode => exact Automaton.wellFormed_of_ofBinary hDecode
  | withoutEpsilon _ ih => exact ⟨ih.1.withoutEpsilon, ih.2⟩
  | determinize _ hOk hCount _ => exact ⟨Nfa.wellFormed_of_determinize hOk, hCount⟩
  | toNfa _ ih => exact ⟨ih.1.toNfa, ih.2⟩
  | ofEngine _ _ hOk hCount => exact ⟨Dfa.wellFormed_of_ofEngine hOk, hCount⟩

end Automata
