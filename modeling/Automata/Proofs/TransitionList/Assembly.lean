import Automata.Proofs.Automaton.WellFormed
import Automata.Proofs.TransitionList.Records
import Mathlib.Data.Nat.Basic
import Mathlib.Order.Basic

/-! # Automata made of records

Entering records adds what they say and changes nothing else (`enterAll_ok`). All of them go in when
they name states only and, for a deterministic automaton, no two of them lead from one state to
different states on the same symbol (`exists_enterAll`). A list of records is assembled in an
automaton with as many states as the records name, so only the second condition is left
(`exists_assemble`). Whatever is read is well formed (`wellFormed_of_read`).
-/

namespace Automata.TransitionList

variable {k : Kind} {a b c : Automaton k}

/-- `b` is `a` with the records entered. -/
structure Entered (a : Automaton k) (rs : List Record) (b : Automaton k) : Prop where
  stateCount : b.stateCount = a.stateCount
  initial : b.initial = a.initial
  mem_finals : ∀ s, s ∈ b.finals ↔ .final s ∈ rs ∨ s ∈ a.finals
  mem_transitions : ∀ t, t ∈ b.transitions ↔ .transition t ∈ rs ∨ t ∈ a.transitions

theorem Entered.nil : Entered a [] a where
  stateCount := rfl
  initial := rfl
  mem_finals _ := by rw [or_iff_right List.not_mem_nil]
  mem_transitions _ := by rw [or_iff_right List.not_mem_nil]

theorem Entered.append {rs ss : List Record} (h : Entered a rs b) (g : Entered b ss c) :
    Entered a (rs ++ ss) c where
  stateCount := g.stateCount.trans h.stateCount
  initial := g.initial.trans h.initial
  mem_finals s := by
    rw [g.mem_finals, h.mem_finals, List.mem_append, ← or_assoc, or_comm (a := .final s ∈ ss)]
  mem_transitions t := by
    rw [g.mem_transitions, h.mem_transitions, List.mem_append, ← or_assoc,
      or_comm (a := .transition t ∈ ss)]

/-! ### Entering -/

/-- **Entering a record adds what it says.** -/
theorem enter_ok {r : Record} (h : enter a r = .ok b) : Entered a [r] b := by
  cases r with
  | final s =>
      obtain ⟨_, rfl⟩ := Automaton.markFinal_ok.mp h
      refine ⟨rfl, rfl, fun q => ?_, fun t => ?_⟩
      · rw [OrderedSet.mem_insert, List.mem_singleton, Record.final.injEq]
      · rw [List.mem_singleton, or_iff_right fun hEq => by cases hEq]
        rfl
  | transition t =>
      obtain ⟨_, _, hCount, hInitial, hFinals, hMem⟩ := Automaton.connect_ok h
      refine ⟨hCount, hInitial, fun s => ?_, fun u => ?_⟩
      · rw [hFinals, List.mem_singleton, or_iff_right fun hEq => by cases hEq]
      · rw [hMem, List.mem_singleton, Record.transition.injEq]

/-- **Entering records adds what they say.** -/
theorem enterAll_ok {es : List Entry} (h : enterAll a es = .ok b) :
    Entered a (es.map Entry.record) b := by
  induction es generalizing a with
  | nil =>
      obtain rfl := Except.ok.inj h
      exact .nil
  | cons e es ih =>
      rw [enterAll] at h
      cases hEnter : enter a e.record with
      | error err =>
          rw [hEnter] at h
          cases h
      | ok next =>
          rw [hEnter] at h
          exact (enter_ok hEnter).append (ih h)

theorem enterAll_keeps {p : Automaton k → Prop} {es : List Entry}
    (hStep : ∀ a b, ∀ e ∈ es, p a → enter a e.record = .ok b → p b) (ha : p a)
    (h : enterAll a es = .ok b) : p b := by
  induction es generalizing a with
  | nil =>
      obtain rfl := Except.ok.inj h
      exact ha
  | cons e es ih =>
      rw [enterAll] at h
      cases hEnter : enter a e.record with
      | error err =>
          rw [hEnter] at h
          cases h
      | ok next =>
          rw [hEnter] at h
          have hNext := hStep a next e (List.mem_cons_self ..) ha hEnter
          exact ih (fun c d f hf => hStep c d f (List.mem_cons_of_mem e hf)) hNext h

theorem exists_enter {r : Record} (hNames : r.largest < a.stateCount)
    (hAgree : k = .dfa → ∀ s x p q, .transition ⟨s, x, p⟩ = r → ⟨s, x, q⟩ ∈ a.transitions → q = p) :
    ∃ b, enter a r = .ok b := by
  cases r with
  | final s => exact ⟨_, Automaton.markFinal_ok.mpr ⟨hNames, rfl⟩⟩
  | transition t =>
      have hSource : t.source < a.stateCount := Nat.lt_of_le_of_lt (Nat.le_max_left _ _) hNames
      have hTarget : t.target < a.stateCount := Nat.lt_of_le_of_lt (Nat.le_max_right _ _) hNames
      refine Automaton.exists_connect hSource hTarget fun hKind q hq => ?_
      exact hAgree hKind t.source t.symbol t.target q rfl hq

/-- Whether no two of the transitions lead from one state to different states on a symbol. -/
def Deterministic (holds : Transition → Prop) : Prop :=
  ∀ s x p q, holds ⟨s, x, p⟩ → holds ⟨s, x, q⟩ → p = q

/-- **Records that name states and do not disagree can all be entered.** -/
theorem exists_enterAll {es : List Entry} (hNames : ∀ e ∈ es, e.record.largest < a.stateCount)
    (hAgree : k = .dfa →
      Deterministic fun t => .transition t ∈ es.map Entry.record ∨ t ∈ a.transitions) :
    ∃ b, enterAll a es = .ok b := by
  induction es generalizing a with
  | nil => exact ⟨a, rfl⟩
  | cons e es ih =>
      have hHead : e.record ∈ (e :: es).map Entry.record := List.mem_cons_self ..
      obtain ⟨next, hEnter⟩ : ∃ b, enter a e.record = .ok b := by
        refine exists_enter (hNames e (List.mem_cons_self ..)) fun hKind s x p q hEq hq => ?_
        exact hAgree hKind s x q p (Or.inr hq) (Or.inl (hEq ▸ hHead))
      have hEntered := enter_ok hEnter
      rw [enterAll, hEnter]
      refine ih (fun f hf => ?_) (fun hKind => ?_)
      · rw [hEntered.stateCount]
        exact hNames f (List.mem_cons_of_mem e hf)
      · -- what was entered so far is what was there and the first record
        have hAll : ∀ t, (.transition t ∈ es.map Entry.record ∨ t ∈ next.transitions) →
            (.transition t ∈ (e :: es).map Entry.record ∨ t ∈ a.transitions) := by
          intro t ht
          rw [hEntered.mem_transitions, List.mem_singleton] at ht
          rw [List.map_cons, List.mem_cons]
          rcases ht with ht | ht | ht
          · exact Or.inl (Or.inr ht)
          · exact Or.inl (Or.inl ht)
          · exact Or.inr ht
        exact fun s x p q hp hq => hAgree hKind s x p q (hAll _ hp) (hAll _ hq)

/-! ### Assembling -/

theorem foldl_max_le_iff {l : List Nat} {m n : Nat} :
    l.foldl max m ≤ n ↔ m ≤ n ∧ ∀ x ∈ l, x ≤ n := by
  induction l generalizing m with
  | nil => simp
  | cons x l ih =>
      rw [List.foldl_cons, ih, List.forall_mem_cons, Nat.max_le, and_assoc]

theorem foldl_max_mem (l : List Nat) (m : Nat) : l.foldl max m = m ∨ l.foldl max m ∈ l := by
  induction l generalizing m with
  | nil => exact Or.inl rfl
  | cons x l ih =>
      rw [List.foldl_cons, List.mem_cons]
      rcases ih (max m x) with hEq | hMem
      · rw [hEq]
        rcases Nat.le_total x m with hLe | hLe
        · exact Or.inl (Nat.max_eq_left hLe)
        · exact Or.inr (Or.inl (Nat.max_eq_right hLe))
      · exact Or.inr (Or.inr hMem)

theorem stateCount_pos (es : List Entry) : 0 < stateCount es := by
  rw [stateCount, stateLimit]
  omega

theorem stateCount_le (es : List Entry) : stateCount es ≤ stateLimit := Nat.min_le_right _ _

/-- The largest state that entries name. -/
def largestNamed (es : List Entry) : Nat := (es.map fun e => e.record.largest).foldl max 0

theorem largestNamed_le_iff {es : List Entry} {n : Nat} :
    largestNamed es ≤ n ↔ ∀ e ∈ es, e.record.largest ≤ n := by
  rw [largestNamed, foldl_max_le_iff, List.forall_mem_map]
  exact ⟨And.right, fun h => ⟨Nat.zero_le n, h⟩⟩

theorem stateCount_eq {es : List Entry} (hFit : ∀ e ∈ es, e.record.largest < stateLimit) :
    stateCount es = largestNamed es + 1 := by
  have hLimit : 0 < stateLimit := by decide
  have hMax : largestNamed es ≤ stateLimit - 1 :=
    largestNamed_le_iff.mpr fun e he => Nat.le_sub_one_of_lt (hFit e he)
  show min (largestNamed es + 1) stateLimit = largestNamed es + 1
  omega

theorem largest_lt_stateCount {es : List Entry} (hFit : ∀ e ∈ es, e.record.largest < stateLimit)
    {e : Entry} (he : e ∈ es) : e.record.largest < stateCount es := by
  rw [stateCount_eq hFit]
  exact Nat.lt_succ_of_le (largestNamed_le_iff.mp (Nat.le_refl _) e he)

/-- The automaton that the records are entered into. -/
def blank (k : Kind) (es : List Entry) : Automaton k :=
  { Automaton.withStates k (stateCount es) with initial := some 0 }

theorem assemble_eq (es : List Entry) : assemble k es = enterAll (blank k es) es := by
  have hMark : (Automaton.withStates k (stateCount es)).markInitial 0 = .ok (blank k es) := by
    refine Automaton.markInitial_ok.mpr ⟨stateCount_pos es, fun t ht => ?_, rfl⟩
    cases ht
  rw [assemble, hMark]
  rfl

/-- **What is assembled holds what the records say, and begins in state zero.** -/
theorem assemble_ok {es : List Entry} (h : assemble k es = .ok b) :
    Entered (blank k es) (es.map Entry.record) b := by
  rw [assemble_eq] at h
  exact enterAll_ok h

theorem exists_assemble {es : List Entry} (hFit : ∀ e ∈ es, e.record.largest < stateLimit)
    (hAgree : k = .dfa → Deterministic fun t => .transition t ∈ es.map Entry.record) :
    ∃ b, assemble k es = .ok b := by
  rw [assemble_eq]
  refine exists_enterAll (fun e he => largest_lt_stateCount hFit he) fun hKind => ?_
  have hNone : ∀ t, t ∉ (blank k es).transitions := fun _ => List.not_mem_nil
  simp only [hNone, or_false]
  exact hAgree hKind

/-- The states that the final states and the transitions mention. -/
def mentioned (a : Automaton k) : List State :=
  a.finals.toList ++ a.transitions.flatMap fun t => [t.source, t.target]

theorem forall_mem_mentioned {p : State → Prop} :
    (∀ s ∈ mentioned a, p s) ↔
      (∀ s ∈ a.finals, p s) ∧ ∀ t ∈ a.transitions, p t.source ∧ p t.target := by
  simp only [mentioned, List.mem_append, List.mem_flatMap, List.mem_cons, List.not_mem_nil,
    or_false]
  refine ⟨?_, ?_⟩
  · intro h
    refine ⟨fun s hs => h s (Or.inl hs), fun t ht => ⟨?_, ?_⟩⟩
    · exact h t.source (Or.inr ⟨t, ht, Or.inl rfl⟩)
    · exact h t.target (Or.inr ⟨t, ht, Or.inr rfl⟩)
  · rintro ⟨hFinals, hTransitions⟩ s (hs | ⟨t, ht, rfl | rfl⟩)
    · exact hFinals s hs
    · exact (hTransitions t ht).1
    · exact (hTransitions t ht).2

/-- **What is assembled has one state more than the largest one it mentions.** -/
theorem stateCount_of_assemble {es : List Entry} (hFit : ∀ e ∈ es, e.record.largest < stateLimit)
    (h : assemble k es = .ok b) : b.stateCount = (mentioned b).foldl max 0 + 1 := by
  have hEntered := assemble_ok h
  have hCount : b.stateCount = stateCount es := hEntered.stateCount
  have hBlank : ∀ t, t ∉ (blank k es).transitions := fun _ => List.not_mem_nil
  have hFinal : ∀ s, s ∈ b.finals ↔ .final s ∈ es.map Entry.record := fun s => by
    rw [hEntered.mem_finals, or_iff_left]
    exact OrderedSet.not_mem_empty s
  have hTransition : ∀ t, t ∈ b.transitions ↔ .transition t ∈ es.map Entry.record := fun t => by
    rw [hEntered.mem_transitions, or_iff_left (hBlank t)]
  rw [hCount, stateCount_eq hFit]
  congr 1
  refine eq_of_forall_ge_iff fun n => ?_
  rw [largestNamed_le_iff, foldl_max_le_iff, forall_mem_mentioned]
  refine ⟨?_, ?_⟩
  · intro hAll
    have hRecords : ∀ r ∈ es.map Entry.record, r.largest ≤ n := List.forall_mem_map.mpr hAll
    refine ⟨Nat.zero_le n, fun s hs => ?_, fun t ht => ?_⟩
    · exact hRecords _ ((hFinal s).mp hs)
    · exact Nat.max_le.mp (hRecords _ ((hTransition t).mp ht))
  · rintro ⟨_, hFinals, hTransitions⟩ e he
    have hMem : e.record ∈ es.map Entry.record := List.mem_map.mpr ⟨e, he, rfl⟩
    cases hRecord : e.record with
    | final s => exact hFinals s ((hFinal s).mpr (hRecord ▸ hMem))
    | transition t => exact Nat.max_le.mpr (hTransitions t ((hTransition t).mpr (hRecord ▸ hMem)))

/-! ### Well-formed automata -/

theorem wellFormed_of_enter {r : Record} (hWf : a.WellFormed) (hAllowed : r.Allowed k)
    (h : enter a r = .ok b) : b.WellFormed := by
  cases r with
  | final s => exact hWf.markFinal h
  | transition t => exact hWf.connect (hAllowed t rfl) h

theorem wellFormed_of_enterAll {es : List Entry} (hWf : a.WellFormed)
    (hAllowed : ∀ e ∈ es, e.record.Allowed k) (h : enterAll a es = .ok b) : b.WellFormed :=
  enterAll_keeps (fun _ _ e he hWf => wellFormed_of_enter hWf (hAllowed e he)) hWf h

theorem wellFormed_blank (es : List Entry) : (blank k es).WellFormed := by
  have hStates := Automaton.wellFormed_withStates k (stateCount es)
  refine ⟨fun s hs => ?_, hStates.finals, hStates.source, hStates.target, hStates.noEmpty⟩
  obtain rfl := Option.some.inj hs
  exact stateCount_pos es

/-- **What is read is well formed, and its states can be named.** -/
theorem wellFormed_of_read {policy : Policy} {bytes : Bytes} (h : read k policy bytes = .ok b) :
    b.WellFormed ∧ b.stateCount ≤ stateLimit := by
  obtain ⟨es, hEntries, hAssemble⟩ := bind_eq_ok_iff.mp h
  have hEntered := assemble_ok hAssemble
  rw [assemble_eq] at hAssemble
  refine ⟨?_, hEntered.stateCount ▸ stateCount_le es⟩
  exact wellFormed_of_enterAll (wellFormed_blank es) (fun e he => allowed_of_entries hEntries he)
    hAssemble

end Automata.TransitionList
