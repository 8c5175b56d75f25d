import Automata.Proofs.Conversion.EpsilonRemoval
import Automata.Proofs.Conversion.Subsets
import Automata.Proofs.Machine.Alike
import Automata.Proofs.TransitionList.RoundTrip

/-! # Conversion sees nothing but the shape

Two automata have the same shape when the states that their initial states lead to correspond one
to one, with the same final states and transitions (`SameShape`). Names of states, states that
nothing leads to, and what these do are no part of the shape.

The correspondence is used as a pairing along which the automata move alike (`Mirrors`). Such a
pairing is kept when empty moves are removed (`mirrors_withoutEpsilon`), and it pairs sets of states
member by member, so that the machines of sets move alike (`alike_subsetMachine`) and have
the same automaton. A list that is written and read back swaps two names, hence nothing changes
then either.
-/

namespace Automata

namespace Automaton

variable {k : Kind} {a b : Automaton k} {s t : State}

/-- Whether a path leads from one state to another. -/
def Leads (a : Automaton k) (s t : State) : Prop := ∃ labels, a.Path s labels t

theorem Leads.refl (s : State) : a.Leads s s := ⟨[], .refl s⟩

theorem Leads.step {p q : State} {x : Symbol} (h : a.Leads s p) (hStep : ⟨p, x, q⟩ ∈ a.transitions) :
    a.Leads s q := by
  obtain ⟨labels, hPath⟩ := h
  exact ⟨labels ++ [x], hPath.append (.step hStep (.refl q))⟩

theorem Leads.mem_of_closed {p : State → Prop} (hStart : p s)
    (hStep : ∀ u ∈ a.transitions, p u.source → p u.target) (h : a.Leads s t) : p t := by
  obtain ⟨labels, hPath⟩ := h
  induction hPath with
  | refl => exact hStart
  | step hMove _ ih => exact ih (hStep _ hMove hStart)

/-- A correspondence of the states that `s` and `t` lead to is one of shapes when it takes `s` to
`t`, final states to final states and transitions to transitions, and back. -/
structure SameShape (f : {p // a.Leads s p} ≃ {q // b.Leads t q}) : Prop where
  start : (f ⟨s, .refl s⟩ : State) = t
  finals : ∀ p, (f p : State) ∈ b.finals ↔ (p : State) ∈ a.finals
  transitions : ∀ p x q, ⟨f p, x, f q⟩ ∈ b.transitions ↔ ⟨p, x, q⟩ ∈ a.transitions

/-- A one-to-one pairing of states along which two automata move alike. -/
structure Mirrors (R : State → State → Prop) (a b : Automaton k) : Prop where
  unique : Relator.BiUnique R
  finals : ∀ p q, R p q → (p ∈ a.finals ↔ q ∈ b.finals)
  forth : ∀ p q x p', R p q → ⟨p, x, p'⟩ ∈ a.transitions → ∃ q', R p' q' ∧ ⟨q, x, q'⟩ ∈ b.transitions
  back : ∀ p q x q', R p q → ⟨q, x, q'⟩ ∈ b.transitions → ∃ p', R p' q' ∧ ⟨p, x, p'⟩ ∈ a.transitions

theorem Mirrors.symm {R : State → State → Prop} (h : Mirrors R a b) : Mirrors (flip R) b a where
  unique := biUnique_flip h.unique
  finals q p hq := (h.finals p q hq).symm
  forth q p x q' hq hMove := h.back p q x q' hq hMove
  back q p x p' hq hMove := h.forth p q x p' hq hMove

/-- **A correspondence of shapes pairs states along which the automata move alike.** -/
theorem SameShape.mirrors {f : {p // a.Leads s p} ≃ {q // b.Leads t q}} (h : SameShape f) :
    Mirrors (fun p q => ∃ hp : a.Leads s p, (f ⟨p, hp⟩ : State) = q) a b := by
  constructor
  case unique =>
    refine ⟨?_, ?_⟩
    · rintro p p' q ⟨hp, rfl⟩ ⟨hp', hEq⟩
      have hSame : f ⟨p', hp'⟩ = f ⟨p, hp⟩ := Subtype.ext hEq
      exact congrArg Subtype.val (f.injective hSame).symm
    · rintro p q q' ⟨hp, rfl⟩ ⟨_, rfl⟩
      rfl
  case finals =>
    rintro p q ⟨hp, rfl⟩
    exact (h.finals ⟨p, hp⟩).symm
  case forth =>
    rintro p q x p' ⟨hp, rfl⟩ hMove
    have hp' : a.Leads s p' := hp.step hMove
    exact ⟨_, ⟨hp', rfl⟩, (h.transitions ⟨p, hp⟩ x ⟨p', hp'⟩).mpr hMove⟩
  case back =>
    rintro p q x q' ⟨hp, rfl⟩ hMove
    have hq' : b.Leads t q' := (f ⟨p, hp⟩).2.step hMove
    have hImage : f (f.symm ⟨q', hq'⟩) = ⟨q', hq'⟩ := f.apply_symm_apply _
    refine ⟨f.symm ⟨q', hq'⟩, ⟨(f.symm ⟨q', hq'⟩).2, congrArg Subtype.val hImage⟩, ?_⟩
    rw [← h.transitions ⟨p, hp⟩ x (f.symm ⟨q', hq'⟩), hImage]
    exact hMove

theorem Mirrors.exists_emptyReach {R : State → State → Prop} (h : Mirrors R a b) {p q p' : State}
    (hq : R p q) (hReach : a.EmptyReach p p') : ∃ q', R p' q' ∧ b.EmptyReach q q' := by
  induction hReach with
  | refl => exact ⟨q, hq, .refl⟩
  | tail _ hMove ih =>
      obtain ⟨r, hr, hBefore⟩ := ih
      obtain ⟨q', hq', hMove'⟩ := h.forth _ _ _ _ hr hMove
      exact ⟨q', hq', hBefore.tail hMove'⟩

end Automaton

namespace Nfa

open Automaton (Mirrors SameShape)

variable {a b : Nfa} {R : State → State → Prop} {s t : State}

/-! ### Empty moves -/

theorem mem_finals_withoutEpsilon_of_mirrors (h : Mirrors R a b) {p q : State} (hq : R p q)
    (hp : p ∈ a.withoutEpsilon.finals) : q ∈ b.withoutEpsilon.finals := by
  obtain ⟨f, hf, hReach⟩ := mem_finals_withoutEpsilon.mp hp
  obtain ⟨g, hg, hReach'⟩ := h.exists_emptyReach hq hReach
  exact mem_finals_withoutEpsilon.mpr ⟨g, (h.finals f g hg).mp hf, hReach'⟩

theorem exists_move_withoutEpsilon_of_mirrors (h : Mirrors R a b) {p q p' : State} {x : Symbol}
    (hq : R p q) (hMove : ⟨p, x, p'⟩ ∈ a.withoutEpsilon.transitions) :
    ∃ q', R p' q' ∧ ⟨q, x, q'⟩ ∈ b.withoutEpsilon.transitions := by
  obtain ⟨c, r, u, rfl, hBefore, hChar, hAfter⟩ := mem_transitions_withoutEpsilon.mp hMove
  obtain ⟨r', hr, hBefore'⟩ := h.exists_emptyReach hq hBefore
  obtain ⟨u', hu, hChar'⟩ := h.forth _ _ _ _ hr hChar
  obtain ⟨q', hq', hAfter'⟩ := h.exists_emptyReach hu hAfter
  exact ⟨q', hq', mem_transitions_withoutEpsilon.mpr ⟨c, r', u', rfl, hBefore', hChar', hAfter'⟩⟩

/-- **Automata that move alike do so without their empty moves.** -/
theorem mirrors_withoutEpsilon (h : Mirrors R a b) :
    Mirrors R a.withoutEpsilon b.withoutEpsilon where
  unique := h.unique
  finals _ _ hq :=
    ⟨mem_finals_withoutEpsilon_of_mirrors h hq, mem_finals_withoutEpsilon_of_mirrors h.symm hq⟩
  forth _ _ _ _ hq hMove := exists_move_withoutEpsilon_of_mirrors h hq hMove
  back _ _ _ _ hq hMove := exists_move_withoutEpsilon_of_mirrors h.symm hq hMove

/-! ### Sets of states -/

/-- Whether each member of either set is paired with a member of the other. -/
def Paired (R : State → State → Prop) (S T : StateSet) : Prop :=
  (∀ p ∈ S, ∃ q ∈ T, R p q) ∧ ∀ q ∈ T, ∃ p ∈ S, R p q

theorem Paired.symm {S T : StateSet} (h : Paired R S T) : Paired (flip R) T S := ⟨h.2, h.1⟩

theorem mem_of_paired (hR : Relator.LeftUnique R) {S T U : StateSet} (hS : Paired R S U)
    (hT : Paired R T U) {p : State} (hp : p ∈ S) : p ∈ T := by
  obtain ⟨q, hq, hPair⟩ := hS.1 p hp
  obtain ⟨r, hr, hPair'⟩ := hT.2 q hq
  rw [hR hPair hPair']
  exact hr

theorem leftUnique_paired (hR : Relator.LeftUnique R) : Relator.LeftUnique (Paired R) := by
  intro S T U hS hT
  apply OrderedSet.ext
  intro p
  exact ⟨mem_of_paired hR hS hT, mem_of_paired hR hT hS⟩

theorem biUnique_paired (hR : Relator.BiUnique R) : Relator.BiUnique (Paired R) := by
  refine ⟨leftUnique_paired hR.1, ?_⟩
  intro S T U hT hU
  exact leftUnique_paired (biUnique_flip hR).1 hT.symm hU.symm

theorem eq_empty_of_paired {S T : StateSet} (h : Paired R S T) (hS : S = ∅) : T = ∅ := by
  rw [OrderedSet.eq_empty_iff] at hS ⊢
  intro q hq
  obtain ⟨p, hp, _⟩ := h.2 q hq
  exact hS p hp

theorem Paired.move (h : Mirrors R a b) {S T : StateSet} (hPaired : Paired R S T) (c : Char) :
    Paired R (a.move S c) (b.move T c) := by
  refine ⟨fun p' hp' => ?_, fun q' hq' => ?_⟩
  · obtain ⟨p, hp, hMove⟩ := mem_move.mp hp'
    obtain ⟨q, hq, hPair⟩ := hPaired.1 p hp
    obtain ⟨q', hPair', hMove'⟩ := h.forth p q (.char c) p' hPair hMove
    exact ⟨q', mem_move.mpr ⟨q, hq, hMove'⟩, hPair'⟩
  · obtain ⟨q, hq, hMove⟩ := mem_move.mp hq'
    obtain ⟨p, hp, hPair⟩ := hPaired.2 q hq
    obtain ⟨p', hPair', hMove'⟩ := h.back p q (.char c) q' hPair hMove
    exact ⟨p', mem_move.mpr ⟨p, hp, hMove'⟩, hPair'⟩

theorem anyFinal_of_paired (h : Mirrors R a b) {S T : StateSet} (hPaired : Paired R S T)
    (hFinal : a.anyFinal S = true) : b.anyFinal T = true := by
  obtain ⟨p, hp, hf⟩ := anyFinal_iff.mp hFinal
  obtain ⟨q, hq, hPair⟩ := hPaired.1 p hp
  exact anyFinal_iff.mpr ⟨q, hq, (h.finals p q hPair).mp hf⟩

/-- **The machines of sets move alike.** -/
theorem alike_subsetMachine (h : Mirrors R a b) (hStart : R s t) :
    Machine.Alike (Paired R) (a.subsetMachine s) (b.subsetMachine t) where
  unique := biUnique_paired h.unique
  start := by
    refine ⟨fun p hp => ⟨t, OrderedSet.mem_singleton.mpr rfl, ?_⟩,
      fun q hq => ⟨s, OrderedSet.mem_singleton.mpr rfl, ?_⟩⟩
    · rw [OrderedSet.mem_singleton.mp hp]
      exact hStart
    · rw [OrderedSet.mem_singleton.mp hq]
      exact hStart
  next S T c hPaired := by
    have hMove : Paired R (a.move S c) (b.move T c) := hPaired.move h c
    by_cases hEmpty : a.move S c = ∅
    · rw [next_subsetMachine_eq_none.mpr hEmpty,
        next_subsetMachine_eq_none.mpr (eq_empty_of_paired hMove hEmpty)]
      exact .none
    · have hEmpty' : b.move T c ≠ ∅ := fun hT => hEmpty (eq_empty_of_paired hMove.symm hT)
      rw [next_subsetMachine.mpr ⟨rfl, hEmpty⟩, next_subsetMachine.mpr ⟨rfl, hEmpty'⟩]
      exact .some hMove
  accepting S T hPaired := by
    rw [Bool.eq_iff_iff]
    exact ⟨anyFinal_of_paired h hPaired, anyFinal_of_paired h.symm hPaired.symm⟩

/-! ### Conversion -/

theorem exists_determinize_of_mirrors (h : Mirrors R a b) (hStart : R s t)
    (ha : a.initial = some s) (hb : b.initial = some t) (hEps : a.hasEpsilon = false)
    (hEps' : b.hasEpsilon = false) : ∃ d, a.determinize = .ok d ∧ b.determinize = .ok d := by
  refine ⟨_, determinize_eq hEps ha, ?_⟩
  rw [determinize_eq hEps' hb]
  exact congrArg Except.ok (Machine.toDfa_eq_of_alike (alike_subsetMachine h hStart)
    (within_subsetMachine a s) (within_subsetMachine b t) (covers_subsets a s)
    (covers_subsets b t)).symm

theorem exists_toDfa_of_mirrors (h : Mirrors R a b) (hStart : R s t) (ha : a.initial = some s)
    (hb : b.initial = some t) : ∃ d, a.toDfa = .ok d ∧ b.toDfa = .ok d :=
  exists_determinize_of_mirrors (mirrors_withoutEpsilon h) hStart ha hb
    (hasEpsilon_withoutEpsilon a) (hasEpsilon_withoutEpsilon b)

theorem mirrors_of_swapped (h : TransitionList.Swapped s a b) :
    Mirrors (fun p q => Equiv.swap 0 s p = q) a b := by
  have hInj : Function.Injective (Equiv.swap 0 s) := (Equiv.swap 0 s).injective
  constructor
  case unique =>
    refine ⟨fun p p' q hp hp' => hInj (hp.trans hp'.symm), fun p q q' hq hq' => ?_⟩
    exact hq.symm.trans hq'
  case finals =>
    rintro p _ rfl
    rw [h.mem_finals]
    refine ⟨fun hp => ⟨p, hp, rfl⟩, ?_⟩
    rintro ⟨f, hf, hEq⟩
    rw [← hInj hEq]
    exact hf
  case forth =>
    rintro p _ x p' rfl hMove
    exact ⟨_, rfl, (h.mem_transitions _).mpr ⟨⟨p, x, p'⟩, hMove, rfl⟩⟩
  case back =>
    rintro p _ x q' rfl hMove
    obtain ⟨⟨r, y, r'⟩, hMem, hEq⟩ := (h.mem_transitions _).mp hMove
    obtain ⟨hSource, rfl, rfl⟩ := Transition.mk.inj hEq
    rw [← hInj hSource]
    exact ⟨r', rfl, hMem⟩

/-- What is written is read back as the automaton with its initial state and state zero swapped. -/
theorem exists_swapped_of_write (h : Obtainable a) (ha : a.initial = some s)
    (hBlank : TransitionList.NoBlank a) :
    ∃ text b, TransitionList.write a = .ok text ∧
      (∀ policy, TransitionList.read .nfa policy (Utf8.encode text) = .ok b) ∧
      TransitionList.Swapped s a b := by
  obtain ⟨hWf, hLimit⟩ := h.wellFormed
  obtain ⟨es, b, hRecords, hFit, hAssemble, hRead⟩ := TransitionList.exists_read_of_records
    (fun r hr => TransitionList.writable_of_mem_records hWf hLimit ha hBlank hr)
    (fun r hr => Nat.lt_of_lt_of_le (TransitionList.largest_lt_of_mem_records hWf ha hr) hLimit)
    (fun hKind => by cases hKind)
  exact ⟨_, b, TransitionList.write_of_initial ha hBlank, hRead,
    TransitionList.swapped_of_assemble hRecords hFit hAssemble⟩

/-- **Conversion sees nothing but the shape.** Automata of the same shape are turned into the same
deterministic automaton, its states numbered alike, and so they are by determinization alone when
they have no empty moves. Writing an automaton and reading it back keeps what it is turned into.

In which order transitions were added, or are enumerated, is no part of an automaton: its tables,
and the sets of states that conversion goes through, are kept in ascending order. -/
theorem toDfa_sees_shape (a : Nfa) (s : State) (ha : a.initial = some s) :
    (∀ (b : Nfa) (t : State) (f : {p // a.Leads s p} ≃ {q // b.Leads t q}),
      b.initial = some t → SameShape f →
        (∃ d, a.toDfa = .ok d ∧ b.toDfa = .ok d) ∧
        (a.hasEpsilon = false → b.hasEpsilon = false →
          ∃ d, a.determinize = .ok d ∧ b.determinize = .ok d)) ∧
    (Obtainable a → TransitionList.NoBlank a →
      ∃ (text : Text) (b : Nfa), TransitionList.write a = .ok text ∧
        (∀ policy, TransitionList.read .nfa policy (Utf8.encode text) = .ok b) ∧
        ∃ d, a.toDfa = .ok d ∧ b.toDfa = .ok d) := by
  refine ⟨fun b t f hb hShape => ?_, fun hObtainable hBlank => ?_⟩
  · have hMirrors := hShape.mirrors
    have hStart : ∃ hs : a.Leads s s, (f ⟨s, hs⟩ : State) = t := ⟨.refl s, hShape.start⟩
    exact ⟨exists_toDfa_of_mirrors hMirrors hStart ha hb,
      exists_determinize_of_mirrors hMirrors hStart ha hb⟩
  · obtain ⟨text, b, hWrite, hRead, hSwapped⟩ := exists_swapped_of_write hObtainable ha hBlank
    refine ⟨text, b, hWrite, hRead, ?_⟩
    exact exists_toDfa_of_mirrors (mirrors_of_swapped hSwapped) (Equiv.swap_apply_right 0 s) ha
      hSwapped.initial

/-- An automaton of two states that moves on `a` or without reading, and back on `b`. -/
def turning : Nfa :=
  Edit.attemptAll (.withStates .nfa 2)
    [.markInitial 0, .markFinal 1, .addTransition 0 'a' 1, .addEpsilon 0 1, .addTransition 1 'b' 0]

/-- The same with the two names exchanged, made in another order, and with a third state that
nothing leads to. -/
def turned : Nfa :=
  Edit.attemptAll (.withStates .nfa 3)
    [.addTransition 2 'z' 1, .addEpsilon 1 0, .addTransition 0 'b' 1, .addTransition 1 'a' 0,
      .markFinal 2, .markFinal 0, .markInitial 1]

theorem leads_turning {p : State} : turning.Leads 0 p ↔ p = 0 ∨ p = 1 := by
  refine ⟨fun h => h.mem_of_closed (p := fun p => p = 0 ∨ p = 1) (by decide) (by decide), ?_⟩
  rintro (rfl | rfl)
  · exact .refl 0
  · exact (Automaton.Leads.refl 0).step (x := .epsilon) (by decide)

theorem leads_turned {q : State} : turned.Leads 1 q ↔ q = 0 ∨ q = 1 := by
  refine ⟨fun h => h.mem_of_closed (p := fun q => q = 0 ∨ q = 1) (by decide) (by decide), ?_⟩
  rintro (rfl | rfl)
  · exact (Automaton.Leads.refl 1).step (x := .epsilon) (by decide)
  · exact .refl 1

/-- States correspond by the exchange of names. -/
def exchange : {p // turned.Leads 1 p} ≃ {q // turning.Leads 0 q} :=
  (Equiv.swap 0 1).subtypeEquiv fun p => by
    rw [leads_turning, leads_turned, Equiv.swap_apply_eq_iff, Equiv.swap_apply_eq_iff,
      Equiv.swap_apply_left, Equiv.swap_apply_right, or_comm]

theorem sameShape_exchange : SameShape exchange where
  start := Equiv.swap_apply_right 0 1
  finals := by
    rintro ⟨p, hp⟩
    show Equiv.swap 0 1 p ∈ turning.finals ↔ p ∈ turned.finals
    rcases leads_turned.mp hp with rfl | rfl <;> decide
  transitions := by
    rintro ⟨p, hp⟩ x ⟨q, hq⟩
    show ⟨Equiv.swap 0 1 p, x, Equiv.swap 0 1 q⟩ ∈ turning.transitions ↔
      ⟨p, x, q⟩ ∈ turned.transitions
    have hTurning : turning.transitions =
        [⟨0, .char 'a', 1⟩, ⟨0, .epsilon, 1⟩, ⟨1, .char 'b', 0⟩] := by decide
    have hTurned : turned.transitions =
        [⟨0, .char 'b', 1⟩, ⟨1, .char 'a', 0⟩, ⟨1, .epsilon, 0⟩, ⟨2, .char 'z', 1⟩] := by decide
    rw [hTurning, hTurned]
    rcases leads_turned.mp hp with rfl | rfl <;> rcases leads_turned.mp hq with rfl | rfl <;> simp

theorem toDfa_sees_shape_turned :
    turned.initial = some 1 ∧ turning.initial = some 0 ∧ SameShape exchange ∧
      (∃ d, turned.toDfa = .ok d ∧ turning.toDfa = .ok d) ∧
      Obtainable turned ∧ TransitionList.NoBlank turned ∧
      ∃ (text : Text) (b : Nfa), TransitionList.write turned = .ok text ∧
        (∀ policy, TransitionList.read .nfa policy (Utf8.encode text) = .ok b) ∧
        ∃ d, turned.toDfa = .ok d ∧ b.toDfa = .ok d := by
  have hObtainable : Obtainable turned :=
    (Obtainable.withStates .nfa 3 (by decide)).attemptAll (by decide)
  have hBlank : TransitionList.NoBlank turned := TransitionList.unwritable_eq_nil_iff.mp (by decide)
  obtain ⟨hShape, hWritten⟩ := toDfa_sees_shape turned 1 (by decide)
  exact ⟨by decide, by decide, sameShape_exchange,
    (hShape turning 0 exchange (by decide) sameShape_exchange).1, hObtainable, hBlank,
    hWritten hObtainable hBlank⟩

end Nfa

end Automata
