import Automata.Proofs.Automaton.WellFormed
import Automata.Proofs.Binary.Layout

/-! # Orders of spelling

The elements of a set and the entries of a table may be spelled in any order. A layout that spells
an automaton out in some order (`Layout.Lists`) spells no other one (`Layout.automaton_of_lists`),
and it fits when the states of the automaton have names that can be stored (`Layout.fits_of_lists`):
no set has more elements than there are names, and no row has more entries than there are symbols.
Every layout that does not repeat itself is such an order (`Layout.lists_iff`).
-/

namespace Automata

/-! ### The number of elements -/

namespace OrderedSet

variable {α : Type} [Ranked α]

theorem length_toList_le {s : OrderedSet α} {n : Nat} (h : ∀ x ∈ s, rank x < n) :
    s.toList.length ≤ n := by
  have hNodup : (s.toList.map rank).Nodup :=
    List.pairwise_map.mpr (s.ascending.imp Nat.ne_of_lt)
  have hSub : s.toList.map rank ⊆ List.range n := by
    intro i hi
    obtain ⟨x, hx, rfl⟩ := List.mem_map.mp hi
    exact List.mem_range.mpr (h x hx)
  have hLength := hNodup.length_le_of_subset hSub
  rw [List.length_map, List.length_range] at hLength
  exact hLength

end OrderedSet

theorem Symbol.rank_lt (x : Symbol) : rank x < 0x110001 := by
  cases x with
  | char c => exact Nat.lt_succ_of_lt (Utf8.toNat_lt c)
  | epsilon => exact Nat.lt_succ_self 0x110000

/-! ### Tables of lists -/

namespace Table

variable {κ β γ : Type}

/-- Whether `b` is the last value that a list of entries gives to the key `k`. -/
def IsLast (l : List (κ × β)) (k : κ) (b : β) : Prop :=
  ∃ before after, l = before ++ (k, b) :: after ∧ k ∉ after.map Prod.fst

theorem IsLast.mem {l : List (κ × β)} {k : κ} {b : β} (h : IsLast l k b) : (k, b) ∈ l := by
  obtain ⟨before, after, rfl, _⟩ := h
  exact List.mem_append_right _ List.mem_cons_self

theorem isLast_nil {k : κ} {b : β} : ¬ IsLast [] k b :=
  fun h => absurd h.mem List.not_mem_nil

theorem isLast_cons {l : List (κ × β)} {p : κ × β} {k : κ} {b : β} :
    IsLast (p :: l) k b ↔ IsLast l k b ∨ p = (k, b) ∧ k ∉ l.map Prod.fst := by
  refine ⟨?_, ?_⟩
  · intro h
    obtain ⟨before, after, hEq, hAfter⟩ := h
    cases before with
    | nil =>
        obtain ⟨rfl, rfl⟩ := List.cons.inj hEq
        exact Or.inr ⟨rfl, hAfter⟩
    | cons q before =>
        obtain ⟨_, rfl⟩ := List.cons.inj hEq
        exact Or.inl ⟨before, after, rfl, hAfter⟩
  · intro h
    rcases h with ⟨before, after, rfl, hAfter⟩ | ⟨rfl, hRest⟩
    · exact ⟨p :: before, after, rfl, hAfter⟩
    · exact ⟨[], l, rfl, hRest⟩

theorem isLast_iff_mem {l : List (κ × β)} (h : (l.map Prod.fst).Nodup) {k : κ} {b : β} :
    IsLast l k b ↔ (k, b) ∈ l := by
  refine ⟨IsLast.mem, fun hMem => ?_⟩
  obtain ⟨before, after, rfl⟩ := List.append_of_mem hMem
  rw [List.map_append, List.map_cons] at h
  exact ⟨before, after, rfl, (List.nodup_cons.mp (List.nodup_append.mp h).2.1).1⟩

theorem exists_isLast {l : List (κ × β)} {k : κ} (h : k ∈ l.map Prod.fst) :
    ∃ b, IsLast l k b := by
  induction l with
  | nil => cases h
  | cons p l ih =>
      by_cases hRest : k ∈ l.map Prod.fst
      · obtain ⟨b, hLast⟩ := ih hRest
        exact ⟨b, isLast_cons.mpr (Or.inl hLast)⟩
      · obtain rfl := (List.mem_cons.mp h).resolve_right hRest
        exact ⟨p.2, isLast_cons.mpr (Or.inr ⟨rfl, hRest⟩)⟩

theorem isLast_map {f : β → γ} {l : List (κ × β)} {k : κ} {c : γ} :
    IsLast (l.map fun p => (p.1, f p.2)) k c ↔ ∃ b, IsLast l k b ∧ f b = c := by
  induction l with
  | nil => simp [isLast_nil]
  | cons p l ih =>
      obtain ⟨j, b⟩ := p
      have hKeys : (l.map fun p => (p.1, f p.2)).map Prod.fst = l.map Prod.fst := by
        rw [List.map_map]
        rfl
      rw [List.map_cons, isLast_cons, ih, hKeys]
      simp only [isLast_cons, Prod.mk.injEq]
      refine ⟨?_, ?_⟩
      · intro h
        rcases h with ⟨d, hLast, rfl⟩ | ⟨⟨rfl, rfl⟩, hRest⟩
        · exact ⟨d, Or.inl hLast, rfl⟩
        · exact ⟨b, Or.inr ⟨⟨rfl, rfl⟩, hRest⟩, rfl⟩
      · intro h
        rcases h with ⟨d, hLast | ⟨⟨rfl, rfl⟩, hRest⟩, rfl⟩
        · exact Or.inl ⟨d, hLast, rfl⟩
        · exact Or.inr ⟨⟨rfl, rfl⟩, hRest⟩

variable [Ranked κ]

/-- Entries written over a table stand, the last one under each key, and what they leave alone
stays. -/
theorem get?_foldl_insert {l : List (κ × β)} {t : Table κ β} {k : κ} {b : β} :
    (l.foldl (fun t p => t.insert p.1 p.2) t).get? k = some b ↔
      IsLast l k b ∨ k ∉ l.map Prod.fst ∧ t.get? k = some b := by
  induction l generalizing t with
  | nil => simp [isLast_nil]
  | cons p l ih =>
      obtain ⟨j, c⟩ := p
      rw [List.foldl_cons, ih, isLast_cons, List.map_cons, List.mem_cons, or_assoc,
        Prod.mk.injEq]
      refine or_congr_right ?_
      by_cases hKey : k = j
      · subst hKey
        rw [get?_insert_self, Option.some.injEq]
        simp [and_comm]
      · have hNe : j ≠ k := Ne.symm hKey
        rw [get?_insert_of_ne hNe]
        simp [hKey, hNe]

/-- **A table of entries answers the last value under each key.** -/
theorem get?_ofList_iff {l : List (κ × β)} {k : κ} {b : β} :
    (ofList l).get? k = some b ↔ IsLast l k b := by
  rw [ofList, get?_foldl_insert, get?_empty]
  simp only [reduceCtorEq, and_false, or_false]

theorem get?_ofList {l : List (κ × β)} (h : (l.map Prod.fst).Nodup) {k : κ} {b : β} :
    (ofList l).get? k = some b ↔ (k, b) ∈ l :=
  get?_ofList_iff.trans (isLast_iff_mem h)

end Table

/-- Whether the states of an automaton have names that can be stored. A row may be empty, and then
nothing else tells that its state is named. -/
structure Automaton.Storable {k : Kind} (a : Automaton k) : Prop where
  stateCount : a.stateCount ≤ stateLimit
  rows : ∀ s ∈ a.rows.keys, s ≤ stateLimit

namespace Binary

variable {k : Kind}

/-! ### Sets and tables -/

/-- `l` lists the entries of the table in some order. What it says of a key spells the value that
the table has for it. -/
structure Enumerates {κ β γ : Type} [Ranked κ] (Spells : β → γ → Prop) (l : List (κ × β))
    (t : Table κ γ) : Prop where
  keys : (l.map Prod.fst).Perm t.keys.toList
  values : ∀ p ∈ l, ∃ v, t.get? p.1 = some v ∧ Spells p.2 v

section

variable {κ β γ : Type} [Ranked κ] {Spells : β → γ → Prop} {l : List (κ × β)} {t : Table κ γ}

theorem Enumerates.nodup (h : Enumerates Spells l t) : (l.map Prod.fst).Nodup :=
  h.keys.nodup_iff.mpr t.keys.nodup_toList

theorem Enumerates.exists_mem (h : Enumerates Spells l t) {j : κ} {v : γ}
    (hv : t.get? j = some v) : ∃ b, (j, b) ∈ l ∧ Spells b v := by
  have hKey : j ∈ t.keys.toList := Table.mem_keys.mpr ⟨v, hv⟩
  obtain ⟨p, hp, rfl⟩ := List.mem_map.mp (h.keys.mem_iff.mpr hKey)
  obtain ⟨held, hHeld, hSpells⟩ := h.values p hp
  obtain rfl := Option.some.inj (hHeld.symm.trans hv)
  exact ⟨p.2, hp, hSpells⟩

/-- Entries that are listed in any order make up the table again. -/
theorem Enumerates.ofList_eq (h : Enumerates Spells l t) {value : β → γ}
    (hValue : ∀ b v, Spells b v → value b = v) :
    Table.ofList (l.map fun p => (p.1, value p.2)) = t := by
  have hNodup : ((l.map fun p => (p.1, value p.2)).map Prod.fst).Nodup := by
    rw [List.map_map]
    exact h.nodup
  refine Table.ext fun j => Option.ext fun v => ?_
  rw [Table.get?_ofList hNodup, List.mem_map]
  refine ⟨?_, ?_⟩
  · rintro ⟨p, hp, hEq⟩
    obtain ⟨rfl, rfl⟩ := Prod.mk.inj hEq
    obtain ⟨held, hHeld, hSpells⟩ := h.values p hp
    rw [hHeld, hValue _ _ hSpells]
  · intro hHeld
    obtain ⟨b, hb, hSpells⟩ := h.exists_mem hHeld
    exact ⟨(j, b), hb, Prod.ext rfl (hValue b v hSpells)⟩

theorem Enumerates.length_le (h : Enumerates Spells l t) {n : Nat}
    (hn : ∀ j ∈ t.keys, rank j < n) : l.length ≤ n := by
  rw [← List.length_map Prod.fst, h.keys.length_eq]
  exact OrderedSet.length_toList_le hn

theorem enumerates_entries (t : Table κ γ) (spell : γ → β)
    (h : ∀ p ∈ t.entries, Spells (spell p.2) p.2) :
    Enumerates Spells (t.entries.map fun p => (p.1, spell p.2)) t where
  keys := by
    rw [List.map_map]
    exact .refl _
  values p hp := by
    obtain ⟨q, hq, rfl⟩ := List.mem_map.mp hp
    exact ⟨q.2, Table.get?_eq_some_iff.mpr hq, h q hq⟩

theorem enumerates_ofList (hNodup : (l.map Prod.fst).Nodup) {value : β → γ}
    (h : ∀ p ∈ l, Spells p.2 (value p.2)) :
    Enumerates Spells l (Table.ofList (l.map fun p => (p.1, value p.2))) := by
  have hKeys : (l.map fun p => (p.1, value p.2)).map Prod.fst = l.map Prod.fst := by
    rw [List.map_map]
    rfl
  have hGet := fun j v => Table.get?_ofList (k := j) (b := v) (hKeys ▸ hNodup)
  refine ⟨(List.perm_ext_iff_of_nodup hNodup (OrderedSet.nodup_toList _)).mpr fun j => ?_, ?_⟩
  · rw [← OrderedSet.mem_def, Table.mem_keys, ← hKeys]
    simp only [hGet, List.mem_map (f := Prod.fst), Prod.exists, exists_and_right, exists_eq_right]
  · intro p hp
    exact ⟨value p.2, (hGet p.1 _).mpr (List.mem_map.mpr ⟨p, hp, rfl⟩), h p hp⟩

end

theorem perm_ofList {states : List State} (h : states.Nodup) :
    states.Perm (OrderedSet.ofList states).toList :=
  (List.perm_ext_iff_of_nodup h (OrderedSet.nodup_toList _)).mpr fun _ =>
    OrderedSet.mem_ofList.symm

theorem fitsStates_of_perm {states : List State} {s : StateSet} (h : states.Perm s.toList)
    (hs : ∀ q ∈ s, q ≤ stateLimit) : FitsStates states := by
  refine ⟨?_, fun q hq => hs q (h.mem_iff.mp hq)⟩
  rw [h.length_eq]
  have hLength := OrderedSet.length_toList_le fun q hq => Nat.lt_succ_of_le (hs q hq)
  exact Nat.lt_of_le_of_lt hLength (by decide)

/-! ### Targets -/

/-- Whether a target is spelled, its states in any order. -/
def Spelled.Lists : {k : Kind} → Spelled k → k.Target → Prop
  | .nfa, states, held => states.Perm (OrderedSet.toList held)
  | .dfa, state, held => state = held

theorem Spelled.target_of_lists {t : Spelled k} {held : k.Target} (h : t.Lists held) :
    t.target = held := by
  cases k with
  | nfa => exact OrderedSet.ext fun q => OrderedSet.mem_ofList.trans h.mem_iff
  | dfa => exact h

theorem Spelled.fits_of_lists {t : Spelled k} {held : k.Target} (h : t.Lists held)
    (hStates : ∀ q ∈ Target.toList held, q ≤ stateLimit) : t.Fits := by
  cases k with
  | nfa => exact fitsStates_of_perm h hStates
  | dfa =>
      obtain rfl : t = held := h
      exact hStates t (List.mem_singleton.mpr rfl)

theorem Spelled.lists_ofTarget (held : k.Target) : (Spelled.ofTarget held).Lists held := by
  cases k with
  | nfa => exact .refl _
  | dfa => exact rfl

/-- Whether a target is spelled without repetition. -/
def Spelled.Distinct : {k : Kind} → Spelled k → Prop
  | .nfa, states => states.Nodup
  | .dfa, _ => True

instance Spelled.decidableDistinct : {k : Kind} → (t : Spelled k) → Decidable t.Distinct
  | .nfa, states => inferInstanceAs (Decidable (List.Nodup states))
  | .dfa, _ => inferInstanceAs (Decidable True)

theorem Spelled.distinct_of_lists {t : Spelled k} {held : k.Target} (h : t.Lists held) :
    t.Distinct := by
  cases k with
  | nfa => exact h.nodup_iff.mpr (OrderedSet.nodup_toList held)
  | dfa => exact trivial

theorem Spelled.lists_target {t : Spelled k} (h : t.Distinct) : t.Lists t.target := by
  cases k with
  | nfa => exact perm_ofList h
  | dfa => exact rfl

/-! ### Layouts -/

namespace Layout

variable {l : Layout k} {a : Automaton k}

/-- `l` spells the automaton out, each of its sets and tables in some order. -/
structure Lists (l : Layout k) (a : Automaton k) : Prop where
  stateCount : l.stateCount = a.stateCount
  initial : l.initial = a.initial
  finals : l.finals.Perm a.finals.toList
  rows : Enumerates (Enumerates Spelled.Lists) l.rows a.rows

/-- **An automaton is determined by what is spelled, not by the order.** -/
theorem automaton_of_lists (h : l.Lists a) : l.automaton = a := by
  have hFinals : OrderedSet.ofList l.finals = a.finals :=
    OrderedSet.ext fun s => OrderedSet.mem_ofList.trans h.finals.mem_iff
  have hRows : Table.ofList (l.rows.map fun p => (p.1, rowOf p.2)) = a.rows :=
    h.rows.ofList_eq fun _ _ hRow => hRow.ofList_eq fun _ _ => Spelled.target_of_lists
  rw [automaton, h.stateCount, h.initial, hFinals, hRows]

/-- The ascending order is one of the orders. -/
theorem lists_ofAutomaton (a : Automaton k) : (ofAutomaton a).Lists a where
  stateCount := rfl
  initial := rfl
  finals := .refl _
  rows :=
    enumerates_entries a.rows (fun row => row.entries.map fun q => (q.1, Spelled.ofTarget q.2))
      fun p _ => enumerates_entries p.2 Spelled.ofTarget fun q _ => Spelled.lists_ofTarget q.2

/-- Whether nothing is spelled twice: no final state, no row, no symbol of a row and no state of a
target. -/
structure Distinct (l : Layout k) : Prop where
  finals : l.finals.Nodup
  rows : (l.rows.map Prod.fst).Nodup
  entries : ∀ p ∈ l.rows, (p.2.map Prod.fst).Nodup ∧ ∀ q ∈ p.2, q.2.Distinct

instance : Decidable l.Distinct :=
  decidable_of_iff (l.finals.Nodup ∧ (l.rows.map Prod.fst).Nodup ∧
      ∀ p ∈ l.rows, (p.2.map Prod.fst).Nodup ∧ ∀ q ∈ p.2, q.2.Distinct)
    ⟨fun h => ⟨h.1, h.2.1, h.2.2⟩, fun h => ⟨h.finals, h.rows, h.entries⟩⟩

/-- **The layouts of an automaton are those that spell it without repetition.** -/
theorem lists_iff : l.Lists a ↔ l.Distinct ∧ l.automaton = a := by
  refine ⟨fun h => ⟨⟨?_, ?_, fun p hp => ?_⟩, automaton_of_lists h⟩, ?_⟩
  · exact h.finals.nodup_iff.mpr a.finals.nodup_toList
  · exact h.rows.nodup
  · obtain ⟨row, _, hRow⟩ := h.rows.values p hp
    refine ⟨hRow.nodup, fun q hq => ?_⟩
    obtain ⟨held, _, hHeld⟩ := hRow.values q hq
    exact Spelled.distinct_of_lists hHeld
  · rintro ⟨hDistinct, rfl⟩
    refine ⟨rfl, rfl, perm_ofList hDistinct.finals, ?_⟩
    refine enumerates_ofList hDistinct.rows fun p hp => ?_
    obtain ⟨hSymbols, hTargets⟩ := hDistinct.entries p hp
    exact enumerates_ofList hSymbols fun q hq => Spelled.lists_target (hTargets q hq)

/-- **In whatever order a well-formed automaton is spelled out, the layout fits.** -/
theorem fits_of_lists (hWf : a.WellFormed) (hStorable : a.Storable) (h : l.Lists a) : l.Fits := by
  have hState : ∀ s, s < a.stateCount → s ≤ stateLimit := fun s hs =>
    Nat.le_of_lt (Nat.lt_of_lt_of_le hs hStorable.stateCount)
  have hKeys : ∀ s ∈ a.rows.keys, rank s < stateLimit + 1 := fun s hs =>
    Nat.lt_succ_of_le (hStorable.rows s hs)
  refine ⟨h.stateCount.symm ▸ hStorable.stateCount, fun s hs => ?_, ?_, ?_, fun p hp => ?_⟩
  · exact hState s (hWf.initial s (h.initial ▸ hs))
  · exact fitsStates_of_perm h.finals fun s hs => hState s (hWf.finals s hs)
  · exact Nat.lt_of_le_of_lt (h.rows.length_le hKeys) (by decide)
  obtain ⟨row, hRow, hSpelled⟩ := h.rows.values p hp
  have hLength := hSpelled.length_le fun x _ => x.rank_lt
  refine ⟨hStorable.rows p.1 (Table.mem_keys.mpr ⟨row, hRow⟩), ?_, fun q hq => ?_⟩
  · exact Nat.lt_of_le_of_lt hLength (by decide)
  · obtain ⟨held, hHeld, hLists⟩ := hSpelled.values q hq
    refine Spelled.fits_of_lists hLists fun s hs => ?_
    -- a state that the target names is the end of a transition, so it is well-formed
    have hTarget : a.target? p.1 q.1 = some held :=
      Automaton.target?_eq_some_iff.mpr ⟨row, hRow, hHeld⟩
    have hMem : ⟨p.1, q.1, s⟩ ∈ a.transitions :=
      Automaton.mem_targets.mp (Automaton.mem_targets_iff.mpr ⟨held, hTarget, hs⟩)
    exact hState s (hWf.target _ hMem)

end Layout

end Binary

end Automata
