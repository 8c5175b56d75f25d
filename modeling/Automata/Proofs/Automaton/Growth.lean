import Automata.Proofs.Automaton.Refusal

/-! # Growing automata

An automaton is part of another one that has whatever it has, down to the entries of its rows
(`PartOf`). This is an order (`PartOf.antisymm`), and edits only go up in it: an automaton is part
of what an edit leaves of it (`partOf_left`), and so of what any number of edits leave
(`partOf_leftAll`).

A mark or a transition goes no further up than it must. Where an automaton is part of one with the
same states that has the mark already, the edit goes through and stays part of it
(`exists_apply_of_has`).
-/

namespace Automata

namespace Automaton

variable {k : Kind} {a b c : Automaton k}

/-- Whether `b` has the states, the marks, the rows and the targets of `a`. -/
structure PartOf (a b : Automaton k) : Prop where
  stateCount : a.stateCount ≤ b.stateCount
  initial : ∀ s, a.initial = some s → b.initial = some s
  finals : ∀ s ∈ a.finals, s ∈ b.finals
  rows : ∀ s ∈ a.rows.keys, s ∈ b.rows.keys
  target : ∀ s x held, a.target? s x = some held →
    ∃ more, b.target? s x = some more ∧ ∀ q ∈ Target.toList held, q ∈ Target.toList more

/-! ### The order -/

theorem PartOf.refl (a : Automaton k) : a.PartOf a where
  stateCount := Nat.le_refl _
  initial _ h := h
  finals _ h := h
  rows _ h := h
  target _ _ held h := ⟨held, h, fun _ hq => hq⟩

theorem PartOf.trans (h : a.PartOf b) (g : b.PartOf c) : a.PartOf c where
  stateCount := Nat.le_trans h.stateCount g.stateCount
  initial s hs := g.initial s (h.initial s hs)
  finals s hs := g.finals s (h.finals s hs)
  rows s hs := g.rows s (h.rows s hs)
  target s x held hHeld := by
    obtain ⟨more, hMore, hSub⟩ := h.target s x held hHeld
    obtain ⟨most, hMost, hSub'⟩ := g.target s x more hMore
    exact ⟨most, hMost, fun q hq => hSub' q (hSub q hq)⟩

theorem PartOf.target?_eq_some (h : a.PartOf b) (g : b.PartOf a) {s : State} {x : Symbol}
    {held : k.Target} (hHeld : a.target? s x = some held) : b.target? s x = some held := by
  obtain ⟨more, hMore, hSub⟩ := h.target s x held hHeld
  obtain ⟨back, hBack, hSub'⟩ := g.target s x more hMore
  obtain rfl := Option.some.inj (hHeld.symm.trans hBack)
  rw [hMore, Target.eq_of_mem_iff fun q => ⟨hSub' q, hSub q⟩]

theorem get?_rows_eq_some_iff {s : State} {r : Row k} :
    a.rows.get? s = some r ↔ s ∈ a.rows.keys ∧ a.row s = r := by
  rw [Table.mem_keys, row]
  cases a.rows.get? s with
  | none => simp
  | some r' => simp

/-- **Automata that are part of each other are equal**, down to rows without entries. -/
theorem PartOf.antisymm (h : a.PartOf b) (g : b.PartOf a) : a = b := by
  have hTarget : ∀ s x, a.target? s x = b.target? s x := fun s x => Option.ext fun _ =>
    ⟨h.target?_eq_some g, g.target?_eq_some h⟩
  have hRow : ∀ s, a.row s = b.row s := fun s => Table.ext (hTarget s)
  have hKeys : ∀ s, s ∈ a.rows.keys ↔ s ∈ b.rows.keys := fun s => ⟨h.rows s, g.rows s⟩
  have hRows : a.rows = b.rows := Table.ext fun s => Option.ext fun r => by
    rw [get?_rows_eq_some_iff, get?_rows_eq_some_iff, hKeys, hRow]
  have hInitial : a.initial = b.initial := Option.ext fun s => ⟨h.initial s, g.initial s⟩
  have hFinals : a.finals = b.finals := OrderedSet.ext fun s => ⟨h.finals s, g.finals s⟩
  have hCount : a.stateCount = b.stateCount := Nat.le_antisymm h.stateCount g.stateCount
  cases a
  cases b
  rw [mk.injEq]
  exact ⟨hCount, hInitial, hFinals, hRows⟩

theorem PartOf.mem_transitions (h : a.PartOf b) {t : Transition} (ht : t ∈ a.transitions) :
    t ∈ b.transitions := by
  obtain ⟨held, hHeld, hq⟩ := mem_targets_iff.mp (Automaton.mem_transitions.mp ht)
  obtain ⟨more, hMore, hSub⟩ := h.target _ _ held hHeld
  exact Automaton.mem_transitions.mpr (mem_targets_iff.mpr ⟨more, hMore, hSub _ hq⟩)

/-! ### Changing a row -/

variable {s : State} {x : Symbol} {t : k.Target}

theorem partOf_setTarget (hKeep : ∀ q ∈ a.targets s x, q ∈ Target.toList t) :
    a.PartOf (a.setTarget s x t) where
  stateCount := Nat.le_refl _
  initial _ h := h
  finals _ h := h
  rows p hp := Table.mem_keys_insert.mpr (Or.inr hp)
  target p y held hHeld := by
    rw [target?_setTarget]
    by_cases hKey : p = s ∧ y = x
    · obtain ⟨rfl, rfl⟩ := hKey
      rw [targets_eq hHeld] at hKeep
      exact ⟨t, if_pos ⟨rfl, rfl⟩, hKeep⟩
    · exact ⟨held, by rw [if_neg hKey, hHeld], fun _ hq => hq⟩

/-- What is written into a row stays within an automaton that has it already. -/
theorem PartOf.setTarget (h : a.PartOf b) {more : k.Target} (hMore : b.target? s x = some more)
    (hSub : ∀ q ∈ Target.toList t, q ∈ Target.toList more) : (a.setTarget s x t).PartOf b where
  stateCount := h.stateCount
  initial := h.initial
  finals := h.finals
  rows p hp := by
    rcases Table.mem_keys_insert.mp hp with rfl | hp
    · obtain ⟨r, hRow, _⟩ := target?_eq_some_iff.mp hMore
      exact Table.mem_keys.mpr ⟨r, hRow⟩
    · exact h.rows p hp
  target p y held hHeld := by
    rw [target?_setTarget] at hHeld
    split at hHeld
    · next hKey =>
        obtain ⟨rfl, rfl⟩ := hKey
        obtain rfl := Option.some.inj hHeld
        exact ⟨more, hMore, hSub⟩
    · exact h.target p y held hHeld

/-! ### Transitions -/

theorem partOf_of_connect {t : Transition} (hOk : a.connect t = .ok b) : a.PartOf b := by
  obtain ⟨_, _, grown, rfl, hGrown⟩ := exists_grown_of_connect hOk
  exact partOf_setTarget fun q hq => (hGrown q).mpr (Or.inr hq)

/-- A transition that an automaton has can be entered into each part of it. -/
theorem PartOf.exists_connect (h : a.PartOf b) (hCount : a.stateCount = b.stateCount)
    {t : Transition} (hSource : t.source < b.stateCount) (hTarget : t.target < b.stateCount)
    (ht : t ∈ b.transitions) : ∃ c, a.connect t = .ok c ∧ c.PartOf b := by
  obtain ⟨c, hOk⟩ : ∃ c, a.connect t = .ok c := by
    refine Automaton.exists_connect (hCount ▸ hSource) (hCount ▸ hTarget) fun hKind q hq => ?_
    subst hKind
    exact Dfa.eq_of_mem_transitions (h.mem_transitions hq) ht
  obtain ⟨_, _, grown, rfl, hGrown⟩ := exists_grown_of_connect hOk
  obtain ⟨more, hMore, hMem⟩ := mem_targets_iff.mp (Automaton.mem_transitions.mp ht)
  refine ⟨_, hOk, h.setTarget hMore fun q hq => ?_⟩
  rcases (hGrown q).mp hq with rfl | hq
  · exact hMem
  · rw [← targets_eq hMore, mem_targets]
    exact h.mem_transitions (mem_targets.mp hq)

end Automaton

namespace Edit

open Automaton (PartOf)

variable {k : Kind} {a b c : Automaton k} {e : Edit k}

/-! ### Edits go up -/

theorem partOf_of_apply (h : e.apply a = .ok b) : a.PartOf b := by
  cases e with
  | addState =>
      obtain rfl := Except.ok.inj h
      exact { PartOf.refl a with stateCount := Nat.le_succ _ }
  | requireStates n =>
      obtain rfl := Except.ok.inj h
      exact { PartOf.refl a with stateCount := Nat.le_max_left _ _ }
  | markInitial s =>
      obtain ⟨_, hSame, rfl⟩ := Automaton.markInitial_ok.mp h
      exact { PartOf.refl a with initial := fun t ht => congrArg some (hSame t ht).symm }
  | markFinal s =>
      obtain ⟨_, rfl⟩ := Automaton.markFinal_ok.mp h
      exact { PartOf.refl a with finals := fun t ht => OrderedSet.mem_insert.mpr (Or.inr ht) }
  | addTransition source c target => exact Automaton.partOf_of_connect h
  | addEpsilon source target => exact Automaton.partOf_of_connect h

/-- **Nothing is lost by an edit**, whether it goes through or fails. -/
theorem partOf_left (a : Automaton k) (e : Edit k) : a.PartOf (e.left a) := by
  cases hApply : e.apply a with
  | ok b =>
      rw [left_of_apply_ok hApply]
      exact partOf_of_apply hApply
  | error err =>
      rw [left_of_apply_error hApply]
      exact PartOf.refl a

/-- **Nothing is lost by any number of edits.** -/
theorem partOf_leftAll (a : Automaton k) (edits : List (Edit k)) : a.PartOf (leftAll a edits) := by
  induction edits generalizing a with
  | nil => exact PartOf.refl a
  | cons e edits ih => exact (partOf_left a e).trans (ih (e.left a))

/-! ### No further than they must -/

/-- Whether the automaton has what the edit would add. A new state is never there yet. -/
def Has : {k : Kind} → Automaton k → Edit k → Prop
  | _, _, addState => False
  | _, a, requireStates n => n ≤ a.stateCount
  | _, a, markInitial s => s < a.stateCount ∧ a.initial = some s
  | _, a, markFinal s => s < a.stateCount ∧ s ∈ a.finals
  | _, a, addTransition source c target =>
      source < a.stateCount ∧ target < a.stateCount ∧ ⟨source, .char c, target⟩ ∈ a.transitions
  | _, a, addEpsilon source target =>
      source < a.stateCount ∧ target < a.stateCount ∧ ⟨source, .epsilon, target⟩ ∈ a.transitions

theorem has_of_connect {t : Transition} (h : a.connect t = .ok b) :
    t.source < b.stateCount ∧ t.target < b.stateCount ∧ t ∈ b.transitions := by
  obtain ⟨hSource, hTarget, hCount, _, _, hMem⟩ := Automaton.connect_ok h
  rw [hCount]
  exact ⟨hSource, hTarget, (hMem t).mpr (Or.inl rfl)⟩

/-- An edit that goes through is done, unless it adds a state. -/
theorem has_of_apply (hStates : e.addsStates = false) (h : e.apply a = .ok b) : Has b e := by
  cases e with
  | addState => cases hStates
  | requireStates n => cases hStates
  | markInitial s =>
      obtain ⟨hState, _, rfl⟩ := Automaton.markInitial_ok.mp h
      exact ⟨hState, rfl⟩
  | markFinal s =>
      obtain ⟨hState, rfl⟩ := Automaton.markFinal_ok.mp h
      exact ⟨hState, OrderedSet.mem_insert.mpr (Or.inl rfl)⟩
  | addTransition source c target => exact has_of_connect h
  | addEpsilon source target => exact has_of_connect h

theorem Has.mono (h : Has a e) (hPart : a.PartOf b) : Has b e := by
  have hState : ∀ {s}, s < a.stateCount → s < b.stateCount := fun hs =>
    Nat.lt_of_lt_of_le hs hPart.stateCount
  cases e with
  | addState => exact h
  | requireStates n => exact Nat.le_trans h hPart.stateCount
  | markInitial s => exact ⟨hState h.1, hPart.initial s h.2⟩
  | markFinal s => exact ⟨hState h.1, hPart.finals s h.2⟩
  | addTransition source c target =>
      exact ⟨hState h.1, hState h.2.1, hPart.mem_transitions h.2.2⟩
  | addEpsilon source target => exact ⟨hState h.1, hState h.2.1, hPart.mem_transitions h.2.2⟩

/-- **Where it is done in a whole, an edit can be done in each part that has all the states**, and
the part stays part of the whole. -/
theorem exists_apply_of_has (hPart : a.PartOf c) (hCount : a.stateCount = c.stateCount)
    (h : Has c e) : ∃ b, e.apply a = .ok b ∧ b.PartOf c := by
  cases e with
  | addState => exact h.elim
  | requireStates n =>
      refine ⟨_, rfl, { hPart with stateCount := ?_ }⟩
      exact Nat.max_le.mpr ⟨hPart.stateCount, h⟩
  | markInitial s =>
      obtain ⟨hState, hInitial⟩ := h
      refine ⟨_, Automaton.markInitial_ok.mpr ⟨hCount ▸ hState, fun t ht => ?_, rfl⟩,
        { hPart with initial := fun t ht => ?_ }⟩
      · exact Option.some.inj ((hPart.initial t ht).symm.trans hInitial)
      · exact Option.some.inj ht ▸ hInitial
  | markFinal s =>
      obtain ⟨hState, hFinal⟩ := h
      refine ⟨_, Automaton.markFinal_ok.mpr ⟨hCount ▸ hState, rfl⟩,
        { hPart with finals := fun t ht => ?_ }⟩
      rcases OrderedSet.mem_insert.mp ht with rfl | ht
      · exact hFinal
      · exact hPart.finals t ht
  | addTransition source x target => exact hPart.exists_connect hCount h.1 h.2.1 h.2.2
  | addEpsilon source target => exact hPart.exists_connect hCount h.1 h.2.1 h.2.2

theorem stateCount_of_apply (hStates : e.addsStates = false) (h : e.apply a = .ok b) :
    b.stateCount = a.stateCount := by
  cases e with
  | addState => cases hStates
  | requireStates n => cases hStates
  | markInitial s =>
      obtain ⟨_, _, rfl⟩ := Automaton.markInitial_ok.mp h
      rfl
  | markFinal s =>
      obtain ⟨_, rfl⟩ := Automaton.markFinal_ok.mp h
      rfl
  | addTransition source c target =>
      obtain ⟨_, _, hCount, _⟩ := Automaton.connect_ok h
      exact hCount
  | addEpsilon source target =>
      obtain ⟨_, _, hCount, _⟩ := Automaton.connect_ok h
      exact hCount

end Edit

end Automata
