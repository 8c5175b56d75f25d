import Automata.Proofs.Automaton.InPlace
import Automata.Proofs.Binary.RoundTrip
import Automata.Proofs.Run.Monotone

/-! # Stray rows

Validation looks at the initial state, the final states and the transitions. A row without targets
has no transition, so nothing looks at its state (`validate_openRow`): if that is not one of the
states, the row is stray and passes. All other places that name a state are covered. So a decoded
automaton names none but its own states exactly when no row is spelled for another one
(`ofBinary_stray`).
-/

namespace Automata

namespace Table

variable {κ β γ : Type} [Ranked κ]

/-- A new entry that adds nothing to what is listed can be put in. -/
theorem flatMap_put {key : κ} {b : β} {f : κ × β → List γ} (hNothing : f (key, b) = [])
    {l : List (κ × β)} (hNew : ∀ p ∈ l, p.1 ≠ key) : (put key b l).flatMap f = l.flatMap f := by
  induction l with
  | nil => rw [put, List.flatMap_singleton, hNothing, List.flatMap_nil]
  | cons p l ih =>
      obtain ⟨hHead, hRest⟩ := List.forall_mem_cons.mp hNew
      rw [put]
      split
      · rw [List.flatMap_cons, hNothing, List.nil_append]
      · split
        next hSame => exact absurd (rank_inj.mp hSame).symm hHead
        next => rw [List.flatMap_cons, List.flatMap_cons, ih hRest]

end Table

namespace Automaton

variable {k : Kind} {a : Automaton k} {s : State}

/-! ### States that are named -/

/-- The automaton names the state: as its initial state, as a final state, as the state of a row,
which may be empty, or in a target. -/
inductive Names (a : Automaton k) (s : State) : Prop
  | initial : a.initial = some s → Names a s
  | final : s ∈ a.finals → Names a s
  | row : s ∈ a.rows.keys → Names a s
  | target {p : State} {x : Symbol} {held : k.Target} :
      a.target? p x = some held → s ∈ Target.toList held → Names a s

/-- The automaton has a row for the state, which is not one of its states. -/
structure Stray (a : Automaton k) (s : State) : Prop where
  row : s ∈ a.rows.keys
  unknown : a.stateCount ≤ s

theorem WellFormed.lt_or_stray (h : a.WellFormed) (hNames : a.Names s) :
    s < a.stateCount ∨ a.Stray s := by
  cases hNames with
  | initial hInitial => exact Or.inl (h.initial s hInitial)
  | final hFinal => exact Or.inl (h.finals s hFinal)
  | row hRow => exact (Nat.lt_or_ge s a.stateCount).imp id fun hLe => ⟨hRow, hLe⟩
  | target hHeld hTarget =>
      have hMem := mem_targets.mp (mem_targets_iff.mpr ⟨_, hHeld, hTarget⟩)
      exact Or.inl (h.target _ hMem)

theorem WellFormed.forall_names_lt_iff (h : a.WellFormed) :
    (∀ s, a.Names s → s < a.stateCount) ↔ ∀ s, ¬ a.Stray s := by
  refine ⟨?_, ?_⟩
  · intro hKnown s hStray
    exact absurd (hKnown s (.row hStray.row)) (Nat.not_lt.mpr hStray.unknown)
  · intro hNone s hNames
    exact (h.lt_or_stray hNames).resolve_right (hNone s)

theorem WellFormed.targets_eq_nil (h : a.WellFormed) (hStray : a.Stray s) (x : Symbol) :
    a.targets s x = [] := by
  refine List.eq_nil_iff_forall_not_mem.mpr fun q hq => ?_
  exact absurd (h.source _ (mem_targets.mp hq)) (Nat.not_lt.mpr hStray.unknown)

/-- **The state of a stray row is named nowhere else.** -/
theorem WellFormed.only_row_of_stray (h : a.WellFormed) (hStray : a.Stray s) :
    a.initial ≠ some s ∧ s ∉ a.finals ∧ ∀ t ∈ a.transitions, t.source ≠ s ∧ t.target ≠ s := by
  have hOther : ∀ q, q < a.stateCount → q ≠ s := fun q hq hEq =>
    absurd hq (Nat.not_lt.mpr (hEq ▸ hStray.unknown))
  refine ⟨fun hInitial => ?_, fun hFinal => ?_, fun t ht => ⟨?_, ?_⟩⟩
  · exact hOther s (h.initial s hInitial) rfl
  · exact hOther s (h.finals s hFinal) rfl
  · exact hOther t.source (h.source t ht)
  · exact hOther t.target (h.target t ht)

/-! ### Rows that are opened -/

theorem transitions_openRow (a : Automaton k) (s : State) :
    (a.openRow s).transitions = a.transitions := by
  rw [openRow]
  cases hRow : a.rows.get? s with
  | some row => rfl
  | none =>
      have hNew : ∀ p ∈ a.rows.entries, p.1 ≠ s := by
        rintro p hp rfl
        rw [Table.get?_eq_some_iff.mpr hp] at hRow
        cases hRow
      exact Table.flatMap_put rfl hNew

theorem openRow_other_fields (a : Automaton k) (s : State) :
    (a.openRow s).stateCount = a.stateCount ∧ (a.openRow s).initial = a.initial ∧
      (a.openRow s).finals = a.finals := by
  rw [openRow]
  cases a.rows.get? s with
  | some row => exact ⟨rfl, rfl, rfl⟩
  | none => exact ⟨rfl, rfl, rfl⟩

theorem mem_keys_openRow {q : State} : q ∈ (a.openRow s).rows.keys ↔ q = s ∨ q ∈ a.rows.keys := by
  rw [openRow]
  cases hRow : a.rows.get? s with
  | none => exact Table.mem_keys_insert
  | some row =>
      have hKey : s ∈ a.rows.keys := Table.mem_keys.mpr ⟨row, hRow⟩
      exact ⟨Or.inr, fun h => h.elim (fun hEq => hEq ▸ hKey) id⟩

/-- **Validation does not see a row without targets**, whatever state the row is for. -/
theorem validate_openRow (a : Automaton k) (s : State) : (a.openRow s).validate = a.validate := by
  obtain ⟨hCount, hInitial, hFinals⟩ := openRow_other_fields a s
  have hCheck : (a.openRow s).checkState = a.checkState := by
    funext q
    rw [checkState, checkState, hCount]
  rw [validate, validate, hCheck, hInitial, hFinals, transitions_openRow]

theorem accepts_openRow (a : Automaton k) (s : State) (word : Text) :
    (a.openRow s).accepts word = a.accepts word := by
  obtain ⟨_, hInitial, hFinals⟩ := openRow_other_fields a s
  refine accepts_congr hInitial ?_ ?_ word
  · exact fun f => hFinals ▸ Iff.rfl
  · exact fun t => transitions_openRow a s ▸ Iff.rfl

theorem Storable.openRow (h : a.Storable) (hs : s ≤ stateLimit) : (a.openRow s).Storable := by
  refine ⟨(openRow_other_fields a s).1 ▸ h.stateCount, fun q hq => ?_⟩
  rcases mem_keys_openRow.mp hq with rfl | hq
  · exact hs
  · exact h.rows q hq

end Automaton

namespace Binary

variable {k : Kind}

open Automaton (Names Stray)

theorem Layout.mem_keys_automaton {l : Layout k} {s : State} :
    s ∈ l.automaton.rows.keys ↔ ∃ p ∈ l.rows, p.1 = s := by
  have hKeys : (l.rows.map fun p => (p.1, rowOf p.2)).map Prod.fst = l.rows.map Prod.fst := by
    rw [List.map_map]
    rfl
  rw [automaton, Table.mem_keys_ofList_iff, hKeys, List.mem_map]

theorem Layout.forall_not_stray_iff {l : Layout k} :
    (∀ s, ¬ l.automaton.Stray s) ↔ ∀ p ∈ l.rows, p.1 < l.stateCount := by
  refine ⟨?_, ?_⟩
  · intro hNone p hp
    refine Nat.lt_of_not_le fun hLe => hNone p.1 ⟨?_, hLe⟩
    exact mem_keys_automaton.mpr ⟨p, hp, rfl⟩
  · intro hRows s hStray
    obtain ⟨p, hp, rfl⟩ := mem_keys_automaton.mp hStray.row
    exact absurd (hRows p hp) (Nat.not_lt.mpr hStray.unknown)

/-- **Validation covers every place that names a state but the rows without targets.** So all states
that a decoded automaton names are its own exactly when no row is spelled for another state. One
that is not its own is that of a row without targets and is named nowhere else. Nothing keeps such
a row out: every state past those of the automaton that can be stored may have one, and the
automaton with that row has the same transitions, accepts the same words and is decoded from bytes
of its own. -/
theorem ofBinary_stray {bytes : Bytes} {a : Automaton k}
    (h : Automaton.ofBinary k bytes = .ok a) :
    ∃ l rest, Layout.decode k bytes = .ok (l, rest) ∧
      ((∀ s, a.Names s → s < a.stateCount) ↔ ∀ p ∈ l.rows, p.1 < l.stateCount) ∧
      (∀ s, a.Names s → a.stateCount ≤ s → s ∈ a.rows.keys ∧ (∀ x, a.targets s x = []) ∧
        a.initial ≠ some s ∧ s ∉ a.finals ∧ ∀ t ∈ a.transitions, t.source ≠ s ∧ t.target ≠ s) ∧
      ∀ s, a.stateCount ≤ s → s ≤ stateLimit →
        Automaton.ofBinary k (a.openRow s).toBinary = .ok (a.openRow s) ∧
        (a.openRow s).Names s ∧ (a.openRow s).stateCount = a.stateCount ∧
        (a.openRow s).transitions = a.transitions ∧
        ∀ word, (a.openRow s).accepts word = a.accepts word := by
  obtain ⟨hStorable, hValid⟩ := Automaton.storable_of_ofBinary h
  have hWf := Automaton.validate_eq_ok_iff.mp hValid
  obtain ⟨l, rest, hDecode, _, rfl⟩ := exists_layout_of_ofBinary h
  refine ⟨l, rest, hDecode, ?_, fun s hNames hUnknown => ?_, fun s hUnknown hLimit => ?_⟩
  · exact hWf.forall_names_lt_iff.trans Layout.forall_not_stray_iff
  · have hStray := (hWf.lt_or_stray hNames).resolve_left (Nat.not_lt.mpr hUnknown)
    exact ⟨hStray.row, hWf.targets_eq_nil hStray, hWf.only_row_of_stray hStray⟩
  · have hOpened := Automaton.validate_openRow l.automaton s ▸ hValid
    have hDecoded := (standsFor_of_lists (hStorable.openRow hLimit) hOpened
      (Layout.lists_ofAutomaton _)).decoded []
    rw [List.append_nil] at hDecoded
    refine ⟨hDecoded, .row (Automaton.mem_keys_openRow.mpr (Or.inl rfl)), ?_, ?_, ?_⟩
    · exact (Automaton.openRow_other_fields l.automaton s).1
    · exact Automaton.transitions_openRow l.automaton s
    · exact Automaton.accepts_openRow l.automaton s

/-- One state, and a row for it that leads to it. -/
def looped : Layout .nfa := ⟨1, some 0, [0], [(0, [(.char 'a', [0])])]⟩

/-- With a row for state 7 the automaton is still decoded and accepts the same words. -/
theorem ofBinary_stray_looped :
    Automaton.ofBinary .nfa looped.encode = .ok looped.automaton ∧
      (∀ s, looped.automaton.Names s → s < 1) ∧
      Automaton.ofBinary .nfa (looped.automaton.openRow 7).toBinary =
        .ok (looped.automaton.openRow 7) ∧
      (looped.automaton.openRow 7).Names 7 ∧
      ∀ word, (looped.automaton.openRow 7).accepts word = looped.automaton.accepts word := by
  have hDecoded : Automaton.ofBinary .nfa looped.encode = .ok looped.automaton := rfl
  obtain ⟨l, rest, hDecode, hKnown, _, hMore⟩ := ofBinary_stray hDecoded
  have hLooped : Layout.decode .nfa looped.encode = .ok (looped, []) := rfl
  obtain ⟨rfl, rfl⟩ := Prod.mk.inj (Except.ok.inj (hDecode.symm.trans hLooped))
  obtain ⟨hAgain, hNames, _, _, hSame⟩ := hMore 7 (by decide) (by decide)
  exact ⟨hDecoded, hKnown.mpr (by decide), hAgain, hNames, hSame⟩

/-- One state, and an empty row for state 5. -/
def strayed (k : Kind) : Layout k := ⟨1, some 0, [], [(5, [])]⟩

/-- State 5 is named although there is one state, and the bytes are accepted, for both kinds. -/
theorem ofBinary_names_stray :
    (∀ k, (strayed k).encode = [0x01, 0x01, 0x00, 0x00, 0x01, 0x05, 0x00] ∧
      Automaton.ofBinary k (strayed k).encode = .ok (strayed k).automaton ∧
      5 ∈ (strayed k).automaton.rows.keys ∧ (strayed k).automaton.stateCount = 1) ∧
    ∀ k, ¬ ∀ (bytes : Bytes) (a : Automaton k), Automaton.ofBinary k bytes = .ok a →
      ∀ s, a.Names s → s < a.stateCount := by
  have hStrayed : ∀ k, (strayed k).encode = [0x01, 0x01, 0x00, 0x00, 0x01, 0x05, 0x00] ∧
      Automaton.ofBinary k (strayed k).encode = .ok (strayed k).automaton ∧
      5 ∈ (strayed k).automaton.rows.keys ∧ (strayed k).automaton.stateCount = 1 := by
    intro k
    cases k with
    | nfa => exact ⟨rfl, rfl, by decide, rfl⟩
    | dfa => exact ⟨rfl, rfl, by decide, rfl⟩
  refine ⟨hStrayed, fun k hKnown => ?_⟩
  obtain ⟨_, hDecoded, hRow, hCount⟩ := hStrayed k
  exact absurd (hCount ▸ hKnown _ _ hDecoded 5 (.row hRow)) (by decide)

end Binary

end Automata
