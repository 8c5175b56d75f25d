import Automata.Proofs.TransitionList.Records
import Mathlib.Data.List.Sort
import Mathlib.Logic.Equiv.Basic

/-! # What is written

The lines of an automaton are those of its records: its transitions and final states, renamed and
put in order (`writtenLines_eq`). Renaming swaps the initial state with state zero, so it never
gives two states one name. Writing fails when there is no initial state or a blank to be written,
and for no other reason (`write_error`).
-/

namespace Automata.TransitionList

variable {k : Kind} {a : Automaton k} {i : State}

/-! ### Renaming -/

theorem rename_eq_swap (i s : State) : rename i s = Equiv.swap 0 i s := by
  rw [rename, Equiv.swap_apply_def]
  by_cases hInitial : s = i
  · rw [if_pos hInitial]
    by_cases hZero : s = 0
    · rw [if_pos hZero, ← hInitial, hZero]
    · rw [if_neg hZero, if_pos hInitial]
  · rw [if_neg hInitial, if_neg hInitial]

theorem rename_injective (i : State) : Function.Injective (rename i) := by
  intro s t h
  rw [rename_eq_swap, rename_eq_swap] at h
  exact (Equiv.swap 0 i).injective h

theorem rename_lt {n : Nat} {s : State} (hi : i < n) (hs : s < n) : rename i s < n := by
  rw [rename]
  split
  · exact Nat.zero_lt_of_lt hs
  · split
    · exact hi
    · exact hs

/-! ### Order -/

/-- The order in which transitions are written. -/
def NoLater (t u : Transition) : Prop := notAfter t u = true

instance : DecidableRel NoLater := fun t u =>
  inferInstanceAs (Decidable (notAfter t u = true))

theorem noLater_iff {t u : Transition} :
    NoLater t u ↔ t.source < u.source ∨ t.source = u.source ∧
      (t.target < u.target ∨ t.target = u.target ∧ rank t.symbol ≤ rank u.symbol) := by
  simp [NoLater, notAfter]

instance : Std.Total NoLater where
  total t u := by
    rw [noLater_iff, noLater_iff]
    grind

instance : IsTrans Transition NoLater where
  trans t u v h h' := by
    rw [noLater_iff] at h h' ⊢
    grind

instance : Std.Antisymm NoLater where
  antisymm t u h h' := by
    rw [noLater_iff] at h h'
    obtain ⟨hSource, hTarget, hRank⟩ :
        t.source = u.source ∧ t.target = u.target ∧ rank t.symbol = rank u.symbol := by grind
    cases t
    cases u
    cases hSource
    cases hTarget
    cases rank_inj.mp hRank
    rfl

theorem place_eq (t : Transition) (ts : List Transition) :
    place t ts = ts.orderedInsert NoLater t := by
  induction ts with
  | nil => rfl
  | cons u ts ih =>
      rw [place, List.orderedInsert_cons, ih]
      rfl

theorem sort_eq (ts : List Transition) : sort ts = ts.insertionSort NoLater := by
  rw [sort, funext₂ place_eq]
  rfl

theorem mem_sort {u : Transition} {ts : List Transition} : u ∈ sort ts ↔ u ∈ ts := by
  rw [sort_eq, List.mem_insertionSort]

/-- The order in which transitions come does not matter to the order in which they are written. -/
theorem sort_eq_of_perm {ts us : List Transition} (h : ts.Perm us) : sort ts = sort us := by
  rw [sort_eq, sort_eq]
  refine List.Perm.eq_of_pairwise' (List.pairwise_insertionSort NoLater ts)
    (List.pairwise_insertionSort NoLater us) ?_
  have hUs : (us.insertionSort NoLater).Perm us := List.perm_insertionSort NoLater us
  exact (List.perm_insertionSort NoLater ts).trans (h.trans hUs.symm)

/-! ### Records -/

/-- The records of an automaton that begins in `initial`, in the order of their lines. -/
def records (initial : State) (a : Automaton k) : List Record :=
  (sort (a.transitions.map (renamed initial))).map .transition ++
    (OrderedSet.ofList (a.finals.toList.map (rename initial))).toList.map .final

theorem writtenLines_eq (i : State) (a : Automaton k) :
    writtenLines i a = (records i a).map Record.text := by
  rw [writtenLines, records, List.map_append, List.map_map, List.map_map]
  rfl

theorem transition_mem_records {u : Transition} :
    .transition u ∈ records i a ↔ ∃ t ∈ a.transitions, renamed i t = u := by
  simp [records, mem_sort]

theorem final_mem_records {s : State} :
    .final s ∈ records i a ↔ ∃ f ∈ a.finals, rename i f = s := by
  simp [records, ← OrderedSet.mem_def]

/-! ### Blanks -/

/-- Whether no transition is on a blank character. -/
def NoBlank (a : Automaton k) : Prop :=
  ∀ s c q, ⟨s, .char c, q⟩ ∈ a.transitions → isBlank c = false

theorem blankMove?_eq_some {t : Transition} {s : State} {c : Char} :
    blankMove? t = some (s, c) ↔ t.source = s ∧ t.symbol = .char c ∧ isBlank c = true := by
  obtain ⟨p, x, q⟩ := t
  cases x with
  | epsilon => simp [blankMove?]
  | char d =>
      simp only [blankMove?, Option.ite_none_right_eq_some, Option.some.injEq, Prod.mk.injEq,
        Symbol.char.injEq]
      refine ⟨?_, ?_⟩
      · rintro ⟨hBlank, rfl, rfl⟩
        exact ⟨rfl, rfl, hBlank⟩
      · rintro ⟨rfl, rfl, hBlank⟩
        exact ⟨hBlank, rfl, rfl⟩

theorem mem_unwritable {s : State} {c : Char} :
    (s, c) ∈ unwritable a ↔ isBlank c = true ∧ ∃ q, ⟨s, .char c, q⟩ ∈ a.transitions := by
  rw [unwritable, List.mem_eraseDups, List.mem_filterMap]
  simp only [blankMove?_eq_some]
  refine ⟨?_, ?_⟩
  · rintro ⟨⟨_, _, q⟩, hMem, rfl, rfl, hBlank⟩
    exact ⟨hBlank, q, hMem⟩
  · rintro ⟨hBlank, q, hMem⟩
    exact ⟨_, hMem, rfl, rfl, hBlank⟩

theorem unwritable_eq_nil_iff : unwritable a = [] ↔ NoBlank a := by
  rw [List.eq_nil_iff_forall_not_mem, Prod.forall]
  refine forall₂_congr fun s c => ?_
  rw [mem_unwritable, not_and, not_exists]
  refine ⟨?_, ?_⟩
  · intro h q hMem
    by_contra hBlank
    rw [Bool.not_eq_false] at hBlank
    exact h hBlank q hMem
  · intro h hBlank q hMem
    rw [h q hMem] at hBlank
    exact Bool.false_ne_true hBlank

/-! ### Writing -/

theorem write_of_initial (hInitial : a.initial = some i) (hBlank : NoBlank a) :
    write a = .ok (Text.unlines ((records i a).map Record.text)) := by
  rw [write, Automaton.initialState, hInitial, ← writtenLines_eq,
    unwritable_eq_nil_iff.mpr hBlank]
  rfl

/-- **Writing fails without an initial state or on a blank, and for no other reason.** -/
theorem write_error {e : Error} (h : write a = .error e) :
    (a.initial = none ∧ e = .noInitial) ∨
      ∃ s c q, ⟨s, .char c, q⟩ ∈ a.transitions ∧ isBlank c = true ∧ e = .unwritableSymbol s c := by
  cases hInitial : a.initial with
  | none =>
      rw [write, Automaton.initialState, hInitial] at h
      exact Or.inl ⟨rfl, (Except.error.inj h).symm⟩
  | some i =>
      right
      cases hUnwritable : unwritable a with
      | nil =>
          rw [write_of_initial hInitial (unwritable_eq_nil_iff.mp hUnwritable)] at h
          cases h
      | cons p rest =>
          obtain ⟨s, c⟩ := p
          have hMem : (s, c) ∈ unwritable a := hUnwritable ▸ List.mem_cons_self ..
          obtain ⟨hBlank, q, hTransition⟩ := mem_unwritable.mp hMem
          rw [write, Automaton.initialState, hInitial, hUnwritable] at h
          exact ⟨s, c, q, hTransition, hBlank, (Except.error.inj h).symm⟩

end Automata.TransitionList
