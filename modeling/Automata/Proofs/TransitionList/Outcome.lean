import Automata.Proofs.Automaton.Refusal
import Automata.Proofs.TransitionList.Assembly
import Automata.Proofs.TransitionList.Syntax
import Mathlib.Data.List.Induction

/-! # Lists are read as the grammar has them

An automaton that holds the records entered so far refuses the next one for the reasons that the
grammar gives, and no others (`enter_eq_error_iff`); otherwise it holds that record too
(`Holds.enter`). So entering the records one by one stops at the first that is refused, or ends in
the one automaton that holds them all, and reading a list gives what comes of it (`read_eq_iff`).
Which record is refused first depends on their order, but whether one is refused does not
(`accepted_iff`).
-/

namespace Automata

namespace TransitionList

variable {k : Kind} {policy : Policy} {a b : Automaton k} {n : Nat} {rs ss : List Record}

/-! ### Entering one record -/

theorem holds_blank (es : List Entry) : Holds (stateCount es) [] (blank k es) where
  stateCount := rfl
  initial := rfl
  mem_finals s := by
    rw [iff_false_right List.not_mem_nil]
    exact OrderedSet.not_mem_empty s
  mem_transitions t := by
    rw [iff_false_right List.not_mem_nil]
    exact List.not_mem_nil
  tight := Automaton.tight_of_rows_eq_empty rfl

/-- **A record that is entered is held with those before it.** -/
theorem Holds.enter {r : Record} (h : Holds n rs a) (hEnter : enter a r = .ok b) :
    Holds n (rs ++ [r]) b := by
  have hEntered := enter_ok hEnter
  refine ⟨hEntered.stateCount.trans h.stateCount, hEntered.initial.trans h.initial,
    fun s => ?_, fun t => ?_, ?_⟩
  · rw [hEntered.mem_finals, h.mem_finals, List.mem_append, or_comm]
  · rw [hEntered.mem_transitions, h.mem_transitions, List.mem_append, or_comm]
  · cases r with
    | final s => exact h.tight.markFinal hEnter
    | transition t => exact h.tight.connect hEnter

/-- **A record is refused for the reasons that the grammar gives.** -/
theorem enter_eq_error_iff {r : Record} {e : Error} (h : Holds n rs a) :
    enter a r = .error e ↔ Refused k n rs r e := by
  cases r with
  | final s =>
      rw [enter, Automaton.markFinal, Automaton.checkState_bind_error_iff, h.stateCount]
      refine ⟨?_, fun hRefused => ?_⟩
      · rintro (⟨hMany, rfl⟩ | ⟨_, hOk⟩)
        · exact .final hMany
        · cases hOk
      · cases hRefused with
        | final hMany => exact Or.inl ⟨hMany, rfl⟩
  | transition t =>
      rw [enter, Automaton.connect_eq_error_iff, h.stateCount]
      simp only [h.mem_transitions]
      refine ⟨?_, fun hRefused => ?_⟩
      · rintro (⟨hMany, rfl⟩ | ⟨hSource, ⟨hMany, rfl⟩ | ⟨hTarget, q, hKind, hMem, hNe, rfl⟩⟩)
        · exact .source hMany
        · exact .target hSource hMany
        · exact .conflict hKind hSource hTarget hMem hNe
      · cases hRefused with
        | source hMany => exact Or.inl ⟨hMany, rfl⟩
        | target hSource hMany => exact Or.inr ⟨hSource, Or.inl ⟨hMany, rfl⟩⟩
        | conflict hKind hSource hTarget hMem hNe =>
            exact Or.inr ⟨hSource, Or.inr ⟨hTarget, _, hKind, hMem, hNe, rfl⟩⟩

/-! ### Entering all records -/

theorem enterAll_append (a : Automaton k) (es fs : List Entry) :
    enterAll a (es ++ fs) = enterAll a es >>= (enterAll · fs) := by
  induction es generalizing a with
  | nil => rfl
  | cons e es ih =>
      rw [List.cons_append, enterAll, enterAll]
      cases enter a e.record with
      | error err => rfl
      | ok b => exact ih b

theorem enterAll_append_singleton (es : List Entry) (f : Entry) :
    enterAll a (es ++ [f]) = enterAll a es >>= (enter · f.record) := by
  have hOne : ∀ b : Automaton k, enterAll b [f] = enter b f.record := fun b => by
    rw [enterAll]
    cases enter b f.record with
    | error err => rfl
    | ok c => rfl
  rw [enterAll_append, funext hOne]

theorem accepted_nil (k : Kind) (n : Nat) : Accepted k n [] := by
  intro before r after hEq
  exact absurd hEq (List.append_ne_nil_of_right_ne_nil _ (List.cons_ne_nil r after)).symm

theorem accepted_append_singleton {r : Record} :
    Accepted k n (rs ++ [r]) ↔ Accepted k n rs ∧ ∀ e, ¬ Refused k n rs r e := by
  refine ⟨fun h => ⟨fun before s after hEq => ?_, h rs r [] rfl⟩, ?_⟩
  · exact h before s (after ++ [r]) (by rw [hEq, List.append_assoc, List.cons_append])
  · rintro ⟨hBefore, hLast⟩ before s after hEq
    -- the record in question is the new one or stands before it
    rcases List.eq_nil_or_concat after with rfl | ⟨init, last, rfl⟩
    · obtain ⟨rfl, hSingle⟩ := List.append_inj' hEq rfl
      obtain rfl := List.singleton_inj.mp hSingle
      exact hLast
    · refine hBefore before s init ?_
      rw [List.concat_eq_append, ← List.cons_append, ← List.append_assoc] at hEq
      exact (List.append_inj' hEq rfl).1

/-- A record is not refused when it names states and disagrees with no record before it. -/
theorem not_refused_iff {r : Record} :
    (∀ e, ¬ Refused k n rs r e) ↔ r.largest < n ∧
      (k = .dfa → ∀ s x p q, r = .transition ⟨s, x, p⟩ → .transition ⟨s, x, q⟩ ∈ rs → q = p) := by
  refine ⟨fun h => ?_, ?_⟩
  · have hNames : r.largest < n := by
      cases r with
      | final s => exact Nat.lt_of_not_le fun hMany => h _ (.final hMany)
      | transition t =>
          have hSource : t.source < n := Nat.lt_of_not_le fun hMany => h _ (.source hMany)
          have hTarget : t.target < n := Nat.lt_of_not_le fun hMany => h _ (.target hSource hMany)
          exact Nat.max_lt.mpr ⟨hSource, hTarget⟩
    refine ⟨hNames, ?_⟩
    rintro hKind s x p q rfl hBefore
    obtain ⟨hSource, hTarget⟩ := Nat.max_lt.mp hNames
    by_contra hNe
    exact h _ (.conflict hKind hSource hTarget hBefore hNe)
  · rintro ⟨hNames, hAgree⟩ e hRefused
    cases hRefused with
    | final hMany => exact Nat.not_lt.mpr hMany hNames
    | source hMany => exact Nat.not_lt.mpr hMany (Nat.max_lt.mp hNames).1
    | target _ hMany => exact Nat.not_lt.mpr hMany (Nat.max_lt.mp hNames).2
    | conflict hKind _ _ hBefore hNe => exact hNe (hAgree hKind _ _ _ _ rfl hBefore)

/-- **Whether records are accepted does not depend on their order**: all of them name states, and in
a deterministic automaton no two of them disagree. -/
theorem accepted_iff :
    Accepted k n rs ↔ (∀ r ∈ rs, r.largest < n) ∧
      (k = .dfa → Deterministic fun t => .transition t ∈ rs) := by
  induction rs using List.reverseRecOn with
  | nil =>
      have hNone : ∀ r : Record, r ∉ [] := fun _ => List.not_mem_nil
      refine ⟨fun _ => ⟨fun r hr => absurd hr (hNone r), ?_⟩, fun _ => accepted_nil k n⟩
      exact fun _ _ _ _ _ hp => absurd hp (hNone _)
  | append_singleton rs r ih =>
      rw [accepted_append_singleton, ih, not_refused_iff, List.forall_mem_append,
        List.forall_mem_singleton]
      simp only [Deterministic, List.mem_append, List.mem_singleton]
      refine ⟨?_, ?_⟩
      · rintro ⟨⟨hNames, hAgree⟩, hName, hLast⟩
        refine ⟨⟨hNames, hName⟩, ?_⟩
        rintro hKind s x p q (hp | hp) (hq | hq)
        · exact hAgree hKind s x p q hp hq
        · exact hLast hKind s x q p hq.symm hp
        · exact (hLast hKind s x p q hp.symm hq).symm
        · exact (Transition.mk.inj (Record.transition.inj (hp.trans hq.symm))).2.2
      · rintro ⟨⟨hNames, hName⟩, hAgree⟩
        refine ⟨⟨hNames, ?_⟩, hName, ?_⟩
        · exact fun hKind s x p q hp hq => hAgree hKind s x p q (Or.inl hp) (Or.inl hq)
        · exact fun hKind s x p q hr hq => hAgree hKind s x q p (Or.inl hq) (Or.inr hr.symm)

theorem Holds.unique (ha : Holds n rs a) (hb : Holds n rs b) : a = b :=
  Automaton.eq_of_tight ha.tight hb.tight (ha.stateCount.trans hb.stateCount.symm)
    (ha.initial.trans hb.initial.symm)
    (fun s => (ha.mem_finals s).trans (hb.mem_finals s).symm)
    (fun t => (ha.mem_transitions t).trans (hb.mem_transitions t).symm)

theorem accepted_of_enterAll (h : Holds n [] a) {es : List Entry} (hOk : enterAll a es = .ok b) :
    Accepted k n (es.map Entry.record) ∧ Holds n (es.map Entry.record) b := by
  -- from the last record on: what is refused depends on the records before it
  induction es using List.reverseRecOn generalizing b with
  | nil =>
      obtain rfl := Except.ok.inj hOk
      exact ⟨accepted_nil k n, h⟩
  | append_singleton es f ih =>
      rw [enterAll_append_singleton] at hOk
      obtain ⟨c, hBefore, hEnter⟩ := bind_eq_ok_iff.mp hOk
      obtain ⟨hAccepted, hHolds⟩ := ih hBefore
      rw [List.map_append]
      refine ⟨accepted_append_singleton.mpr ⟨hAccepted, fun e hRefused => ?_⟩, hHolds.enter hEnter⟩
      cases hEnter.symm.trans ((enter_eq_error_iff hHolds).mpr hRefused)

theorem exists_enterAll_of_accepted (h : Holds n [] a) {es : List Entry}
    (hAccepted : Accepted k n (es.map Entry.record)) : ∃ b, enterAll a es = .ok b := by
  induction es using List.reverseRecOn with
  | nil => exact ⟨a, rfl⟩
  | append_singleton es f ih =>
      rw [List.map_append] at hAccepted
      obtain ⟨hBefore, hLast⟩ := accepted_append_singleton.mp hAccepted
      obtain ⟨b, hOk⟩ := ih hBefore
      have hHolds := (accepted_of_enterAll h hOk).2
      rw [enterAll_append_singleton, hOk]
      cases hEnter : enter b f.record with
      | ok c => exact ⟨c, hEnter⟩
      | error e => exact absurd ((enter_eq_error_iff hHolds).mp hEnter) (hLast e)

/-- **Entering all records ends in the automaton that holds them when none is refused.** -/
theorem enterAll_eq_ok_iff (h : Holds n [] a) {es : List Entry} :
    enterAll a es = .ok b ↔
      Accepted k n (es.map Entry.record) ∧ Holds n (es.map Entry.record) b := by
  refine ⟨accepted_of_enterAll h, ?_⟩
  rintro ⟨hAccepted, hHolds⟩
  obtain ⟨c, hOk⟩ := exists_enterAll_of_accepted h hAccepted
  rw [hOk, (accepted_of_enterAll h hOk).2.unique hHolds]

/-- **Entering all records fails at the first that is refused.** -/
theorem enterAll_eq_error_iff (h : Holds n [] a) {es : List Entry} {e : Error} :
    enterAll a es = .error e ↔ ∃ before r after, es.map Entry.record = before ++ r :: after ∧
      Accepted k n before ∧ Refused k n before r e := by
  refine ⟨fun hError => ?_, ?_⟩
  · induction es using List.reverseRecOn with
    | nil => cases hError
    | append_singleton es f ih =>
        rw [enterAll_append_singleton] at hError
        rw [List.map_append]
        cases hBefore : enterAll a es with
        | error err =>
            rw [hBefore] at hError
            obtain rfl := Except.error.inj hError
            obtain ⟨before, r, after, hSplit, hRefused⟩ := ih hBefore
            refine ⟨before, r, after ++ [f.record], ?_, hRefused⟩
            rw [hSplit, List.append_assoc, List.cons_append]
            rfl
        | ok b =>
            rw [hBefore] at hError
            obtain ⟨hAccepted, hHolds⟩ := accepted_of_enterAll h hBefore
            exact ⟨_, f.record, [], rfl, hAccepted, (enter_eq_error_iff hHolds).mp hError⟩
  · rintro ⟨before, r, after, hSplit, hAccepted, hRefused⟩
    obtain ⟨first, others, rfl, rfl, hOthers⟩ := List.map_eq_append_iff.mp hSplit
    obtain ⟨f, last, rfl, rfl, rfl⟩ := List.map_eq_cons_iff.mp hOthers
    obtain ⟨b, hOk⟩ := exists_enterAll_of_accepted h hAccepted
    have hEnter := (enter_eq_error_iff (accepted_of_enterAll h hOk).2).mpr hRefused
    rw [enterAll_append, hOk]
    show enterAll b (f :: last) = .error e
    rw [enterAll, hEnter]

/-! ### The number of states -/

theorem largest_iff {es : List Entry} {m : Nat} :
    Largest (es.map Entry.record) m ↔ largestNamed es = m := by
  have hAll : ∀ m, (∀ r ∈ es.map Entry.record, r.largest ≤ m) ↔ largestNamed es ≤ m := fun m => by
    rw [largestNamed_le_iff, List.forall_mem_map]
  rw [Largest, hAll]
  refine ⟨?_, ?_⟩
  · rintro ⟨hLe, rfl | ⟨r, hr, rfl⟩⟩
    · exact Nat.le_zero.mp hLe
    · exact Nat.le_antisymm hLe ((hAll _).mpr (Nat.le_refl _) r hr)
  · rintro rfl
    refine ⟨Nat.le_refl _, ?_⟩
    rcases foldl_max_mem (es.map fun e => e.record.largest) 0 with hZero | hMem
    · exact Or.inl hZero
    · obtain ⟨e, he, hEq⟩ := List.mem_map.mp hMem
      exact Or.inr ⟨e.record, List.mem_map.mpr ⟨e, he, rfl⟩, hEq⟩

/-! ### The same records in another order -/

theorem Largest.congr {m : Nat} (h : Largest rs m) (hSame : ∀ r, r ∈ rs ↔ r ∈ ss) :
    Largest ss m := by
  obtain ⟨hLe, hAttained⟩ := h
  refine ⟨fun r hr => hLe r ((hSame r).mpr hr), hAttained.imp_right ?_⟩
  rintro ⟨r, hr, hEq⟩
  exact ⟨r, (hSame r).mp hr, hEq⟩

theorem Accepted.congr (h : Accepted k n rs) (hSame : ∀ r, r ∈ rs ↔ r ∈ ss) :
    Accepted k n ss := by
  obtain ⟨hNames, hAgree⟩ := accepted_iff.mp h
  simp only [hSame] at hNames hAgree
  exact accepted_iff.mpr ⟨hNames, hAgree⟩

theorem Holds.congr (h : Holds n rs a) (hSame : ∀ r, r ∈ rs ↔ r ∈ ss) : Holds n ss a where
  stateCount := h.stateCount
  initial := h.initial
  mem_finals s := (h.mem_finals s).trans (hSame (.final s))
  mem_transitions t := (h.mem_transitions t).trans (hSame (.transition t))
  tight := h.tight

/-! ### Whole lists -/

theorem read_of_entries {bytes : Bytes} {es : List Entry}
    (h : entries (readings k policy bytes) = .ok es) :
    read k policy bytes = enterAll (blank k es) es := by
  rw [read, h]
  exact assemble_eq es

/-- The automaton that lines are read as. -/
def readLines (k : Kind) (policy : Policy) (ls : List Bytes) : Except Error (Automaton k) :=
  entries (readingsFrom k policy 1 ls) >>= assemble k

theorem exists_readLines {ls : List Bytes} {m : Nat} (hRecords : Records k policy ls rs)
    (hLargest : Largest rs m) (hAccepted : Accepted k (min (m + 1) stateLimit) rs) :
    ∃ a, readLines k policy ls = .ok a ∧ Holds (min (m + 1) stateLimit) rs a := by
  obtain ⟨es, hEntries, rfl⟩ := (records_iff 1).mp hRecords
  obtain rfl := largest_iff.mp hLargest
  obtain ⟨a, hEnter⟩ := exists_enterAll_of_accepted (holds_blank es) hAccepted
  refine ⟨a, bind_eq_ok_iff.mpr ⟨es, hEntries, (assemble_eq es).trans hEnter⟩, ?_⟩
  exact (accepted_of_enterAll (holds_blank es) hEnter).2

/-- **Lines are read as the automaton that holds their records**, if these are accepted. -/
theorem readLines_eq_ok_iff {ls : List Bytes} :
    readLines k policy ls = .ok a ↔ ∃ rs m, Records k policy ls rs ∧ Largest rs m ∧
      Accepted k (min (m + 1) stateLimit) rs ∧ Holds (min (m + 1) stateLimit) rs a := by
  refine ⟨fun h => ?_, ?_⟩
  · obtain ⟨es, hEntries, hAssemble⟩ := bind_eq_ok_iff.mp h
    rw [assemble_eq] at hAssemble
    obtain ⟨hAccepted, hHolds⟩ := accepted_of_enterAll (holds_blank es) hAssemble
    exact ⟨_, _, (records_iff 1).mpr ⟨es, hEntries, rfl⟩, largest_iff.mpr rfl, hAccepted, hHolds⟩
  · rintro ⟨rs, m, hRecords, hLargest, hAccepted, hHolds⟩
    obtain ⟨b, hRead, hHolds'⟩ := exists_readLines hRecords hLargest hAccepted
    rw [hRead, hHolds'.unique hHolds]

theorem exists_records_of_read {bytes : Bytes} (h : read k policy bytes = .ok a) :
    ∃ rs m, Records k policy (lines bytes) rs ∧ Largest rs m ∧
      Accepted k (min (m + 1) stateLimit) rs ∧ Holds (min (m + 1) stateLimit) rs a :=
  readLines_eq_ok_iff.mp h

theorem read_of_outcome {bytes : Bytes} {result : Except Error (Automaton k)}
    (h : Outcome k policy bytes result) : read k policy bytes = result := by
  cases h with
  | bad hLines hBad =>
      obtain rfl := lines_iff.mp hLines
      have hEntries : entries (readings k policy bytes) = .error _ := firstBad_iff.mp hBad
      rw [read, hEntries]
      rfl
  | refused hLines hRecords hLargest hAccepted hRefused =>
      obtain rfl := lines_iff.mp hLines
      obtain ⟨es, hEntries, hSplit⟩ := (records_iff 1).mp hRecords
      rw [← hSplit] at hLargest
      obtain rfl := largest_iff.mp hLargest
      rw [read_of_entries hEntries]
      exact (enterAll_eq_error_iff (holds_blank es)).mpr ⟨_, _, _, hSplit, hAccepted, hRefused⟩
  | done hLines hRecords hLargest hAccepted hHolds =>
      obtain rfl := lines_iff.mp hLines
      exact readLines_eq_ok_iff.mpr ⟨_, _, hRecords, hLargest, hAccepted, hHolds⟩

theorem outcome_read (k : Kind) (policy : Policy) (bytes : Bytes) :
    Outcome k policy bytes (read k policy bytes) := by
  have hLines : Lines bytes (lines bytes) := lines_iff.mpr rfl
  cases hEntries : entries (readings k policy bytes) with
  | error e =>
      rw [read, hEntries]
      exact .bad hLines (firstBad_iff.mpr hEntries)
  | ok es =>
      have hRecords : Records k policy (lines bytes) (es.map Entry.record) :=
        (records_iff 1).mpr ⟨es, hEntries, rfl⟩
      have hLargest : Largest (es.map Entry.record) (largestNamed es) := largest_iff.mpr rfl
      rw [read_of_entries hEntries]
      cases hEnter : enterAll (blank k es) es with
      | ok a =>
          obtain ⟨hAccepted, hHolds⟩ := (enterAll_eq_ok_iff (holds_blank es)).mp hEnter
          exact .done hLines hRecords hLargest hAccepted hHolds
      | error e =>
          obtain ⟨before, r, after, hSplit, hAccepted, hRefused⟩ :=
            (enterAll_eq_error_iff (holds_blank es)).mp hEnter
          rw [hSplit] at hRecords hLargest
          exact .refused hLines hRecords hLargest hAccepted hRefused

/-- **Reading a list gives what comes of it by the grammar**, and nothing else does: the error of
the first bad line, else the error of the first record that is refused, else the automaton of the
records. -/
theorem read_eq_iff {bytes : Bytes} {result : Except Error (Automaton k)} :
    read k policy bytes = result ↔ Outcome k policy bytes result :=
  ⟨fun h => h ▸ outcome_read k policy bytes, read_of_outcome⟩

/-- The numeral on line 4 is bad, so the conflict on line 3 is not even met. -/
example : read .dfa .strict (Utf8.encode "0 1 a\r\n\n+0 2 a\n4294967296".toList) =
    .error (.invalidStateToken 4 "4294967296".toList) := by
  decide +kernel

end TransitionList

end Automata
