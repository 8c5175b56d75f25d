import Automata.Proofs.TransitionList.Parts

/-! # The order of lines

Whether lines can be read is a matter of which lines they are. All lines must be good
(`exists_records_iff`), and the records must be accepted, which does not depend on their order
(`accepted_iff`). Neither does the largest state they name, nor the automaton that holds them. So
lines may be put in another order, repeated, and mixed with blank ones, and the same automaton
results from any bytes that they make up (`read_rearranged`). Which error results does depend on the
order.
-/

namespace Automata.TransitionList

variable {k : Kind} {policy : Policy} {bytes bytes' line : Bytes} {ls ls' : List Bytes}

/-! ### Lines made into bytes -/

/-- The bytes are the lines with a line break between each two, and perhaps one at the end. Any line
may have a carriage return after it. -/
def Joins (ls : List Bytes) (bytes : Bytes) : Prop :=
  ∃ ps, List.Forall₂ MayReturn ls ps ∧
    (bytes = [10].intercalate ps ∨ bytes = [10].intercalate ps ++ [10])

theorem break_not_mem_of_forall₂ {ps : List Bytes} (h : List.Forall₂ MayReturn ls ps)
    (hBreak : ∀ line ∈ ls, 10 ∉ line) : ∀ part ∈ ps, 10 ∉ part := by
  induction h with
  | nil => exact hBreak
  | cons hPart _ ih =>
      obtain ⟨hHead, hTail⟩ := List.forall_mem_cons.mp hBreak
      exact List.forall_mem_cons.mpr ⟨hPart.not_mem hHead, ih hTail⟩

/-- **The bytes that lines make up are read as the lines are.** -/
theorem read_of_joins (h : Joins ls bytes) (hBreak : ∀ line ∈ ls, 10 ∉ line) :
    read k policy bytes = readLines k policy ls := by
  obtain ⟨ps, hParts, hBytes⟩ := h
  have hJoined : readLines k policy (([10].intercalate ps).splitOn 10) =
      readLines k policy ls := by
    rw [readLines_congr (hParts.imp fun _ _ h => h.readsAs)]
    cases hParts with
    | nil => exact readLines_append_empty []
    | cons hPart hRest =>
        rw [List.splitOn_intercalate 10 (break_not_mem_of_forall₂ (.cons hPart hRest) hBreak)
          (List.cons_ne_nil _ _)]
  rw [read_eq_readLines, ← hJoined]
  rcases hBytes with rfl | rfl
  · rfl
  · rw [splitOn_append_break, readLines_append_empty]

/-! ### Lines rearranged -/

/-- The line is a text without any character that is not blank. -/
def BlankLine (line : Bytes) : Prop :=
  ∃ t : Text, t.flatMap String.utf8EncodeChar = line ∧ ∀ c ∈ t, isBlank c = true

/-- What lines become when their order is changed, some are repeated and blank ones are inserted. -/
inductive Rearranged (ls : List Bytes) : List Bytes → Prop
  | refl : Rearranged ls ls
  | permuted {ms ns : List Bytes} : Rearranged ls ms → ms.Perm ns → Rearranged ls ns
  | repeated {ms : List Bytes} {line : Bytes} : Rearranged ls ms → line ∈ ms →
      Rearranged ls (line :: ms)
  | inserted {ms : List Bytes} {line : Bytes} : Rearranged ls ms → BlankLine line → 10 ∉ line →
      Rearranged ls (line :: ms)

/-- Apart from blank lines, there are the same lines, in any order and number. -/
def SameLines (ls ls' : List Bytes) : Prop := ∀ line, ¬ BlankLine line → (line ∈ ls ↔ line ∈ ls')

theorem SameLines.symm (h : SameLines ls ls') : SameLines ls' ls :=
  fun line hLine => (h line hLine).symm

theorem Rearranged.sameLines (h : Rearranged ls ls') : SameLines ls ls' := by
  induction h with
  | refl => exact fun _ _ => Iff.rfl
  | permuted _ hPerm ih => exact fun line hLine => (ih line hLine).trans hPerm.mem_iff
  | repeated _ hMem ih =>
      intro line hLine
      rw [ih line hLine, List.mem_cons]
      exact ⟨Or.inr, fun h => h.elim (fun hEq => hEq ▸ hMem) id⟩
  | inserted _ hBlank _ ih =>
      intro line hLine
      rw [ih line hLine, List.mem_cons]
      exact ⟨Or.inr, fun h => h.elim (fun hEq => absurd (hEq ▸ hBlank) hLine) id⟩

theorem Rearranged.break_not_mem (h : Rearranged ls ls') (hBreak : ∀ line ∈ ls, 10 ∉ line) :
    ∀ line ∈ ls', 10 ∉ line := by
  induction h with
  | refl => exact hBreak
  | permuted _ hPerm ih => exact fun line hLine => ih line (hPerm.mem_iff.mpr hLine)
  | repeated _ hMem ih => exact List.forall_mem_cons.mpr ⟨ih _ hMem, ih⟩
  | inserted _ _ hNone ih => exact List.forall_mem_cons.mpr ⟨hNone, ih⟩

/-! ### Reading the same lines -/

theorem tokens_of_blank {t : Text} (h : ∀ c ∈ t, isBlank c = true) : Tokens t [] := by
  induction t with
  | nil => exact .nil
  | cons c t ih =>
      obtain ⟨hc, hRest⟩ := List.forall_mem_cons.mp h
      exact .blank hc (ih hRest)

theorem BlankLine.good (h : BlankLine line) : Good k policy line none := by
  obtain ⟨t, hText, hBlank⟩ := h
  exact ⟨[], ⟨t, hText, tokens_of_blank hBlank⟩, .blank⟩

/-- A line that says a record is not blank, so it is among the same lines. -/
theorem SameLines.exists_good (h : SameLines ls ls') {r : Record}
    (hGood : ∃ line ∈ ls, Good k policy line (some r)) :
    ∃ line ∈ ls', Good k policy line (some r) := by
  obtain ⟨line, hLine, hSays⟩ := hGood
  have hSolid : ¬ BlankLine line := fun hBlank => by cases hSays.unique hBlank.good
  exact ⟨line, (h line hSolid).mp hLine, hSays⟩

/-- **The same lines have the same records.** -/
theorem Records.exists_of_sameLines {rs : List Record} (hRecords : Records k policy ls rs)
    (h : SameLines ls ls') : ∃ ss, Records k policy ls' ss ∧ ∀ r, r ∈ rs ↔ r ∈ ss := by
  have hGood := exists_records_iff.mp ⟨rs, hRecords⟩
  obtain ⟨ss, hRecords'⟩ : ∃ ss, Records k policy ls' ss := by
    refine exists_records_iff.mpr fun line hLine => ?_
    by_cases hBlank : BlankLine line
    · exact ⟨none, hBlank.good⟩
    · exact hGood line ((h line hBlank).mpr hLine)
  refine ⟨ss, hRecords', fun r => ?_⟩
  rw [hRecords.mem_iff, hRecords'.mem_iff]
  exact ⟨h.exists_good, h.symm.exists_good⟩

/-- **The same lines are read as the same automaton.** -/
theorem SameLines.readLines_eq_ok {a : Automaton k} (hSame : SameLines ls ls')
    (h : readLines k policy ls = .ok a) : readLines k policy ls' = .ok a := by
  obtain ⟨rs, m, hRecords, hLargest, hAccepted, hHolds⟩ := readLines_eq_ok_iff.mp h
  obtain ⟨ss, hRecords', hMem⟩ := hRecords.exists_of_sameLines hSame
  exact readLines_eq_ok_iff.mpr
    ⟨ss, m, hRecords', hLargest.congr hMem, hAccepted.congr hMem, hHolds.congr hMem⟩

/-- **The order of lines does not matter**, nor how often a line stands in the list, nor blank
lines, nor how lines are ended. When bytes can be read, other bytes that are made up of the same lines can
be read too, and the automata are the same. -/
theorem read_rearranged (hBreak : ∀ line ∈ ls, 10 ∉ line) (h : Rearranged ls ls')
    (hBytes : Joins ls bytes) (hBytes' : Joins ls' bytes') (a : Automaton k) :
    read k policy bytes = .ok a ↔ read k policy bytes' = .ok a := by
  rw [read_of_joins hBytes hBreak, read_of_joins hBytes' (h.break_not_mem hBreak)]
  exact ⟨h.sameLines.readLines_eq_ok, h.sameLines.symm.readLines_eq_ok⟩

def sortedLines : List Bytes :=
  ["0 1 a", "1 1 a", "1 2 b ", "2"].map fun line => Utf8.encode line.toList

def sortedList : Bytes := Utf8.encode "0 1 a\r\n1 1 a\n1 2 b \n2\r".toList

/-- The same lines in another order, one of them twice, and a blank one. -/
def shuffledLines : List Bytes :=
  ["2", "1 2 b ", " \t", "0 1 a", "2", "1 1 a"].map fun line => Utf8.encode line.toList

def shuffledList : Bytes := Utf8.encode "2\r\n1 2 b \n \t\n0 1 a\n2\n1 1 a\n".toList

def someAsThenB : Dfa :=
  Edit.attemptAll (.withStates .dfa 3)
    [.markInitial 0, .markFinal 2, .addTransition 0 'a' 1, .addTransition 1 'a' 1,
      .addTransition 1 'b' 2]

theorem read_rearranged_shuffled :
    Rearranged sortedLines shuffledLines ∧ Joins sortedLines sortedList ∧
      Joins shuffledLines shuffledList ∧ read .dfa .strict sortedList = .ok someAsThenB ∧
      read .dfa .strict shuffledList = .ok someAsThenB := by
  have hBlank : BlankLine (Utf8.encode " \t".toList) :=
    ⟨" \t".toList, (Utf8.encode_eq _).symm, List.all_eq_true.mp (by decide)⟩
  have hTwice : Rearranged sortedLines (Utf8.encode "2".toList :: sortedLines) :=
    .repeated .refl (by decide)
  have hOrder : Rearranged sortedLines shuffledLines :=
    .permuted (.inserted hTwice hBlank (by decide)) (by decide)
  have hSorted : Joins sortedLines sortedList :=
    ⟨_, .cons (Or.inr rfl) (.cons (Or.inl rfl) (.cons (Or.inl rfl) (.cons (Or.inr rfl) .nil))),
      Or.inl (by decide)⟩
  have hShuffled : Joins shuffledLines shuffledList :=
    ⟨_, .cons (Or.inr rfl) (.cons (Or.inl rfl) (.cons (Or.inl rfl) (.cons (Or.inl rfl)
      (.cons (Or.inl rfl) (.cons (Or.inl rfl) .nil))))), Or.inr (by decide)⟩
  have hRead : read .dfa .strict sortedList = .ok someAsThenB := by decide +kernel
  exact ⟨hOrder, hSorted, hShuffled, hRead,
    (read_rearranged (by decide) hOrder hSorted hShuffled someAsThenB).mp hRead⟩

end Automata.TransitionList
