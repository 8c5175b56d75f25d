import Automata.Proofs.TransitionList.Parts

/-! # Lines that are passed over

The two policies differ on irregular lines only, those with a number of tokens that no record has.
The lenient policy finds nothing in such a line, just as the strict one finds nothing in an empty
line (`readsAs_unlessIrregular`). Hence a lenient reading is a strict reading of the same bytes with
empty lines in place of the irregular ones, which keep their numbers to all other lines. Every other
fault remains one (`read_lenient`).
-/

namespace Automata.TransitionList

variable {k : Kind} {policy policy' : Policy} {bytes line : Bytes} {ts : List Text} {number : Nat}

/-! ### Irregular lines -/

instance (ts : List Text) : Decidable (Irregular ts) := inferInstanceAs (Decidable (_ ∧ _ ∧ _))

def isIrregular (line : Bytes) : Bool :=
  match Utf8.decode? line with
  | some t => decide (Irregular t.tokens)
  | none => false

/-- The line unless it is irregular, else an empty one. -/
def unlessIrregular (line : Bytes) : Bytes := if isIrregular line then [] else line

/-- The bytes with an empty line in place of every irregular one. -/
def cleaned (bytes : Bytes) : Bytes := [10].intercalate ((bytes.splitOn 10).map unlessIrregular)

theorem isIrregular_iff : isIrregular line = true ↔ ∃ ts, HasTokens line ts ∧ Irregular ts := by
  simp only [hasTokens_iff, isIrregular]
  cases Utf8.decode? line with
  | none => simp
  | some t => simp

theorem HasTokens.unique {us : List Text} (h : HasTokens line ts) (h' : HasTokens line us) :
    ts = us := by
  obtain ⟨t, hText, rfl⟩ := hasTokens_iff.mp h
  obtain ⟨u, hText', rfl⟩ := hasTokens_iff.mp h'
  rw [Option.some.inj (hText.symm.trans hText')]

/-! ### The policies -/

/-- **The lenient policy alone passes over irregular tokens.** What other tokens say they say under
any policy. -/
theorem Says.skipped_or_any {r : Option Record} (h : Says k policy ts r) :
    (Irregular ts ∧ policy = .lenient ∧ r = none) ∨
      (¬ Irregular ts ∧ ∀ policy, Says k policy ts r) := by
  cases h with
  | blank => exact Or.inr ⟨fun h => h.1 rfl, fun _ => .blank⟩
  | final ha => exact Or.inr ⟨fun h => h.2.1 rfl, fun _ => .final ha⟩
  | transition ha hb hc hEps =>
      exact Or.inr ⟨fun h => h.2.2 rfl, fun _ => .transition ha hb hc hEps⟩
  | skipped hPolicy hIrregular => exact Or.inl ⟨hIrregular, hPolicy, rfl⟩

/-- **The strict policy alone complains of irregular tokens.** What is wrong with other tokens is so
under any policy. -/
theorem Faulty.malformed_or_any {e : Error} (h : Faulty k policy number ts e) :
    (Irregular ts ∧ policy = .strict ∧ .malformedRecord number ts.length = e) ∨
      (¬ Irregular ts ∧ ∀ policy, Faulty k policy number ts e) := by
  cases h with
  | final ha => exact Or.inr ⟨fun h => h.2.1 rfl, fun _ => .final ha⟩
  | source ha => exact Or.inr ⟨fun h => h.2.2 rfl, fun _ => .source ha⟩
  | target ha hb => exact Or.inr ⟨fun h => h.2.2 rfl, fun _ => .target ha hb⟩
  | symbol ha hb hc => exact Or.inr ⟨fun h => h.2.2 rfl, fun _ => .symbol ha hb hc⟩
  | epsilon hKind ha hb hc => exact Or.inr ⟨fun h => h.2.2 rfl, fun _ => .epsilon hKind ha hb hc⟩
  | malformed hPolicy hIrregular => exact Or.inl ⟨hIrregular, hPolicy, rfl⟩

/-! ### Cleaned lines -/

theorem readsAs_nil_of_irregular {us : List Text} (hTokens : HasTokens line us)
    (hIrregular : Irregular us) : ReadsAs k .lenient .strict line [] := by
  refine ⟨?_, fun number e hBad => ?_⟩
  · rintro r ⟨ts, hTokens', hSays⟩
    obtain rfl := hTokens'.unique hTokens
    rcases hSays.skipped_or_any with ⟨_, _, rfl⟩ | ⟨hRegular, _⟩
    · exact good_nil k .strict
    · exact absurd hIrregular hRegular
  · cases hBad with
    | text hNone => exact absurd hTokens (hNone us)
    | tokens hTokens' hFaulty =>
        obtain rfl := hTokens'.unique hTokens
        rcases hFaulty.malformed_or_any with ⟨_, hStrict, _⟩ | ⟨hRegular, _⟩
        · cases hStrict
        · exact absurd hIrregular hRegular

theorem readsAs_of_not_irregular (h : ∀ ts, HasTokens line ts → ¬ Irregular ts) :
    ReadsAs k policy policy' line line := by
  refine ⟨?_, fun number e hBad => ?_⟩
  · rintro r ⟨ts, hTokens, hSays⟩
    rcases hSays.skipped_or_any with ⟨hIrregular, _, _⟩ | ⟨_, hAny⟩
    · exact absurd hIrregular (h ts hTokens)
    · exact ⟨ts, hTokens, hAny policy'⟩
  · cases hBad with
    | text hNone => exact .text hNone
    | @tokens ts _ hTokens hFaulty =>
        rcases hFaulty.malformed_or_any with ⟨hIrregular, _, _⟩ | ⟨_, hAny⟩
        · exact absurd hIrregular (h ts hTokens)
        · exact .tokens hTokens (hAny policy')

/-- **A line is read by the lenient policy as its replacement is read by the strict one.** -/
theorem readsAs_unlessIrregular (line : Bytes) :
    ReadsAs k .lenient .strict line (unlessIrregular line) := by
  rw [unlessIrregular]
  by_cases hLine : isIrregular line = true
  · obtain ⟨us, hTokens, hIrregular⟩ := isIrregular_iff.mp hLine
    rw [if_pos hLine]
    exact readsAs_nil_of_irregular hTokens hIrregular
  · rw [if_neg hLine]
    exact readsAs_of_not_irregular fun ts hTokens hIrregular =>
      hLine (isIrregular_iff.mpr ⟨ts, hTokens, hIrregular⟩)

theorem splitOn_cleaned (bytes : Bytes) :
    (cleaned bytes).splitOn 10 = (bytes.splitOn 10).map unlessIrregular := by
  refine List.splitOn_intercalate 10 ?_ ?_
  · intro part hPart
    obtain ⟨line, hLine, rfl⟩ := List.mem_map.mp hPart
    rw [unlessIrregular]
    split
    · exact List.not_mem_nil
    · exact break_not_mem_of_mem_splitOn bytes line hLine
  · rw [Ne, List.map_eq_nil_iff]
    exact List.splitOn_ne_nil 10 bytes

/-- **A lenient reading is a strict reading of the cleaned bytes.** -/
theorem read_cleaned (k : Kind) (bytes : Bytes) :
    read k .lenient bytes = read k .strict (cleaned bytes) := by
  rw [read_eq_readLines, read_eq_readLines, splitOn_cleaned]
  refine readLines_congr (List.forall₂_map_right_iff.mpr ?_)
  exact List.forall₂_same.mpr fun line _ => readsAs_unlessIrregular line

/-! ### One list under both policies -/

/-- The lenient policy changes nothing unless the strict one complains of an irregular line. -/
theorem entries_lenient (ls : List Bytes) (number : Nat) :
    entries (readingsFrom k .lenient number ls) = entries (readingsFrom k .strict number ls) ∨
      ∃ n count, entries (readingsFrom k .strict number ls) = .error (.malformedRecord n count) := by
  induction ls generalizing number with
  | nil => exact Or.inl rfl
  | cons line ls ih =>
      by_cases hLine : ∃ ts, HasTokens line ts ∧ Irregular ts
      · obtain ⟨ts, hTokens, hIrregular⟩ := hLine
        have hBad : Bad k .strict number line (.malformedRecord number ts.length) :=
          .tokens hTokens (.malformed rfl hIrregular)
        exact Or.inr ⟨number, ts.length, entries_of_bad hBad ls⟩
      · have hAlike : ReadsAs k .strict .lenient line line :=
          readsAs_of_not_irregular fun ts hTokens hIrregular => hLine ⟨ts, hTokens, hIrregular⟩
        rcases good_or_bad k .strict number line with ⟨r, hGood⟩ | ⟨e, hBad⟩
        · rw [entries_of_good hGood, entries_of_good (hAlike.good r hGood)]
          rcases ih (number + 1) with hSame | ⟨n, count, hError⟩
          · exact Or.inl (by rw [hSame])
          · exact Or.inr ⟨n, count, by rw [hError]; rfl⟩
        · rw [entries_of_bad hBad, entries_of_bad (hAlike.bad number e hBad)]
          exact Or.inl rfl

theorem read_lenient_or_malformed (k : Kind) (bytes : Bytes) :
    read k .lenient bytes = read k .strict bytes ∨
      ∃ n count, read k .strict bytes = .error (.malformedRecord n count) := by
  rcases entries_lenient (k := k) (lines bytes) 1 with hSame | ⟨n, count, hError⟩
  · refine Or.inl ?_
    rw [read, read, readings, readings, hSame]
  · refine Or.inr ⟨n, count, ?_⟩
    rw [read, readings, hError]
    rfl

/-! ### What is passed over -/

def Held (a : Automaton k) : Record → Prop
  | .final s => s ∈ a.finals
  | .transition t => t ∈ a.transitions

theorem Holds.held_iff {n : Nat} {rs : List Record} {a : Automaton k} (h : Holds n rs a)
    {r : Record} : Held a r ↔ r ∈ rs := by
  cases r with
  | final s => exact h.mem_finals s
  | transition t => exact h.mem_transitions t

/-- The lines of a list that is read are irregular, or the automaton holds what they say. -/
theorem irregular_or_held {a : Automaton k} (h : read k .lenient bytes = .ok a) :
    ∀ line ∈ lines bytes, (∃ ts, HasTokens line ts ∧ Irregular ts) ∨
      ∃ r, Good k .strict line r ∧ ∀ record, r = some record → Held a record := by
  obtain ⟨rs, m, hRecords, _, _, hHolds⟩ := exists_records_of_read h
  intro line hLine
  obtain ⟨r, ts, hTokens, hSays⟩ := exists_records_iff.mp ⟨rs, hRecords⟩ line hLine
  rcases hSays.skipped_or_any with ⟨hIrregular, _, _⟩ | ⟨_, hAny⟩
  · exact Or.inl ⟨ts, hTokens, hIrregular⟩
  · refine Or.inr ⟨r, ⟨ts, hTokens, hAny .strict⟩, ?_⟩
    rintro record rfl
    exact hHolds.held_iff.mpr (hRecords.mem_iff.mpr ⟨line, hLine, ts, hTokens, hSays⟩)

/-! ### Reports -/

theorem readText_eq_skipped {t content : Text}
    (h : readText k policy number t = .skipped content) : t = content ∧ Irregular t.tokens := by
  rcases says_or_faulty k policy number t.tokens with ⟨r, hSays⟩ | ⟨e, hFaulty⟩
  · have hGood := good?_readText_of_says hSays number
    rw [h] at hGood
    obtain rfl := Option.some.inj hGood
    generalize hTokens : t.tokens = ts at hSays
    cases hSays with
    | blank =>
        rw [readText, hTokens] at h
        cases h
    | skipped hPolicy hIrregular =>
        rw [readText_of_irregular (hTokens ▸ hIrregular), hPolicy] at h
        exact ⟨Reading.skipped.inj h, hIrregular⟩
  · rw [readText_of_faulty hFaulty] at h
    cases h

theorem readLine_eq_skipped {content : Text}
    (h : readLine k policy number line = .skipped content) :
    Utf8.encode content = line ∧ Irregular content.tokens := by
  cases hText : Utf8.decode? line with
  | none =>
      rw [readLine, hText] at h
      cases h
  | some t =>
      rw [readLine, hText] at h
      obtain ⟨rfl, hIrregular⟩ := readText_eq_skipped h
      exact ⟨Utf8.decode?_eq_some_iff.mp hText, hIrregular⟩

theorem skipped_mem_of_mem_skips {rs : List (Nat × Reading)} {content : Text}
    (h : .lineSkipped number content ∈ skips rs) : (number, .skipped content) ∈ rs := by
  induction rs with
  | nil => exact absurd h List.not_mem_nil
  | cons p rs ih =>
      obtain ⟨n, reading⟩ := p
      cases reading with
      | bad e => exact absurd h List.not_mem_nil
      | blank => exact List.mem_cons_of_mem _ (ih h)
      | record r => exact List.mem_cons_of_mem _ (ih h)
      | skipped t =>
          rcases List.mem_cons.mp h with hHead | hTail
          · obtain ⟨rfl, rfl⟩ := Event.lineSkipped.inj hHead
            exact List.mem_cons_self ..
          · exact List.mem_cons_of_mem _ (ih hTail)

theorem lineSkipped_not_mem_rejection (a : Automaton k) (es : List Entry) (content : Text) :
    .lineSkipped number content ∉ rejection a es := by
  induction es generalizing a with
  | nil => exact List.not_mem_nil
  | cons e es ih =>
      rw [rejection]
      split
      · exact ih _
      · rw [List.mem_singleton]
        exact fun hEq => by cases hEq
      · exact List.not_mem_nil

theorem lineSkipped_not_mem_assemblyEvents (es : List Entry) (content : Text) :
    .lineSkipped number content ∉ assemblyEvents k es := by
  rw [assemblyEvents]
  split
  · rw [List.mem_singleton]
    exact fun hEq => by cases hEq
  · split
    · exact lineSkipped_not_mem_rejection _ es content
    · exact List.not_mem_nil

/-- **A line that is reported as passed over is irregular.** -/
theorem irregular_of_lineSkipped {content : Text}
    (h : .lineSkipped number content ∈ readEvents k policy bytes) :
    ∃ i, number = i + 1 ∧ (lines bytes)[i]? = some (Utf8.encode content) ∧
      Irregular content.tokens := by
  have hSkip : .lineSkipped number content ∈ skips (readings k policy bytes) := by
    rw [readEvents] at h
    rcases List.mem_append.mp h with hSkip | hAssembly
    · rcases List.mem_cons.mp hSkip with hEq | hMem
      · cases hEq
      · exact hMem
    · split at hAssembly
      · exact absurd hAssembly (lineSkipped_not_mem_assemblyEvents _ content)
      · exact absurd hAssembly List.not_mem_nil
  obtain ⟨i, line, hLine, hEq⟩ := exists_line_of_readings (skipped_mem_of_mem_skips hSkip)
  obtain ⟨rfl, hReading⟩ := Prod.mk.inj hEq
  obtain ⟨rfl, hIrregular⟩ := readLine_eq_skipped hReading
  exact ⟨i, Nat.add_comm 1 i, hLine, hIrregular⟩

/-- **The lenient policy passes over irregular lines, and nothing else.** Its result is that of the
strict policy on the same bytes with empty lines in place of the irregular ones. It is the result of
the strict policy on the bytes themselves unless that is a complaint about an irregular line. When
an automaton results, it holds what every line says that is not irregular. Only irregular lines are
reported as passed over. -/
theorem read_lenient (k : Kind) (bytes : Bytes) :
    read k .lenient bytes = read k .strict (cleaned bytes) ∧
    (read k .lenient bytes = read k .strict bytes ∨
      ∃ n count, read k .strict bytes = .error (.malformedRecord n count)) ∧
    (∀ a, read k .lenient bytes = .ok a → ∀ line ∈ lines bytes,
      (∃ ts, HasTokens line ts ∧ Irregular ts) ∨
        ∃ r, Good k .strict line r ∧ ∀ record, r = some record → Held a record) ∧
    ∀ n content, .lineSkipped n content ∈ readEvents k .lenient bytes →
      ∃ i, n = i + 1 ∧ (lines bytes)[i]? = some (Utf8.encode content) ∧
        Irregular content.tokens := by
  refine ⟨read_cleaned k bytes, read_lenient_or_malformed k bytes, ?_, ?_⟩
  · exact fun a hRead => irregular_or_held hRead
  · exact fun n content hSkip => irregular_of_lineSkipped hSkip

/-- States that are named on irregular lines only are not made, and line 4 keeps its number. -/
example : cleaned (Utf8.encode "0 1 a
8 9

2 x".toList) = Utf8.encode "0 1 a


".toList ∧
    read .dfa .lenient (Utf8.encode "0 1 a
8 9
1 x a".toList) =
      .error (.invalidStateToken 3 "x".toList) := by
  decide +kernel

end Automata.TransitionList
