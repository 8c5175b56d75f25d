import Automata.Proofs.TransitionList.Outcome
import Mathlib.Data.List.Forall2

/-! # Bytes between line breaks

Line breaks cut bytes into parts. The parts are the lines, except that a part keeps a carriage
return that its line has lost, and that there is an empty part after a line break at the very end
(`exists_parts`). Neither changes what is read: the carriage return is blank and an empty line says
nothing. So bytes may be read part by part (`read_eq_readLines`), and parts may be exchanged for
others that say the same or have the same fault (`readLines_congr`).
-/

namespace Automata.TransitionList

variable {k : Kind} {policy policy' : Policy} {bytes line part : Bytes} {ls ps : List Bytes}

/-! ### Lines that are read alike -/

/-- What the first line says under its policy, the second one says under its own, and it has the
same fault. -/
structure ReadsAs (k : Kind) (policy policy' : Policy) (line line' : Bytes) : Prop where
  good : ∀ r, Good k policy line r → Good k policy' line' r
  bad : ∀ number e, Bad k policy number line e → Bad k policy' number line' e

theorem ReadsAs.refl (line : Bytes) : ReadsAs k policy policy line line :=
  ⟨fun _ h => h, fun _ _ h => h⟩

theorem readsAs_of_hasTokens_iff {line' : Bytes}
    (h : ∀ ts, HasTokens line ts ↔ HasTokens line' ts) : ReadsAs k policy policy line line' where
  good _ := fun ⟨ts, hTokens, hSays⟩ => ⟨ts, (h ts).mp hTokens, hSays⟩
  bad _ _ hBad := by
    cases hBad with
    | text hNone => exact .text fun ts hTokens => hNone ts ((h ts).mpr hTokens)
    | tokens hTokens hFaulty => exact .tokens ((h _).mp hTokens) hFaulty

/-- **Lines that are read alike give the same records or the same error.** -/
theorem entries_congr (h : List.Forall₂ (ReadsAs k policy policy') ls ps) (number : Nat) :
    entries (readingsFrom k policy number ls) = entries (readingsFrom k policy' number ps) := by
  induction h generalizing number with
  | nil => rfl
  | @cons line part ls ps hLine _ ih =>
      rcases good_or_bad k policy number line with ⟨r, hGood⟩ | ⟨e, hBad⟩
      · rw [entries_of_good hGood, entries_of_good (hLine.good r hGood), ih]
      · rw [entries_of_bad hBad, entries_of_bad (hLine.bad number e hBad)]

/-! ### Records of lines -/

theorem Good.unique {r s : Option Record} (h : Good k policy line r) (h' : Good k policy line s) :
    r = s :=
  Option.some.inj ((good?_readLine_of_good h 0).symm.trans (good?_readLine_of_good h' 0))

theorem exists_records_iff :
    (∃ rs, Records k policy ls rs) ↔ ∀ line ∈ ls, ∃ r, Good k policy line r := by
  refine ⟨?_, fun h => ?_⟩
  · rintro ⟨rs, hRecords⟩
    induction hRecords with
    | nil => exact fun line hLine => absurd hLine List.not_mem_nil
    | cons hGood _ ih => exact List.forall_mem_cons.mpr ⟨⟨_, hGood⟩, ih⟩
  · induction ls with
    | nil => exact ⟨[], .nil⟩
    | cons line ls ih =>
        obtain ⟨⟨r, hGood⟩, hRest⟩ := List.forall_mem_cons.mp h
        obtain ⟨rs, hRecords⟩ := ih hRest
        exact ⟨_, .cons hGood hRecords⟩

/-- **The records are those that lines say.** -/
theorem Records.mem_iff {rs : List Record} (h : Records k policy ls rs) {r : Record} :
    r ∈ rs ↔ ∃ line ∈ ls, Good k policy line (some r) := by
  induction h with
  | nil => simp only [List.not_mem_nil, false_and, exists_false]
  | @cons line ls s rs hGood _ ih =>
      have hHead : r ∈ s.toList ↔ Good k policy line (some r) := by
        rw [Option.mem_toList]
        exact ⟨fun hEq => hEq ▸ hGood, fun hGood' => hGood.unique hGood'⟩
      rw [List.mem_append, ih, hHead]
      simp only [List.mem_cons, exists_eq_or_imp]

/-! ### Reading lines -/

theorem good_nil (k : Kind) (policy : Policy) : Good k policy [] none :=
  ⟨[], ⟨[], rfl, .nil⟩, .blank⟩

theorem entries_append_empty (ls : List Bytes) (number : Nat) :
    entries (readingsFrom k policy number (ls ++ [[]])) =
      entries (readingsFrom k policy number ls) := by
  induction ls generalizing number with
  | nil => exact entries_of_good (good_nil k policy) number []
  | cons line ls ih =>
      rw [List.cons_append]
      rcases good_or_bad k policy number line with ⟨r, hGood⟩ | ⟨e, hBad⟩
      · rw [entries_of_good hGood, entries_of_good hGood, ih]
      · rw [entries_of_bad hBad, entries_of_bad hBad]

theorem readLines_congr (h : List.Forall₂ (ReadsAs k policy policy') ls ps) :
    readLines k policy ls = readLines k policy' ps := by
  rw [readLines, entries_congr h]
  rfl

theorem readLines_append_empty (ls : List Bytes) :
    readLines k policy (ls ++ [[]]) = readLines k policy ls := by
  rw [readLines, entries_append_empty]
  rfl

/-! ### Carriage returns -/

theorem encode_append_return (t : Text) : Utf8.encode (t ++ ['\r']) = Utf8.encode t ++ [13] := by
  rw [Utf8.encode, List.flatMap_append]
  rfl

/-- Text that ends with the byte of a carriage return ends with a carriage return. -/
theorem exists_of_encode_eq_append_return {t : Text} (h : Utf8.encode t = line ++ [13]) :
    ∃ u, t = u ++ ['\r'] ∧ Utf8.encode u = line := by
  rcases List.eq_nil_or_concat t with rfl | ⟨u, c, rfl⟩
  · exact absurd h.symm (List.append_ne_nil_of_right_ne_nil _ (List.cons_ne_nil 13 []))
  · -- the last byte belongs to the last character, which therefore is the carriage return
    rw [List.concat_eq_append] at h ⊢
    have hLast : Utf8.encode (u ++ [c]) = Utf8.encode u ++ Utf8.encodeChar c := by
      rw [Utf8.encode, List.flatMap_append, List.flatMap_singleton]
      rfl
    have hNonempty : Utf8.encodeChar c ≠ [] := by
      obtain ⟨b, rest, hBytes, _⟩ := Utf8.exists_encodeChar c
      rw [hBytes]
      exact List.cons_ne_nil b rest
    have hMem : (13 : UInt8) ∈ Utf8.encodeChar c := by
      have hEnd : (Utf8.encode u ++ Utf8.encodeChar c).getLast? = some 13 := by
        rw [← hLast, h, List.getLast?_append_of_ne_nil _ (List.cons_ne_nil 13 [])]
        rfl
      rw [List.getLast?_append_of_ne_nil _ hNonempty] at hEnd
      exact List.mem_of_getLast? hEnd
    obtain rfl : c = '\r' := Char.toNat_inj.mp ((Utf8.mem_encodeChar_of_lt (by decide)).mp hMem)
    exact ⟨u, rfl, List.append_cancel_right ((encode_append_return u).symm.trans h)⟩

/-- **A carriage return at the end of a line changes no token.** -/
theorem hasTokens_append_return {ts : List Text} :
    HasTokens (line ++ [13]) ts ↔ HasTokens line ts := by
  have hBlank : isBlank '\r' = true := by decide
  have hSame : ∀ u : Text, (u ++ ['\r']).tokens = u.tokens := fun u => by
    rw [Text.tokens_append_blank hBlank]
    exact List.append_nil _
  simp only [hasTokens_iff, Utf8.decode?_eq_some_iff]
  refine ⟨?_, ?_⟩
  · rintro ⟨t, hText, hTokens⟩
    obtain ⟨u, rfl, hLine⟩ := exists_of_encode_eq_append_return hText
    exact ⟨u, hLine, (hSame u).symm.trans hTokens⟩
  · rintro ⟨u, rfl, hTokens⟩
    exact ⟨u ++ ['\r'], encode_append_return u, (hSame u).trans hTokens⟩

/-- The part is the line, perhaps with a carriage return after it. -/
def MayReturn (line part : Bytes) : Prop := part = line ∨ part = line ++ [13]

theorem MayReturn.readsAs (h : MayReturn line part) : ReadsAs k policy policy line part := by
  rcases h with rfl | rfl
  · exact .refl part
  · exact readsAs_of_hasTokens_iff fun _ => hasTokens_append_return.symm

theorem MayReturn.not_mem (h : MayReturn line part) (hBreak : 10 ∉ line) : 10 ∉ part := by
  rcases h with rfl | rfl
  · exact hBreak
  · rw [List.mem_append, List.mem_singleton]
    exact not_or.mpr ⟨hBreak, by decide⟩

/-! ### Parts -/

theorem splitOn_append_crlf (h : 10 ∉ line) (rest : Bytes) :
    (line ++ 13 :: 10 :: rest).splitOn 10 = (line ++ [13]) :: rest.splitOn 10 := by
  have hReturn : MayReturn line (line ++ [13]) := Or.inr rfl
  have hSplit : line ++ 13 :: 10 :: rest = (line ++ [13]) ++ 10 :: rest := by
    rw [List.append_assoc, List.singleton_append]
  rw [hSplit, List.splitOn_append_cons_self_of_not_mem (hReturn.not_mem h)]

/-- **The parts are the lines**, perhaps with carriage returns after them, and an empty one at the
end when no line is left. -/
theorem exists_parts (h : Lines bytes ls) :
    ∃ last, (last = [] ∨ last = [[]]) ∧
      List.Forall₂ MayReturn (ls ++ last) (bytes.splitOn 10) := by
  induction h with
  | nil => exact ⟨[[]], Or.inr rfl, .cons (Or.inl rfl) .nil⟩
  | last _ hBreak =>
      refine ⟨[], Or.inl rfl, ?_⟩
      rw [List.splitOn_eq_singleton hBreak]
      exact .cons (Or.inl rfl) .nil
  | lf hBreak _ _ ih =>
      obtain ⟨last, hLast, hParts⟩ := ih
      refine ⟨last, hLast, ?_⟩
      rw [List.splitOn_append_cons_self_of_not_mem hBreak]
      exact .cons (Or.inl rfl) hParts
  | crlf hBreak _ ih =>
      obtain ⟨last, hLast, hParts⟩ := ih
      refine ⟨last, hLast, ?_⟩
      rw [splitOn_append_crlf hBreak]
      exact .cons (Or.inr rfl) hParts

theorem break_not_mem_of_mem_splitOn (bytes : Bytes) : ∀ part ∈ bytes.splitOn 10, 10 ∉ part := by
  induction bytes using part_induction with
  | last part hBreak =>
      rw [List.splitOn_eq_singleton hBreak]
      exact List.forall_mem_singleton.mpr hBreak
  | step part rest hBreak ih =>
      rw [List.splitOn_append_cons_self_of_not_mem hBreak]
      exact List.forall_mem_cons.mpr ⟨hBreak, ih⟩

theorem splitOn_append_break (bytes : Bytes) :
    (bytes ++ [10]).splitOn 10 = bytes.splitOn 10 ++ [[]] := by
  induction bytes using part_induction with
  | last part hBreak =>
      rw [List.splitOn_append_cons_self_of_not_mem hBreak, List.splitOn_eq_singleton hBreak]
      rfl
  | step part rest hBreak ih =>
      rw [List.append_assoc, List.cons_append, List.splitOn_append_cons_self_of_not_mem hBreak, ih,
        List.splitOn_append_cons_self_of_not_mem hBreak, List.cons_append]

/-- **Bytes are read part by part.** -/
theorem read_eq_readLines (k : Kind) (policy : Policy) (bytes : Bytes) :
    read k policy bytes = readLines k policy (bytes.splitOn 10) := by
  obtain ⟨last, hLast, hParts⟩ := exists_parts (lines_iff.mpr (rfl : lines bytes = _))
  rw [← readLines_congr (hParts.imp fun _ _ h => h.readsAs)]
  rcases hLast with rfl | rfl
  · rw [List.append_nil]
    rfl
  · rw [readLines_append_empty]
    rfl

end Automata.TransitionList
