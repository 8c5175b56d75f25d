import Automata.Proofs.Text.Utf8
import Automata.TransitionList.Record

/-! # Lines of encoded text

Bytes are cut into lines before they are decoded. Since the bytes of a line break and of a carriage
return occur in no other character, texts that have neither are cut apart exactly where they were
put together.
-/

namespace Automata.TransitionList

/-- Bytes have no line break, or a part without one stands before the first of them. -/
@[elab_as_elim]
theorem part_induction {motive : Bytes → Prop} (last : ∀ part, 10 ∉ part → motive part)
    (step : ∀ part rest, 10 ∉ part → motive rest → motive (part ++ 10 :: rest)) (bytes : Bytes) :
    motive bytes := by
  induction hLength : bytes.length using Nat.strongRecOn generalizing bytes with
  | ind n ih =>
      by_cases hBreak : 10 ∈ bytes
      · obtain ⟨part, rest, rfl, hNone⟩ := List.eq_append_cons_of_mem hBreak
        have hShorter : rest.length < n := by
          rw [← hLength, List.length_append, List.length_cons]
          omega
        exact step part rest hNone (ih rest.length hShorter rest rfl)
      · exact last bytes hBreak

theorem linesAfter_append_break {bytes : Bytes} (h : 10 ∉ bytes) (line rest : Bytes) :
    linesAfter line (bytes ++ 10 :: rest) =
      (dropReturn (bytes.reverse ++ line)).reverse :: lines rest := by
  induction bytes generalizing line with
  | nil => rfl
  | cons b bytes ih =>
      have hb : b ≠ 10 := fun hEq => h (hEq ▸ List.mem_cons_self ..)
      have hRest : 10 ∉ bytes := fun hMem => h (List.mem_cons_of_mem b hMem)
      rw [List.cons_append, linesAfter, if_neg hb, ih hRest, List.reverse_cons, List.append_assoc,
        List.singleton_append]

/-- A line break ends a line that is not ended by a carriage return as it is. -/
theorem lines_append_lf {line : Bytes} (h : 10 ∉ line) (hReturn : line.getLast? ≠ some 13)
    (rest : Bytes) : lines (line ++ 10 :: rest) = line :: lines rest := by
  have hDrop : dropReturn line.reverse = line.reverse := by
    rw [List.getLast?_eq_head?_reverse] at hReturn
    cases hReverse : line.reverse with
    | nil => rfl
    | cons b init =>
        rw [hReverse] at hReturn
        rw [dropReturn]
        rintro _ hEq
        obtain ⟨rfl, _⟩ := List.cons.inj hEq
        exact hReturn rfl
  rw [lines, linesAfter_append_break h, List.append_nil, hDrop, List.reverse_reverse]

theorem lines_append_break {bytes : Bytes} (hBreak : 10 ∉ bytes) (hReturn : 13 ∉ bytes)
    (rest : Bytes) : lines (bytes ++ 10 :: rest) = bytes :: lines rest :=
  lines_append_lf hBreak (fun hLast => hReturn (List.mem_of_getLast? hLast)) rest

theorem break_mem_encode {t : Text} : 10 ∈ Utf8.encode t ↔ '\n' ∈ t := by
  rw [Utf8.mem_encode_of_lt (by decide)]
  refine ⟨fun ⟨c, hc, hEq⟩ => ?_, fun h => ⟨_, h, rfl⟩⟩
  have hChar : c = '\n' := Char.toNat_inj.mp hEq
  exact hChar ▸ hc

theorem return_mem_encode {t : Text} : 13 ∈ Utf8.encode t ↔ '\r' ∈ t := by
  rw [Utf8.mem_encode_of_lt (by decide)]
  refine ⟨fun ⟨c, hc, hEq⟩ => ?_, fun h => ⟨_, h, rfl⟩⟩
  have hChar : c = '\r' := Char.toNat_inj.mp hEq
  exact hChar ▸ hc

/-- **Texts put together line by line are cut apart again.** -/
theorem lines_encode_unlines {ts : List Text} (h : ∀ t ∈ ts, '\n' ∉ t ∧ '\r' ∉ t) :
    lines (Utf8.encode (Text.unlines ts)) = ts.map Utf8.encode := by
  induction ts with
  | nil => rfl
  | cons t ts ih =>
      obtain ⟨hBreak, hReturn⟩ := h t (List.mem_cons_self ..)
      have hSplit : Utf8.encode (Text.unlines (t :: ts)) =
          Utf8.encode t ++ 10 :: Utf8.encode (Text.unlines ts) := by
        simp only [Utf8.encode, Text.unlines, List.flatMap_cons, List.flatMap_append,
          List.append_assoc]
        rfl
      rw [hSplit, lines_append_break (fun hMem => hBreak (break_mem_encode.mp hMem))
        (fun hMem => hReturn (return_mem_encode.mp hMem)), List.map_cons,
        ih fun u hu => h u (List.mem_cons_of_mem t hu)]

end Automata.TransitionList
