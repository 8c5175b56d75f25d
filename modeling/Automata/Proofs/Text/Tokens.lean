import Automata.Text.Basic

/-! # Tokens between blanks

Splitting a text at a blank splits its tokens (`tokens_append_blank`), and a nonempty text without
blanks is one token. Words written with blanks between them are therefore read back as they are.
-/

namespace Automata.Text

theorem tokensAfter_append_blank {b : Char} (hb : isBlank b = true) (word s t : Text) :
    tokensAfter word (s ++ b :: t) = tokensAfter word s ++ tokens t := by
  induction s generalizing word with
  | nil =>
      have hStep : tokensAfter word (b :: t) =
          if isBlank b then
            if word.isEmpty then tokensAfter [] t else word.reverse :: tokensAfter [] t
          else tokensAfter (b :: word) t := rfl
      rw [List.nil_append, hStep, if_pos hb, tokensAfter]
      split
      · rfl
      · rfl
  | cons c s ih =>
      rw [List.cons_append, tokensAfter, tokensAfter]
      split
      · split
        · exact ih []
        · rw [ih [], List.cons_append]
      · exact ih (c :: word)

/-- **A blank separates the tokens before it from those after it.** -/
theorem tokens_append_blank {b : Char} (hb : isBlank b = true) (s t : Text) :
    tokens (s ++ b :: t) = tokens s ++ tokens t :=
  tokensAfter_append_blank hb [] s t

theorem tokens_eq_singleton {t : Text} (hNonempty : t ≠ []) (h : ∀ c ∈ t, isBlank c = false) :
    tokens t = [t] := by
  have hFrom : ∀ s word : Text, (∀ c ∈ s, isBlank c = false) → word ++ s ≠ [] →
      tokensAfter word s = [word.reverse ++ s] := by
    intro s
    induction s with
    | nil =>
        intro word _ hWord
        rw [List.append_nil] at hWord ⊢
        rw [tokensAfter, if_neg (by rw [List.isEmpty_iff]; exact hWord)]
    | cons c s ih =>
        intro word hBlank _
        have hc : ¬ isBlank c = true := by
          rw [hBlank c (List.mem_cons_self ..)]
          exact Bool.false_ne_true
        rw [tokensAfter, if_neg hc, ih (c :: word)
          (fun d hd => hBlank d (List.mem_cons_of_mem c hd)) (List.cons_ne_nil _ _)]
        rw [List.reverse_cons, List.append_assoc, List.singleton_append]
  exact hFrom t [] h hNonempty

end Automata.Text
