import Automata.Proofs.Text.Decoding
import Automata.Proofs.TransitionList.Grammar
import Automata.Proofs.TransitionList.Records

/-! # Lines are read as the grammar has them

Bytes are cut into the lines, and texts into the tokens, that the grammar describes
(`lines_iff`, `tokens_iff`), and tokens are read as what they name. A line says something or has a
fault (`good_or_bad`), and reading all lines gives their records (`records_iff`) or the error of the
first bad line (`firstBad_iff`).
-/

namespace Automata.TransitionList

variable {k : Kind} {policy : Policy}

/-! ### Lines -/

theorem linesAfter_of_not_mem {bytes : Bytes} (h : 10 ∉ bytes) (line : Bytes) :
    linesAfter line bytes =
      if (bytes.reverse ++ line).isEmpty then [] else [line.reverse ++ bytes] := by
  induction bytes generalizing line with
  | nil =>
      rw [linesAfter, List.reverse_nil, List.nil_append, List.append_nil]
  | cons b bytes ih =>
      have hb : b ≠ 10 := fun hEq => h (hEq ▸ List.mem_cons_self ..)
      rw [linesAfter, if_neg hb, ih fun hMem => h (List.mem_cons_of_mem b hMem)]
      simp

theorem lines_of_not_mem {line : Bytes} (hNonempty : line ≠ []) (h : 10 ∉ line) :
    lines line = [line] := by
  rw [lines, linesAfter_of_not_mem h, List.append_nil, if_neg]
  · rfl
  · rw [List.isEmpty_iff, List.reverse_eq_nil_iff]
    exact hNonempty

theorem lines_append_crlf {line : Bytes} (h : 10 ∉ line) (rest : Bytes) :
    lines (line ++ 13 :: 10 :: rest) = line :: lines rest := by
  have hSplit : line ++ 13 :: 10 :: rest = (line ++ [13]) ++ 10 :: rest := by
    rw [List.append_assoc, List.singleton_append]
  have hNone : 10 ∉ line ++ [13] := by
    rw [List.mem_append, List.mem_singleton]
    exact not_or.mpr ⟨h, by decide⟩
  rw [hSplit, lines, linesAfter_append_break hNone, List.append_nil, List.reverse_append]
  show (dropReturn (13 :: line.reverse)).reverse :: lines rest = _
  rw [dropReturn, List.reverse_reverse]

theorem lines_of_grammar {bytes : Bytes} {ls : List Bytes} (h : Lines bytes ls) :
    lines bytes = ls := by
  induction h with
  | nil => rfl
  | last hNonempty hNone => exact lines_of_not_mem hNonempty hNone
  | lf hNone hReturn _ ih => rw [lines_append_lf hNone hReturn, ih]
  | crlf hNone _ ih => rw [lines_append_crlf hNone, ih]

/-- Every sequence of bytes has lines: the first break ends the first one. -/
theorem exists_lines (bytes : Bytes) : ∃ ls, Lines bytes ls := by
  induction bytes using part_induction with
  | last part hBreak =>
      by_cases hNil : part = []
      · exact ⟨[], hNil ▸ .nil⟩
      · exact ⟨[part], .last hNil hBreak⟩
  | step part rest hBreak ih =>
      obtain ⟨ls, hLines⟩ := ih
      by_cases hReturn : part.getLast? = some 13
      · obtain ⟨init, rfl⟩ := List.getLast?_eq_some_iff.mp hReturn
        rw [List.append_assoc, List.singleton_append]
        exact ⟨_, .crlf (fun hMem => hBreak (List.mem_append_left _ hMem)) hLines⟩
      · exact ⟨_, .lf hBreak hReturn hLines⟩

/-- **Bytes are cut into their lines.** -/
theorem lines_iff {bytes : Bytes} {ls : List Bytes} : Lines bytes ls ↔ lines bytes = ls := by
  refine ⟨lines_of_grammar, ?_⟩
  rintro rfl
  obtain ⟨ls, hLines⟩ := exists_lines bytes
  rw [lines_of_grammar hLines]
  exact hLines

/-! ### Tokens -/

theorem tokens_of_grammar {t : Text} {ts : List Text} (h : Tokens t ts) : t.tokens = ts := by
  induction h with
  | nil => rfl
  | @blank c rest ts hBlank _ ih =>
      have hFront := Text.tokens_append_blank hBlank [] rest
      rw [List.nil_append] at hFront
      rw [hFront, ih]
      rfl
  | last hSolid => exact Text.tokens_eq_singleton hSolid.1 hSolid.2
  | cons hSolid hBlank _ ih =>
      rw [Text.tokens_append_blank hBlank, Text.tokens_eq_singleton hSolid.1 hSolid.2, ih]
      rfl

theorem solid_singleton {c : Char} (hc : isBlank c = false) : Solid [c] :=
  ⟨List.cons_ne_nil c [], List.forall_mem_singleton.mpr hc⟩

theorem Solid.cons {c : Char} {token : Text} (hc : isBlank c = false) (h : Solid token) :
    Solid (c :: token) :=
  ⟨List.cons_ne_nil c token, List.forall_mem_cons.mpr ⟨hc, h.2⟩⟩

/-- A character that is not blank goes into the first token or is one of its own. -/
theorem exists_tokens_cons {c : Char} (hc : isBlank c = false) {t : Text} {ts : List Text}
    (h : Tokens t ts) : ∃ us, Tokens (c :: t) us := by
  cases h with
  | nil => exact ⟨_, .last (solid_singleton hc)⟩
  | blank hBlank hRest => exact ⟨_, .cons (solid_singleton hc) hBlank hRest⟩
  | last hSolid => exact ⟨_, .last (hSolid.cons hc)⟩
  | cons hSolid hBlank hRest => exact ⟨_, .cons (hSolid.cons hc) hBlank hRest⟩

theorem exists_tokens (t : Text) : ∃ ts, Tokens t ts := by
  induction t with
  | nil => exact ⟨[], .nil⟩
  | cons c t ih =>
      obtain ⟨ts, hTokens⟩ := ih
      cases hc : isBlank c with
      | true => exact ⟨ts, .blank hc hTokens⟩
      | false => exact exists_tokens_cons hc hTokens

/-- **Texts are cut into their tokens.** -/
theorem tokens_iff {t : Text} {ts : List Text} : Tokens t ts ↔ t.tokens = ts := by
  refine ⟨tokens_of_grammar, ?_⟩
  rintro rfl
  obtain ⟨ts, hTokens⟩ := exists_tokens t
  rw [tokens_of_grammar hTokens]
  exact hTokens

theorem hasTokens_iff {line : Bytes} {ts : List Text} :
    HasTokens line ts ↔ ∃ t, Utf8.decode? line = some t ∧ t.tokens = ts := by
  simp only [HasTokens, ← Utf8.encode_eq, Utf8.decode?_eq_some_iff, tokens_iff]

/-! ### Names -/

theorem namesState_iff {token : Text} {s : State} :
    NamesState token s ↔ Text.numeral? stateLimit token = some s := by
  rw [Text.numeral?_eq_some_iff]
  rfl

theorem state?_eq_ok_iff {line : Nat} {token : Text} {s : State} :
    state? line token = .ok s ↔ NamesState token s := by
  rw [state?, namesState_iff]
  cases Text.numeral? stateLimit token with
  | none => simp
  | some t => simp

theorem state?_of_not_names {token : Text} (h : ∀ s, ¬ NamesState token s) (line : Nat) :
    state? line token = .error (.invalidStateToken line token) := by
  simp only [namesState_iff, ← Option.eq_none_iff_forall_ne_some] at h
  rw [state?, h]

theorem symbol?_eq_ok_iff {line : Nat} {token : Text} {x : Symbol} :
    symbol? line token = .ok x ↔ NamesSymbol token x := by
  refine ⟨fun h => ?_, fun h => h ▸ symbol?_text x line⟩
  rw [symbol?.eq_def] at h
  split at h
  · next hToken =>
      obtain rfl := Except.ok.inj h
      exact hToken
  · split at h
    · next c _ =>
        obtain rfl := Except.ok.inj h
        rfl
    · cases h

theorem symbol?_of_not_names {token : Text} (h : ∀ x, ¬ NamesSymbol token x) (line : Nat) :
    symbol? line token = .error (.invalidSymbol line token) := by
  cases hSymbol : symbol? line token with
  | ok x => exact absurd (symbol?_eq_ok_iff.mp hSymbol) (h x)
  | error e =>
      rw [symbol?.eq_def] at hSymbol
      split at hSymbol
      · cases hSymbol
      · split at hSymbol
        · cases hSymbol
        · rw [← hSymbol]

/-! ### What a line says -/

/-- What a reading gives unless it is bad: a record, or nothing. -/
def Reading.good? : Reading → Option (Option Record)
  | .blank | .skipped _ => some none
  | .record r => some (some r)
  | .bad _ => none

theorem says_or_faulty (k : Kind) (policy : Policy) (line : Nat) (ts : List Text) :
    (∃ r, Says k policy ts r) ∨ ∃ e, Faulty k policy line ts e := by
  have hIrregular : Irregular ts → (∃ r, Says k policy ts r) ∨ ∃ e, Faulty k policy line ts e := by
    intro h
    cases hPolicy : policy with
    | strict => exact Or.inr ⟨_, .malformed rfl h⟩
    | lenient => exact Or.inl ⟨_, .skipped rfl h⟩
  match ts, hIrregular with
  | [], _ => exact Or.inl ⟨_, .blank⟩
  | [a], _ =>
      by_cases ha : ∃ s, NamesState a s
      · obtain ⟨s, hs⟩ := ha
        exact Or.inl ⟨_, .final hs⟩
      · exact Or.inr ⟨_, .final (not_exists.mp ha)⟩
  | [a, b, c], _ =>
      by_cases ha : ∃ p, NamesState a p
      · obtain ⟨p, hp⟩ := ha
        by_cases hb : ∃ q, NamesState b q
        · obtain ⟨q, hq⟩ := hb
          by_cases hc : ∃ x, NamesSymbol c x
          · obtain ⟨x, hx⟩ := hc
            by_cases hEps : k = .dfa ∧ x = .epsilon
            · exact Or.inr ⟨_, .epsilon hEps.1 hp hq (hEps.2 ▸ hx)⟩
            · exact Or.inl ⟨_, .transition hp hq hx fun hKind hEq => hEps ⟨hKind, hEq⟩⟩
          · exact Or.inr ⟨_, .symbol hp hq (not_exists.mp hc)⟩
        · exact Or.inr ⟨_, .target hp (not_exists.mp hb)⟩
      · exact Or.inr ⟨_, .source (not_exists.mp ha)⟩
  | [_, _], h => exact h ⟨by simp, by simp, by simp⟩
  | _ :: _ :: _ :: _ :: _, h => exact h ⟨by simp, by simp, by simp⟩

theorem readText_of_irregular {t : Text} (h : Irregular t.tokens) (line : Nat) :
    readText k policy line t = match policy with
      | .strict => .bad (.malformedRecord line t.tokens.length)
      | .lenient => .skipped t := by
  obtain ⟨hZero, hOne, hThree⟩ := h
  rw [readText.eq_def]
  split
  · next hTokens => exact absurd (by rw [hTokens]; rfl) hZero
  · next hTokens => exact absurd (by rw [hTokens]; rfl) hOne
  · next hTokens => exact absurd (by rw [hTokens]; rfl) hThree
  · rfl

theorem transition?_of_names {a b c : Text} {p q : State} {x : Symbol} (hp : NamesState a p)
    (hq : NamesState b q) (hx : NamesSymbol c x) (line : Nat) :
    transition? k line a b c = if k = .dfa ∧ x = .epsilon then .error (.epsilonInDfa line)
      else .ok (.transition ⟨p, x, q⟩) := by
  simp only [transition?, state?_eq_ok_iff.mpr hp, state?_eq_ok_iff.mpr hq,
    symbol?_eq_ok_iff.mpr hx]
  rfl

theorem good?_readText_of_says {t : Text} {r : Option Record} (h : Says k policy t.tokens r)
    (line : Nat) : (readText k policy line t).good? = some r := by
  generalize hTokens : t.tokens = ts at h
  cases h with
  | blank => rw [readText, hTokens]; rfl
  | final ha =>
      rw [readText, hTokens]
      simp only [state?_eq_ok_iff.mpr ha]
      rfl
  | transition hp hq hx hEps =>
      rw [readText, hTokens]
      simp only [transition?_of_names hp hq hx]
      rw [if_neg fun hBoth => hEps hBoth.1 hBoth.2]
      rfl
  | skipped hPolicy hIrregular =>
      rw [readText_of_irregular (hTokens ▸ hIrregular), hPolicy]
      rfl

theorem readText_of_faulty {t : Text} {line : Nat} {e : Error}
    (h : Faulty k policy line t.tokens e) : readText k policy line t = .bad e := by
  generalize hTokens : t.tokens = ts at h
  cases h with
  | final ha =>
      rw [readText, hTokens]
      simp only [state?_of_not_names ha]
      rfl
  | source ha =>
      rw [readText, hTokens]
      simp only [transition?, state?_of_not_names ha]
      rfl
  | target hp hb =>
      rw [readText, hTokens]
      simp only [transition?, state?_eq_ok_iff.mpr hp, state?_of_not_names hb]
      rfl
  | symbol hp hq hc =>
      rw [readText, hTokens]
      simp only [transition?, state?_eq_ok_iff.mpr hp, state?_eq_ok_iff.mpr hq,
        symbol?_of_not_names hc]
      rfl
  | epsilon hKind hp hq hx =>
      rw [readText, hTokens]
      simp only [transition?_of_names hp hq hx]
      rw [if_pos ⟨hKind, trivial⟩]
      rfl
  | malformed hPolicy hIrregular =>
      rw [readText_of_irregular (hTokens ▸ hIrregular), hPolicy, hTokens]

theorem good?_readLine_of_good {line : Bytes} {r : Option Record} (h : Good k policy line r)
    (number : Nat) : (readLine k policy number line).good? = some r := by
  obtain ⟨_, hTokens, hSays⟩ := h
  obtain ⟨t, hText, rfl⟩ := hasTokens_iff.mp hTokens
  rw [readLine, hText]
  exact good?_readText_of_says hSays number

/-- **The reading of a line is its fault if it has one.** -/
theorem readLine_of_bad {line : Bytes} {number : Nat} {e : Error}
    (h : Bad k policy number line e) : readLine k policy number line = .bad e := by
  cases h with
  | text hNone =>
      cases hText : Utf8.decode? line with
      | none => rw [readLine, hText]
      | some t => exact absurd (hasTokens_iff.mpr ⟨t, hText, rfl⟩) (hNone t.tokens)
  | tokens hTokens hFaulty =>
      obtain ⟨t, hText, rfl⟩ := hasTokens_iff.mp hTokens
      rw [readLine, hText]
      exact readText_of_faulty hFaulty

theorem good_or_bad (k : Kind) (policy : Policy) (number : Nat) (line : Bytes) :
    (∃ r, Good k policy line r) ∨ ∃ e, Bad k policy number line e := by
  by_cases hTokens : ∃ ts, HasTokens line ts
  · obtain ⟨ts, hTokens⟩ := hTokens
    rcases says_or_faulty k policy number ts with ⟨r, hSays⟩ | ⟨e, hFaulty⟩
    · exact Or.inl ⟨r, ts, hTokens, hSays⟩
    · exact Or.inr ⟨e, .tokens hTokens hFaulty⟩
  · exact Or.inr ⟨_, .text (not_exists.mp hTokens)⟩

/-! ### Lists -/

theorem entries_of_good {line : Bytes} {r : Option Record} (h : Good k policy line r)
    (number : Nat) (ls : List Bytes) :
    entries (readingsFrom k policy number (line :: ls)) =
      (entries (readingsFrom k policy (number + 1) ls)).map
        ((r.map (Entry.mk number)).toList ++ ·) := by
  have hReading := good?_readLine_of_good h number
  have hSame : ∀ x : Except Error (List Entry), x = x.map ([] ++ ·) := fun x => by
    cases x <;> rfl
  rw [readingsFrom]
  cases hLine : readLine k policy number line with
  | bad e =>
      rw [hLine] at hReading
      cases hReading
  | record s =>
      rw [hLine] at hReading
      obtain rfl := Option.some.inj hReading
      rfl
  | blank =>
      rw [hLine] at hReading
      obtain rfl := Option.some.inj hReading
      exact hSame _
  | skipped content =>
      rw [hLine] at hReading
      obtain rfl := Option.some.inj hReading
      exact hSame _

/-- A bad line decides, whatever comes after it. -/
theorem entries_of_bad {line : Bytes} {number : Nat} {e : Error} (h : Bad k policy number line e)
    (ls : List Bytes) : entries (readingsFrom k policy number (line :: ls)) = .error e := by
  rw [readingsFrom, readLine_of_bad h]
  rfl

/-- **The records of the lines are read, in order, if no line is bad.** -/
theorem records_iff {ls : List Bytes} {rs : List Record} (number : Nat) :
    Records k policy ls rs ↔
      ∃ es, entries (readingsFrom k policy number ls) = .ok es ∧ es.map Entry.record = rs := by
  refine ⟨fun h => ?_, ?_⟩
  · induction h generalizing number with
    | nil => exact ⟨[], rfl, rfl⟩
    | @cons line ls r rs hGood _ ih =>
        obtain ⟨es, hEntries, rfl⟩ := ih (number + 1)
        refine ⟨_, by rw [entries_of_good hGood, hEntries]; rfl, ?_⟩
        cases r <;> rfl
  · rintro ⟨es, hEntries, rfl⟩
    induction ls generalizing number es with
    | nil =>
        obtain rfl := Except.ok.inj hEntries
        exact .nil
    | cons line ls ih =>
        rcases good_or_bad k policy number line with ⟨r, hGood⟩ | ⟨e, hBad⟩
        · rw [entries_of_good hGood] at hEntries
          cases hRest : entries (readingsFrom k policy (number + 1) ls) with
          | error e =>
              rw [hRest] at hEntries
              cases hEntries
          | ok others =>
              rw [hRest] at hEntries
              obtain rfl := Except.ok.inj hEntries
              have hWhole := Records.cons hGood (ih (number + 1) others hRest)
              cases r <;> exact hWhole
        · rw [entries_of_bad hBad] at hEntries
          cases hEntries

/-- **The first bad line decides.** -/
theorem firstBad_iff {ls : List Bytes} {number : Nat} {e : Error} :
    FirstBad k policy number ls e ↔ entries (readingsFrom k policy number ls) = .error e := by
  refine ⟨fun h => ?_, fun h => ?_⟩
  · induction h with
    | here hBad => exact entries_of_bad hBad _
    | later hGood _ ih =>
        rw [entries_of_good hGood, ih]
        rfl
  · induction ls generalizing number with
    | nil => cases h
    | cons line ls ih =>
        rcases good_or_bad k policy number line with ⟨r, hGood⟩ | ⟨err, hBad⟩
        · rw [entries_of_good hGood] at h
          cases hRest : entries (readingsFrom k policy (number + 1) ls) with
          | error err =>
              rw [hRest] at h
              obtain rfl := Except.error.inj h
              exact .later hGood (ih hRest)
          | ok others =>
              rw [hRest] at h
              cases h
        · rw [entries_of_bad hBad] at h
          obtain rfl := Except.error.inj h
          exact .here hBad

end Automata.TransitionList
