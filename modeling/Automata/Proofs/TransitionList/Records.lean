import Automata.Proofs.Automaton.Edits
import Automata.Proofs.Text.Numeral
import Automata.Proofs.Text.Tokens
import Automata.Proofs.TransitionList.Lines
import Automata.TransitionList.Reader
import Automata.TransitionList.Writer

/-! # Records read back from their lines

A record is written as one line: numerals and a symbol with blanks between them. When its states are
within the limit and its symbol is not blank, the line is read back as the same record, whatever is
to be done with malformed lines (`readLine_text`), and so is a whole list of records
(`entries_of_records`). Whatever else is read, no list gives an empty move to a deterministic
automaton (`allowed_of_entries`).
-/

namespace Automata.TransitionList

open Text (decimal)

variable {k : Kind}

namespace Record

def text : Record → Text
  | final s => decimal s
  | transition t => transitionLine t

/-- Whether a list for an automaton of a kind can hold the record: names of states are within the
limit, and the symbol is neither blank nor an empty move of a deterministic automaton. -/
def Writable (k : Kind) : Record → Prop
  | final s => s ≤ stateLimit
  | transition t => t.source ≤ stateLimit ∧ t.target ≤ stateLimit ∧
      (∀ c, t.symbol = .char c → isBlank c = false) ∧ (k = .dfa → t.symbol ≠ .epsilon)

end Record

theorem state?_decimal {s : State} (h : s ≤ stateLimit) (line : Nat) :
    state? line (decimal s) = .ok s := by
  rw [state?, Text.numeral?_decimal h]

/-- The text of a symbol names the symbol: the token of the empty move is no single character. -/
theorem symbol?_text (x : Symbol) (line : Nat) : symbol? line x.text = .ok x := by
  cases x with
  | char c =>
      have hLength : Symbol.epsilonToken.length = 5 := rfl
      have hToken : ¬ [c] = Symbol.epsilonToken := by
        intro hEq
        rw [← hEq, List.length_singleton] at hLength
        omega
      show (if [c] = Symbol.epsilonToken then _ else Except.ok (Symbol.char c)) =
        Except.ok (Symbol.char c)
      rw [if_neg hToken]
  | epsilon => exact if_pos rfl

/-! ### Tokens of a line -/

theorem isBlank_of_mem_decimal {n : Nat} {c : Char} (h : c ∈ decimal n) : isBlank c = false :=
  Text.isBlank_eq_false_of_isDigit (Text.isDigit_of_mem_decimal h)

/-- The text of a symbol has no blank unless the symbol is one. -/
theorem isBlank_of_mem_symbol {x : Symbol} (h : ∀ c, x = .char c → isBlank c = false) {d : Char}
    (hd : d ∈ x.text) : isBlank d = false := by
  cases x with
  | char c =>
      rw [List.mem_singleton.mp hd]
      exact h c rfl
  | epsilon =>
      have hAll : Symbol.epsilonToken.all (fun c => !isBlank c) = true := by decide
      have hBlank := List.all_eq_true.mp hAll d hd
      rw [Bool.not_eq_true'] at hBlank
      exact hBlank

theorem tokens_decimal (n : Nat) : (decimal n).tokens = [decimal n] :=
  Text.tokens_eq_singleton (Text.decimal_ne_nil n) fun _ => isBlank_of_mem_decimal

theorem tokens_symbol {x : Symbol} (h : ∀ c, x = .char c → isBlank c = false) :
    x.text.tokens = [x.text] := by
  have hNonempty : x.text ≠ [] := by
    cases x with
    | char c => exact List.cons_ne_nil _ _
    | epsilon => exact List.cons_ne_nil _ _
  exact Text.tokens_eq_singleton hNonempty fun _ => isBlank_of_mem_symbol h

theorem tokens_transitionLine {t : Transition}
    (h : ∀ c, t.symbol = .char c → isBlank c = false) :
    (transitionLine t).tokens = [decimal t.source, decimal t.target, t.symbol.text] := by
  have hBlank : isBlank ' ' = true := by decide
  rw [transitionLine, Text.tokens_append_blank hBlank, Text.tokens_append_blank hBlank,
    tokens_decimal, tokens_decimal, tokens_symbol h]
  rfl

/-! ### Reading a line -/

theorem transition?_text {t : Transition} (h : (Record.transition t).Writable k) (line : Nat) :
    transition? k line (decimal t.source) (decimal t.target) t.symbol.text =
      .ok (.transition t) := by
  obtain ⟨hSource, hTarget, _, hEps⟩ := h
  have hNoEmpty : ¬ (k = .dfa ∧ t.symbol = .epsilon) := fun hBoth => hEps hBoth.1 hBoth.2
  simp only [transition?, state?_decimal hSource, state?_decimal hTarget, symbol?_text]
  show (if k = .dfa ∧ t.symbol = .epsilon then _ else _) = _
  rw [if_neg hNoEmpty]
  rfl

/-- **The line of a record is read back as the record.** -/
theorem readText_text {r : Record} (h : r.Writable k) (policy : Policy) (line : Nat) :
    readText k policy line r.text = .record r := by
  cases r with
  | final s =>
      have hState : s ≤ stateLimit := h
      rw [Record.text, readText, tokens_decimal]
      simp only [state?_decimal hState]
      rfl
  | transition t =>
      rw [Record.text, readText, tokens_transitionLine h.2.2.1]
      simp only [transition?_text h]
      rfl

theorem readLine_text {r : Record} (h : r.Writable k) (policy : Policy) (line : Nat) :
    readLine k policy line (Utf8.encode r.text) = .record r := by
  rw [readLine, Utf8.decode?_encode]
  exact readText_text h policy line

/-! ### Reading a list -/

theorem not_mem_of_isBlank {t : Text} {c : Char} (hc : isBlank c = true)
    (h : ∀ d ∈ t, isBlank d = false) : c ∉ t := by
  intro hMem
  have hBlank := h c hMem
  rw [hc] at hBlank
  exact Bool.false_ne_true hBlank.symm

/-- A line has no line break and no carriage return, since it has no blank but the space. -/
theorem not_mem_text {r : Record} (h : r.Writable k) {c : Char} (hc : isBlank c = true)
    (hSpace : c ≠ ' ') : c ∉ r.text := by
  have hDecimal : ∀ n, c ∉ decimal n := fun n =>
    not_mem_of_isBlank hc fun _ => isBlank_of_mem_decimal
  cases r with
  | final s => exact hDecimal s
  | transition t =>
      have hSymbol : c ∉ t.symbol.text :=
        not_mem_of_isBlank hc fun _ => isBlank_of_mem_symbol h.2.2.1
      rw [Record.text, transitionLine]
      simp only [List.mem_append, List.mem_cons, hDecimal, hSpace, hSymbol, or_self,
        not_false_eq_true]

/-- Records with the numbers of their lines, from `line` on. -/
def entriesFrom (line : Nat) : List Record → List Entry
  | [] => []
  | r :: rs => ⟨line, r⟩ :: entriesFrom (line + 1) rs

theorem map_record_entriesFrom (line : Nat) (rs : List Record) :
    (entriesFrom line rs).map Entry.record = rs := by
  induction rs generalizing line with
  | nil => rfl
  | cons r rs ih => rw [entriesFrom, List.map_cons, ih]

theorem entries_readingsFrom {rs : List Record} (h : ∀ r ∈ rs, r.Writable k) (policy : Policy)
    (line : Nat) :
    entries (readingsFrom k policy line (rs.map fun r => Utf8.encode r.text)) =
      .ok (entriesFrom line rs) := by
  induction rs generalizing line with
  | nil => rfl
  | cons r rs ih =>
      have hRest := ih (fun s hs => h s (List.mem_cons_of_mem r hs)) (line + 1)
      rw [List.map_cons, readingsFrom, readLine_text (h r (List.mem_cons_self ..)), entries]
      rw [hRest]
      rfl

/-- **Records written line by line are read back in order.** -/
theorem entries_of_records {rs : List Record} (h : ∀ r ∈ rs, r.Writable k) (policy : Policy) :
    entries (readings k policy (Utf8.encode (Text.unlines (rs.map Record.text)))) =
      .ok (entriesFrom 1 rs) := by
  have hLines : lines (Utf8.encode (Text.unlines (rs.map Record.text))) =
      rs.map fun r => Utf8.encode r.text := by
    rw [lines_encode_unlines, List.map_map]
    · rfl
    · intro t ht
      obtain ⟨r, hr, rfl⟩ := List.mem_map.mp ht
      exact ⟨not_mem_text (h r hr) (by decide) (by decide),
        not_mem_text (h r hr) (by decide) (by decide)⟩
  rw [readings, hLines]
  exact entries_readingsFrom h policy 1

/-! ### What can be read -/

namespace Record

/-- Whether the record gives no empty move to a deterministic automaton. -/
def Allowed (k : Kind) (r : Record) : Prop :=
  ∀ t, r = .transition t → k = .dfa → t.symbol ≠ .epsilon

end Record

theorem ofExcept_eq_record {x : Except Error Record} {r : Record}
    (h : Reading.ofExcept x = .record r) : x = .ok r := by
  cases x with
  | error e => cases h
  | ok s => rw [Reading.record.inj h]

theorem allowed_of_transition? {line : Nat} {source target symbol : Text} {r : Record}
    (h : transition? k line source target symbol = .ok r) : r.Allowed k := by
  obtain ⟨s, _, h⟩ := bind_eq_ok_iff.mp h
  obtain ⟨t, _, h⟩ := bind_eq_ok_iff.mp h
  obtain ⟨x, _, h⟩ := bind_eq_ok_iff.mp h
  by_cases hBoth : k = .dfa ∧ x = .epsilon
  · rw [if_pos hBoth] at h
    cases h
  · rw [if_neg hBoth] at h
    rintro u hEq hKind hEps
    obtain rfl := Except.ok.inj h
    obtain rfl := Record.transition.inj hEq
    exact hBoth ⟨hKind, hEps⟩

theorem allowed_of_readText {policy : Policy} {line : Nat} {content : Text} {r : Record}
    (h : readText k policy line content = .record r) : r.Allowed k := by
  rw [readText] at h
  split at h
  · cases h
  · have hState := ofExcept_eq_record h
    rintro t rfl
    cases hToken : state? line _ with
    | error e => rw [hToken] at hState; cases hState
    | ok s => rw [hToken] at hState; cases hState
  · exact allowed_of_transition? (ofExcept_eq_record h)
  · cases policy with
    | strict => cases h
    | lenient => cases h

theorem allowed_of_readLine {policy : Policy} {line : Nat} {bytes : Bytes} {r : Record}
    (h : readLine k policy line bytes = .record r) : r.Allowed k := by
  rw [readLine] at h
  split at h
  · exact allowed_of_readText h
  · cases h

theorem exists_reading_of_entries {rs : List (Nat × Reading)} {es : List Entry}
    (h : entries rs = .ok es) {e : Entry} (he : e ∈ es) : (e.line, .record e.record) ∈ rs := by
  induction rs generalizing es with
  | nil =>
      obtain rfl := Except.ok.inj h
      exact absurd he List.not_mem_nil
  | cons p rs ih =>
      obtain ⟨line, reading⟩ := p
      cases reading with
      | bad err => cases h
      | blank => exact List.mem_cons_of_mem _ (ih h he)
      | skipped content => exact List.mem_cons_of_mem _ (ih h he)
      | record r =>
          cases hRest : entries rs with
          | error err =>
              rw [entries, hRest] at h
              cases h
          | ok rest =>
              rw [entries, hRest] at h
              obtain rfl := Except.ok.inj h
              rcases List.mem_cons.mp he with rfl | he
              · exact List.mem_cons_self ..
              · exact List.mem_cons_of_mem _ (ih hRest he)

theorem exists_line_of_readings {policy : Policy} {line : Nat} {ls : List Bytes}
    {p : Nat × Reading} (h : p ∈ readingsFrom k policy line ls) :
    ∃ i bytes, ls[i]? = some bytes ∧ (line + i, readLine k policy (line + i) bytes) = p := by
  induction ls generalizing line with
  | nil => exact absurd h List.not_mem_nil
  | cons bytes ls ih =>
      rcases List.mem_cons.mp h with rfl | h
      · exact ⟨0, bytes, rfl, rfl⟩
      · obtain ⟨i, content, hLine, rfl⟩ := ih h
        have hNumber : line + (i + 1) = line + 1 + i := by omega
        exact ⟨i + 1, content, hLine, by rw [hNumber]⟩

/-- **No empty move for a deterministic automaton is read.** -/
theorem allowed_of_entries {policy : Policy} {bytes : Bytes} {es : List Entry}
    (h : entries (readings k policy bytes) = .ok es) {e : Entry} (he : e ∈ es) :
    e.record.Allowed k := by
  obtain ⟨_, _, _, hLine⟩ := exists_line_of_readings (exists_reading_of_entries h he)
  exact allowed_of_readLine (Prod.mk.inj hLine).2

end Automata.TransitionList
