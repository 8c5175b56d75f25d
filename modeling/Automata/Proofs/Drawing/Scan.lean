import Automata.Automaton.Drawing
import Automata.Proofs.Automaton.Order
import Automata.Proofs.Text.Numeral
import Mathlib.Data.List.Basic

/-! # Drawings are read back

A scanner goes through a text character by character. Outside quotes every character stands for
itself; between quotes a backslash escapes the character after it, and the first quote that is not
escaped ends the quoted text. Line breaks outside quotes end lines, and what a line states is read
from its lexemes.

Whatever characters are drawn, the scanner is outside quotes again after each line, since a label is
one character, escaped where it has to be (`scan_append_label`). So a drawing splits into the lines
that were written, and the quoted texts are the characters of the transitions (`read?_drawing`).
-/

namespace Automata

/-- The letter that stands for a symbol in a drawing. -/
def Symbol.letter : Symbol → Char
  | .char c => c
  | .epsilon => epsilonLetter

namespace Drawing

open Automaton (drawnFinal drawnInitial drawnTransition drawingHeader)
open Text (decimal)

/-! ### Scanning -/

/-- A character outside quotes, or a text between quotes without its escapes. -/
inductive Lexeme where
  | mark (c : Char)
  | quoted (t : Text)
deriving DecidableEq

/-- Where a scanner is: outside quotes, between quotes, or behind a backslash between quotes.
`read` is what it has read since the opening quote. -/
inductive Mode where
  | outside
  | inside (read : Text)
  | escaped (read : Text)

/-- The lexeme that a character completes, if any, and where the scanner is after it. -/
def Mode.step : Mode → Char → Option Lexeme × Mode
  | outside, c => if c = '\"' then (none, inside []) else (some (.mark c), outside)
  | inside read, c =>
      if c = '\"' then (some (.quoted read), outside)
      else if c = '\\' then (none, escaped read)
      else (none, inside (read ++ [c]))
  | escaped read, c => (none, inside (read ++ [c]))

/-- The lexemes of a text, which must not end between quotes. -/
def scan : Mode → Text → Option (List Lexeme)
  | .outside, [] => some []
  | _, [] => none
  | m, c :: rest => (scan (m.step c).2 rest).map ((m.step c).1.toList ++ ·)

def marks (t : Text) : List Lexeme := t.map .mark

/-! ### Statements -/

/-- What a line of a drawing states. -/
inductive Statement where
  /-- A state is drawn as a double circle. -/
  | circle (s : State)
  /-- An arrow leads from the start into a state. -/
  | start (s : State)
  /-- A labelled arrow leads from one state to another. -/
  | edge (source : State) (label : Text) (target : State)
  /-- The drawing ends. -/
  | close
deriving DecidableEq

/-- What every line but the last begins with. -/
def indent : Text := "    ".toList

/-- What stands between the two ends of an arrow. -/
def arrow : Text := " -> ".toList

def startName : Text := "start".toList

def circled : Text := " [shape=doublecircle]".toList

/-- What comes before the quotes of a label. -/
def labelled : Text := " [label=".toList

/-- What comes after a text at the front of lexemes. -/
def after? (t : Text) (l : List Lexeme) : Option (List Lexeme) := (marks t).isPrefixOf? l

/-- The longest run of digits at the front of lexemes, and what comes after it. -/
def digits : List Lexeme → Text × List Lexeme
  | .mark c :: rest =>
      if c.isDigit then (c :: (digits rest).1, (digits rest).2) else ([], .mark c :: rest)
  | l => ([], l)

/-- The number at the front of lexemes, and what comes after it. -/
def number? (l : List Lexeme) : Option (Nat × List Lexeme) :=
  (Text.digits? (digits l).1).map (·, (digits l).2)

/-- What the lexemes of a line state. -/
def Statement.read? (l : List Lexeme) : Option Statement :=
  if l = marks ['\x7d'] then some .close
  else do
    let line ← after? indent l
    match number? line with
    | none =>
        let (s, rest) ← number? (← after? (startName ++ arrow) line)
        if rest = [] then some (.start s) else none
    | some (source, rest) =>
        if rest = marks circled then some (.circle source)
        else
          let (target, rest) ← number? (← after? arrow rest)
          match ← after? labelled rest with
          | [.quoted label, .mark ']'] => some (.edge source label target)
          | _ => none

/-- The statements of a drawing, which come after its header. -/
def read? (t : Text) : Option (List Statement) := do
  let body ← drawingHeader.isPrefixOf? t
  let lexemes ← scan .outside body
  (lexemes.splitOn (.mark '\n')).mapM Statement.read?

/-! ### Lexemes of texts -/

theorem marks_append (s t : Text) : marks (s ++ t) = marks s ++ marks t := List.map_append

theorem mark_mem_marks {c : Char} {t : Text} : .mark c ∈ marks t ↔ c ∈ t := by
  rw [marks, List.mem_map]
  refine ⟨?_, fun h => ⟨c, h, rfl⟩⟩
  rintro ⟨d, hd, hEq⟩
  cases hEq
  exact hd

theorem scan_append_marks {t : Text} (h : '\"' ∉ t) (rest : Text) :
    scan .outside (t ++ rest) = (scan .outside rest).map (marks t ++ ·) := by
  induction t with
  | nil => exact Option.map_id'.symm
  | cons c t ih =>
      rw [List.mem_cons, not_or] at h
      rw [List.cons_append, scan, Mode.step, if_neg (Ne.symm h.1), ih h.2, Option.map_map]
      rfl

/-- **A label is scanned as the letter of its symbol**, and the scanner is between the same quotes
after it. -/
theorem scan_append_label (x : Symbol) (read rest : Text) :
    scan (.inside read) (x.label ++ rest) = scan (.inside (read ++ [x.letter])) rest := by
  have hPlain : ∀ c, ¬ (c = '\"' ∨ c = '\\') →
      scan (.inside read) (c :: rest) = scan (.inside (read ++ [c])) rest := fun c hc => by
    rw [not_or] at hc
    rw [scan, Mode.step, if_neg hc.1, if_neg hc.2]
    exact Option.map_id'
  cases x with
  | epsilon => exact hPlain epsilonLetter (by decide)
  | char c =>
      by_cases hc : c = '\"' ∨ c = '\\'
      · -- the backslash before the character is not part of the text
        rw [Symbol.label, if_pos hc, List.cons_append, scan, Mode.step, if_neg (by decide),
          if_pos rfl, List.singleton_append, scan, Mode.step, Option.map_map]
        exact Option.map_id'
      · rw [Symbol.label, if_neg hc]
        exact hPlain c hc

theorem not_mem_decimal {c : Char} (hc : c.isDigit = false) (n : Nat) : c ∉ decimal n := fun h => by
  rw [Text.isDigit_of_mem_decimal h] at hc
  cases hc

theorem after?_append (t : Text) (l : List Lexeme) : after? t (marks t ++ l) = some l :=
  List.isPrefixOf?_eq_some_iff_append_eq.mpr rfl

theorem digits_append {t : Text} {l : List Lexeme} (ht : ∀ c ∈ t, c.isDigit = true)
    (hl : digits l = ([], l)) : digits (marks t ++ l) = (t, l) := by
  induction t with
  | nil => exact hl
  | cons c t ih =>
      obtain ⟨hc, ht⟩ := List.forall_mem_cons.mp ht
      rw [marks, List.map_cons, List.cons_append, digits, if_pos hc]
      rw [show List.map Lexeme.mark t = marks t from rfl, ih ht]

theorem number?_append (n : Nat) {l : List Lexeme} (hl : digits l = ([], l)) :
    number? (marks (decimal n) ++ l) = some (n, l) := by
  have hDigits : ∀ c ∈ decimal n, c.isDigit = true := fun _ => Text.isDigit_of_mem_decimal
  have hRead : Text.digits? (decimal n) = some n :=
    Text.digits?_eq_some_iff.mpr ⟨Text.decimal_ne_nil n, hDigits, Nat.ofDigitChars_ten_toDigits⟩
  rw [number?, digits_append hDigits hl, hRead]
  rfl

/-! ### Lexemes of statements -/

def Statement.lexemes : Statement → List Lexeme
  | circle s => marks (indent ++ decimal s ++ circled)
  | start s => marks (indent ++ startName ++ arrow ++ decimal s)
  | edge source label target =>
      marks (indent ++ decimal source ++ arrow ++ decimal target ++ labelled) ++
        [.quoted label, .mark ']']
  | close => marks ['\x7d']

/-- The lexemes of a line: a statement and the line break after it. -/
def Statement.line (st : Statement) : List Lexeme := st.lexemes ++ [.mark '\n']

/-- **What a statement is read from is the statement.** -/
theorem Statement.read?_lexemes (st : Statement) : read? st.lexemes = some st := by
  -- a line that begins with a blank does not end the drawing
  have hOpen : ∀ l, ¬ marks indent ++ l = marks ['\x7d'] := fun l h => by cases h
  cases st with
  | close => rfl
  | start s =>
      have hLine : lexemes (start s) =
          marks indent ++ (marks (startName ++ arrow) ++ (marks (decimal s) ++ [])) := by
        simp only [lexemes, marks_append, List.append_assoc, List.append_nil]
      have hNumber : number? (marks (startName ++ arrow) ++ (marks (decimal s) ++ [])) = none := rfl
      rw [hLine, read?, if_neg (hOpen _), after?_append]
      simp only [Option.bind_eq_bind, Option.bind_some, hNumber, after?_append,
        number?_append s (l := []) rfl]
      rfl
  | circle s =>
      have hLine : lexemes (circle s) = marks indent ++ (marks (decimal s) ++ marks circled) := by
        simp only [lexemes, marks_append, List.append_assoc]
      rw [hLine, read?, if_neg (hOpen _), after?_append]
      simp only [Option.bind_eq_bind, Option.bind_some, number?_append s (l := marks circled) rfl]
      rfl
  | edge source label target =>
      have hLine : lexemes (edge source label target) = marks indent ++ (marks (decimal source) ++
          (marks arrow ++ (marks (decimal target) ++
            (marks labelled ++ [.quoted label, .mark ']'])))) := by
        simp only [lexemes, marks_append, List.append_assoc]
      have hNotCircled : ∀ l, ¬ marks arrow ++ l = marks circled := fun l h => by cases h
      rw [hLine, read?, if_neg (hOpen _), after?_append]
      simp only [Option.bind_eq_bind, Option.bind_some]
      rw [number?_append source rfl]
      simp only [if_neg (hNotCircled _), after?_append, Option.bind_some]
      rw [number?_append target rfl]
      simp only [Option.bind_some, after?_append]

theorem Statement.break_not_mem_lexemes (st : Statement) : .mark '\n' ∉ st.lexemes := by
  have hDecimal : ∀ n, '\n' ∉ decimal n := not_mem_decimal (by decide)
  have hIndent : '\n' ∉ indent := by decide
  have hArrow : '\n' ∉ arrow := by decide
  cases st with
  | close => decide
  | start s =>
      have hStart : '\n' ∉ startName := by decide
      simp [lexemes, mark_mem_marks, hDecimal, hIndent, hArrow, hStart]
  | circle s =>
      have hCircled : '\n' ∉ circled := by decide
      simp [lexemes, mark_mem_marks, hDecimal, hIndent, hCircled]
  | edge source label target =>
      have hLabelled : '\n' ∉ labelled := by decide
      simp [lexemes, mark_mem_marks, hDecimal, hIndent, hArrow, hLabelled]

theorem splitOn_lines (sts : List Statement) (last : Statement) :
    (sts.flatMap Statement.line ++ last.lexemes).splitOn (.mark '\n') =
      (sts ++ [last]).map Statement.lexemes := by
  induction sts with
  | nil => exact List.splitOn_eq_singleton last.break_not_mem_lexemes
  | cons st sts ih =>
      rw [List.flatMap_cons, Statement.line, List.append_assoc, List.append_assoc,
        List.singleton_append, List.splitOn_append_cons_self_of_not_mem st.break_not_mem_lexemes,
        ih]
      rfl

theorem mapM_read? (sts : List Statement) :
    (sts.map Statement.lexemes).mapM Statement.read? = some sts := by
  induction sts with
  | nil => rfl
  | cons st sts ih =>
      rw [List.map_cons, List.mapM_cons, st.read?_lexemes, ih]
      rfl

/-! ### Drawings -/

def edgeOf (t : Transition) : Statement := .edge t.source [t.symbol.letter] t.target

theorem scan_append_final (s : State) (rest : Text) :
    scan .outside (drawnFinal s ++ rest) =
      (scan .outside rest).map ((Statement.circle s).line ++ ·) := by
  have hText : drawnFinal s = indent ++ decimal s ++ circled ++ ['\n'] := by
    unfold drawnFinal
    rw [List.append_assoc (indent ++ decimal s)]
    rfl
  have hQuote : '\"' ∉ indent ++ decimal s ++ circled ++ ['\n'] := by
    have hDecimal := not_mem_decimal (c := '\"') (by decide) s
    have hIndent : '\"' ∉ indent := by decide
    have hCircled : '\"' ∉ circled := by decide
    simp [hDecimal, hIndent, hCircled]
  rw [hText, scan_append_marks hQuote, marks_append]
  rfl

theorem scan_append_initial (s : State) (rest : Text) :
    scan .outside (drawnInitial s ++ rest) =
      (scan .outside rest).map ((Statement.start s).line ++ ·) := by
  have hText : drawnInitial s = indent ++ startName ++ arrow ++ decimal s ++ ['\n'] := rfl
  have hQuote : '\"' ∉ indent ++ startName ++ arrow ++ decimal s ++ ['\n'] := by
    have hDecimal := not_mem_decimal (c := '\"') (by decide) s
    have hIndent : '\"' ∉ indent := by decide
    have hStart : '\"' ∉ startName := by decide
    have hArrow : '\"' ∉ arrow := by decide
    simp [hDecimal, hIndent, hStart, hArrow]
  rw [hText, scan_append_marks hQuote, marks_append]
  rfl

/-- **The scanner leaves the line of a transition outside quotes.** -/
theorem scan_append_transition (t : Transition) (rest : Text) :
    scan .outside (drawnTransition t ++ rest) = (scan .outside rest).map ((edgeOf t).line ++ ·) := by
  generalize hFront : indent ++ decimal t.source ++ arrow ++ decimal t.target ++ labelled = front
  have hQuote : '\"' ∉ front := by
    have hDecimal := not_mem_decimal (c := '\"') (by decide)
    have hIndent : '\"' ∉ indent := by decide
    have hArrow : '\"' ∉ arrow := by decide
    have hLabelled : '\"' ∉ labelled := by decide
    simp [← hFront, hDecimal, hIndent, hArrow, hLabelled]
  have hText : drawnTransition t ++ rest =
      front ++ '\"' :: (t.symbol.label ++ '\"' :: ([']', '\n'] ++ rest)) := by
    have hOpen : " [label=\"".toList = labelled ++ ['\"'] := rfl
    have hClose : "\"]\n".toList = '\"' :: [']', '\n'] := rfl
    unfold drawnTransition
    rw [hOpen, hClose, ← hFront, indent, arrow]
    simp only [List.append_assoc, List.cons_append, List.nil_append]
  have hLine : (edgeOf t).line =
      marks front ++ .quoted [t.symbol.letter] :: marks [']', '\n'] := by
    rw [Statement.line, edgeOf, Statement.lexemes, hFront, List.append_assoc]
    rfl
  rw [hText, hLine, scan_append_marks hQuote, scan, Mode.step, if_pos rfl, scan_append_label, scan,
    Mode.step, if_pos rfl, scan_append_marks (by decide)]
  simp only [Option.map_map]
  refine congrArg (Option.map · _) (funext fun l => ?_)
  simp

theorem scan_append_flatMap {α : Type} {f : α → Text} {g : α → Statement}
    (h : ∀ a rest, scan .outside (f a ++ rest) = (scan .outside rest).map ((g a).line ++ ·))
    (as : List α) (rest : Text) :
    scan .outside (as.flatMap f ++ rest) =
      (scan .outside rest).map ((as.map g).flatMap Statement.line ++ ·) := by
  induction as with
  | nil => exact Option.map_id'.symm
  | cons a as ih =>
      rw [List.flatMap_cons, List.append_assoc, h, ih, Option.map_map, List.map_cons,
        List.flatMap_cons]
      refine congrArg (Option.map · _) (funext fun l => ?_)
      exact (List.append_assoc ..).symm

variable {k : Kind}

def statements (a : Automaton k) : List Statement :=
  a.finals.toList.map .circle ++ a.initial.toList.map .start ++ a.transitions.map edgeOf

theorem scan_drawingBody (a : Automaton k) :
    scan .outside (a.drawingBody ++ ['\x7d']) =
      some ((statements a).flatMap Statement.line ++ Statement.close.lexemes) := by
  rw [Automaton.drawingBody, List.append_assoc, List.append_assoc,
    scan_append_flatMap scan_append_final, scan_append_flatMap scan_append_initial,
    scan_append_flatMap scan_append_transition, statements]
  simp only [List.flatMap_append, List.append_assoc]
  rfl

theorem read?_eq (a : Automaton k) : read? a.drawing = some (statements a ++ [.close]) := by
  have hHeader : drawingHeader.isPrefixOf? a.drawing = some (a.drawingBody ++ ['\x7d']) := by
    rw [Automaton.drawing, List.append_assoc]
    exact List.isPrefixOf?_eq_some_iff_append_eq.mpr rfl
  rw [read?, hHeader, Option.bind_eq_bind, Option.bind_some, scan_drawingBody, Option.bind_eq_bind,
    Option.bind_some, splitOn_lines, mapM_read?]

/-- **A drawing states what it draws.** After the header the text splits into a double circle for
each final state, in ascending order, an arrow from the start if there is an initial state, an arrow
for each transition, by source, symbol and target, labelled with the character of the transition or
the letter of the empty move, and the closing brace, whatever characters the transitions carry. -/
theorem read?_drawing (a : Automaton k) :
    read? a.drawing = some (a.finals.toList.map .circle ++ a.initial.toList.map .start ++
      a.transitions.map (fun t => .edge t.source [t.symbol.letter] t.target) ++ [.close]) ∧
    a.finals.toList.Pairwise (· < ·) ∧ a.transitions.Pairwise Transition.Before :=
  ⟨read?_eq a, a.finals.ascending, a.pairwise_transitions⟩

end Drawing

end Automata
