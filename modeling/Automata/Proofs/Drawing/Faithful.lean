import Automata.Proofs.Automaton.Obtainable
import Automata.Proofs.Drawing.Scan

/-! # What drawings tell apart

A drawing is read back as the statements that draw it, so drawings are equal when the statements
are (`drawing_eq_iff`). The statements name the initial state, the final states and, for every
transition, its two states and the letter of its symbol. The letter tells all symbols apart but two:
the empty move is drawn like a transition on the letter epsilon (`eq_or_of_letter_eq`). So that is
all that a drawing leaves open (`drawing_faithful`).
-/

namespace Automata

theorem Symbol.eq_or_of_letter_eq {x y : Symbol} (h : x.letter = y.letter) :
    x = y ∨ x = .char epsilonLetter ∧ y = .epsilon ∨ x = .epsilon ∧ y = .char epsilonLetter := by
  cases x with
  | char c =>
      cases y with
      | char d => exact Or.inl (congrArg Symbol.char h)
      | epsilon => exact Or.inr (Or.inl ⟨congrArg Symbol.char h, rfl⟩)
  | epsilon =>
      cases y with
      | char d => exact Or.inr (Or.inr ⟨rfl, congrArg Symbol.char h.symm⟩)
      | epsilon => exact Or.inl rfl

theorem Symbol.label_letter (x : Symbol) : (char x.letter).label = x.label := by
  cases x with
  | char c => rfl
  | epsilon => decide

namespace Drawing

open Automaton (drawnTransition)

variable {k : Kind} {a b : Automaton k}

/-! ### Statements -/

def Statement.circled? : Statement → Option State
  | circle s => some s
  | _ => none

def Statement.started? : Statement → Option State
  | start s => some s
  | _ => none

def Statement.edge? : Statement → Option Statement
  | edge p label q => some (edge p label q)
  | _ => none

theorem filterMap_circled? (a : Automaton k) :
    (statements a).filterMap Statement.circled? = a.finals.toList := by
  simp [statements, List.filterMap_map, Function.comp_def, Statement.circled?, edgeOf]

theorem filterMap_started? (a : Automaton k) :
    (statements a).filterMap Statement.started? = a.initial.toList := by
  simp [statements, List.filterMap_map, Function.comp_def, Statement.started?, edgeOf]

theorem filterMap_edge? (a : Automaton k) :
    (statements a).filterMap Statement.edge? = a.transitions.map edgeOf := by
  simp [statements, List.filterMap_map, Function.comp_def, Statement.edge?, edgeOf]

theorem drawnTransition_congr {t u : Transition} (h : edgeOf t = edgeOf u) :
    drawnTransition t = drawnTransition u := by
  obtain ⟨p, x, q⟩ := t
  obtain ⟨p', y, q'⟩ := u
  obtain ⟨rfl, hLetter, rfl⟩ := Statement.edge.inj h
  unfold drawnTransition
  rw [← x.label_letter, ← y.label_letter, List.singleton_inj.mp hLetter]

theorem flatMap_drawnTransition_congr {ts us : List Transition}
    (h : ts.map edgeOf = us.map edgeOf) : ts.flatMap drawnTransition = us.flatMap drawnTransition := by
  induction ts generalizing us with
  | nil => rw [List.map_eq_nil_iff.mp h.symm]
  | cons t ts ih =>
      obtain ⟨u, us, rfl, hHead, hTail⟩ := List.map_eq_cons_iff.mp h.symm
      rw [List.flatMap_cons, List.flatMap_cons, drawnTransition_congr hHead.symm, ih hTail.symm]

theorem edgeOf_eq_of_drawnTransition_eq {t u : Transition}
    (h : drawnTransition t = drawnTransition u) : edgeOf t = edgeOf u := by
  have hScan : ∀ v, scan .outside (drawnTransition v) = some ((edgeOf v).line) := fun v => by
    have hLine := scan_append_transition v []
    rw [List.append_nil] at hLine
    rw [hLine, scan, Option.map_some, List.append_nil]
  have hLines := congrArg (scan .outside) h
  rw [hScan, hScan, Option.some.injEq, Statement.line, Statement.line,
    List.append_cancel_right_eq] at hLines
  have hRead := congrArg Statement.read? hLines
  rwa [Statement.read?_lexemes, Statement.read?_lexemes, Option.some.injEq] at hRead

/-- **Automata are drawn alike exactly when they have the same initial state and final states, and
in order the same arrows with the same letters.** -/
theorem drawing_eq_iff : a.drawing = b.drawing ↔ a.initial = b.initial ∧ a.finals = b.finals ∧
    a.transitions.map edgeOf = b.transitions.map edgeOf := by
  refine ⟨fun h => ?_, fun ⟨hInitial, hFinals, hEdges⟩ => ?_⟩
  · have hRead := congrArg read? h
    rw [read?_eq, read?_eq, Option.some.injEq, List.append_cancel_right_eq] at hRead
    refine ⟨?_, OrderedSet.eq_of_toList_eq ?_, ?_⟩
    · have hStart := congrArg (List.filterMap Statement.started?) hRead
      rw [filterMap_started?, filterMap_started?] at hStart
      rw [← Option.head?_toList (o := a.initial), hStart, Option.head?_toList]
    · rw [← filterMap_circled?, hRead, filterMap_circled?]
    · rw [← filterMap_edge?, hRead, filterMap_edge?]
  · rw [Automaton.drawing, Automaton.drawing, Automaton.drawingBody, Automaton.drawingBody,
      hInitial, hFinals, flatMap_drawnTransition_congr hEdges]

/-! ### Transitions -/

theorem exists_letter_of_mem (h : a.transitions.map edgeOf = b.transitions.map edgeOf)
    {p q : State} {x : Symbol} (hMem : ⟨p, x, q⟩ ∈ a.transitions) :
    ∃ y, ⟨p, y, q⟩ ∈ b.transitions ∧ x.letter = y.letter := by
  have hEdge : edgeOf ⟨p, x, q⟩ ∈ b.transitions.map edgeOf := h ▸ List.mem_map_of_mem hMem
  obtain ⟨⟨p', y, q'⟩, hOther, hEq⟩ := List.mem_map.mp hEdge
  obtain ⟨rfl, hLetter, rfl⟩ := Statement.edge.inj hEq
  exact ⟨y, hOther, (List.singleton_inj.mp hLetter).symm⟩

/-- Whether no transition can be taken for another in the drawings: there is no empty move in them,
or no transition on the letter epsilon. -/
def Unmistakable (a b : Automaton k) : Prop :=
  (¬ a.Uses .epsilon ∧ ¬ b.Uses .epsilon) ∨
    (¬ a.Uses (.char epsilonLetter) ∧ ¬ b.Uses (.char epsilonLetter))

theorem Unmistakable.symm (h : Unmistakable a b) : Unmistakable b a := h.imp And.symm And.symm

/-- Where nothing can be mistaken, what is drawn alike has the same transitions. -/
theorem Unmistakable.mem_of_mem (hUnmistakable : Unmistakable a b)
    (h : a.transitions.map edgeOf = b.transitions.map edgeOf) {t : Transition}
    (hMem : t ∈ a.transitions) : t ∈ b.transitions := by
  obtain ⟨p, x, q⟩ := t
  obtain ⟨y, hOther, hLetter⟩ := exists_letter_of_mem h hMem
  rcases Symbol.eq_or_of_letter_eq hLetter with rfl | ⟨rfl, rfl⟩ | ⟨rfl, rfl⟩
  · exact hOther
  · rcases hUnmistakable with hEmpty | hLetter
    · exact absurd ⟨p, q, hOther⟩ hEmpty.2
    · exact absurd ⟨p, q, hMem⟩ hLetter.1
  · rcases hUnmistakable with hEmpty | hLetter
    · exact absurd ⟨p, q, hMem⟩ hEmpty.1
    · exact absurd ⟨p, q, hOther⟩ hLetter.2

/-- A transition on another character is drawn like no other transition. -/
theorem mem_of_mem_of_ne (h : a.transitions.map edgeOf = b.transitions.map edgeOf) {p q : State}
    {c : Char} (hc : c ≠ epsilonLetter) (hMem : ⟨p, .char c, q⟩ ∈ a.transitions) :
    ⟨p, .char c, q⟩ ∈ b.transitions := by
  obtain ⟨y, hOther, hLetter⟩ := exists_letter_of_mem h hMem
  rcases Symbol.eq_or_of_letter_eq hLetter with rfl | ⟨hEq, _⟩ | ⟨hEq, _⟩
  · exact hOther
  · exact absurd (Symbol.char.inj hEq) hc
  · cases hEq

/-- Deterministic automata have no empty move that could be mistaken. -/
theorem unmistakable_of_deterministic (ha : a.WellFormed) (hb : b.WellFormed) (hKind : k = .dfa) :
    Unmistakable a b :=
  Or.inl ⟨fun ⟨_, _, hMem⟩ => ha.noEmpty hKind _ hMem rfl,
    fun ⟨_, _, hMem⟩ => hb.noEmpty hKind _ hMem rfl⟩

/-- **A drawing shows everything but whether the letter epsilon is an empty move.** Automata that
are drawn alike have the same initial state and final states and, in order, the same arrows with the
same letters. They have the same transitions on all characters but the letter epsilon, and the same
transitions altogether if they are deterministic or nothing can be mistaken. An empty move is drawn
like the transition on the letter epsilon between its states, and like that on no other character or
between other states. -/
theorem drawing_faithful (ha : Obtainable a) (hb : Obtainable b) :
    (a.drawing = b.drawing ↔ a.initial = b.initial ∧ a.finals = b.finals ∧
      a.transitions.map edgeOf = b.transitions.map edgeOf) ∧
    (a.drawing = b.drawing →
      (∀ p c q, c ≠ epsilonLetter →
        (⟨p, .char c, q⟩ ∈ a.transitions ↔ ⟨p, .char c, q⟩ ∈ b.transitions)) ∧
      (k = .dfa ∨ Unmistakable a b → ∀ t, t ∈ a.transitions ↔ t ∈ b.transitions)) ∧
    ∀ p q p' c q', drawnTransition ⟨p, .epsilon, q⟩ = drawnTransition ⟨p', .char c, q'⟩ ↔
      p = p' ∧ q = q' ∧ c = epsilonLetter := by
  refine ⟨drawing_eq_iff, fun h => ?_, fun p q p' c q' => ⟨fun h => ?_, ?_⟩⟩
  · obtain ⟨_, _, hEdges⟩ := drawing_eq_iff.mp h
    refine ⟨fun p c q hc => ?_, fun hClear t => ?_⟩
    · exact ⟨mem_of_mem_of_ne hEdges hc, mem_of_mem_of_ne hEdges.symm hc⟩
    · have hUnmistakable : Unmistakable a b :=
        hClear.elim (unmistakable_of_deterministic ha.wellFormed.1 hb.wellFormed.1) id
      exact ⟨hUnmistakable.mem_of_mem hEdges, hUnmistakable.symm.mem_of_mem hEdges.symm⟩
  · obtain ⟨rfl, hLetter, rfl⟩ := Statement.edge.inj (edgeOf_eq_of_drawnTransition_eq h)
    exact ⟨rfl, rfl, (List.singleton_inj.mp hLetter).symm⟩
  · rintro ⟨rfl, rfl, rfl⟩
    exact drawnTransition_congr rfl

/-- A transition on the letter epsilon, beside one on a quote. -/
def lettered : Nfa :=
  Edit.attemptAll (.withStates .nfa 2)
    [.markInitial 0, .markFinal 1, .addTransition 0 'ε' 1, .addTransition 0 '\"' 1]

/-- An empty move in the place of that transition. -/
def silent : Nfa :=
  Edit.attemptAll (.withStates .nfa 2)
    [.addEpsilon 0 1, .addTransition 0 '\"' 1, .markFinal 1, .markInitial 0]

theorem drawing_faithful_quote :
    Obtainable lettered ∧ Obtainable silent ∧ lettered.drawing = silent.drawing ∧
      (⟨0, .char '\"', 1⟩ ∈ lettered.transitions ↔ ⟨0, .char '\"', 1⟩ ∈ silent.transitions) := by
  have hLettered : Obtainable lettered :=
    Obtainable.attemptAll (.withStates .nfa 2 (by decide)) (by decide)
  have hSilent : Obtainable silent :=
    Obtainable.attemptAll (.withStates .nfa 2 (by decide)) (by decide)
  obtain ⟨hDrawing, hTransitions, _⟩ := drawing_faithful hLettered hSilent
  have hAlike : lettered.drawing = silent.drawing :=
    hDrawing.mpr ⟨by decide, by decide, by decide⟩
  exact ⟨hLettered, hSilent, hAlike, (hTransitions hAlike).1 0 '\"' 1 (by decide)⟩

/-- Two automata with different transitions are drawn alike. -/
theorem drawing_hides_empty_move :
    Obtainable lettered ∧ Obtainable silent ∧ lettered.drawing = silent.drawing ∧
      drawnTransition ⟨0, .epsilon, 1⟩ = drawnTransition ⟨0, .char 'ε', 1⟩ ∧
      ⟨0, .epsilon, 1⟩ ∈ silent.transitions ∧ ⟨0, .epsilon, 1⟩ ∉ lettered.transitions :=
  ⟨Obtainable.attemptAll (.withStates .nfa 2 (by decide)) (by decide),
    Obtainable.attemptAll (.withStates .nfa 2 (by decide)) (by decide),
    drawing_eq_iff.mpr ⟨by decide, by decide, by decide⟩, drawnTransition_congr rfl, by decide,
    by decide⟩

end Drawing

end Automata
