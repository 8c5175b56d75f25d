import Automata.Proofs.Automaton.Transitions
import Mathlib.Logic.Relation

/-! # Paths and the words they spell

A path follows transitions from state to state. Its labels, empty moves left out, spell a word, so
empty moves may stand anywhere in it and in any number. `spells_nil` and `spells_cons` take a word
apart: the empty word is spelled along empty moves only, and any other word by empty moves, a
transition on its first character, and a path for the rest.
-/

namespace Automata

/-- The word that labels spell: their characters in order, empty moves left out. -/
def Symbol.spelling (labels : List Symbol) : Text := labels.filterMap Symbol.char?

theorem Symbol.spelling_map_char (word : Text) : Symbol.spelling (word.map .char) = word := by
  rw [Symbol.spelling, List.filterMap_map]
  exact List.filterMap_some

namespace Automaton

variable {k : Kind} {a : Automaton k}

/-- A path of the automaton with the labels of its transitions in order. -/
inductive Path (a : Automaton k) : State → List Symbol → State → Prop
  | refl (s : State) : Path a s [] s
  | step {s q t : State} {x : Symbol} {labels : List Symbol} :
      ⟨s, x, q⟩ ∈ a.transitions → Path a q labels t → Path a s (x :: labels) t

/-- Whether a path from `s` to `t` spells the word. -/
def Spells (a : Automaton k) (s : State) (word : Text) (t : State) : Prop :=
  ∃ labels, a.Path s labels t ∧ Symbol.spelling labels = word

/-- Whether empty moves lead from one state to another. -/
def EmptyReach (a : Automaton k) : State → State → Prop :=
  Relation.ReflTransGen fun p q => ⟨p, .epsilon, q⟩ ∈ a.transitions

/-! ### Composing paths -/

theorem Spells.refl (s : State) : a.Spells s [] s := ⟨[], .refl s, rfl⟩

theorem Spells.empty_step {s q t : State} {word : Text} (h : ⟨s, .epsilon, q⟩ ∈ a.transitions)
    (hRest : a.Spells q word t) : a.Spells s word t := by
  obtain ⟨labels, hPath, hWord⟩ := hRest
  exact ⟨.epsilon :: labels, .step h hPath, hWord⟩

theorem Spells.char_step {s q t : State} {c : Char} {word : Text}
    (h : ⟨s, .char c, q⟩ ∈ a.transitions) (hRest : a.Spells q word t) :
    a.Spells s (c :: word) t := by
  obtain ⟨labels, hPath, hWord⟩ := hRest
  exact ⟨.char c :: labels, .step h hPath, congrArg (c :: ·) hWord⟩

theorem EmptyReach.spells {s q t : State} {word : Text} (h : a.EmptyReach s q)
    (hRest : a.Spells q word t) : a.Spells s word t := by
  induction h using Relation.ReflTransGen.head_induction_on with
  | refl => exact hRest
  | head hStep _ ih => exact ih.empty_step hStep

theorem Path.append {s q t : State} {l m : List Symbol} (h : a.Path s l q) (g : a.Path q m t) :
    a.Path s (l ++ m) t := by
  induction h with
  | refl => exact g
  | step hStep _ ih => exact .step hStep (ih g)

theorem Spells.append {s q t : State} {v w : Text} (h : a.Spells s v q) (g : a.Spells q w t) :
    a.Spells s (v ++ w) t := by
  obtain ⟨l, hPath, rfl⟩ := h
  obtain ⟨m, hRest, rfl⟩ := g
  exact ⟨l ++ m, hPath.append hRest, List.filterMap_append⟩

theorem Spells.emptyReach {s q t : State} {word : Text} (h : a.Spells s word q)
    (hReach : a.EmptyReach q t) : a.Spells s word t := by
  have hAppend := h.append (hReach.spells (.refl t))
  rw [List.append_nil] at hAppend
  exact hAppend

theorem Path.mono {b : Automaton k} (hSub : ∀ t ∈ a.transitions, t ∈ b.transitions)
    {s t : State} {labels : List Symbol} (h : a.Path s labels t) : b.Path s labels t := by
  induction h with
  | refl s => exact .refl s
  | step hStep _ ih => exact .step (hSub _ hStep) ih

theorem Spells.mono {b : Automaton k} (hSub : ∀ t ∈ a.transitions, t ∈ b.transitions)
    {s t : State} {word : Text} (h : a.Spells s word t) : b.Spells s word t := by
  obtain ⟨labels, hPath, hWord⟩ := h
  exact ⟨labels, hPath.mono hSub, hWord⟩

/-! ### Taking words apart -/

theorem spells_nil {s t : State} : a.Spells s [] t ↔ a.EmptyReach s t := by
  refine ⟨?_, ?_⟩
  · intro h
    rcases h with ⟨labels, hPath, hWord⟩
    induction hPath with
    | refl => exact .refl
    | @step s q t x labels hStep _ ih =>
        cases x with
        | char c => exact absurd hWord (List.cons_ne_nil _ _)
        | epsilon => exact Relation.ReflTransGen.head hStep (ih hWord)
  · intro h
    exact h.spells (.refl t)

/-- **A word is spelled by empty moves, a transition on its first character and a path for the
rest.** -/
theorem spells_cons {s t : State} {c : Char} {word : Text} :
    a.Spells s (c :: word) t ↔
      ∃ p q, a.EmptyReach s p ∧ ⟨p, .char c, q⟩ ∈ a.transitions ∧ a.Spells q word t := by
  refine ⟨?_, ?_⟩
  · intro h
    rcases h with ⟨labels, hPath, hWord⟩
    induction hPath with
    | refl => exact absurd hWord.symm (List.cons_ne_nil _ _)
    | @step s q t x labels hStep hRest ih =>
        cases x with
        | char d =>
            have hCons : d :: Symbol.spelling labels = c :: word := hWord
            obtain ⟨rfl, hTail⟩ := List.cons.inj hCons
            exact ⟨s, q, .refl, hStep, labels, hRest, hTail⟩
        | epsilon =>
            obtain ⟨p, r, hReach, hChar, hSpells⟩ := ih hWord
            exact ⟨p, r, Relation.ReflTransGen.head hStep hReach, hChar, hSpells⟩
  · intro h
    rcases h with ⟨p, q, hReach, hChar, hSpells⟩
    exact hReach.spells (hSpells.char_step hChar)

/-! ### Automata without empty moves -/

theorem emptyReach_iff_eq (hEps : a.hasEpsilon = false) {s t : State} :
    a.EmptyReach s t ↔ s = t := by
  rw [EmptyReach, Relation.reflTransGen_iff_eq fun _ => not_mem_of_hasEpsilon_eq_false hEps]
  exact eq_comm

/-- Without empty moves a word is spelled transition by transition. -/
theorem spells_cons_of_not_hasEpsilon (hEps : a.hasEpsilon = false) {s t : State} {c : Char}
    {word : Text} :
    a.Spells s (c :: word) t ↔ ∃ q, ⟨s, .char c, q⟩ ∈ a.transitions ∧ a.Spells q word t := by
  simp only [spells_cons, emptyReach_iff_eq hEps, exists_and_left, exists_eq_left']

theorem Path.labels_eq (hEps : a.hasEpsilon = false) {s t : State} {labels : List Symbol}
    (h : a.Path s labels t) : labels = (Symbol.spelling labels).map .char := by
  induction h with
  | refl => rfl
  | @step s q t x labels hStep _ ih =>
      cases x with
      | char c => exact congrArg (.char c :: ·) ih
      | epsilon => exact absurd hStep (not_mem_of_hasEpsilon_eq_false hEps)

/-- Without empty moves a word is spelled by reading its characters one after the other. -/
theorem path_map_char (hEps : a.hasEpsilon = false) {s t : State} {word : Text} :
    a.Path s (word.map .char) t ↔ a.Spells s word t := by
  refine ⟨fun h => ⟨_, h, Symbol.spelling_map_char word⟩, ?_⟩
  rintro ⟨labels, hPath, rfl⟩
  rw [← hPath.labels_eq hEps]
  exact hPath

end Automaton

end Automata
