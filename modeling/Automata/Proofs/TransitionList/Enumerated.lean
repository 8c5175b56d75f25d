import Automata.Proofs.TransitionList.Written

/-! # Lists of automata in any order

The transitions and the final states of an automaton may be enumerated in any order. They are sorted
before they are written, so the order does not show in a list. It shows in the blank that is
reported when there are several, but not in whether one is: what is written is the same up to the
kind of the error (`Enumeration.alike_write`).
-/

namespace Automata

/-- Whether two results are the same, errors being told apart by their kinds only. -/
inductive Alike {α : Type} : Except Error α → Except Error α → Prop
  | ok (x : α) : Alike (.ok x) (.ok x)
  | error {e f : Error} : e.SameKind f → Alike (.error e) (.error f)

theorem Alike.symm {α : Type} {x y : Except Error α} (h : Alike x y) : Alike y x := by
  cases h with
  | ok x => exact .ok x
  | error h => exact .error h.symm

theorem Alike.trans {α : Type} {x y z : Except Error α} (h : Alike x y) (h' : Alike y z) :
    Alike x z := by
  cases h with
  | ok x => exact h'
  | error h =>
      cases h' with
      | error h' => exact .error (h.trans h')

namespace TransitionList

variable {k : Kind} {a : Automaton k}

/-- The blank that is found first among the transitions in their own order is the one reported. -/
theorem head?_unwritable (a : Automaton k) :
    (unwritable a).head? = a.transitions.findSome? blankMove? := by
  rw [← List.head?_filterMap, unwritable]
  cases a.transitions.filterMap blankMove? with
  | nil => rfl
  | cons p rest => rw [List.eraseDups_cons, List.head?_cons, List.head?_cons]

theorem findSome?_blankMove?_eq_none_of_perm {ts us : List Transition} (h : ts.Perm us) :
    ts.findSome? blankMove? = none ↔ us.findSome? blankMove? = none := by
  rw [List.findSome?_eq_none_iff, List.findSome?_eq_none_iff]
  exact forall_congr' fun t => imp_congr_left h.mem_iff

namespace Enumeration

theorem lines_eq (o : Enumeration a) (i : State) : o.lines i = writtenLines i a := by
  have hTransitions : sort (o.transitions.map (renamed i)) =
      sort (a.transitions.map (renamed i)) :=
    sort_eq_of_perm (o.perm_transitions.map _)
  have hFinals : OrderedSet.ofList (o.finals.map (rename i)) =
      OrderedSet.ofList (a.finals.toList.map (rename i)) := by
    apply OrderedSet.ext
    intro s
    rw [OrderedSet.mem_ofList, OrderedSet.mem_ofList]
    exact (o.perm_finals.map (rename i)).mem_iff
  rw [lines, hTransitions, hFinals, writtenLines]

/-- **In whatever order an automaton is enumerated, what is written is the same**, up to the blank
that is reported when there are several. -/
theorem alike_write (o : Enumeration a) : Alike o.write (TransitionList.write a) := by
  rw [write, TransitionList.write, Automaton.initialState]
  cases a.initial with
  | none => exact .error rfl
  | some i =>
      have hSame := findSome?_blankMove?_eq_none_of_perm o.perm_transitions
      rw [← head?_unwritable, List.head?_eq_none_iff] at hSame
      cases hFound : o.transitions.findSome? blankMove? with
      | none =>
          simp only [hSame.mp hFound, o.lines_eq]
          exact .ok (Text.unlines (writtenLines i a))
      | some p =>
          cases hBlank : unwritable a with
          | nil =>
              rw [hSame.mpr hBlank] at hFound
              cases hFound
          | cons q rest => exact .error rfl

end Enumeration

end TransitionList

end Automata
