import Automata.Automaton.InPlace
import Automata.Proofs.Automaton.Tight

/-! # Edits in place are edits

An edit in place comes to the same as the edit (`run_perform`): it goes through with the same
automaton, or it fails with the same error and the automaton is as it was. The row that a
transition opens is the only thing written before a check. A target is refused only if the row
holds another one for the symbol, so that row had been there, and none is left open and empty.
-/

namespace Automata

variable {k : Kind}

/-! ### Opened rows -/

namespace Automaton

variable {a : Automaton k} {s : State} {x : Symbol}

theorem get?_rows_openRow (a : Automaton k) (s : State) :
    (a.openRow s).rows.get? s = some (a.row s) := by
  rw [openRow, row]
  cases hRow : a.rows.get? s with
  | none => exact Table.get?_insert_self ..
  | some _ => exact hRow

theorem row_openRow (a : Automaton k) (s : State) : (a.openRow s).row s = a.row s := by
  rw [row, get?_rows_openRow, Option.getD_some]

theorem target?_openRow : (a.openRow s).target? s x = a.target? s x := by
  rw [target?, row_openRow, target?]

theorem setTarget_openRow (t : k.Target) :
    (a.openRow s).setTarget s x t = a.setTarget s x t := by
  rw [setTarget, row_openRow, openRow, setTarget]
  cases hRow : a.rows.get? s with
  | some _ => rfl
  | none =>
      have hRows : (a.rows.insert s ∅).insert s ((a.row s).insert x t) =
          a.rows.insert s ((a.row s).insert x t) := Table.insert_insert_self ..
      simp only [hRows]

theorem openRow_eq_self {held : k.Target} (h : a.target? s x = some held) : a.openRow s = a := by
  obtain ⟨row, hRow, _⟩ := target?_eq_some_iff.mp h
  rw [openRow, hRow]

end Automaton

/-! ### The steps -/

namespace InPlace

variable {a : Automaton k}

/-- How a computation in place ends if it comes to the result `r` and leaves the automaton as it
was when that is an error. -/
def ending (a : Automaton k) (r : Except Error (Automaton k)) :
    EStateM.Result Error (Automaton k) Unit :=
  match r with
  | .ok b => .ok () b
  | .error e => .error e a

theorem run_get_bind {β : Type} (next : Automaton k → InPlace k β) :
    (get >>= next).run a = (next a).run a := rfl

theorem run_modify_bind {β : Type} (f : Automaton k → Automaton k) (next : InPlace k β) :
    (modify f >>= fun _ => next).run a = next.run (f a) := rfl

theorem run_checkState (s : State) :
    (checkState s).run a = match a.checkState s with
      | .ok () => .ok () a
      | .error e => .error e a := by
  rw [checkState, run_get_bind, Automaton.checkState]
  by_cases hState : s < a.stateCount
  · simp only [if_pos hState]
    rfl
  · simp only [if_neg hState]
    rfl

/-- A state that is not there ends the computation before anything is written. -/
theorem run_checkState_bind {s : State} {next : InPlace k Unit} {r : Except Error (Automaton k)}
    (hNext : next.run a = ending a r) :
    (checkState s >>= fun _ => next).run a = ending a (a.checkState s >>= fun _ => r) := by
  rw [EStateM.run_bind, run_checkState]
  cases a.checkState s with
  | ok _ => exact hNext
  | error e => rfl

theorem run_markInitial (s : State) : (markInitial s).run a = ending a (a.markInitial s) := by
  refine run_checkState_bind ?_
  rw [run_get_bind]
  cases hInitial : a.initial with
  | none => rfl
  | some current =>
      by_cases hEq : current = s
      · have hSame : { a with initial := some s } = a := by rw [← hEq, ← hInitial]
        simp only [if_pos hEq, EStateM.run_modify, hSame]
        rfl
      · simp only [if_neg hEq]
        rfl

theorem run_markFinal (s : State) : (markFinal s).run a = ending a (a.markFinal s) :=
  run_checkState_bind rfl

theorem run_connect (t : Transition) : (connect t).run a = ending a (a.connect t) := by
  refine run_checkState_bind (run_checkState_bind ?_)
  rw [run_modify_bind, run_get_bind, Automaton.target?_openRow]
  cases hHeld : a.target? t.source t.symbol with
  | none =>
      simp only [EStateM.run_modify, Automaton.setTarget_openRow]
      rfl
  | some held =>
      -- the source moves on the symbol, so its row has not been opened just now
      rw [Automaton.openRow_eq_self hHeld]
      simp only
      cases Target.add held t.target with
      | ok grown => rfl
      | error existing => rfl

end InPlace

/-! ### Edits -/

namespace Edit

variable (a : Automaton k) (e : Edit k)

/-- **An edit in place goes through when the edit does, with the same automaton, and leaves the
automaton as it was when it fails.** -/
theorem run_perform : e.perform.run a = InPlace.ending a (e.apply a) := by
  cases e with
  | addState => rfl
  | requireStates n => rfl
  | markInitial s => exact InPlace.run_markInitial s
  | markFinal s => exact InPlace.run_markFinal s
  | addTransition source c target => exact InPlace.run_connect ⟨source, .char c, target⟩
  | addEpsilon source target => exact InPlace.run_connect ⟨source, .epsilon, target⟩

theorem left_eq_attempt : e.left a = e.attempt a := by
  rw [left, run_perform, attempt]
  cases e.apply a with
  | ok b => rfl
  | error err => rfl

end Edit

end Automata
