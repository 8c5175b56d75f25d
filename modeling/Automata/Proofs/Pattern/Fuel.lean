import Automata.Proofs.Pattern.Reading

/-! # Enough fuel

The recursive parsers take fuel, one unit for each character that they may have to read. Since each
of their steps takes a character, they never run out of it: two amounts that exceed the number of
characters make no difference.
-/

namespace Automata.Pattern.Parser

variable {α β : Type}

/-- Two parsers do the same at a cursor. -/
def AgreeAt (s : Cursor) (p q : Parser α) : Prop := p s = q s

section

variable {p q : Parser α} {k l : α → Parser β} {s : Cursor} {m n : Nat}

/-- Two parsers in a row agree where the first ones do, and the second ones after them. -/
theorem AgreeAt.bind (hFirst : AgreeAt s p q)
    (hThen : ∀ v t, p s = some (v, t) → AgreeAt t (k v) (l v)) : AgreeAt s (p >>= k) (q >>= l) := by
  change (p s).bind _ = (q s).bind _
  rw [← hFirst]
  cases hSome : p s with
  | none => rfl
  | some o => exact hThen o.1 o.2 hSome

theorem Local.bind_agree (hp : Local m n p)
    (hThen : ∀ v t, t.rest.length + m ≤ s.rest.length → AgreeAt t (k v) (l v)) :
    AgreeAt s (p >>= k) (p >>= l) :=
  AgreeAt.bind rfl fun v t h => hThen v t (hp.takes h).2

end

theorem leadingHyphens_fuel {fuel fuel' : Nat} {s : Cursor} (h : s.rest.length < fuel)
    (h' : s.rest.length < fuel') : AgreeAt s (leadingHyphens fuel) (leadingHyphens fuel') := by
  induction fuel generalizing fuel' s with
  | zero => omega
  | succ fuel ih =>
      cases fuel' with
      | zero => omega
      | succ fuel' =>
          refine local_notAtEnd.bind_agree fun _ t ht => local_peek.bind_agree fun o u hu => ?_
          split
          · refine local_takeSkip.bind_agree fun c v hv => ?_
            exact (ih (by omega) (by omega)).bind fun _ _ _ => rfl
          · rfl

theorem frontItems_fuel {fuel fuel' : Nat} {negated : Bool} {s : Cursor}
    (h : s.rest.length < fuel) (h' : s.rest.length < fuel') :
    AgreeAt s (frontItems fuel negated) (frontItems fuel' negated) :=
  (leadingHyphens_fuel h h').bind fun _ _ _ => rfl

theorem openClass_fuel {fuel fuel' : Nat} {s : Cursor} (h : s.rest.length ≤ fuel)
    (h' : s.rest.length ≤ fuel') : AgreeAt s (openClass fuel) (openClass fuel') := by
  rw [openClass_eq, openClass_eq]
  refine (local_expect _).bind_agree fun _ t ht => local_skip.bind_agree fun _ u hu =>
    local_notAtEnd.bind_agree fun _ v hv => local_peek.bind_agree fun o w hw => ?_
  split
  · exact local_takeSkip.bind_agree fun _ x hx => frontItems_fuel (by omega) (by omega)
  · exact frontItems_fuel (by omega) (by omega)

theorem namedClass_of_attempt {s t : Cursor} {c : ClassSet}
    (h : attempt namedClass s = some (some c, t)) : namedClass s = some (c, t) := by
  unfold attempt at h
  split at h
  · rename_i hRead
    cases h
    exact hRead
  · cases h

theorem takeText_takes {w : Text} {s t : Cursor} (h : takeText w s = some (true, t)) :
    t.rest.length + w.length ≤ s.rest.length := by
  rw [takeText_eq] at h
  split_ifs at h with hPrefix
  · have := (List.isPrefixOf_iff_prefix.mp hPrefix).length_le
    cases h
    rw [List.length_drop]
    omega
  · cases h

theorem takeText_stays {w : Text} {s t : Cursor} (h : takeText w s = some (false, t)) : t = s := by
  rw [takeText_eq] at h
  split_ifs at h
  · cases h
  · exact (congrArg Prod.snd (Option.some.inj h)).symm

theorem classOp_takes {s t : Cursor} {op : SetOp} (h : classOp s = some (some op, t)) :
    t.rest.length + 2 ≤ s.rest.length := by
  obtain ⟨isInter, r, hInter, h⟩ := bind_eq_some.mp h
  cases isInter with
  | true =>
      cases h
      exact takeText_takes hInter
  | false =>
      cases takeText_stays hInter
      obtain ⟨isDiff, r, hDiff, h⟩ := bind_eq_some.mp h
      cases isDiff with
      | true =>
          cases h
          exact takeText_takes hDiff
      | false =>
          cases takeText_stays hDiff
          obtain ⟨isSymmDiff, r, hSymmDiff, h⟩ := bind_eq_some.mp h
          cases isSymmDiff with
          | true =>
              cases h
              exact takeText_takes hSymmDiff
          | false => cases h

theorem classBody_fuel {fuel fuel' : Nat} {left : Option (SetOp × ClassSet)} {items : List ClassSet}
    {s : Cursor} (h : s.rest.length < fuel) (h' : s.rest.length < fuel') :
    AgreeAt s (classBody fuel left items) (classBody fuel' left items) := by
  induction fuel generalizing fuel' left items s with
  | zero => omega
  | succ fuel ih =>
      cases fuel' with
      | zero => omega
      | succ fuel' =>
          refine local_skip.bind_agree fun _ t ht => local_peek.bind_agree fun o u hu => ?_
          split
          · rfl
          · refine AgreeAt.bind rfl fun named v hNamed => ?_
            cases named with
            | some named =>
                have := (local_namedClass.takes (namedClass_of_attempt hNamed)).2
                exact ih (by omega) (by omega)
            | none =>
                have := (local_attempt_namedClass.takes hNamed).2
                refine (openClass_fuel (by omega) (by omega)).bind fun o w hOpen => ?_
                have := ((local_openClass fuel).takes hOpen).2
                refine (ih (by omega) (by omega)).bind fun inner x hInner => ?_
                have := ((local_classBody _ _ _).takes hInner).2
                exact ih (by omega) (by omega)
          · rfl
          · refine AgreeAt.bind rfl fun op v hOp => ?_
            cases op with
            | some op =>
                have := classOp_takes hOp
                exact ih (by omega) (by omega)
            | none =>
                have := (local_classOp.takes hOp).2
                exact local_classRange.bind_agree fun item w hw => ih (by omega) (by omega)

/-- **The fuel of the parser never runs out.** -/
theorem alternatives_fuel {fuel fuel' : Nat} {done parts : List Tree} {s : Cursor}
    (h : s.rest.length < fuel) (h' : s.rest.length < fuel') :
    AgreeAt s (alternatives fuel done parts) (alternatives fuel' done parts) := by
  induction fuel generalizing fuel' done parts s with
  | zero => omega
  | succ fuel ih =>
      cases fuel' with
      | zero => omega
      | succ fuel' =>
          refine local_skip.bind_agree fun _ t ht => local_peek.bind_agree fun o u hu => ?_
          split
          · rfl
          · rfl
          · exact local_take.bind_agree fun _ v hv => ih (by omega) (by omega)
          · refine local_opening.bind_agree fun o v hv => ?_
            cases o with
            | flags changes =>
                dsimp only
                split
                · exact (local_setVerbose _).bind_agree fun _ w hw => ih (by omega) (by omega)
                · exact ih (by omega) (by omega)
            | group number changes =>
                refine AgreeAt.bind (p := get) rfl fun outer w hGet => ?_
                cases hGet
                refine (local_setVerbose _).bind_agree fun _ w hw =>
                  (ih (by omega) (by omega)).bind fun body x hBody => ?_
                have := ((local_alternatives _ _ _).takes hBody).2
                exact (local_expect _).bind_agree fun _ y hy =>
                  (local_setVerbose _).bind_agree fun _ z hz => ih (by omega) (by omega)
          · refine (openClass_fuel (by omega) (by omega)).bind fun o v hOpen => ?_
            have := ((local_openClass fuel).takes hOpen).2
            refine (classBody_fuel (by omega) (by omega)).bind fun set w hSet => ?_
            have := ((local_classBody _ _ _).takes hSet).2
            exact ih (by omega) (by omega)
          · split
            · split
              · exact (local_guard _).bind_agree fun _ v hv =>
                  local_repetition.bind_agree fun _ w hw => ih (by omega) (by omega)
              · rfl
            · refine AgreeAt.bind rfl fun a v hAtom => ?_
              have := (but_atom.takes hAtom).2
              exact ih (by omega) (by omega)

end Automata.Pattern.Parser
