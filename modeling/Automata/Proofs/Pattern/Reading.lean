import Automata.Proofs.Pattern.Class

/-! # Patterns are read locally

Where the text ends alone the alternatives of a pattern end, and so they do before a closing
bracket. A brace that begins no repetition, where the parts of a pattern are not local, leads
nowhere (`alternatives_dangling`). So what is read of a text before a closing bracket is what is
read of the text alone, unless the bracket is read as a part of the pattern (`local_alternatives`).
-/

namespace Automata.Pattern.Parser

variable {α β : Type}

/-! ### Groups and flags -/

theorem flagChanges_suffix {on : Bool} {changes found : FlagChanges} {t rest : Text}
    (h : flagChanges on changes t = some (found, rest)) : rest <:+ t := by
  induction t generalizing on changes with
  | nil => cases h
  | cons c t ih =>
      rw [flagChanges] at h
      split_ifs at h
      · cases h
        exact List.suffix_refl _
      · exact (ih h).trans (List.suffix_cons _ _)
      · split at h
        · cases h
        · split_ifs at h
          exact (ih h).trans (List.suffix_cons _ _)

theorem flagChanges_before {on : Bool} {changes found : FlagChanges} {t after rest : Text}
    (h : flagChanges on changes (t ++ ')' :: after) = some (found, rest)) :
    rest.length ≤ after.length + 1 ∨
      ∃ u, flagChanges on changes t = some (found, u) ∧ rest = u ++ ')' :: after := by
  induction t generalizing on changes with
  | nil => exact .inl (flagChanges_suffix h).length_le
  | cons c t ih =>
      rw [List.cons_append, flagChanges] at h
      rw [flagChanges]
      split_ifs at h with hStop hHyphen hOn
      · cases h
        exact .inr ⟨_, if_pos hStop, rfl⟩
      · have hOn' : on ∧ t.head? ≠ some ':' ∧ t.head? ≠ some ')' := by
          cases t with
          | nil => exact absurd rfl hOn.2.2
          | cons d t => exact hOn
        rw [if_neg hStop, if_pos hHyphen, if_pos hOn']
        exact ih h
      · rw [if_neg hStop, if_neg hHyphen]
        cases hFlag : flagOf c with
        | none =>
            rw [hFlag] at h
            cases h
        | some f =>
            simp only [hFlag] at h ⊢
            split_ifs at h with hTwice
            rw [if_neg hTwice]
            exact ih h

def readFlags : Parser FlagChanges := do
  let s ← get
  let (changes, after) ← flagChanges true [] s.rest
  set { s with rest := after }
  return changes

theorem readFlags_eq (s : Cursor) :
    readFlags s = (flagChanges true [] s.rest).map fun (changes, after) =>
      (changes, { s with rest := after }) := by
  rw [readFlags, get_bind, lift_bind]
  cases flagChanges true [] s.rest <;> rfl

theorem local_readFlags : Local 0 1 readFlags :=
  .of_text (fun _ t => flagChanges true [] t) readFlags_eq
    (fun _ _ _ _ h => ⟨flagChanges_suffix h, (flagChanges_suffix h).length_le⟩)
    fun _ _ _ _ _ h => flagChanges_before h

def isName : Text → Bool
  | [] => false
  | c :: rest => isNameCharacter true c && rest.all (isNameCharacter false)

/-- Notes the name of a group, which must be one and new. -/
def useName (name : Text) : Parser Unit := do
  let s ← get
  guard (isName name && !s.names.contains name)
  set { s with names := name :: s.names }

theorem useName_bind (name : Text) (k : PUnit → Parser α) (s : Cursor) :
    (useName name >>= k) s =
      if isName name ∧ name ∉ s.names then k () { s with names := name :: s.names } else none := by
  rw [useName, bind_assoc, get_bind, bind_assoc, guard_bind, set_bind]
  simp only [Bool.and_eq_true, Bool.not_eq_true', List.contains_eq_mem, decide_eq_false_iff_not]

theorem local_useName (name : Text) : Local 0 0 (useName name) where
  takes {s v t} h := by
    rw [← bind_pure (useName name), useName_bind] at h
    split_ifs at h
    cases h
    exact ⟨List.suffix_refl _, Nat.le_refl _⟩
  agrees {s after v t} h := by
    rw [← bind_pure (useName name), useName_bind] at h
    split_ifs at h with hName
    cases h
    refine .inr ⟨{ s with names := name :: s.names }, ?_, rfl⟩
    rw [← bind_pure (useName name), useName_bind]
    exact if_pos hName

theorem groupName_eq : groupName = (do
    let name ← takeName (· ≠ '>')
    useName name
    expect '>') := by
  funext s
  rw [groupName, get_bind, guard_bind, takeName_bind, useName_bind]
  rfl

theorem local_groupName : Local 1 0 groupName := by
  rw [groupName_eq]
  exact (local_takeName _).bind fun name => (local_useName name).bind fun _ => local_expect _

theorem local_namedGroup : Local 1 0 namedGroup :=
  local_groupName.bind fun _ => local_numberedGroup

/-- Whether the text goes on with what opens a group that looks ahead or behind. -/
def looksAround (t : Text) : Bool :=
  [['?', '='], ['?', '!'], ['?', '<', '='], ['?', '<', '!']].any fun w => w.isPrefixOf t

def openingRest : Parser Opening := do
  if ← takeText ['?', 'P', '<'] then namedGroup
  else if ← takeText ['?', '<'] then namedGroup
  else if ← takeText ['?'] then
    let changes ← readFlags
    let closing ← take
    if closing = ')' then
      guard (changes ≠ [])
      return .flags changes
    else return .group none changes
  else numberedGroup

theorem opening_eq : opening = (do
    expect '('
    skip
    let s ← get
    guard (¬ looksAround s.rest)
    openingRest) := by
  unfold opening
  refine bind_congr fun _ => bind_congr fun _ => bind_congr fun s => bind_congr fun _ => ?_
  refine bind_congr fun named => ?_
  split
  · rfl
  · refine bind_congr fun named => ?_
    split
    · rfl
    · refine bind_congr fun flagged => ?_
      split
      · funext s
        rw [get_bind, lift_bind]
        refine Eq.trans ?_ (congrArg (Option.bind · _) (readFlags_eq s).symm)
        cases flagChanges true [] s.rest <;> rfl
      · rfl

theorem local_openingRest : Local 0 0 openingRest := by
  have hNamed : Local 0 0 namedGroup := local_namedGroup.mono (by decide) (by decide)
  refine (local_takeText (by decide)).bind (i := 0) (j := 0) fun _ => ?_
  split
  · exact hNamed
  · refine (local_takeText (by decide)).bind (i := 0) (j := 0) fun _ => ?_
    split
    · exact hNamed
    · refine (local_takeText (by decide)).bind (i := 0) (j := 0) fun _ => ?_
      split
      · refine (local_readFlags.bind fun _ => local_take.bind (i := 0) (j := 0) fun _ => ?_).mono
          (by decide) (by decide)
        split
        · exact (local_guard _).bind fun _ => local_pure _
        · exact local_pure _
      · exact local_numberedGroup

theorem looksAround_before (t after : Text) : looksAround (t ++ ')' :: after) = looksAround t := by
  simp [looksAround, isPrefixOf_before]

theorem local_opening : Local 1 0 opening := by
  rw [opening_eq]
  refine (local_expect _).bind fun _ => local_skip.bind fun _ =>
    Local.get_bind (m := 0) (n := 0)
      (fun s => (local_guard _).bind fun _ => local_openingRest) fun s after => ?_
  rw [Cursor.rest_before, looksAround_before]

/-! ### Patterns -/

/-- A brace that begins no repetition alone begins none that ends before the bracket. -/
theorem repetition_dangling {s t : Cursor} {after : Text} {v : Nat × Option Nat × Bool}
    (hs : s.Dangling) (h : repetition (s.before after) = some (v, t)) :
    t.rest.length ≤ after.length := by
  obtain ⟨rest, hRest⟩ := List.head?_eq_some_iff.mp hs.1
  obtain ⟨o, r, hPeek, h⟩ := bind_eq_some.mp h
  cases hPeek
  simp only [Cursor.rest_before, hRest, List.cons_append, List.head?_cons] at h
  obtain ⟨_, r, hBounds, h⟩ := bind_eq_some.mp h
  obtain ⟨_, r', hGreedy, h⟩ := bind_eq_some.mp h
  cases h
  rcases local_bounds.agrees hBounds with hSeen | ⟨_, hAlone, _⟩
  · exact Nat.le_trans (local_greedy.takes hGreedy).2 hSeen
  · rw [hs.2] at hAlone
    cases hAlone

def repeatLast (fuel : Nat) (done parts : List Tree) : Parser Tree := do
  let some operand := parts.getLast? | failure
  guard operand.repeatable
  let (least, most, greedy) ← repetition
  alternatives fuel done (parts.dropLast ++ [.repetition operand least most greedy])

/-- What goes on from a brace that begins no repetition reads past the bracket. -/
theorem alternatives_dangling {fuel : Nat} {done parts : List Tree} {s t : Cursor} {after : Text}
    {tree : Tree} (hs : s.Dangling)
    (hLocal : ∀ less < fuel, ∀ done parts, Local 0 0 (alternatives less done parts))
    (h : alternatives fuel done parts (s.before after) = some (tree, t)) :
    t.rest.length ≤ after.length := by
  obtain ⟨rest, hRest⟩ := List.head?_eq_some_iff.mp hs.1
  cases fuel with
  | zero => cases h
  | succ fuel =>
      obtain ⟨_, r, hSkip, h⟩ := bind_eq_some.mp h
      have hStays : skip (s.before after) = some ((), s.before after) := by
        rw [skip_eq, Cursor.rest_before, hRest, List.cons_append,
          skipped_of_cons _ (by decide) (by decide), ← List.cons_append, ← hRest]
        rfl
      cases hSkip.symm.trans hStays
      obtain ⟨o, r, hPeek, h⟩ := bind_eq_some.mp h
      cases hPeek
      rw [Cursor.rest_before, hRest, List.cons_append, List.head?_cons] at h
      change repeatLast fuel done parts (s.before after) = _ at h
      cases hLast : parts.getLast? with
      | none =>
          simp only [repeatLast, hLast] at h
          cases h
      | some operand =>
          simp only [repeatLast, hLast, guard_bind] at h
          split_ifs at h
          obtain ⟨_, r, hRepetition, h⟩ := bind_eq_some.mp h
          exact Nat.le_trans ((hLocal fuel (Nat.lt_succ_self _) _ _).takes h).2
            (repetition_dangling hs hRepetition)

theorem local_alternatives (fuel : Nat) (done parts : List Tree) :
    Local 0 0 (alternatives fuel done parts) := by
  -- Behind a dangling brace two steps are looked at together, so one step less is not enough.
  induction fuel using Nat.strongRecOn generalizing done parts with
  | ind fuel ih =>
    cases fuel with
    | zero => exact local_failure
    | succ fuel =>
      have ih' := ih fuel (Nat.lt_succ_self fuel)
      refine local_skip.bind fun _ => Local.peek_bind (m := 0) (fun o => ?_) rfl
      split
      case h_1 => exact local_pure _
      case h_2 => exact local_pure _
      case h_3 => exact (local_take.bind fun _ => ih' _ _).mono (by decide) (by decide)
      case h_4 =>
        refine (local_opening.bind (i := 0) (j := 0) fun o => ?_).mono (by decide) (by decide)
        split
        · dsimp only
          split
          · exact (local_setVerbose _).bind fun _ => ih' _ _
          · exact ih' _ _
        · refine Local.get_bind (fun s => ?_) fun _ _ => rfl
          exact ((local_setVerbose _).bind fun _ => (ih' _ _).bind fun _ =>
            (local_expect _).bind fun _ => (local_setVerbose _).bind fun _ => ih' _ _).mono
              (by decide) (by decide)
      case h_5 =>
        exact ((local_openClass fuel).bind fun _ => (local_classBody _ _ _).bind fun _ =>
          ih' _ _).mono (by decide) (by decide)
      case h_6 =>
        split
        · split
          · exact ((local_guard _).bind fun _ => local_repetition.bind fun _ => ih' _ _).mono
              (by decide) (by decide)
          · exact local_failure
        · refine (but_atom.bind (fun a => ih' _ _) fun hs h => ?_).mono (by decide) (by decide)
          exact alternatives_dangling hs (fun less hLess => ih less (Nat.lt_succ_of_lt hLess)) h

end Automata.Pattern.Parser
