import Automata.Proofs.Pattern.Escape

/-! # Classes are read locally

Inside a class the end of the text is refused and a closing bracket is not, so the parsers of the
parts of a class may come to such a bracket and go on (`local_openClass`, `local_classRange`). A
class ends with a square bracket of its own, though, and to come to it they have to read past the
other one (`local_classBody`). That a named class cannot be read is no failure; so it matters, too,
that it can be read before a closing bracket if it can be read alone (`extends_namedClass`).
-/

namespace Automata.Pattern.Parser

variable {α β : Type}

theorem namedClass_eq : namedClass = (do
    expect '['
    expect ':'
    let negated ← takeText ['^']
    let name ← takeName (· ≠ ':')
    expect ':'
    expect ']'
    let c ← classNamed name
    return .named c negated) := by
  funext s
  unfold namedClass
  refine congrFun (bind_congr fun _ => bind_congr fun _ => bind_congr fun _ => ?_) s
  rfl

theorem local_namedClass : Local 4 0 namedClass := by
  rw [namedClass_eq]
  exact (local_expect _).bind fun _ => (local_expect _).bind fun _ =>
    (local_takeText (by decide)).bind fun _ => (local_takeName _).bind fun _ =>
      (local_expect _).bind fun _ => (local_expect _).bind fun _ => (local_lift _).bind fun _ =>
        local_pure _

/-- A parser that does on a text before a closing bracket what it does on the text alone. -/
def Extends (p : Parser α) : Prop :=
  ∀ s after v t, p s = some (v, t) → p (s.before after) = some (v, t.before after)

theorem Extends.bind {p : Parser α} {k : α → Parser β} (hp : Extends p)
    (hk : ∀ v, Extends (k v)) : Extends (p >>= k) := by
  intro s after v t h
  obtain ⟨a, r, hFirst, hThen⟩ := bind_eq_some.mp h
  exact bind_eq_some.mpr ⟨a, _, hp _ _ _ _ hFirst, hk a _ _ _ _ hThen⟩

theorem extends_pure (v : α) : Extends (pure v : Parser α) := by
  intro s after v t h
  cases h
  rfl

theorem extends_lift (o : Option α) : Extends (liftM o : Parser α) := by
  intro s after v t h
  cases o with
  | none => cases h
  | some v =>
      cases h
      rfl

theorem extends_guard (c : Prop) [Decidable c] : Extends (guard c : Parser Unit) := by
  unfold guard
  split
  · exact extends_pure ()
  · exact fun _ _ _ _ h => nomatch h

theorem extends_take : Extends take := by
  intro s after v t h
  cases s with | mk rest verbose groups names =>
  cases rest with
  | nil => cases h
  | cons c rest =>
      cases h
      rfl

theorem extends_expect (c : Char) : Extends (expect c) :=
  extends_take.bind fun _ => extends_guard _

theorem extends_takeText {w : Text} (hw : ')' ∉ w) : Extends (takeText w) := by
  intro s after v t h
  rw [takeText_eq] at h ⊢
  rw [Cursor.rest_before, isPrefixOf_before hw]
  split_ifs at h ⊢ with hPrefix
  · cases h
    have := (List.isPrefixOf_iff_prefix.mp hPrefix).length_le
    rw [List.drop_append_of_le_length this]
    rfl
  · cases h
    rfl

/-- A name that something is read behind ends before the bracket. -/
theorem extends_takeName {q : Char → Bool} {c : Char} {k : Text → Parser α}
    (hk : ∀ t, Extends (k t)) :
    Extends (takeName q >>= fun name => expect c >>= fun _ => k name) := by
  intro s after v t h
  obtain ⟨name, r, hName, h⟩ := bind_eq_some.mp h
  obtain ⟨_, r', hExpect, hThen⟩ := bind_eq_some.mp h
  refine bind_eq_some.mpr ⟨name, r.before after, ?_,
    bind_eq_some.mpr ⟨(), r'.before after, extends_expect c _ _ _ _ hExpect, hk name _ _ _ _ hThen⟩⟩
  cases hName
  have hLength : (s.rest.takeWhile q).length ≠ s.rest.length := fun hAll => by
    have := ((local_expect c).takes hExpect).2
    simp [hAll] at this
  have hEq : (s.rest ++ ')' :: after).takeWhile q = s.rest.takeWhile q := by
    rw [List.takeWhile_append, if_neg hLength]
  refine congrArg some (Prod.ext hEq ?_)
  change Cursor.mk _ _ _ _ = Cursor.mk _ _ _ _
  rw [Cursor.rest_before, hEq, drop_takeWhile_before]
  rfl

theorem extends_namedClass : Extends namedClass := by
  rw [namedClass_eq]
  exact (extends_expect _).bind fun _ => (extends_expect _).bind fun _ =>
    (extends_takeText (by decide)).bind fun _ => extends_takeName fun _ =>
      (extends_expect _).bind fun _ => (extends_lift _).bind fun _ => extends_pure _

/-- Whether a named class can be read does not depend on what follows a closing bracket. -/
theorem local_attempt_namedClass : Local 0 0 (attempt namedClass) where
  takes {s v t} h := by
    unfold attempt at h
    split at h
    · rename_i hRead
      cases h
      exact ⟨(local_namedClass.takes hRead).1, (local_namedClass.takes hRead).1.length_le⟩
    · cases h
      exact ⟨List.suffix_refl _, Nat.le_refl _⟩
  agrees {s after v t} h := by
    unfold attempt at h ⊢
    split at h
    · rename_i hRead
      cases h
      rcases local_namedClass.agrees hRead with hSeen | ⟨r, hAlone, rfl⟩
      · exact .inl hSeen
      · exact .inr ⟨r, by rw [hAlone], rfl⟩
    · rename_i hFails
      cases h
      refine .inr ⟨s, ?_, rfl⟩
      cases hAlone : namedClass s with
      | none => rfl
      | some o => 
          rw [extends_namedClass _ _ _ _ hAlone] at hFails
          cases hFails

theorem local_leadingHyphens (fuel : Nat) : Local 0 1 (leadingHyphens fuel) := by
  induction fuel with
  | zero => exact local_failure
  | succ fuel ih =>
      refine local_notAtEnd.bind fun _ => local_peek.bind (i := 0) (j := 1) fun o => ?_
      split
      · exact (local_takeSkip.bind fun _ => ih.bind fun _ => local_pure _).mono
          (by decide) (by decide)
      · exact (local_pure _).mono (by decide) (by decide)

/-- Reads the items at the front of a class. -/
def frontItems (fuel : Nat) (negated : Bool) : Parser (Bool × List ClassSet) := do
  let items ← leadingHyphens fuel
  if items.isEmpty ∧ (← peek) = some ']' then
    let c ← takeSkip
    notAtEnd
    return (negated, [.literal ⟨c, false⟩])
  else return (negated, items)

theorem openClass_eq (fuel : Nat) : openClass fuel = (do
    expect '['
    skip
    notAtEnd
    let o ← peek
    if o = some '^' then
      let _ ← takeSkip
      frontItems fuel (decide (o = some '^'))
    else frontItems fuel (decide (o = some '^'))) := rfl

theorem local_frontItems (fuel : Nat) (negated : Bool) : Local 0 1 (frontItems fuel negated) := by
  refine (local_leadingHyphens fuel).bind fun items => local_peek.bind (i := 0) (j := 1) fun o => ?_
  split
  · exact (local_takeSkip.bind fun _ => local_notAtEnd.bind fun _ => local_pure _).mono
      (by decide) (by decide)
  · exact (local_pure _).mono (by decide) (by decide)

theorem local_openClass (fuel : Nat) : Local 1 1 (openClass fuel) := by
  rw [openClass_eq]
  refine ((local_expect _).bind fun _ => local_skip.bind fun _ => local_notAtEnd.bind fun _ =>
    local_peek.bind (i := 0) (j := 1) fun o => ?_).mono (by decide) (by decide)
  split
  · exact (local_takeSkip.bind fun _ => local_frontItems _ _).mono (by decide) (by decide)
  · exact local_frontItems _ _

theorem but_classAtom : LocalBut (.assertion .wordBoundary) 1 classAtom := by
  refine local_peek.bind_but (i := 1) (fun o => ?_) (Nat.le_refl _)
  split
  · exact but_escape.mono (by decide)
  · exact (local_take.bind fun _ => local_pure _).but _

theorem local_classItem (a : Atom) : Local 0 0 (classItem a) := by
  cases a with
  | literal l => exact local_pure _
  | dot => exact local_failure
  | assertion a => exact local_failure
  | short c negated => exact local_pure _
  | unicode q negated => exact local_pure _

theorem local_rangeEnd (a : Atom) : Local 0 0 (rangeEnd a) := by
  cases a with
  | literal l => exact local_pure _
  | dot => exact local_failure
  | assertion a => exact local_failure
  | short c negated => exact local_failure
  | unicode q negated => exact local_failure

/-- The range from an atom, whose hyphen comes next. -/
def rangeTo (first : Atom) : Parser ClassSet := do
  let _ ← takeSkip
  notAtEnd
  let first ← rangeEnd first
  let last ← rangeEnd (← classAtom)
  guard (first.char ≤ last.char)
  return .range first last

/-- The character that is looked at after a hyphen, where the hyphen comes first. -/
def afterHyphen (verbose : Bool) (t : Text) : Option Char :=
  if verbose then (afterBlanks false t.tail).or t.tail.head? else t.tail.head?

/-- Whether no range goes on: there is no hyphen, or one that stands for itself. -/
def endsItem (verbose : Bool) (t : Text) : Prop :=
  t.head? ≠ some '-' ∨ afterHyphen verbose t = some ']' ∨ afterHyphen verbose t = some '-'

instance (verbose : Bool) (t : Text) : Decidable (endsItem verbose t) :=
  inferInstanceAs (Decidable (_ ∨ _ ∨ _))

/-- The range from an atom, or the atom as an item. -/
def rangeFrom (first : Atom) : Parser ClassSet := do
  skip
  notAtEnd
  let s ← get
  if endsItem s.verbose s.rest then classItem first else rangeTo first

theorem classRange_eq : classRange = classAtom >>= rangeFrom := by
  unfold classRange
  refine bind_congr fun first => bind_congr fun _ => bind_congr fun _ => ?_
  funext s
  cases s with | mk rest verbose groups names =>
  cases verbose <;> rfl

theorem afterBlanks_before (seenSign : Bool) (t after : Text) :
    afterBlanks seenSign (t ++ ')' :: after) = (afterBlanks seenSign t).or (some ')') := by
  induction t generalizing seenSign with
  | nil => cases seenSign <;> rfl
  | cons c rest ih =>
      rw [List.cons_append, afterBlanks, afterBlanks]
      split_ifs
      · exact ih _
      · exact ih _
      · rfl

/-- Where nothing but blanks and a sign is left, it begins with one of these. -/
theorem isBlank_or_of_afterBlanks {c : Char} {t : Text} (h : afterBlanks false (c :: t) = none) :
    isBlank c ∨ c = '#' := by
  rw [afterBlanks] at h
  split_ifs at h with hBlank hSign
  · exact .inl hBlank
  · exact .inr hSign.1

/-- A closing bracket is looked at where nothing else is left, and it is no end of a range. -/
theorem afterHyphen_before {c d : Char} (verbose : Bool) {t : Text} (after : Text)
    (hc : c ≠ ')') (hBlank : isBlank c = false) (hSign : c ≠ '#') :
    afterHyphen verbose (d :: t ++ ')' :: after) = some c ↔
      afterHyphen verbose (d :: t) = some c := by
  have hHead : (t ++ ')' :: after).head? = some c ↔ t.head? = some c := by
    cases t with
    | nil => simp [Ne.symm hc]
    | cons e t => simp
  cases verbose with
  | false => exact hHead
  | true =>
      change (afterBlanks false (t ++ ')' :: after)).or _ = _ ↔ (afterBlanks false t).or _ = _
      rw [afterBlanks_before]
      cases hFound : afterBlanks false t with
      | some e => simp
      | none =>
          refine iff_of_false (by simpa using Ne.symm hc) fun h => ?_
          obtain ⟨rest, rfl⟩ := List.head?_eq_some_iff.mp h
          rcases isBlank_or_of_afterBlanks hFound with h | h
          · exact absurd h (by simp [hBlank])
          · exact hSign h

theorem endsItem_before (verbose : Bool) (t after : Text) :
    endsItem verbose (t ++ ')' :: after) ↔ endsItem verbose t := by
  cases t with
  | nil => exact iff_of_true (.inl (by simp)) (.inl (by simp))
  | cons c t =>
      unfold endsItem
      rw [afterHyphen_before _ _ (by decide) (by decide) (by decide),
        afterHyphen_before _ _ (by decide) (by decide) (by decide)]
      rfl

theorem local_rangeTo (first : Atom) : Local 2 0 (rangeTo first) := by
  refine (local_takeSkip.bind fun _ => local_notAtEnd.bind fun _ => (local_rangeEnd _).bind fun _ =>
    but_classAtom.bind (i := 0) (n := 0) (fun a => (local_rangeEnd a).bind fun _ =>
      (local_guard _).bind fun _ => local_pure _) ?_)
  intro r after v t _ h
  cases h

theorem local_rangeFrom (first : Atom) : Local 0 1 (rangeFrom first) := by
  refine local_skip.bind fun _ => local_notAtEnd.bind fun _ =>
    Local.get_bind (m := 0) (n := 0) (fun s => ?_) fun s after => ?_
  · split
    · exact local_classItem first
    · exact (local_rangeTo first).mono (by decide) (by decide)
  · simp only [Cursor.verbose_before, Cursor.rest_before, endsItem_before]

/-- A place between characters is no item and no end of a range. -/
theorem rangeFrom_assertion (a : Assertion) (s : Cursor) : rangeFrom (.assertion a) s = none := by
  refine Option.eq_none_iff_forall_ne_some.mpr fun ⟨v, t⟩ h => ?_
  obtain ⟨_, r, _, h⟩ := bind_eq_some.mp h
  obtain ⟨_, r, _, h⟩ := bind_eq_some.mp h
  obtain ⟨_, r, _, h⟩ := bind_eq_some.mp h
  split at h
  · cases h
  · obtain ⟨_, r, _, h⟩ := bind_eq_some.mp h
    obtain ⟨_, r, _, h⟩ := bind_eq_some.mp h
    cases h

theorem local_classRange : Local 1 1 classRange := by
  rw [classRange_eq]
  refine but_classAtom.bind local_rangeFrom fun _ h => ?_
  rw [rangeFrom_assertion] at h
  cases h

theorem local_classOp : Local 0 0 classOp := by
  refine (local_takeText (by decide)).bind (i := 0) (j := 0) fun _ => ?_
  split
  · exact local_pure _
  · refine (local_takeText (by decide)).bind (i := 0) (j := 0) fun _ => ?_
    split
    · exact local_pure _
    · refine (local_takeText (by decide)).bind (i := 0) (j := 0) fun _ => ?_
      split
      · exact local_pure _
      · exact local_pure _

theorem local_classBody (fuel : Nat) (left : Option (SetOp × ClassSet)) (items : List ClassSet) :
    Local 1 0 (classBody fuel left items) := by
  induction fuel generalizing left items with
  | zero => exact local_failure
  | succ fuel ih =>
      refine local_skip.bind fun _ => local_peek.bind (i := 1) (j := 0) fun o => ?_
      split
      case h_1 => exact local_failure
      case h_2 =>
        refine local_attempt_namedClass.bind (i := 1) (j := 0) fun named => ?_
        split
        · exact ih _ _
        · exact ((local_openClass fuel).bind fun _ => (ih _ _).bind fun _ => ih _ _).mono
            (by decide) (by decide)
      case h_3 => exact local_take.bind fun _ => local_pure _
      case h_4 =>
        refine local_classOp.bind (i := 1) (j := 0) fun op => ?_
        split
        · exact ih _ _
        · exact (local_classRange.bind fun _ => ih _ _).mono (by decide) (by decide)

end Automata.Pattern.Parser
