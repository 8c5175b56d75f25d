import Automata.Proofs.Pattern.Local

/-! # Escapes are read locally

A brace behind `\b` may begin the name of a special boundary; if it does not, it is left for a
repetition. This is where the parser is not local. It fails when the text ends behind the brace, but
before a closing bracket it leaves the brace (`LocalBut`). No repetition begins there, so nothing
comes of it in the end.
-/

namespace Automata.Pattern

namespace Parser

variable {α β : Type}

theorem local_ofHexDigits (digits : Text) : Local 0 0 (ofHexDigits digits) :=
  (local_guard _).bind fun _ => local_pure _

theorem local_hexDigits (count : Nat) : Local 0 0 (hexDigits count) := by
  induction count with
  | zero => exact local_pure _
  | succ count ih =>
      exact (local_takeSkip.bind fun _ => (local_guard _).bind fun _ => ih.bind fun _ =>
        local_pure _).mono (by decide) (by decide)

theorem local_hexEscape (letter : Char) : Local 0 0 (hexEscape letter) := by
  refine local_skip.bind fun _ => Local.peek_bind (m := 0) (fun o => ?_) rfl
  split
  · exact (local_takeSkip.bind fun _ => (local_takeRun _).bind fun _ =>
      (local_expect _).bind fun _ => local_skip.bind fun _ => (local_ofHexDigits _).bind fun _ =>
        local_pure _).mono (by decide) (by decide)
  · exact (local_hexDigits _).bind fun _ => (local_ofHexDigits _).bind fun _ => local_pure _

theorem local_classQuery : Local 1 0 classQuery := by
  refine local_skip.bind fun _ => local_take.bind (i := 0) (j := 0) fun c => ?_
  split
  · exact (local_skip.bind fun _ => (local_takeRun _).bind fun _ => (local_expect _).bind fun _ =>
      local_pure _).mono (by decide) (by decide)
  · exact (local_guard _).bind fun _ => local_pure _

end Parser

/-- The text begins with a brace that begins no repetition. -/
def Cursor.Dangling (s : Cursor) : Prop := s.rest.head? = some '\x7b' ∧ Parser.bounds s = none

namespace Parser

variable {α β : Type}

/-- A parser that takes at least `m` characters and is local but for one value, which it may give
where it leaves a brace that begins no repetition. -/
structure LocalBut (e : α) (m : Nat) (p : Parser α) : Prop where
  takes : Takes m p
  agrees : ∀ {s after v t}, p (s.before after) = some (v, t) →
    t.rest.length ≤ after.length ∨ (∃ r, p s = some (v, r) ∧ t = r.before after) ∨
      v = e ∧ ∃ r : Cursor, r.Dangling ∧ t = r.before after

section

variable {e : α} {e' : β} {m i n : Nat} {p : Parser α} {k : α → Parser β}

theorem Local.but (hp : Local m 0 p) (e : α) : LocalBut e m p where
  takes := hp.takes
  agrees h := (hp.agrees h).imp_right .inl

theorem Local.bind_but (hp : Local m n p) (hk : ∀ v, LocalBut e' i (k v)) (hn : n ≤ i) :
    LocalBut e' (m + i) (p >>= k) where
  takes := Takes.bind hp.takes fun v => (hk v).takes
  agrees h := by
    obtain ⟨a, r, hFirst, hThen⟩ := bind_eq_some.mp h
    rcases hp.agrees hFirst with hSeen | ⟨r, hAlone, rfl⟩
    · have := ((hk a).takes hThen).2
      exact .inl (by omega)
    · exact ((hk a).agrees hThen).imp_right (.imp_left fun ⟨r', hAlone', hEq⟩ =>
        ⟨r', bind_eq_some.mpr ⟨a, r, hAlone, hAlone'⟩, hEq⟩)

theorem LocalBut.map (hp : LocalBut e m p) (f : α → β) :
    LocalBut (f e) m (p >>= fun a => pure (f a)) where
  takes h := by
    obtain ⟨a, r, hFirst, hThen⟩ := bind_eq_some.mp h
    cases hThen
    exact hp.takes hFirst
  agrees h := by
    obtain ⟨a, r, hFirst, hThen⟩ := bind_eq_some.mp h
    cases hThen
    rcases hp.agrees hFirst with hSeen | ⟨r, hAlone, hEq⟩ | ⟨hValue, hDangling⟩
    · exact .inl hSeen
    · exact .inr (.inl ⟨r, bind_eq_some.mpr ⟨a, r, hAlone, rfl⟩, hEq⟩)
    · exact .inr (.inr ⟨congrArg f hValue, hDangling⟩)

theorem LocalBut.mono (hp : LocalBut e m p) (hm : i ≤ m) : LocalBut e i p where
  takes := Takes.mono hp.takes hm
  agrees := hp.agrees

/-- What goes on from a brace that begins no repetition has to read past the bracket. -/
theorem LocalBut.bind (hp : LocalBut e m p) (hk : ∀ v, Local i n (k v))
    (hDangling : ∀ {r : Cursor} {after v t}, r.Dangling → k e (r.before after) = some (v, t) →
      t.rest.length ≤ after.length) : Local (m + i) n (p >>= k) where
  takes := Takes.bind hp.takes fun v => (hk v).takes
  agrees h := by
    obtain ⟨a, r, hFirst, hThen⟩ := bind_eq_some.mp h
    rcases hp.agrees hFirst with hSeen | ⟨r, hAlone, rfl⟩ | ⟨rfl, r, hr, rfl⟩
    · have := ((hk a).takes hThen).2
      exact .inl (by omega)
    · exact ((hk a).agrees hThen).imp_right fun ⟨r', hAlone', hEq⟩ =>
        ⟨r', bind_eq_some.mpr ⟨a, r, hAlone, hAlone'⟩, hEq⟩
    · exact .inl (Nat.le_add_right_of_le (hDangling hr hThen))

end

def isNamePart (c : Char) : Bool := c.isAlpha || c == '-'

def namedBoundary : Parser Assertion := do
  let name ← takeRun isNamePart
  expect '\x7d'
  boundaryNamed name

theorem local_namedBoundary : Local 1 0 namedBoundary :=
  (local_takeRun _).bind fun _ => (local_expect _).bind fun _ => local_lift _

theorem boundary_of_head_ne {s : Cursor} (h : s.rest.head? ≠ some '\x7b') :
    boundary s = some (.wordBoundary, s) := by
  change (if s.rest.head? ≠ some '\x7b' then _ else _ : Parser Assertion) s = _
  rw [if_pos h]
  rfl

theorem takeSkip_of_cons {s : Cursor} {c : Char} {rest : Text} (h : s.rest = c :: rest) :
    takeSkip s = some (c, { s with rest := skipped s.verbose rest }) := by
  cases s
  subst h
  exact bind_eq_some.mpr ⟨c, _, rfl, bind_eq_some.mpr ⟨(), _, skip_eq _, rfl⟩⟩

theorem boundary_of_brace {s : Cursor} {rest : Text} (h : s.rest = '\x7b' :: rest) :
    boundary s = match skipped s.verbose rest with
      | [] => none
      | c :: more =>
          if isNamePart c then namedBoundary { s with rest := c :: more }
          else some (.wordBoundary, s) := by
  change (if s.rest.head? ≠ some '\x7b' then _ else _ : Parser Assertion) s = _
  rw [if_neg (by rw [h]; exact not_not_intro rfl)]
  refine (congrArg (Option.bind · _) (takeSkip_of_cons h)).trans ?_
  cases skipped s.verbose rest with
  | nil => rfl
  | cons c more =>
      change (if isNamePart c then _ else _ : Parser Assertion) _ = if isNamePart c then _ else _
      cases isNamePart c <;> rfl

theorem number_of_end {s : Cursor} (h : s.rest = []) : number s = none := by
  cases s
  subst h
  rfl

theorem dangling_of_brace {s : Cursor} {rest : Text} (h : s.rest = '\x7b' :: rest)
    (hEnd : skipped s.verbose rest = []) : s.Dangling := by
  refine ⟨by rw [h]; rfl, Option.eq_none_iff_forall_ne_some.mpr fun ⟨v, t⟩ hBounds => ?_⟩
  obtain ⟨_, r, hExpect, hBounds⟩ := bind_eq_some.mp hBounds
  obtain ⟨_, r', hSkip, hBounds⟩ := bind_eq_some.mp hBounds
  obtain ⟨_, _, hNumber, _⟩ := bind_eq_some.mp hBounds
  cases s
  subst h
  cases hExpect
  rw [skip_eq] at hSkip
  cases hSkip
  rw [number_of_end hEnd] at hNumber
  cases hNumber

theorem but_boundary : LocalBut .wordBoundary 0 boundary where
  takes {s v t} h := by
    by_cases hBrace : s.rest.head? = some '\x7b'
    · obtain ⟨rest, hRest⟩ := List.head?_eq_some_iff.mp hBrace
      rw [boundary_of_brace hRest] at h
      have hSuffix := (skipped_suffix s.verbose rest).trans (List.suffix_cons '\x7b' rest)
      rw [← hRest] at hSuffix
      split at h
      · cases h
      · rename_i c more hMore
        rw [hMore] at hSuffix
        split_ifs at h
        · obtain ⟨hNamed, hLength⟩ := local_namedBoundary.takes h
          exact ⟨hNamed.trans hSuffix, (hNamed.trans hSuffix).length_le⟩
        · cases h
          exact ⟨List.suffix_refl _, Nat.le_refl _⟩
    · rw [boundary_of_head_ne hBrace] at h
      cases h
      exact ⟨List.suffix_refl _, Nat.le_refl _⟩
  agrees {s after v t} h := by
    by_cases hBrace : s.rest.head? = some '\x7b'
    · obtain ⟨rest, hRest⟩ := List.head?_eq_some_iff.mp hBrace
      have hBefore : (s.before after).rest = '\x7b' :: (rest ++ ')' :: after) := by
        rw [Cursor.rest_before, hRest, List.cons_append]
      rw [boundary_of_brace hBefore] at h
      rcases skipped_before s.verbose rest after with ⟨hEnd, hSeen⟩ | hAlone
      · -- A comment hides the bracket, so a name behind the brace is read past it.
        split at h
        · cases h
        · rename_i c more hMore
          split_ifs at h
          · have hLength : (c :: more).length ≤ after.length := hMore ▸ hSeen
            have hTaken := (local_namedBoundary.takes h).2
            exact .inl (Nat.le_trans (Nat.le_of_succ_le hTaken) hLength)
          · cases h
            exact .inr (.inr ⟨rfl, s, dangling_of_brace hRest hEnd, rfl⟩)
      · rw [Cursor.verbose_before, hAlone] at h
        cases hMore : skipped s.verbose rest with
        | nil =>
            rw [hMore] at h
            cases h
            exact .inr (.inr ⟨rfl, s, dangling_of_brace hRest hMore, rfl⟩)
        | cons c more =>
            simp only [hMore, List.cons_append] at h
            have hAlone' := boundary_of_brace hRest
            simp only [hMore] at hAlone'
            split_ifs at h hAlone'
            · exact (local_namedBoundary.agrees (s := { s with rest := c :: more }) h).imp_right
                fun ⟨r, hNamed, hEq⟩ => .inl ⟨r, hAlone'.trans hNamed, hEq⟩
            · cases h
              exact .inr (.inl ⟨s, hAlone', rfl⟩)
    · have hBefore : (s.before after).rest.head? ≠ some '\x7b' := by
        cases hRest : s.rest with
        | nil => simp [hRest]
        | cons c rest => simpa [hRest] using hBrace
      rw [boundary_of_head_ne hBefore] at h
      cases h
      exact .inr (.inl ⟨s, boundary_of_head_ne hBrace, rfl⟩)

theorem but_escape : LocalBut (.assertion .wordBoundary) 2 escape := by
  refine (local_expect _).bind_but (i := 1)
    (fun _ => local_take.bind_but (i := 0) (fun c => ?_) ?_) ?_
  · split
    · exact ((local_hexEscape _).bind fun _ => local_pure _).but _
    · split
      · exact (local_pure _).but _
      · split
        case h_7 | h_8 =>
          exact ((local_classQuery.bind fun _ => local_pure _).but _).mono (Nat.zero_le _)
        case h_17 => exact but_boundary.map Atom.assertion
        all_goals first
          | exact (local_pure _).but _
          | exact local_failure.but _
  · exact Nat.le_refl _
  · decide

theorem but_atom : LocalBut (.assertion .wordBoundary) 1 atom := by
  refine local_peek.bind_but (i := 1) (fun o => ?_) (Nat.le_refl _)
  split
  · exact but_escape.mono (by decide)
  · exact (local_take.bind fun _ => local_pure _).but _
  · exact (local_take.bind fun _ => local_pure _).but _
  · exact (local_take.bind fun _ => local_pure _).but _
  · exact (local_take.bind fun _ => local_pure _).but _

end Parser

end Automata.Pattern
