import Automata.Pattern.Parser
import Mathlib.Data.List.Basic
import Mathlib.Data.Option.Basic

/-! # Local parsers

A parser reads on from where it stands, and what follows a closing bracket is nothing to it before
it has read the bracket. It is local when both can be said of it: it takes a number of characters
from the front, and it does with a text before a closing bracket what it does with the text alone,
unless it reads past that bracket (`Local`). Parsers in sequence are local if each of them is
(`Local.bind`), so all parsers are from their parts, down to those of single characters.
-/

namespace Automata.Pattern

/-- The cursor when its text is followed by a closing bracket and `after`. -/
def Cursor.before (s : Cursor) (after : Text) : Cursor := { s with rest := s.rest ++ ')' :: after }

section

variable {s : Cursor} {after : Text}

@[simp] theorem Cursor.rest_before : (s.before after).rest = s.rest ++ ')' :: after := rfl

@[simp] theorem Cursor.verbose_before : (s.before after).verbose = s.verbose := rfl

end

namespace Parser

variable {α β : Type}

theorem bind_eq_some {p : Parser α} {k : α → Parser β} {s t : Cursor} {v : β} :
    (p >>= k) s = some (v, t) ↔ ∃ a r, p s = some (a, r) ∧ k a r = some (v, t) := by
  refine Option.bind_eq_some_iff.trans ⟨?_, ?_⟩
  · intro h
    obtain ⟨⟨a, r⟩, hFirst, hThen⟩ := h
    exact ⟨a, r, hFirst, hThen⟩
  · intro h
    obtain ⟨a, r, hFirst, hThen⟩ := h
    exact ⟨(a, r), hFirst, hThen⟩

theorem get_bind (k : Cursor → Parser α) (s : Cursor) : (get >>= k) s = k s s := rfl

theorem set_bind (k : PUnit → Parser α) (s t : Cursor) : (set t >>= k) s = k () t := rfl

theorem lift_bind (o : Option α) (k : α → Parser β) (s : Cursor) :
    (liftM o >>= k) s = o.bind fun v => k v s := by
  cases o <;> rfl

theorem guard_bind (c : Prop) [Decidable c] (k : Unit → Parser α) (s : Cursor) :
    (guard c >>= k) s = if c then k () s else none := by
  unfold guard
  split <;> rfl

/-- A parser that takes at least `m` characters, all of them from the front. -/
abbrev Takes (m : Nat) (p : Parser α) : Prop :=
  ∀ {s v t}, p s = some (v, t) → t.rest <:+ s.rest ∧ t.rest.length + m ≤ s.rest.length

/-- A parser that takes at least `m` characters, and to which a closing bracket behind the text
makes no difference before it reads past it. Where `n` is one, it may also come to the bracket and
find another thing there than the end. -/
structure Local (m n : Nat) (p : Parser α) : Prop where
  takes : Takes m p
  agrees : ∀ {s after v t}, p (s.before after) = some (v, t) →
    t.rest.length ≤ after.length + n ∨ ∃ r, p s = some (v, r) ∧ t = r.before after

variable {m i n j : Nat} {p : Parser α} {k : α → Parser β}

theorem Takes.bind (hp : Takes m p) (hk : ∀ v, Takes i (k v)) : Takes (m + i) (p >>= k) := by
  intro s v t h
  obtain ⟨a, r, hFirst, hThen⟩ := bind_eq_some.mp h
  obtain ⟨hSuffix, hLength⟩ := hp hFirst
  obtain ⟨hSuffix', hLength'⟩ := hk a hThen
  exact ⟨hSuffix'.trans hSuffix, by omega⟩

theorem Takes.mono (hp : Takes m p) (hm : i ≤ m) : Takes i p := fun h =>
  ⟨(hp h).1, Nat.le_trans (Nat.add_le_add_left hm _) (hp h).2⟩

namespace Local

/-- Of two parsers in a row, what the second takes makes up for what the first sees. -/
theorem bind (hp : Local m n p) (hk : ∀ v, Local i j (k v)) :
    Local (m + i) (max j (n - i)) (p >>= k) where
  takes := Takes.bind hp.takes fun v => (hk v).takes
  agrees h := by
    obtain ⟨a, r, hFirst, hThen⟩ := bind_eq_some.mp h
    rcases hp.agrees hFirst with hSeen | ⟨r, hAlone, rfl⟩
    · have := ((hk a).takes hThen).2
      exact .inl (by omega)
    · rcases (hk a).agrees hThen with hSeen | ⟨r', hAlone', rfl⟩
      · exact .inl (by omega)
      · exact .inr ⟨r', bind_eq_some.mpr ⟨a, r, hAlone, hAlone'⟩, rfl⟩

theorem mono (hp : Local m n p) (hm : i ≤ m) (hn : n ≤ j) : Local i j p where
  takes := Takes.mono hp.takes hm
  agrees h := (hp.agrees h).imp (Nat.le_trans · (Nat.add_le_add_left hn _)) id

/-- A parser that leaves the text alone. -/
theorem of_change (v : Cursor → α) (f : Cursor → Cursor) (h : ∀ s, p s = some (v s, f s))
    (hRest : ∀ s, (f s).rest = s.rest)
    (hBefore : ∀ s after, v (s.before after) = v s ∧ f (s.before after) = (f s).before after) :
    Local 0 0 p where
  takes {s a t} hp := by
    cases (h s).symm.trans hp
    rw [hRest]
    exact ⟨List.suffix_refl _, Nat.le_refl _⟩
  agrees {s after a t} hp := by
    cases (h _).symm.trans hp
    rw [(hBefore s after).1, (hBefore s after).2]
    exact .inr ⟨f s, h s, rfl⟩

/-- A parser that changes the text only, by what `f` makes of it. -/
theorem of_text (f : Bool → Text → Option (α × Text))
    (h : ∀ s, p s = (f s.verbose s.rest).map fun (v, rest) => (v, { s with rest := rest }))
    (hTakes : ∀ b t v rest, f b t = some (v, rest) → rest <:+ t ∧ rest.length + m ≤ t.length)
    (hAgrees : ∀ b t after v rest, f b (t ++ ')' :: after) = some (v, rest) →
      rest.length ≤ after.length + n ∨
        ∃ u, f b t = some (v, u) ∧ rest = u ++ ')' :: after) :
    Local m n p where
  takes {s v t} hp := by
    rw [h] at hp
    obtain ⟨⟨a, rest⟩, hSome, hEq⟩ := Option.map_eq_some_iff.mp hp
    cases hEq
    exact hTakes _ _ _ _ hSome
  agrees {s after v t} hp := by
    rw [h] at hp
    obtain ⟨⟨a, rest⟩, hSome, hEq⟩ := Option.map_eq_some_iff.mp hp
    cases hEq
    rcases hAgrees _ _ _ _ _ hSome with hSeen | ⟨u, hAlone, rfl⟩
    · exact .inl hSeen
    · exact .inr ⟨{ s with rest := u }, (h s).trans (congrArg _ hAlone), rfl⟩

end Local

/-! ### Parsers that read nothing -/

theorem local_pure (v : α) : Local 0 0 (pure v : Parser α) :=
  .of_change (fun _ => v) id (fun _ => rfl) (fun _ => rfl) fun _ _ => ⟨rfl, rfl⟩

theorem local_failure {m n : Nat} : Local m n (failure : Parser α) where
  takes h := nomatch h
  agrees h := nomatch h

theorem local_lift (o : Option α) : Local 0 0 (liftM o : Parser α) := by
  cases o with
  | none => exact local_failure
  | some v => exact local_pure v

theorem local_guard (c : Prop) [Decidable c] : Local 0 0 (guard c : Parser Unit) := by
  unfold guard
  split
  · exact local_pure ()
  · exact local_failure

theorem local_setVerbose (v : Bool) : Local 0 0 (setVerbose v) :=
  .of_change (fun _ => ()) (fun s => { s with verbose := v }) (fun _ => rfl) (fun _ => rfl)
    fun _ _ => ⟨rfl, rfl⟩

theorem local_numberedGroup : Local 0 0 numberedGroup :=
  .of_change (fun s => .group (some s.groups) []) (fun s => { s with groups := s.groups + 1 })
    (fun _ => rfl) (fun _ => rfl) fun _ _ => ⟨rfl, rfl⟩

/-- What the parser does next may depend on where it stands, but not on the bracket. -/
theorem Local.get_bind {m n : Nat} {k : Cursor → Parser α} (hk : ∀ s, Local m n (k s))
    (hSame : ∀ s after, k (s.before after) = k s) : Local m n (get >>= k) where
  takes {s v t} h := (hk s).takes h
  agrees {s after v t} h := by
    have h : k (s.before after) (s.before after) = some (v, t) := h
    rw [hSame] at h
    exact (hk s).agrees h

/-! ### Characters -/

theorem local_take : Local 1 0 take := by
  refine .of_text (fun _ t => t.head?.map (·, t.tail)) (fun s => ?_) ?_ ?_
  · unfold take
    cases s.rest <;> rfl
  · intro b t v rest h
    cases t with
    | nil => cases h
    | cons c rest =>
        cases h
        exact ⟨List.suffix_cons _ _, Nat.le_refl _⟩
  · intro b t after v rest h
    cases t with
    | nil =>
        cases h
        exact .inl (Nat.le_refl _)
    | cons c rest =>
        cases h
        exact .inr ⟨rest, rfl, rfl⟩

theorem local_expect (c : Char) : Local 1 0 (expect c) :=
  local_take.bind fun _ => local_guard _

theorem skipBlanks_suffix (inComment : Bool) (t : Text) : skipBlanks inComment t <:+ t := by
  induction t generalizing inComment with
  | nil => exact List.suffix_refl _
  | cons c rest ih =>
      rw [skipBlanks]
      split_ifs
      · exact (ih _).trans (List.suffix_cons ..)
      · exact (ih _).trans (List.suffix_cons ..)
      · exact (ih _).trans (List.suffix_cons ..)
      · exact List.suffix_refl _

/-- Only a comment that runs to the end of the text hides a closing bracket behind it. -/
theorem skipBlanks_before (inComment : Bool) (t after : Text) :
    (skipBlanks inComment t = [] ∧
        (skipBlanks inComment (t ++ ')' :: after)).length ≤ after.length) ∨
      skipBlanks inComment (t ++ ')' :: after) = skipBlanks inComment t ++ ')' :: after := by
  induction t generalizing inComment with
  | nil =>
      cases inComment with
      | true => exact .inl ⟨rfl, (skipBlanks_suffix _ after).length_le⟩
      | false => exact .inr rfl
  | cons c rest ih =>
      rw [List.cons_append, skipBlanks, skipBlanks]
      split_ifs
      · exact ih _
      · exact ih _
      · exact ih _
      · exact .inr rfl

/-- The text after what is passed over. -/
def skipped (verbose : Bool) (t : Text) : Text := if verbose then skipBlanks false t else t

theorem skipped_of_cons (verbose : Bool) {c : Char} {t : Text} (hBlank : isBlank c = false)
    (hSign : c ≠ '#') : skipped verbose (c :: t) = c :: t := by
  cases verbose with
  | true => simp [skipped, skipBlanks, hBlank, hSign]
  | false => rfl

theorem skipped_suffix (verbose : Bool) (t : Text) : skipped verbose t <:+ t := by
  cases verbose with
  | true => exact skipBlanks_suffix false t
  | false => exact List.suffix_refl t

theorem skipped_before (verbose : Bool) (t after : Text) :
    (skipped verbose t = [] ∧ (skipped verbose (t ++ ')' :: after)).length ≤ after.length) ∨
      skipped verbose (t ++ ')' :: after) = skipped verbose t ++ ')' :: after := by
  cases verbose with
  | true => exact skipBlanks_before false t after
  | false => exact .inr rfl

theorem skip_eq (s : Cursor) : skip s = some ((), { s with rest := skipped s.verbose s.rest }) := by
  change some ((), if s.verbose then { s with rest := skipBlanks false s.rest } else s) = _
  cases s with | mk rest verbose groups names => cases verbose <;> rfl

theorem local_skip : Local 0 0 skip := by
  refine .of_text (fun b t => some ((), skipped b t)) skip_eq ?_ ?_
  · intro b t v rest h
    cases h
    exact ⟨skipped_suffix b t, (skipped_suffix b t).length_le⟩
  · intro b t after v rest h
    cases h
    exact (skipped_before b t after).imp And.right fun h => ⟨_, rfl, h⟩

theorem local_takeSkip : Local 1 0 takeSkip :=
  local_take.bind fun _ => local_skip.bind fun _ => local_pure _

/-- Where the text ends alone, a closing bracket behind it is seen. -/
theorem local_peek : Local 0 1 peek := by
  refine .of_text (fun _ t => some (t.head?, t)) (fun s => rfl) ?_ ?_
  · intro b t v rest h
    cases h
    exact ⟨List.suffix_refl _, Nat.le_refl _⟩
  · intro b t after v rest h
    cases h
    cases t with
    | nil => exact .inl (Nat.le_refl _)
    | cons c t => exact .inr ⟨_, rfl, rfl⟩

/-- A parser that treats a closing bracket like the end. -/
theorem Local.peek_bind {m : Nat} {k : Option Char → Parser α} (hk : ∀ o, Local m 0 (k o))
    (hEnd : k (some ')') = k none) : Local m 0 (peek >>= k) where
  takes h := by
    obtain ⟨o, r, hPeek, hThen⟩ := bind_eq_some.mp h
    cases hPeek
    exact (hk _).takes hThen
  agrees {s after v t} h := by
    obtain ⟨o, r, hPeek, hThen⟩ := bind_eq_some.mp h
    cases hPeek
    have hSame : k (s.before after).rest.head? = k s.rest.head? := by
      cases hRest : s.rest with
      | nil => simpa [hRest] using hEnd
      | cons c rest => simp [hRest]
    rw [hSame] at hThen
    exact ((hk _).agrees hThen).imp_right fun ⟨r, hAlone, hEq⟩ =>
      ⟨r, bind_eq_some.mpr ⟨_, s, rfl, hAlone⟩, hEq⟩

theorem local_notAtEnd : Local 0 1 notAtEnd := local_peek.bind fun _ => local_guard _

theorem isPrefixOf_before {w : Text} (hw : ')' ∉ w) (t after : Text) :
    w.isPrefixOf (t ++ ')' :: after) = w.isPrefixOf t := by
  induction w generalizing t with
  | nil => rfl
  | cons c w ih =>
      have hc : c ≠ ')' := fun h => hw (h ▸ List.mem_cons_self)
      cases t with
      | nil => exact Bool.and_eq_false_imp.mpr fun h => absurd (beq_iff_eq.mp h) hc
      | cons d t => exact congrArg (c == d && ·) (ih (fun h => hw (List.mem_cons_of_mem c h)) t)

theorem takeText_eq (w : Text) (s : Cursor) :
    takeText w s =
      if w.isPrefixOf s.rest then some (true, { s with rest := s.rest.drop w.length })
      else some (false, s) := by
  change (if w.isPrefixOf s.rest then _ else _ : Parser Bool) s = _
  cases w.isPrefixOf s.rest <;> rfl

theorem local_takeText {w : Text} (hw : ')' ∉ w) : Local 0 0 (takeText w) := by
  refine .of_text
    (fun _ t => if w.isPrefixOf t then some (true, t.drop w.length) else some (false, t))
    (fun s => ?_) ?_ ?_
  · rw [takeText_eq]
    cases w.isPrefixOf s.rest <;> rfl
  · intro b t v rest h
    split_ifs at h
    · cases h
      exact ⟨List.drop_suffix _ _, (List.drop_suffix _ _).length_le⟩
    · cases h
      exact ⟨List.suffix_refl _, Nat.le_refl _⟩
  · intro b t after v rest h
    simp only [isPrefixOf_before hw] at h
    split_ifs at h with hPrefix
    · cases h
      have := (List.isPrefixOf_iff_prefix.mp hPrefix).length_le
      exact .inr ⟨_, if_pos hPrefix, List.drop_append_of_le_length this⟩
    · cases h
      exact .inr ⟨_, if_neg hPrefix, rfl⟩

theorem spaced_suffix (q : Char → Bool) (verbose inComment : Bool) (t : Text) :
    (spaced q verbose inComment t).2 <:+ t := by
  induction t generalizing inComment with
  | nil => exact List.suffix_refl _
  | cons c rest ih =>
      rw [spaced]
      split_ifs
      · exact (ih _).trans (List.suffix_cons ..)
      · exact (ih _).trans (List.suffix_cons ..)
      · exact (ih _).trans (List.suffix_cons ..)
      · exact (ih _).trans (List.suffix_cons ..)
      · exact List.suffix_refl _

/-- A run ends before a closing bracket or goes past it. -/
theorem spaced_before (q : Char → Bool) (verbose inComment : Bool) (t after : Text) :
    (spaced q verbose inComment (t ++ ')' :: after)).2.length ≤ after.length ∨
      spaced q verbose inComment (t ++ ')' :: after) =
        ((spaced q verbose inComment t).1, (spaced q verbose inComment t).2 ++ ')' :: after) := by
  induction t generalizing inComment with
  | nil =>
      cases inComment with
      | true => exact .inl (spaced_suffix q verbose _ after).length_le
      | false =>
          simp only [List.nil_append, spaced, Bool.false_eq_true, if_false]
          split_ifs with hBlank hSign hq
          · exact absurd (Bool.and_eq_true_iff.mp hBlank).2 (by decide)
          · exact absurd (Bool.and_eq_true_iff.mp hSign).2 (by decide)
          · exact .inl (spaced_suffix q verbose _ after).length_le
          · exact .inr rfl
  | cons c rest ih =>
      rw [List.cons_append, spaced, spaced]
      split_ifs
      · exact ih _
      · exact ih _
      · exact ih _
      · exact (ih false).imp_right fun h => by rw [h]
      · exact .inr rfl

theorem local_takeRun (q : Char → Bool) : Local 0 0 (takeRun q) := by
  refine .of_text (fun b t => some (spaced q b false t)) (fun s => rfl) ?_ ?_
  · intro b t v rest h
    obtain rfl : (spaced q b false t).2 = rest := congrArg Prod.snd (Option.some.inj h)
    exact ⟨spaced_suffix .., (spaced_suffix ..).length_le⟩
  · intro b t after v rest h
    have hEq := Option.some.inj h
    rcases spaced_before q b false t after with hSeen | hAlone
    · rw [hEq] at hSeen
      exact .inl hSeen
    · rw [hAlone] at hEq
      cases hEq
      exact .inr ⟨_, rfl, rfl⟩

/-- Takes the longest run of characters that pass a test, without blanks. -/
def takeName (q : Char → Bool) : Parser Text := do
  let s ← get
  let name := s.rest.takeWhile q
  set { s with rest := s.rest.drop name.length }
  return name

theorem takeName_bind (q : Char → Bool) (k : Text → Parser α) (s : Cursor) :
    (takeName q >>= k) s =
      k (s.rest.takeWhile q) { s with rest := s.rest.drop (s.rest.takeWhile q).length } := rfl

theorem takeWhile_before (q : Char → Bool) (t after : Text) :
    ((t ++ ')' :: after).drop ((t ++ ')' :: after).takeWhile q).length).length ≤ after.length ∨
      (t ++ ')' :: after).takeWhile q = t.takeWhile q := by
  induction t with
  | nil =>
      rw [List.nil_append, List.takeWhile_cons]
      split
      · exact .inl (List.drop_suffix _ after).length_le
      · exact .inr rfl
  | cons c rest ih =>
      rw [List.cons_append, List.takeWhile_cons, List.takeWhile_cons]
      split
      · exact ih.imp_right (congrArg (c :: ·))
      · exact .inr rfl

theorem drop_takeWhile_before (q : Char → Bool) (t after : Text) :
    (t ++ ')' :: after).drop (t.takeWhile q).length =
      t.drop (t.takeWhile q).length ++ ')' :: after :=
  List.drop_append_of_le_length (List.takeWhile_prefix q).length_le

theorem local_takeName (q : Char → Bool) : Local 0 0 (takeName q) := by
  refine .of_text (fun _ t => some (t.takeWhile q, t.drop (t.takeWhile q).length)) (fun s => rfl)
    ?_ ?_
  · intro b t v rest h
    cases h
    exact ⟨List.drop_suffix _ _, (List.drop_suffix _ _).length_le⟩
  · intro b t after v rest h
    cases h
    rcases takeWhile_before q t after with hSeen | hAlone
    · exact .inl hSeen
    · rw [hAlone, drop_takeWhile_before]
      exact .inr ⟨_, rfl, rfl⟩

/-! ### Numbers and repetitions -/

def dropBlanks : Parser Unit := modify fun s => { s with rest := s.rest.dropWhile isBlank }

theorem local_dropBlanks : Local 0 0 dropBlanks := by
  refine .of_text (fun _ t => some ((), t.dropWhile isBlank)) (fun s => rfl) ?_ ?_
  · intro b t v rest h
    cases h
    exact ⟨List.dropWhile_suffix _, (List.dropWhile_suffix _).length_le⟩
  · intro b t after v rest h
    cases h
    refine .inr ⟨_, rfl, ?_⟩
    rw [List.dropWhile_append]
    split
    · rename_i hEmpty
      rw [List.isEmpty_iff.mp hEmpty]
      rfl
    · rfl

theorem number_eq : number = (do
    dropBlanks
    let digits ← takeRun Char.isDigit
    dropBlanks
    let n ← Text.digits? digits
    guard (n ≤ 4294967295)
    return n) := rfl

theorem local_number : Local 0 0 number := by
  rw [number_eq]
  exact local_dropBlanks.bind fun _ => (local_takeRun _).bind fun _ =>
    local_dropBlanks.bind fun _ => (local_lift _).bind fun _ => (local_guard _).bind fun _ =>
      local_pure _

theorem local_bounds : Local 1 0 bounds := by
  have hClose (least : Nat) (most : Option Nat) : Local 1 0 (do
      let closing ← takeSkip
      guard (closing = '\x7d')
      guard (most.all (least ≤ ·))
      return (least, most) : Parser (Nat × Option Nat)) :=
    local_takeSkip.bind fun _ => (local_guard _).bind fun _ => (local_guard _).bind fun _ =>
      local_pure _
  refine ((local_expect _).bind fun _ => local_skip.bind fun _ => local_number.bind fun least =>
    Local.peek_bind (m := 1) (fun o => ?_) rfl).mono (by decide) (by decide)
  split
  · refine (local_takeSkip.bind fun _ => local_notAtEnd.bind fun _ => local_peek.bind (i := 1)
      (j := 0) fun o => ?_).mono (by decide) (by decide)
    split
    · exact (local_pure _).bind fun _ => hClose least _
    · exact (local_number.bind fun _ => local_pure _).bind fun _ => hClose least _
  · exact (local_pure _).bind fun _ => hClose least _

theorem local_greedy : Local 0 0 greedy :=
  (local_takeText (by decide)).bind fun _ => local_pure _

theorem local_repetition : Local 1 0 repetition := by
  refine Local.peek_bind (fun o => ?_) rfl
  split
  · exact local_take.bind fun _ => local_greedy.bind fun _ => local_pure _
  · exact local_take.bind fun _ => local_greedy.bind fun _ => local_pure _
  · exact local_take.bind fun _ => local_greedy.bind fun _ => local_pure _
  · exact local_bounds.bind fun _ => local_greedy.bind fun _ => local_pure _

end Parser

end Automata.Pattern
