import Automata.Proofs.Pattern.Engine
import Automata.Proofs.Pattern.Matching

/-! # Faithful engines

What is relied on of an engine that compiles patterns, whatever it does inside (`Faithful`). Which
of several matches an engine prefers shows in the texts after which it reports a match, unless all
matches end at the end of the text; so what it reports is relied on for such patterns only. An
engine that compiles no more than texts and sets of characters, at the end of the text, is faithful
(`faithful_speller`).
-/

namespace Automata.Pattern

/-- What is relied on of an engine that knows the classes of Unicode in `table`. -/
structure Faithful (table : ClassTable) (compile : Text → Except PatternError Engine) : Prop where
  /-- It compiles patterns only. -/
  wellFormed : ∀ {t e}, compile t = .ok e → WellFormed table t
  /-- Its dead states are dead. -/
  lawful : ∀ {t e}, compile t = .ok e → e.Lawful
  /-- It does not quit while it reads ASCII characters. -/
  quits : ∀ {t e start word}, compile t = .ok e → e.start = some start → word.Ascii →
    ∀ q ∈ e.entered start (Utf8.encode word), e.quit q = false
  /-- It reports a match at the end of the text for those texts that the pattern matches in full, if
  the pattern matches at the end of texts only. -/
  reports : ∀ {t e start word}, compile t = .ok e → e.start = some start → EndsAtText table t →
    word.Ascii → (e.matchesAtEnd (e.read start (Utf8.encode word)) = true ↔ FullMatch table t word)

/-- A faithful engine accepts the ASCII texts that the pattern matches in full, if the pattern
matches at the end of texts only. -/
theorem Faithful.accepts_iff {table : ClassTable} {compile : Text → Except PatternError Engine}
    (hCompile : Faithful table compile) {t word : Text} {e : Engine} {start : Fin e.size}
    (hBuilt : compile t = .ok e) (hStart : e.start = some start) (hEnds : EndsAtText table t) :
    e.Accepts start word ↔ word.Ascii ∧ FullMatch table t word := by
  have hLawful := hCompile.lawful hBuilt
  rw [hLawful.accepts_iff]
  refine ⟨?_, ?_⟩
  · rintro ⟨hAscii, _, hMatch, _⟩
    exact ⟨hAscii, (hCompile.reports hBuilt hStart hEnds hAscii).mp hMatch⟩
  · rintro ⟨hAscii, hFull⟩
    have hMatch := (hCompile.reports hBuilt hStart hEnds hAscii).mpr hFull
    refine ⟨hAscii, hCompile.quits hBuilt hStart hAscii, hMatch, ?_⟩
    refine Bool.eq_false_iff.mpr fun hDead => ?_
    rw [hLawful.unmatched _ (hLawful.dead_read hDead _)] at hMatch
    cases hMatch

/-! ### Texts and sets of characters -/

/-- A byte that passes the test of a place leads to the next place, any other to the last one, which
is never left. -/
def spelledNext (tests : List (Nat → Bool)) (q : Fin (tests.length + 2)) (b : UInt8) :
    Fin (tests.length + 2) :=
  if h : q.val < tests.length then
    if tests[q.val] b.toNat then ⟨q.val + 1, by omega⟩ else Fin.last _
  else Fin.last _

/-- The automaton of the texts whose characters pass one test each. -/
def spelled (tests : List (Nat → Bool)) : ByteAutomaton where
  size := tests.length + 2
  start := 0
  next := spelledNext tests
  halted q := q = Fin.last _
  matchesAtEnd q := q.val = tests.length

section

variable {tests : List (Nat → Bool)}

theorem dead_spelled {q : Fin (tests.length + 2)} :
    (spelled tests).engine.dead q = true ↔ q = Fin.last _ := decide_eq_true_iff

theorem matchesAtEnd_spelled {q : Fin (tests.length + 2)} :
    (spelled tests).engine.matchesAtEnd q = true ↔ q.val = tests.length := decide_eq_true_iff

theorem spelledNext_of_le {q : Fin (tests.length + 2)} (h : tests.length ≤ q.val) (b : UInt8) :
    spelledNext tests q b = Fin.last _ := dif_neg (Nat.not_lt.mpr h)

theorem lawful_spelled (tests : List (Nat → Bool)) : (spelled tests).engine.Lawful where
  next q b h := by
    cases dead_spelled.mp h
    exact dead_spelled.mpr (spelledNext_of_le (Nat.le_succ _) b)
  unmatched q h := by
    cases dead_spelled.mp h
    exact Bool.eq_false_iff.mpr fun hMatch =>
      absurd (matchesAtEnd_spelled.mp hMatch) (Nat.succ_ne_self _)

theorem not_matchesAtEnd_last (word : Text) :
    ¬ (spelled tests).engine.matchesAtEnd
        ((spelled tests).engine.read (Fin.last (tests.length + 1)) (Utf8.encode word)) = true := by
  have hDead := (lawful_spelled tests).dead_read (dead_spelled.mpr rfl) (Utf8.encode word)
  exact Bool.eq_false_iff.mp ((lawful_spelled tests).unmatched _ hDead)

/-- From a place the texts match whose characters pass the tests that are left. -/
theorem reports_spelled {q : Fin (tests.length + 2)} (hq : q.val ≤ tests.length) {word : Text}
    (hAscii : word.Ascii) :
    (spelled tests).engine.matchesAtEnd ((spelled tests).engine.read q (Utf8.encode word)) = true ↔
      List.Forall₂ (fun c test => test (Char.toNat c) = true) word (tests.drop q.val) := by
  induction word generalizing q with
  | nil =>
      refine matchesAtEnd_spelled.trans ?_
      rw [List.forall₂_nil_left_iff, List.drop_eq_nil_iff]
      exact ⟨fun h => Nat.le_of_eq h.symm, fun h => Nat.le_antisymm hq h⟩
  | cons c word ih =>
      obtain ⟨hc, hWord⟩ := List.forall_mem_cons.mp hAscii
      have hByte : (UInt8.ofNat c.toNat).toNat = c.toNat :=
        UInt8.toNat_ofNat_of_lt (Nat.lt_trans hc (by decide))
      rw [Engine.encode_cons_of_lt hc]
      change (spelled tests).engine.matchesAtEnd ((spelled tests).engine.read
        (spelledNext tests q (UInt8.ofNat c.toNat)) (Utf8.encode word)) = true ↔ _
      rcases Nat.lt_or_eq_of_le hq with hLt | hEnd
      · rw [List.drop_eq_getElem_cons hLt, List.forall₂_cons, spelledNext, dif_pos hLt, hByte]
        split_ifs with hTest
        · exact (ih (Nat.succ_le_of_lt hLt) hWord).trans (and_iff_right hTest).symm
        · exact iff_of_false (not_matchesAtEnd_last word) fun h => hTest h.1
      · rw [spelledNext_of_le (Nat.le_of_eq hEnd.symm), hEnd, List.drop_length]
        exact iff_of_false (not_matchesAtEnd_last word) fun h => nomatch h

end

/-- The tests that the characters of a match pass, where an expression is a text or a set of
characters. -/
def Expr.tests? : Expr → Option (List (Nat → Bool))
  | literal t => some (t.map fun c n => n == c.toNat)
  | chars _ s => some [s.contains]
  | _ => none

theorem Expr.match_iff_of_tests? {e : Expr} {tests : List (Nat → Bool)}
    (h : e.tests? = some tests) {before taken after : Text} :
    e.Match before taken after ↔
      List.Forall₂ (fun c test => test (Char.toNat c) = true) taken tests := by
  cases e with
  | literal t =>
      cases h
      rw [List.forall₂_map_right_iff]
      have hSame : (fun c d : Char => (c.toNat == d.toNat) = true) = Eq := by
        funext c d
        rw [beq_iff_eq, Char.toNat_inj]
      rw [hSame, List.forall₂_eq_eq_eq]
      rfl
  | chars unicode s =>
      cases h
      refine ⟨?_, ?_⟩
      · rintro ⟨c, rfl, hc⟩
        exact .cons hc .nil
      · intro hTests
        obtain ⟨c, _, hc, hNil, rfl⟩ := List.forall₂_cons_right_iff.mp hTests
        cases hNil
        exact ⟨c, rfl, hc⟩
  | _ => cases h

/-- An engine that compiles a text or a set of characters at the end of the text, and nothing
else. -/
def speller (table : ClassTable) (t : Text) : Except PatternError Engine :=
  match meaning? table t with
  | some (.cat e (.look .textEnd)) =>
      match e.tests? with
      | some tests => .ok (spelled tests).engine
      | none => .error .malformed
  | _ => .error .malformed

theorem speller_eq_ok {table : ClassTable} {t : Text} {e : Engine} (h : speller table t = .ok e) :
    ∃ f tests, meaning? table t = some (.cat f (.look .textEnd)) ∧ f.tests? = some tests ∧
      e = (spelled tests).engine := by
  unfold speller at h
  split at h
  · rename_i f hMeaning
    split at h
    · rename_i tests hTests
      cases h
      exact ⟨f, tests, hMeaning, hTests, rfl⟩
    · cases h
  · cases h

theorem fullMatch_iff_of_tests? {table : ClassTable} {t word : Text} {f : Expr}
    {tests : List (Nat → Bool)} (hMeaning : meaning? table t = some (.cat f (.look .textEnd)))
    (hTests : f.tests? = some tests) :
    FullMatch table t word ↔
      List.Forall₂ (fun c test => test (Char.toNat c) = true) word tests := by
  have hWord : f.Match [] word [] ↔ _ := Expr.match_iff_of_tests? hTests
  rw [← hWord]
  refine ⟨?_, fun hMatch => ?_⟩
  · rintro ⟨_, hSame, hMatch⟩
    cases hMeaning.symm.trans hSame
    obtain ⟨u, _, rfl, hText, rfl, _⟩ := hMatch
    rwa [List.append_nil]
  · exact ⟨_, hMeaning, word, [], (List.append_nil word).symm, hMatch, rfl, rfl⟩

theorem faithful_speller (table : ClassTable) : Faithful table (speller table) := by
  constructor
  case wellFormed =>
    intro t e h
    obtain ⟨_, _, hMeaning, _⟩ := speller_eq_ok h
    exact Option.isSome_iff_exists.mpr ⟨_, hMeaning⟩
  case lawful =>
    intro t e h
    obtain ⟨_, tests, _, _, rfl⟩ := speller_eq_ok h
    exact lawful_spelled tests
  case quits =>
    intro t e start word h _ _ q _
    obtain ⟨_, tests, _, _, rfl⟩ := speller_eq_ok h
    rfl
  case reports =>
    intro t e start word h hStart _ hAscii
    obtain ⟨f, tests, hMeaning, hTests, rfl⟩ := speller_eq_ok h
    cases hStart
    rw [fullMatch_iff_of_tests? hMeaning hTests]
    exact reports_spelled (q := 0) (Nat.zero_le _) hAscii

end Automata.Pattern
