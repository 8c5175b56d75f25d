import Automata.Proofs.Pattern.Faithful
import Automata.Proofs.Pattern.Unopened

/-! # Wrapped patterns

A text is put into a group, after which the end of the text is asked for, before it is compiled.
When the wrapped text is a pattern, the text by itself is one and stands for the same, except that a
match has to end with the text; unless the text closes the group of the wrapper by a bracket of its
own (`meaning?_wrapped`). So an automaton that comes of a wrapped text accepts what the text matches
in full exactly if the text opens all brackets that it closes (`ofEngine_wrapped`).
-/

namespace Automata.Pattern

/-! ### Where the group of a wrapper ends -/

theorem wrapped_eq (r : Text) : wrapped r = '(' :: '?' :: ':' :: (r ++ [')', '$']) := rfl

/-- What the parser does behind the bracket that a wrapper opens. -/
theorem alternatives_wrapper (fuel : Nat) (t : Text) :
    Parser.alternatives (fuel + 1) [] [] ⟨'(' :: '?' :: ':' :: t, false, 0, []⟩ = (do
      let body ← Parser.alternatives fuel [] []
      Parser.expect ')'
      Parser.setVerbose false
      Parser.alternatives fuel [] [.group none [] body] : Parser Tree) ⟨t, false, 0, []⟩ := rfl

theorem alternatives_dollar (fuel : Nat) (part : Tree) (s : Cursor) (hs : s.rest = ['$'])
    (hVerbose : s.verbose = false) :
    Parser.alternatives (fuel + 2) [] [part] s =
      some (.concat [part, .assertion .lineEnd], { s with rest := [] }) := by
  cases s
  cases hs
  cases hVerbose
  rfl

/-- Past the bracket that a wrapper closes nothing closes the one that it opened. -/
theorem expect_past_wrapper {r : Text} {s : Cursor} (hSuffix : s.rest <:+ r ++ [')', '$'])
    (hPast : s.rest.length ≤ 1) : Parser.expect ')' s = none := by
  have hDollar : ['$'] <:+ r ++ [')', '$'] := ⟨r ++ [')'], by simp⟩
  have hRest : s.rest <:+ ['$'] := List.suffix_of_suffix_length_le hSuffix hDollar hPast
  cases s
  rcases List.suffix_cons_iff.mp hRest with rfl | hNil
  · rfl
  · cases List.suffix_nil.mp hNil
    rfl

/-- **The group of a wrapper is closed by the wrapper, unless the pattern closes a bracket that it
did not open.** -/
theorem parse?_wrapped {r : Text} {tree : Tree} (h : Tree.parse? (wrapped r) = some tree) :
    Unopened r ∨ ∃ body, Tree.parse? r = some body ∧
      tree = .concat [.group none [] body, .assertion .lineEnd] := by
  obtain ⟨hFront, hDepth⟩ := Tree.parse?_eq_some.mp h
  obtain ⟨s, hRun, hEnd⟩ := Tree.front?_eq_some.mp hFront
  rw [wrapped_eq] at hRun
  have hFuel : (wrapped r).length = r.length + 5 := by simp [wrapped_eq]
  rw [wrapped_eq] at hFuel
  rw [hFuel, alternatives_wrapper] at hRun
  obtain ⟨body, t, hBody, hRun⟩ := Parser.bind_eq_some.mp hRun
  obtain ⟨_, u, hClose, hRun⟩ := Parser.bind_eq_some.mp hRun
  obtain ⟨_, v, hReset, hRun⟩ := Parser.bind_eq_some.mp hRun
  -- Inside the group the text is `r` before the closing bracket and the dollar sign of the wrapper.
  have hLocal := Parser.local_alternatives (r.length + 5) [] []
  have hBefore : Parser.alternatives (r.length + 5) [] []
      ((⟨r, false, 0, []⟩ : Cursor).before ['$']) = some (body, t) := hBody
  rcases hLocal.agrees hBefore with hPast | ⟨t, hAlone, rfl⟩
  · rw [expect_past_wrapper (hLocal.takes hBody).1 hPast] at hClose
    cases hClose
  · have hEnough : Parser.alternatives (r.length + 5) [] [] ⟨r, false, 0, []⟩ =
        Parser.alternatives (r.length + 1) [] [] ⟨r, false, 0, []⟩ :=
      Parser.alternatives_fuel (Nat.lt_add_of_pos_right (by decide)) (Nat.lt_succ_self _)
    rw [hEnough] at hAlone
    cases hRest : t.rest with
    | cons c rest =>
        obtain rfl : c = ')' := Parser.stops_alternatives _ _ _ _ _ _ hAlone c (by rw [hRest]; rfl)
        exact .inl ⟨body, rest, Tree.front?_eq_some.mpr ⟨t, hAlone, hRest⟩⟩
    | nil =>
        have hBodyFront : Tree.front? r = some (body, []) :=
          Tree.front?_eq_some.mpr ⟨t, hAlone, hRest⟩
        cases t
        cases hRest
        cases hClose
        cases hReset
        rw [alternatives_dollar (r.length + 3) _ _ rfl rfl] at hRun
        cases hRun
        refine .inr ⟨body, Tree.parse?_eq_some.mpr ⟨hBodyFront, ?_⟩, rfl⟩
        simp only [Tree.depth, Tree.depthAll] at hDepth
        omega

/-! ### What wrapped patterns match -/

section

variable {table : ClassTable}

/-- The end of the text is asked for after what the pattern stands for. -/
theorem ofTree?_wrapped {body : Tree} {e : Expr}
    (h : Expr.ofTree? table (.concat [.group none [] body, .assertion .lineEnd]) = some e) :
    ∃ e', Expr.ofTree? table body = some e' ∧ e = .ofParts [e', .look .textEnd] := by
  have hInitial : Flags.initial.change [] = Flags.initial := rfl
  simp only [Expr.ofTree?, Flags.expression, Flags.expressions, hInitial] at h ⊢
  cases hBody : Flags.initial.expression table body with
  | none =>
      rw [hBody] at h
      cases h
  | some o =>
      rw [hBody] at h
      cases h
      exact ⟨o.1, rfl, rfl⟩

theorem match_wrapped (e : Expr) (before taken after : Text) :
    (Expr.ofParts [e, .look .textEnd]).Match before taken after ↔
      e.Match before taken after ∧ after = [] := by
  have hForm : (Expr.ofParts [e, .look .textEnd]).Match =
      e.Match.seq (Expr.look .textEnd).Match := by
    rw [Expr.match_ofParts]
    exact congrArg (Span.seq e.Match) Span.seq_nothing
  rw [hForm]
  refine ⟨?_, ?_⟩
  · rintro ⟨u, _, rfl, hMatch, rfl, rfl⟩
    rw [List.append_nil]
    exact ⟨hMatch, rfl⟩
  · rintro ⟨hMatch, rfl⟩
    exact ⟨taken, [], (List.append_nil taken).symm, hMatch, rfl, rfl⟩

/-- **A wrapped pattern stands for the pattern at the end of the text**, unless the pattern closes a
bracket that it did not open. -/
theorem meaning?_wrapped {r : Text} {e : Expr} (h : meaning? table (wrapped r) = some e) :
    Unopened r ∨ ∃ e', meaning? table r = some e' ∧ e = .ofParts [e', .look .textEnd] := by
  obtain ⟨tree, hTree, hMeaning⟩ := Option.bind_eq_some_iff.mp h
  refine (parse?_wrapped hTree).imp_right fun ⟨body, hBody, hEq⟩ => ?_
  subst hEq
  obtain ⟨e', he', rfl⟩ := ofTree?_wrapped hMeaning
  exact ⟨e', Option.bind_eq_some_iff.mpr ⟨body, hBody, he'⟩, rfl⟩

theorem endsAtText_wrapped {r : Text} (h : ¬ Unopened r) : EndsAtText table (wrapped r) := by
  intro e before taken after hMeaning hMatch
  obtain ⟨e', _, rfl⟩ := (meaning?_wrapped hMeaning).resolve_left h
  exact ((match_wrapped ..).mp hMatch).2

theorem not_unopened_of_wellFormed {t : Text} (h : WellFormed table t) : ¬ Unopened t := by
  obtain ⟨e, hMeaning⟩ := Option.isSome_iff_exists.mp h
  obtain ⟨tree, hTree, _⟩ := Option.bind_eq_some_iff.mp hMeaning
  exact not_unopened_of_parse? hTree

theorem wellFormed_of_wrapped {r : Text} (hWrapped : WellFormed table (wrapped r))
    (h : ¬ Unopened r) : WellFormed table r := by
  obtain ⟨e, hMeaning⟩ := Option.isSome_iff_exists.mp hWrapped
  obtain ⟨e', hAlone, _⟩ := (meaning?_wrapped hMeaning).resolve_left h
  exact Option.isSome_iff_exists.mpr ⟨e', hAlone⟩

theorem fullMatch_wrapped {r word : Text} (hWrapped : WellFormed table (wrapped r))
    (h : ¬ Unopened r) : FullMatch table (wrapped r) word ↔ FullMatch table r word := by
  obtain ⟨e, hMeaning⟩ := Option.isSome_iff_exists.mp hWrapped
  obtain ⟨e', hAlone, rfl⟩ := (meaning?_wrapped hMeaning).resolve_left h
  refine ⟨?_, ?_⟩
  · rintro ⟨f, hf, hMatch⟩
    cases hMeaning.symm.trans hf
    exact ⟨e', hAlone, ((match_wrapped ..).mp hMatch).1⟩
  · rintro ⟨f, hf, hMatch⟩
    cases hAlone.symm.trans hf
    exact ⟨_, hMeaning, (match_wrapped ..).mpr ⟨hMatch, rfl⟩⟩

end

end Automata.Pattern

namespace Automata

open Pattern

/-- **Wrapping keeps the meaning of a pattern, unless the pattern closes a bracket that it did not
open.** When an automaton is built, with whatever faithful engine, the text by itself is a pattern
exactly if it closes no such bracket, and then the automaton accepts the ASCII texts that the
pattern matches in full. -/
theorem Dfa.ofEngine_wrapped (table : ClassTable) (compile : Text → Except PatternError Engine)
    (hCompile : Faithful table compile) (r : Text) (d : Dfa)
    (hBuilt : Dfa.ofEngine compile r = .ok d) :
    (WellFormed table r ↔ ¬ Unopened r) ∧
      (¬ Unopened r → ∀ word, ∃ verdict, d.accepts word = .ok verdict ∧
        (verdict = true ↔ word.Ascii ∧ FullMatch table r word)) := by
  rw [Dfa.ofEngine] at hBuilt
  cases hEngine : compile (wrapped r) with
  | error err =>
      rw [hEngine] at hBuilt
      cases hBuilt
  | ok e =>
      have hWrapped := hCompile.wellFormed hEngine
      rw [hEngine] at hBuilt
      cases hStart : e.start with
      | none =>
          simp only [Engine.toDfa, hStart] at hBuilt
          cases hBuilt
      | some start =>
          simp only [Engine.toDfa, hStart] at hBuilt
          cases hBuilt
          refine ⟨⟨?_, wellFormed_of_wrapped hWrapped⟩, fun hOpened word => ?_⟩
          · exact not_unopened_of_wellFormed
          · refine ⟨_, (e.imports_walk start).accepts word, decide_eq_true_iff.trans ?_⟩
            rw [hCompile.accepts_iff hEngine hStart (endsAtText_wrapped hOpened),
              fullMatch_wrapped hWrapped hOpened]

/-- The automaton of a wrapped text that an engine spells out. -/
theorem Dfa.ofEngine_speller {r : Text} {e : Expr} {tests : List (Nat → Bool)}
    (hMeaning : meaning? .none (wrapped r) = some (.cat e (.look .textEnd)))
    (hTests : e.tests? = some tests) :
    Dfa.ofEngine (speller .none) r =
      .ok ((spelled tests).engine.walk (spelled tests).start).toDfa := by
  rw [Dfa.ofEngine, speller, hMeaning]
  simp only [hTests]
  rfl

/-- The wrapper of a choice goes around both alternatives. -/
theorem Dfa.ofEngine_wrapped_choice :
    Faithful .none (speller .none) ∧ ∃ d, Dfa.ofEngine (speller .none) "a|b".toList = .ok d ∧
      ¬ Unopened "a|b".toList ∧ ∀ word, ∃ verdict, d.accepts word = .ok verdict ∧
        (verdict = true ↔ word.Ascii ∧ FullMatch .none "a|b".toList word) := by
  have hMeaning : meaning? .none (wrapped "a|b".toList) =
      some (.cat (.chars true (.range 0x61 0x62)) (.look .textEnd)) := by
    decide +kernel
  have hBuilt := ofEngine_speller hMeaning rfl
  obtain ⟨hIff, hAccepts⟩ := ofEngine_wrapped .none _ (faithful_speller .none) _ _ hBuilt
  have hOpened : ¬ Unopened "a|b".toList := hIff.mp (by decide +kernel)
  exact ⟨faithful_speller .none, _, hBuilt, hOpened, hAccepts hOpened⟩

/-- A pattern that closes the group of the wrapper is built by a faithful engine, although it is
none by itself. -/
theorem Dfa.ofEngine_unopened :
    Faithful .none (speller .none) ∧ ∃ d, Dfa.ofEngine (speller .none) "a)(?:b".toList = .ok d ∧
      d.accepts "ab".toList = .ok true ∧ Unopened "a)(?:b".toList ∧
      ¬ WellFormed .none "a)(?:b".toList := by
  have hMeaning : meaning? .none (wrapped "a)(?:b".toList) =
      some (.cat (.literal "ab".toList) (.look .textEnd)) := by
    decide +kernel
  have hFront : Tree.front? "a)(?:b".toList = some (.literal ⟨'a', false⟩, ")(?:b".toList) := rfl
  have hUnopened : Unopened "a)(?:b".toList := ⟨_, _, hFront⟩
  refine ⟨faithful_speller .none, _, ofEngine_speller hMeaning rfl, ?_, hUnopened,
    fun h => not_unopened_of_wellFormed h hUnopened⟩
  decide +kernel

end Automata
