import Automata.Pattern.Meaning
import Automata.Pattern.Parser
import Automata.Pattern.Search

/-! # What patterns match

An expression matches a part of a text between what stands before the part and what comes after it
(`Expr.Match`); which of several matches is preferred does not matter here. Conditions on parts of
texts are put together in sequence, with an associative law and the empty part as unit, so the form
in which expressions are kept does not change what they match (`match_ofParts`).
-/

namespace Automata.Pattern

/-- A condition on a part of a text: on what stands before it, on itself and on what comes after. -/
abbrev Span := Text → Text → Text → Prop

namespace Span

def nothing : Span := fun _ taken _ => taken = []

def exactly (t : Text) : Span := fun _ taken _ => taken = t

def seq (R S : Span) : Span := fun before taken after =>
  ∃ u v, taken = u ++ v ∧ R before u (v ++ after) ∧ S (before ++ u) v after

def chain : List Span → Span
  | [] => nothing
  | R :: rest => seq R (chain rest)

variable {R S T : Span}

theorem nothing_seq : nothing.seq R = R := by
  funext before taken after
  refine propext ⟨?_, ?_⟩
  · rintro ⟨u, v, rfl, rfl, h⟩
    rwa [List.append_nil] at h
  · intro h
    exact ⟨[], taken, rfl, rfl, by rwa [List.append_nil]⟩

theorem seq_nothing : R.seq nothing = R := by
  funext before taken after
  refine propext ⟨?_, ?_⟩
  · rintro ⟨u, v, rfl, h, rfl⟩
    rwa [List.append_nil]
  · intro h
    exact ⟨taken, [], (List.append_nil _).symm, h, rfl⟩

theorem seq_assoc : (R.seq S).seq T = R.seq (S.seq T) := by
  funext before taken after
  refine propext ⟨?_, ?_⟩
  · rintro ⟨_, w, rfl, ⟨u, v, rfl, hR, hS⟩, hT⟩
    rw [← List.append_assoc] at hT
    exact ⟨u, v ++ w, List.append_assoc .., by rwa [List.append_assoc], v, w, rfl, hS, hT⟩
  · rintro ⟨u, _, rfl, hR, v, w, rfl, hS, hT⟩
    rw [List.append_assoc] at hR hT
    exact ⟨u ++ v, w, (List.append_assoc ..).symm, ⟨u, v, rfl, hR, hS⟩, hT⟩

theorem exactly_append (t u : Text) : exactly (t ++ u) = (exactly t).seq (exactly u) := by
  funext before taken after
  refine propext ⟨?_, ?_⟩
  · rintro rfl
    exact ⟨t, u, rfl, rfl, rfl⟩
  · rintro ⟨_, _, rfl, rfl, rfl⟩
    rfl

theorem chain_append (Rs Ss : List Span) : chain (Rs ++ Ss) = (chain Rs).seq (chain Ss) := by
  induction Rs with
  | nil => exact nothing_seq.symm
  | cons R Rs ih => rw [List.cons_append, chain, ih, chain, seq_assoc]

end Span

/-! ### Conditions on places -/

/-- Whether a character, if there is one, is a word character of all scripts or of ASCII. -/
def isWordCharacter (unicode : Bool) (c : Option Char) : Bool :=
  c.any fun c => (if unicode then Unicode.word else CharSet.asciiWord).contains c.toNat

/-- Whether a condition holds between two texts. -/
def Look.Between (before after : Text) : Look → Prop
  | textStart => before = []
  | textEnd => after = []
  | lineStart => before = [] ∨ before.getLast? = some '\n'
  | lineEnd => after = [] ∨ after.head? = some '\n'
  | lineStartCrlf =>
      before = [] ∨ before.getLast? = some '\n' ∨
        (before.getLast? = some '\r' ∧ after.head? ≠ some '\n')
  | lineEndCrlf =>
      after = [] ∨ after.head? = some '\r' ∨
        (after.head? = some '\n' ∧ before.getLast? ≠ some '\r')
  | word unicode edge =>
      edge.holds (isWordCharacter unicode before.getLast?) (isWordCharacter unicode after.head?)

/-! ### Expressions -/

namespace Expr

def Match : Expr → Span
  | empty => .nothing
  | literal t => .exactly t
  | chars _ s => fun _ taken _ => ∃ c : Char, taken = [c] ∧ s.contains c.toNat
  | look l => fun before taken after => taken = [] ∧ l.Between before after
  | group _ body => Match body
  | cat first rest => (Match first).seq (Match rest)
  | alt first rest => fun before taken after =>
      Match first before taken after ∨ Match rest before taken after
  | rep body least most _ => fun before taken after =>
      ∃ n, least ≤ n ∧ (∀ limit ∈ most, n ≤ limit) ∧
        Span.chain (List.replicate n (Match body)) before taken after

def MatchAll (es : List Expr) : Span := .chain (es.map Match)

theorem matchAll_append (es fs : List Expr) :
    MatchAll (es ++ fs) = (MatchAll es).seq (MatchAll fs) := by
  rw [MatchAll, List.map_append, Span.chain_append]
  rfl

theorem match_sequence (es : List Expr) : (sequence es).Match = MatchAll es := by
  induction es with
  | nil => rfl
  | cons e rest ih =>
      cases rest with
      | nil => exact Span.seq_nothing.symm
      | cons f rest => exact congrArg (Span.seq e.Match) ih

theorem matchAll_parts (e : Expr) : MatchAll e.parts = e.Match := by
  induction e with
  | empty => rfl
  | cat first rest _ ih => exact congrArg (Span.seq first.Match) ih
  | _ => exact Span.seq_nothing

theorem matchAll_joined (es : List Expr) : MatchAll (joined es) = MatchAll es := by
  induction es with
  | nil => rfl
  | cons e rest ih =>
      have hCons : MatchAll (e :: joined rest) = MatchAll (e :: rest) :=
        congrArg (Span.seq e.Match) ih
      cases e with
      | literal t =>
          rw [joined]
          split
          · rename_i u others hJoined
            rw [hJoined] at hCons
            rw [← hCons]
            exact (congrArg (Span.seq · _) (Span.exactly_append t u)).trans Span.seq_assoc
          · exact hCons
      | _ => exact hCons

/-- **The form of sequences does not matter.** -/
theorem match_ofParts (es : List Expr) : (ofParts es).Match = MatchAll es := by
  rw [ofParts, match_sequence, matchAll_joined]
  induction es with
  | nil => rfl
  | cons e es ih =>
      rw [List.flatMap_cons, matchAll_append, matchAll_parts, ih]
      rfl

end Expr

/-! ### Patterns -/

variable (table : ClassTable)

/-- The expression of a pattern, when the text is one. -/
def meaning? (t : Text) : Option Expr := Tree.parse? t >>= Expr.ofTree? table

def WellFormed (t : Text) : Prop := (meaning? table t).isSome

instance (t : Text) : Decidable (WellFormed table t) := inferInstanceAs (Decidable (_ = true))

/-- Whether a text is a pattern that matches `word` from its first character to its last. -/
def FullMatch (t word : Text) : Prop := ∃ e, meaning? table t = some e ∧ e.Match [] word []

def EndsAtText (t : Text) : Prop :=
  ∀ e before taken after, meaning? table t = some e → e.Match before taken after → after = []

end Automata.Pattern
