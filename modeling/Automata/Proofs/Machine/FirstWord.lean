import Automata.Proofs.Machine.Numbering
import Mathlib.Data.List.Induction
import Mathlib.Data.List.Shortlex

/-! # Nodes in the order of their first words

Words are put in order by their lengths, and words of one length as in a dictionary
(`Text.Before`). Breadth-first exploration that tries characters in ascending order lists the nodes
in the order of the first words that lead to them (`firstWords_nodes`).

The proof keeps a word for each node found so far, the one by which it was found (`Worded`). These
words ascend in the order of discovery, and no move of an expanded node makes a word that comes
before the one kept. So the word kept for a node comes first among all that lead there
(`Worded.firstWord`).
-/

namespace Automata

/-! ### The order of words -/

/-- Whether `v` comes before `w`: it is shorter, or as long and less at the first difference. -/
def Text.Before (v w : Text) : Prop := List.Shortlex (fun c d : Char => c < d) v w

namespace Text

theorem Before.trans {u v w : Text} (h : Before u v) (g : Before v w) : Before u w := by
  rcases List.shortlex_def.mp h with hLt | ⟨hEq, hLex⟩
  · rcases List.shortlex_def.mp g with gLt | ⟨gEq, _⟩
    · exact List.Shortlex.of_length_lt (hLt.trans gLt)
    · exact List.Shortlex.of_length_lt (hLt.trans_eq gEq)
  · rcases List.shortlex_def.mp g with gLt | ⟨gEq, gLex⟩
    · exact List.Shortlex.of_length_lt (hEq.trans_lt gLt)
    · exact List.Shortlex.of_lex (hEq.trans gEq) (List.lex_trans Char.lt_trans hLex gLex)

theorem before_concat (c : Char) (v : Text) : Before [] (v ++ [c]) :=
  List.Shortlex.of_length_lt (by simp)

theorem lex_concat {v w : Text} (hLength : v.length = w.length)
    (h : List.Lex (fun c d : Char => c < d) v w) (c d : Char) :
    List.Lex (fun c d : Char => c < d) (v ++ [c]) (w ++ [d]) := by
  induction h with
  | nil => cases hLength
  | rel hLess => exact .rel hLess
  | cons _ ih => exact .cons (ih (Nat.succ.inj hLength))

theorem Before.concat {v w : Text} (h : Before v w) (c d : Char) :
    Before (v ++ [c]) (w ++ [d]) := by
  rcases List.shortlex_def.mp h with hLt | ⟨hEq, hLex⟩
  · exact List.Shortlex.of_length_lt (by simpa using hLt)
  · exact List.Shortlex.of_lex (by simpa using hEq) (lex_concat hEq hLex c d)

/-- A word comes before another when the last characters, which alone differ, come so. -/
theorem before_concat_concat {c d : Char} (h : c < d) (v : Text) :
    Before (v ++ [c]) (v ++ [d]) :=
  List.Shortlex.append_left ((List.shortlex_singleton_iff c d).mpr h) v

end Text

open Text (Before before_concat before_concat_concat)
open Exploration (fresh mem_fresh Explored Covers)

namespace Machine

variable {σ : Type} {m : Machine σ} {alphabet : OrderedSet Char}

/-- The first word that leads from the start to a node. -/
structure FirstWord (m : Machine σ) (q : σ) (word : Text) : Prop where
  leads : m.run m.start word = some q
  first : ∀ v, m.run m.start v = some q → word = v ∨ Before word v

/-! ### The words kept -/

/-- What holds of the words that are kept for the nodes found so far. -/
structure Worded (m : Machine σ) (f : σ → Text) (done pending : List σ) : Prop where
  start : f m.start = []
  leads : ∀ q ∈ done ++ pending, m.run m.start (f q) = some q
  ascending : (done.reverse ++ pending).Pairwise fun p q => Before (f p) (f q)
  grown : ∀ q ∈ done ++ pending, f q = [] ∨ ∃ p ∈ done, ∃ c, f q = f p ++ [c]
  least : ∀ p ∈ done, ∀ c q, m.next p c = some q → f q = f p ++ [c] ∨ Before (f q) (f p ++ [c])

variable {f : σ → Text} {done pending : List σ}

theorem worded_start (m : Machine σ) : m.Worded (fun _ => []) [] [m.start] where
  start := rfl
  leads q hq := by
    rw [List.mem_singleton.mp hq, run_nil]
  ascending := List.pairwise_singleton ..
  grown _ _ := Or.inl rfl
  least _ hp := absurd hp List.not_mem_nil

theorem Worded.before_found {a : σ} (h : m.Worded f done (a :: pending)) {q : σ}
    (hq : q ∈ done ++ a :: pending) (c : Char) : Before (f q) (f a ++ [c]) := by
  rcases h.grown q hq with hNil | ⟨p, hp, d, hWord⟩
  · rw [hNil]
    exact before_concat c (f a)
  · -- the word of `q` continues that of a node expanded before `a`
    have hEarlier : Before (f p) (f a) :=
      (List.pairwise_append.mp h.ascending).2.2 p (List.mem_reverse.mpr hp) a
        (List.mem_cons_self ..)
    rw [hWord]
    exact hEarlier.concat d c

/-- **When nothing is pending, the words kept are first words.** -/
theorem Worded.firstWord (h : m.Worded f done []) (hAll : ∀ word q, m.run m.start word = some q →
    q ∈ done) {q : σ} (hq : q ∈ done) : m.FirstWord q (f q) := by
  refine ⟨h.leads q (List.mem_append_left _ hq), fun word hWord => ?_⟩
  induction word using List.reverseRecOn generalizing q with
  | nil =>
      rw [run_nil] at hWord
      obtain rfl := Option.some.inj hWord
      exact Or.inl h.start
  | append_singleton word c ih =>
      -- without its last character the word leads to a node that has been expanded, so the word
      -- kept for `q` comes no later than the one for that node with the character added
      rw [run_append, Option.bind_eq_some_iff] at hWord
      obtain ⟨p, hp, hNext⟩ := hWord
      rw [run_cons, Option.bind_eq_some_iff] at hNext
      obtain ⟨r, hNext, hr⟩ := hNext
      obtain rfl := Option.some.inj hr
      have hpDone := hAll word p hp
      have hLeast := h.least p hpDone c r hNext
      rcases ih hpDone hp with hWord | hBefore
      · rw [hWord] at hLeast
        exact hLeast
      · have hLonger : Before (f p ++ [c]) (word ++ [c]) := hBefore.concat c c
        rcases hLeast with hEq | hLess
        · rw [hEq]
          exact Or.inr hLonger
        · exact Or.inr (hLess.trans hLonger)

variable [DecidableEq σ]

/-! ### Fresh nodes -/

/-- The first character on which `a` moves to `r`. -/
def label (m : Machine σ) (cs : List Char) (a r : σ) : Option Char :=
  cs.find? fun c => m.next a c = some r

theorem label_cons_self {c : Char} {cs : List Char} {a r : σ} (h : m.next a c = some r) :
    m.label (c :: cs) a r = some c :=
  List.find?_cons_of_pos (decide_eq_true h)

theorem label_cons_of_ne {c : Char} {cs : List Char} {a r : σ} (h : m.next a c ≠ some r) :
    m.label (c :: cs) a r = m.label cs a r := by
  rw [label, List.find?_cons_of_neg (by simpa using h), label]

theorem next_of_label {cs : List Char} {a r : σ} {c : Char} (h : m.label cs a r = some c) :
    c ∈ cs ∧ m.next a c = some r := by
  rw [label] at h
  have hMove := List.find?_some h
  exact ⟨List.mem_of_find?_eq_some h, of_decide_eq_true hMove⟩

theorem exists_label {cs : List Char} {a r : σ} {c : Char} (hc : c ∈ cs)
    (h : m.next a c = some r) : ∃ d, m.label cs a r = some d := by
  rw [← Option.isSome_iff_exists, label, List.find?_isSome]
  exact ⟨c, hc, decide_eq_true h⟩

/-- When characters are tried in ascending order, the first one that leads to a node is least. -/
theorem label_least {cs : List Char} (hAscending : cs.Pairwise (· < ·)) {a r : σ} {c d : Char}
    (hLabel : m.label cs a r = some c) (hd : d ∈ cs) (hNext : m.next a d = some r) :
    c = d ∨ c < d := by
  induction cs with
  | nil => cases hd
  | cons e cs ih =>
      obtain ⟨hLess, hRest⟩ := List.pairwise_cons.mp hAscending
      by_cases he : m.next a e = some r
      · rw [label_cons_self he] at hLabel
        obtain rfl := Option.some.inj hLabel
        exact (List.mem_cons.mp hd).imp Eq.symm (hLess d)
      · rw [label_cons_of_ne he] at hLabel
        have hd' : d ∈ cs := by
          rcases List.mem_cons.mp hd with rfl | hd'
          · exact absurd hNext he
          · exact hd'
        exact ih hRest hLabel hd'

/-- Nodes that a first character does not lead to have their labels among the later ones. -/
theorem pairwise_label_cons {c : Char} {cs : List Char} {a : σ} {l : List σ}
    (h : l.Pairwise fun p q => ∀ x ∈ m.label cs a p, ∀ y ∈ m.label cs a q, x < y)
    (hNot : ∀ q ∈ l, m.next a c ≠ some q) :
    l.Pairwise fun p q => ∀ x ∈ m.label (c :: cs) a p, ∀ y ∈ m.label (c :: cs) a q, x < y := by
  refine h.imp_of_mem fun {p q} hp hq hLabels => ?_
  rw [label_cons_of_ne (hNot p hp), label_cons_of_ne (hNot q hq)]
  exact hLabels

/-- **Fresh nodes are met in the order of the first characters that lead to them.** -/
theorem pairwise_label_fresh {cs : List Char} (hAscending : cs.Pairwise (· < ·)) (a : σ)
    (done pending : List σ) :
    (fresh done pending (cs.filterMap (m.next a))).Pairwise fun p q =>
      ∀ x ∈ m.label cs a p, ∀ y ∈ m.label cs a q, x < y := by
  induction cs generalizing done with
  | nil => exact .nil
  | cons c cs ih =>
      obtain ⟨hLess, hRest⟩ := List.pairwise_cons.mp hAscending
      cases hNext : m.next a c with
      | none =>
          rw [List.filterMap_cons_none hNext]
          refine pairwise_label_cons (ih hRest done) fun q _ hMove => ?_
          rw [hNext] at hMove
          cases hMove
      | some r =>
          have hNot (known : List σ) (hr : r ∈ known ∨ r ∈ pending) :
              ∀ q ∈ fresh known pending (cs.filterMap (m.next a)), m.next a c ≠ some q := by
            intro q hq hMove
            obtain rfl := Option.some.inj (hNext.symm.trans hMove)
            obtain ⟨_, hDone, hPending⟩ := mem_fresh.mp hq
            exact hr.elim hDone hPending
          rw [List.filterMap_cons_some hNext, fresh]
          by_cases hKnown : r ∈ done ∨ r ∈ pending
          · rw [if_pos hKnown]
            exact pairwise_label_cons (ih hRest done) (hNot done hKnown)
          · -- the new node is labelled `c`, and all that are met after it have later labels
            rw [if_neg hKnown]
            have hTail := hNot (r :: done) (Or.inl (List.mem_cons_self ..))
            refine List.pairwise_cons.mpr ⟨fun q hq x hx y hy => ?_,
              pairwise_label_cons (ih hRest (r :: done)) hTail⟩
            rw [label_cons_self hNext] at hx
            rw [label_cons_of_ne (hTail q hq)] at hy
            obtain rfl := Option.some.inj hx
            exact hLess y (next_of_label hy).1

/-! ### One expansion -/

/-- The words kept after `a` has been expanded: a new node gets that of `a` and its label. -/
def wordsAfter (m : Machine σ) (cs : List Char) (known : List σ) (a : σ) (f : σ → Text) (q : σ) :
    Text :=
  if q ∈ known then f q else f a ++ (m.label cs a q).toList

theorem wordsAfter_of_mem {cs : List Char} {known : List σ} {a q : σ} (h : q ∈ known) :
    m.wordsAfter cs known a f q = f q := if_pos h

theorem wordsAfter_of_not_mem {cs : List Char} {known : List σ} {a q : σ} {c : Char}
    (h : q ∉ known) (hLabel : m.label cs a q = some c) :
    m.wordsAfter cs known a f q = f a ++ [c] := by
  rw [wordsAfter, if_neg h, hLabel, Option.toList_some]

theorem wordsAfter_of_fresh {a q : σ}
    (h : q ∈ fresh (a :: done) pending (m.successors alphabet a)) :
    ∃ c, m.label alphabet.toList a q = some c ∧
      m.wordsAfter alphabet.toList (done ++ a :: pending) a f q = f a ++ [c] := by
  obtain ⟨hSuccessor, hDone, hPending⟩ := mem_fresh.mp h
  obtain ⟨d, hd, hNext⟩ := mem_successors.mp hSuccessor
  obtain ⟨c, hLabel⟩ := exists_label (m := m) (OrderedSet.mem_def.mp hd) hNext
  refine ⟨c, hLabel, wordsAfter_of_not_mem ?_ hLabel⟩
  simp only [List.mem_append, List.mem_cons, not_or] at hDone hPending ⊢
  exact ⟨hDone.2, hDone.1, hPending⟩

/-- The words of the new nodes come after all others, in the order of the labels. -/
theorem Worded.ascending_wordsAfter {a : σ} (hAscending : alphabet.toList.Pairwise (· < ·))
    (h : m.Worded f done (a :: pending)) :
    ((a :: done).reverse ++
        (pending ++ fresh (a :: done) pending (m.successors alphabet a))).Pairwise fun p q =>
      Before (m.wordsAfter alphabet.toList (done ++ a :: pending) a f p)
        (m.wordsAfter alphabet.toList (done ++ a :: pending) a f q) := by
  have hKnown : ∀ {p}, p ∈ done.reverse ++ a :: pending → p ∈ done ++ a :: pending := fun hp => by
    simpa using hp
  rw [List.reverse_cons, List.append_assoc, List.singleton_append, ← List.cons_append,
    ← List.append_assoc]
  refine List.pairwise_append.mpr ⟨?_, ?_, ?_⟩
  · refine h.ascending.imp_of_mem fun {p q} hp hq hBefore => ?_
    rw [wordsAfter_of_mem (hKnown hp), wordsAfter_of_mem (hKnown hq)]
    exact hBefore
  · refine (pairwise_label_fresh hAscending a (a :: done) pending).imp_of_mem
      fun {p q} hp hq hLabels => ?_
    obtain ⟨c, hc, hpWord⟩ := wordsAfter_of_fresh (f := f) hp
    obtain ⟨d, hd, hqWord⟩ := wordsAfter_of_fresh (f := f) hq
    rw [hpWord, hqWord]
    exact before_concat_concat (hLabels c hc d hd) (f a)
  · intro p hp q hq
    obtain ⟨c, _, hWord⟩ := wordsAfter_of_fresh (f := f) hq
    rw [wordsAfter_of_mem (hKnown hp), hWord]
    exact h.before_found (hKnown hp) c

/-- No move of the expanded node makes a word before the one kept. -/
theorem Worded.least_wordsAfter {a q : σ} {c : Char}
    (hAscending : alphabet.toList.Pairwise (· < ·)) (h : m.Worded f done (a :: pending))
    (hc : c ∈ alphabet) (hNext : m.next a c = some q) :
    m.wordsAfter alphabet.toList (done ++ a :: pending) a f q = f a ++ [c] ∨
      Before (m.wordsAfter alphabet.toList (done ++ a :: pending) a f q) (f a ++ [c]) := by
  by_cases hKnown : q ∈ done ++ a :: pending
  · rw [wordsAfter_of_mem hKnown]
    exact Or.inr (h.before_found hKnown c)
  · obtain ⟨d, hLabel⟩ := exists_label (m := m) (OrderedSet.mem_def.mp hc) hNext
    rw [wordsAfter_of_not_mem hKnown hLabel]
    rcases label_least hAscending hLabel hc hNext with rfl | hLess
    · exact Or.inl rfl
    · exact Or.inr (before_concat_concat hLess (f a))

/-- **An expansion finds words for the new nodes that keep all this true.** -/
theorem Worded.expand_head {a : σ} (hWithin : m.Within alphabet)
    (hAscending : alphabet.toList.Pairwise (· < ·))
    (hExplored : Explored (m.successors alphabet) [m.start] done (a :: pending))
    (h : m.Worded f done (a :: pending)) :
    m.Worded (m.wordsAfter alphabet.toList (done ++ a :: pending) a f) (a :: done)
      (pending ++ fresh (a :: done) pending (m.successors alphabet a)) := by
  have hHead : a ∈ done ++ a :: pending := List.mem_append_right _ (List.mem_cons_self ..)
  have hDone : ∀ {p}, p ∈ done → p ∈ done ++ a :: pending := List.mem_append_left _
  constructor
  case start =>
    rw [wordsAfter_of_mem (hExplored.seeded m.start (List.mem_singleton.mpr rfl)), h.start]
  case leads =>
    intro q hq
    rcases Exploration.mem_expanded_iff.mp hq with hKnown | hq
    · rw [wordsAfter_of_mem hKnown, h.leads q hKnown]
    · obtain ⟨c, hLabel, hWord⟩ := wordsAfter_of_fresh (f := f) hq
      rw [hWord, run_append_singleton (h.leads a hHead) (next_of_label hLabel).2]
  case ascending => exact h.ascending_wordsAfter hAscending
  case grown =>
    intro q hq
    rcases Exploration.mem_expanded_iff.mp hq with hKnown | hq
    · rw [wordsAfter_of_mem hKnown]
      refine (h.grown q hKnown).imp_right ?_
      rintro ⟨p, hp, c, hWord⟩
      exact ⟨p, List.mem_cons_of_mem a hp, c, by rw [wordsAfter_of_mem (hDone hp), hWord]⟩
    · obtain ⟨c, _, hWord⟩ := wordsAfter_of_fresh (f := f) hq
      exact Or.inr ⟨a, List.mem_cons_self .., c, by rw [hWord, wordsAfter_of_mem hHead]⟩
  case least =>
    intro p hp c q hNext
    have hc : c ∈ alphabet := hWithin p c q hNext
    rcases List.mem_cons.mp hp with rfl | hp
    · rw [wordsAfter_of_mem hHead]
      exact h.least_wordsAfter hAscending hc hNext
    · have hKnown := hExplored.expanded p hp q (mem_successors.mpr ⟨c, hc, hNext⟩)
      rw [wordsAfter_of_mem (hDone hp), wordsAfter_of_mem hKnown]
      exact h.least p hp c q hNext

theorem ascending_alphabet (alphabet : OrderedSet Char) : alphabet.toList.Pairwise (· < ·) :=
  alphabet.ascending.imp fun h => UInt32.lt_iff_toNat_lt.mpr h

/-- **Exploration lists the nodes in the order of their first words.** -/
theorem firstWords_nodes {fuel : Nat} (hWithin : m.Within alphabet)
    (hFuel : Covers (m.successors alphabet) [m.start] fuel) :
    ∃ words, List.Forall₂ m.FirstWord (m.nodes alphabet fuel) words ∧ words.Pairwise Before := by
  obtain ⟨final, hNodes, hExplored, f, hWorded⟩ :=
    Exploration.discover_induction (P := fun done pending => ∃ f, m.Worded f done pending)
      (fun _ _ _ hExplored hFound => hFound.elim fun _ hWorded =>
        ⟨_, hWorded.expand_head hWithin (ascending_alphabet alphabet) hExplored⟩)
      (Exploration.fresh_singleton m.start ▸ ⟨_, worded_start m⟩) hFuel
  have hAll : ∀ word q, m.run m.start word = some q → q ∈ final := fun word q hRun =>
    hExplored.mem_iff_reachable.mpr ((reachable_iff_run hWithin).mpr ⟨word, hRun⟩)
  have hAscends := hWorded.ascending
  rw [List.append_nil] at hAscends
  rw [nodes, hNodes]
  refine ⟨final.reverse.map f, ?_, List.pairwise_map.mpr hAscends⟩
  rw [List.forall₂_map_right_iff, List.forall₂_same]
  exact fun q hq => hWorded.firstWord hAll (List.mem_reverse.mp hq)

end Machine

end Automata
