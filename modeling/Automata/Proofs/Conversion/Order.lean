import Automata.Proofs.Conversion.Subsets
import Automata.Proofs.Machine.FirstWord
import Automata.Proofs.Machine.Walk

/-! # Determinized states stand in the order of their first words

The automaton of a machine names each node by its place, and exploration lists the nodes in the
order of the first words that lead to them. So every state of the automaton is led to from state
zero, and of two states the one with the smaller number has the earlier first word
(`Machine.ordered_toDfa`). Determinization is an instance: the walk that makes the automaton takes
the sets of states that wait in the order in which they came, and tries the characters of the
alphabet in ascending order (`subsetConstruction_ordered`).
-/

namespace Automata

open Text (Before)

namespace Dfa

/-- The first word that leads from state zero to a state. -/
structure FirstWord (d : Dfa) (k : State) (word : Text) : Prop where
  leads : d.destination 0 word = some k
  first : ∀ v, d.destination 0 v = some k → word = v ∨ Before word v

/-- Whether the states are numbered in the order of the first words that lead to them. -/
structure Ordered (d : Dfa) : Prop where
  initial : d.initial = some 0
  /-- Every state is led to, and by a first word. -/
  reached : ∀ k < d.stateCount, ∃ word, d.FirstWord k word
  /-- A smaller number goes with an earlier first word. -/
  ascending : ∀ j k v w, j < k → d.FirstWord j v → d.FirstWord k w → Before v w

end Dfa

namespace Machine

variable {σ : Type} [DecidableEq σ] {m : Machine σ} {alphabet : OrderedSet Char} {found : List σ}
  {words : List Text}

/-- The first words of a numbered state are those of the node in its place. -/
theorem firstWord_number (hWithin : m.Within alphabet) (h : m.Numbered found) {k : State} {q : σ}
    (hk : found[k]? = some q) {word : Text} :
    (m.number alphabet found).FirstWord k word ↔ m.FirstWord q word := by
  have hLeads : ∀ v, (m.number alphabet found).destination 0 v = some k ↔
      m.run m.start v = some q := fun v => by
    rw [destination_number_eq_some_iff hWithin h, hk]
    simp
  refine ⟨fun hFirst => ⟨(hLeads word).mp hFirst.leads, fun v hv => ?_⟩,
    fun hFirst => ⟨(hLeads word).mpr hFirst.leads, fun v hv => ?_⟩⟩
  · exact hFirst.first v ((hLeads v).mpr hv)
  · exact hFirst.first v ((hLeads v).mp hv)

/-- Nodes whose first words ascend make an automaton whose states stand in this order. -/
theorem ordered_number (hWithin : m.Within alphabet) (h : m.Numbered found)
    (hWords : List.Forall₂ m.FirstWord found words) (hAscending : words.Pairwise Before) :
    (m.number alphabet found).Ordered where
  initial := rfl
  reached k hk := by
    have hk' : found[k]? = some found[k] := List.getElem?_eq_getElem hk
    obtain ⟨word, _, hFirst⟩ := exists_getElem?_of_forall₂ hWords hk'
    exact ⟨word, (firstWord_number hWithin h hk').mpr hFirst⟩
  ascending j k v w hjk hv hw := by
    obtain ⟨p, _, hp⟩ := (destination_number_eq_some_iff hWithin h).mp hv.leads
    obtain ⟨q, _, hq⟩ := (destination_number_eq_some_iff hWithin h).mp hw.leads
    obtain ⟨x, hx, hpFirst⟩ := exists_getElem?_of_forall₂ hWords hp
    obtain ⟨y, hy, hqFirst⟩ := exists_getElem?_of_forall₂ hWords hq
    rw [firstWord_number hWithin h hp] at hv
    rw [firstWord_number hWithin h hq] at hw
    obtain ⟨hjLt, rfl⟩ := List.getElem?_eq_some_iff.mp hx
    obtain ⟨hkLt, rfl⟩ := List.getElem?_eq_some_iff.mp hy
    have hListed : Before words[j] words[k] :=
      List.pairwise_iff_getElem.mp hAscending j k hjLt hkLt hjk
    -- the listed words are first words as well, so `v` comes no later and `w` no earlier
    have hEarlier : Before v words[k] := by
      rcases hv.first _ hpFirst.leads with hEq | hBefore
      · exact hEq ▸ hListed
      · exact hBefore.trans hListed
    rcases hqFirst.first _ hw.leads with hEq | hBefore
    · exact hEq ▸ hEarlier
    · exact hEarlier.trans hBefore

/-- **The states of a machine's automaton stand in the order of their first words.** -/
theorem ordered_toDfa {fuel : Nat} (hWithin : m.Within alphabet)
    (hFuel : Exploration.Covers (m.successors alphabet) [m.start] fuel) :
    (m.toDfa alphabet fuel).Ordered := by
  obtain ⟨words, hWords, hAscending⟩ := firstWords_nodes hWithin hFuel
  exact ordered_number hWithin (numbered_nodes hWithin hFuel) hWords hAscending

end Machine

namespace Nfa

variable {n : Nfa}

/-- Determinization walks until no set waits, and puts together what the walk has noted. -/
theorem exists_subsetWalk {d : Determinized} (h : n.subsetConstruction = .ok d) :
    ∃ start, n.initial = some start ∧ (n.subsetWalk start).queue = [] ∧
      (n.subsetWalk start).met = d.subsets ∧ (n.subsetWalk start).toDfa = d.dfa := by
  obtain ⟨hEps, start, hStart⟩ := initial_of_subsetConstruction h
  have hCovers := covers_subsets n start
  rw [subsetConstruction_eq hEps hStart] at h
  obtain rfl := Except.ok.inj h
  refine ⟨start, hStart, Machine.queue_walk hCovers, ?_, Machine.toDfa_walk hCovers⟩
  rw [subsetWalk, Machine.walk_eq_notes hCovers]
  simp only [Machine.notes, List.reverse_reverse, List.append_nil]

/-- **Determinized states stand in the order of their first words.** Determinization succeeds when
there are no empty moves and an initial state. Then its walk ends, every state is led to from state
zero, and of two states the one with the smaller number has the earlier first word. -/
theorem subsetConstruction_ordered (n : Nfa) :
    ((∃ d, n.subsetConstruction = .ok d) ↔
      n.hasEpsilon = false ∧ ∃ start, n.initial = some start) ∧
    ∀ d, n.subsetConstruction = .ok d → d.dfa.Ordered ∧
      ∃ start, n.initial = some start ∧ (n.subsetWalk start).queue = [] ∧
        (n.subsetWalk start).met = d.subsets ∧ (n.subsetWalk start).toDfa = d.dfa := by
  refine ⟨⟨?_, ?_⟩, fun d hOk => ⟨?_, exists_subsetWalk hOk⟩⟩
  · rintro ⟨d, hOk⟩
    exact initial_of_subsetConstruction hOk
  · rintro ⟨hEps, start, hStart⟩
    exact ⟨_, subsetConstruction_eq hEps hStart⟩
  · obtain ⟨hEps, start, hStart⟩ := initial_of_subsetConstruction hOk
    rw [subsetConstruction_eq hEps hStart] at hOk
    obtain rfl := Except.ok.inj hOk
    exact Machine.ordered_toDfa (within_subsetMachine n start) (covers_subsets n start)

end Nfa

end Automata
