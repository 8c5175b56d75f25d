import Automata.Binary.Comparison
import Automata.Proofs.Binary.RoundTrip

/-! # Layouts in different orders

Layouts compare equal exactly when they spell the same automaton (`Layout.same_iff_lists`), and then
one is the other in a different order, at each of three levels: the rows, the entries of a row, and
the states of a target. At each level lists of the same keys, with values whose bytes are the same
up to order, have the same bytes up to order (`Enumerates.perm_encodeList`). So what is stored for
equal automata differs in the order of its bytes only, and each is decoded to what both are equal
to (`Layout.encode_of_same`).
-/

namespace Automata.Binary

variable {k : Kind}

/-! ### Comparing -/

theorem perm_of_subset {α : Type} {l m : List α} (hl : l.Nodup) (hSub : l ⊆ m)
    (hLength : l.length = m.length) : l.Perm m :=
  (List.subperm_of_subset hl hSub).perm_of_length_le (Nat.le_of_eq hLength.symm)

theorem sameElements_iff {α : Type} [DecidableEq α] {l m : List α} (hl : l.Nodup) :
    sameElements l m = true ↔ l.Perm m := by
  rw [sameElements, Bool.and_eq_true, beq_iff_eq, List.all_eq_true]
  simp only [decide_eq_true_iff]
  exact ⟨fun h => perm_of_subset hl h.2 h.1, fun h => ⟨h.length_eq, fun _ => h.mem_iff.mp⟩⟩

section

variable {κ β γ : Type} [Ranked κ] [DecidableEq κ] {Spells : β → γ → Prop} {l m : List (κ × β)}
  {t : Table κ γ}

omit [Ranked κ] in
theorem lookup_eq_some_iff_mem (h : (l.map Prod.fst).Nodup) {j : κ} {b : β} :
    l.lookup j = some b ↔ (j, b) ∈ l := by
  rw [List.lookup_eq_some_iff]
  refine ⟨?_, fun hMem => ?_⟩
  · rintro ⟨before, after, rfl, _⟩
    exact List.mem_append_right _ List.mem_cons_self
  · obtain ⟨before, after, rfl⟩ := List.append_of_mem hMem
    refine ⟨before, after, rfl, fun p hp => bne_iff_ne.mpr fun hEq => ?_⟩
    rw [List.map_append, List.map_cons] at h
    exact (List.nodup_append.mp h).2.2 p.1 (List.mem_map_of_mem hp) j List.mem_cons_self hEq.symm

omit [DecidableEq κ] in
theorem Enumerates.perm_keys (hl : Enumerates Spells l t) (hm : Enumerates Spells m t) :
    (l.map Prod.fst).Perm (m.map Prod.fst) :=
  hl.keys.trans hm.keys.symm

omit [DecidableEq κ] in
theorem Enumerates.length_eq (hl : Enumerates Spells l t) (hm : Enumerates Spells m t) :
    l.length = m.length := by
  rw [← List.length_map Prod.fst, (hl.perm_keys hm).length_eq, List.length_map]

/-- **Comparing entries with those of a table asks whether they list the table**, if comparing
values asks what they spell. -/
theorem sameEntries_iff_enumerates {same : β → β → Bool} (hl : (l.map Prod.fst).Nodup)
    (hm : Enumerates Spells m t)
    (hSame : ∀ p ∈ l, ∀ c v, Spells c v → (same p.2 c = true ↔ Spells p.2 v)) :
    sameEntries same l m = true ↔ Enumerates Spells l t := by
  rw [sameEntries, Bool.and_eq_true, beq_iff_eq, List.all_eq_true]
  simp only [Option.any_eq_true, lookup_eq_some_iff_mem hm.nodup]
  refine ⟨?_, fun h => ⟨h.length_eq hm, fun p hp => ?_⟩⟩
  · rintro ⟨hLength, hFound⟩
    have hSub : l.map Prod.fst ⊆ m.map Prod.fst := by
      intro j hj
      obtain ⟨p, hp, rfl⟩ := List.mem_map.mp hj
      obtain ⟨c, hc, _⟩ := hFound p hp
      exact List.mem_map.mpr ⟨(p.1, c), hc, rfl⟩
    have hKeys : (l.map Prod.fst).Perm (m.map Prod.fst) :=
      perm_of_subset hl hSub (by rw [List.length_map, List.length_map, hLength])
    refine ⟨hKeys.trans hm.keys, fun p hp => ?_⟩
    obtain ⟨c, hc, hEqual⟩ := hFound p hp
    obtain ⟨v, hv, hSpells⟩ := hm.values _ hc
    exact ⟨v, hv, (hSame p hp c v hSpells).mp hEqual⟩
  · obtain ⟨v, hv, hSpells⟩ := h.values p hp
    obtain ⟨c, hc, hOther⟩ := hm.exists_mem hv
    exact ⟨c, hc, (hSame p hp c v hOther).mpr hSpells⟩

end

theorem Spelled.same_iff_lists {s t : Spelled k} {held : k.Target} (hs : s.Distinct)
    (ht : t.Lists held) : s.same t = true ↔ s.Lists held := by
  cases k with
  | nfa =>
      exact (sameElements_iff hs).trans ⟨fun h => h.trans ht, fun h => h.trans ht.symm⟩
  | dfa =>
      obtain rfl : t = held := ht
      exact decide_eq_true_iff

namespace Layout

variable {l m : Layout k} {a : Automaton k}

/-- **Comparing with a layout of an automaton asks whether it is spelled.** -/
theorem same_iff_lists (hl : l.Distinct) (hm : m.Lists a) : l.same m = true ↔ l.Lists a := by
  have hFinals : sameElements l.finals m.finals = true ↔ l.finals.Perm a.finals.toList :=
    (sameElements_iff hl.finals).trans
      ⟨fun h => h.trans hm.finals, fun h => h.trans hm.finals.symm⟩
  have hRows : sameEntries (sameEntries Spelled.same) l.rows m.rows = true ↔
      Enumerates (Enumerates Spelled.Lists) l.rows a.rows := by
    refine sameEntries_iff_enumerates hl.rows hm.rows fun p hp row held hRow => ?_
    obtain ⟨hSymbols, hTargets⟩ := hl.entries p hp
    exact sameEntries_iff_enumerates hSymbols hRow fun q hq _ _ =>
      Spelled.same_iff_lists (hTargets q hq)
  rw [same]
  simp only [Bool.and_eq_true, beq_iff_eq, hFinals, hRows, hm.stateCount, hm.initial]
  refine ⟨?_, fun h => ⟨⟨⟨h.stateCount, h.initial⟩, h.finals⟩, h.rows⟩⟩
  rintro ⟨⟨⟨hCount, hInitial⟩, hFinals⟩, hRows⟩
  exact ⟨hCount, hInitial, hFinals, hRows⟩

/-- Layouts without repetition compare equal if they are layouts of one automaton. -/
theorem same_iff (hl : l.Distinct) (hm : m.Distinct) :
    l.same m = true ↔ l.automaton = m.automaton := by
  rw [same_iff_lists hl (lists_iff.mpr ⟨hm, rfl⟩), lists_iff, and_iff_right hl]

end Layout

/-! ### Encoding -/

theorem perm_encodeList {α : Type} {encode : α → Bytes} {xs ys : List α} (h : xs.Perm ys) :
    (encodeList encode xs).Perm (encodeList encode ys) := by
  rw [encodeList, encodeList, h.length_eq]
  exact (h.flatMap_right encode).append_left _

/-- Bytes of entries that list one table are the same up to order, if those of values are that spell
the same. -/
theorem Enumerates.perm_encodeList {κ β γ : Type} [Ranked κ] [DecidableEq κ]
    {Spells : β → γ → Prop} {l m : List (κ × β)} {t : Table κ γ} {encode : κ × β → Bytes}
    (hl : Enumerates Spells l t) (hm : Enumerates Spells m t)
    (hEncode : ∀ j b c v, Spells b v → Spells c v → (encode (j, b)).Perm (encode (j, c))) :
    (encodeList encode l).Perm (encodeList encode m) := by
  -- what is encoded for a key is read off the second list, so that only keys are rearranged
  let value (j : κ) : Bytes := (m.lookup j).elim [] fun c => encode (j, c)
  have hValue : ∀ j c, (j, c) ∈ m → value j = encode (j, c) := by
    intro j c hc
    simp only [value, (lookup_eq_some_iff_mem hm.nodup).mpr hc, Option.elim_some]
  have hFirst : (l.flatMap encode).Perm ((l.map Prod.fst).flatMap value) := by
    rw [List.flatMap_map]
    refine List.Perm.flatMap_left l fun p hp => ?_
    obtain ⟨v, hv, hSpells⟩ := hl.values p hp
    obtain ⟨c, hc, hOther⟩ := hm.exists_mem hv
    rw [hValue p.1 c hc]
    exact hEncode p.1 p.2 c v hSpells hOther
  have hSecond : (m.map Prod.fst).flatMap value = m.flatMap encode := by
    rw [List.flatMap_map]
    exact List.flatMap_congr fun p hp => hValue p.1 p.2 hp
  rw [encodeList, encodeList, hl.length_eq hm, ← hSecond]
  exact (hFirst.trans ((hl.perm_keys hm).flatMap_right value)).append_left _

theorem Spelled.perm_encode {s t : Spelled k} {held : k.Target} (hs : s.Lists held)
    (ht : t.Lists held) : (encodeSpelled k s).Perm (encodeSpelled k t) := by
  cases k with
  | nfa => exact Binary.perm_encodeList (hs.trans ht.symm)
  | dfa =>
      obtain rfl : s = held := hs
      obtain rfl : t = s := ht
      exact .refl _

theorem perm_encodeRow {p q : List (Symbol × Spelled k)} {row : Row k}
    (hp : Enumerates Spelled.Lists p row) (hq : Enumerates Spelled.Lists q row) :
    (encodeRow k p).Perm (encodeRow k q) :=
  hp.perm_encodeList hq fun _ _ _ _ hs ht => (Spelled.perm_encode hs ht).append_left _

namespace Layout

variable {l m : Layout k} {a : Automaton k}

/-- **Layouts of one automaton have the same bytes up to order.** -/
theorem perm_encode (hl : l.Lists a) (hm : m.Lists a) : l.encode.Perm m.encode := by
  have hFinals : (encodeList encodeNumber l.finals).Perm (encodeList encodeNumber m.finals) :=
    perm_encodeList (hl.finals.trans hm.finals.symm)
  have hRows : (encodeList (fun p => encodeNumber p.1 ++ encodeRow k p.2) l.rows).Perm
      (encodeList (fun p => encodeNumber p.1 ++ encodeRow k p.2) m.rows) :=
    hl.rows.perm_encodeList hm.rows fun _ _ _ _ hp hq => (perm_encodeRow hp hq).append_left _
  rw [encode, encode, hl.stateCount, hm.stateCount, hl.initial, hm.initial]
  exact (hFinals.append_left _).append hRows

/-- **Automata that compare equal are stored with the same bytes up to order.** In whatever order
the sets and tables of either are listed, as many bytes come out and the same ones, which are those
of the ascending order. If the automata have been obtained, each is decoded, and restored from what
is handed on in its place, to an automaton that compares equal to both in whatever order it is
listed then. -/
theorem encode_of_same (l m : Layout k) (hl : l.Distinct) (hm : m.Distinct)
    (hSame : l.same m = true) :
    l.encode.length = m.encode.length ∧ l.encode.Perm m.encode ∧
      l.encode.Perm l.automaton.toBinary ∧
      (Obtainable l.automaton → ∃ a,
        Automaton.ofBinary k l.encode = .ok a ∧ Automaton.ofBinary k m.encode = .ok a ∧
          l.portable.restore = .ok ⟨k, a⟩ ∧ m.portable.restore = .ok ⟨k, a⟩ ∧
          ∀ o : Layout k, o.Lists a → o.same l = true ∧ o.same m = true) := by
  have hMine : l.Lists l.automaton := lists_iff.mpr ⟨hl, rfl⟩
  have hOther : m.Lists l.automaton := lists_iff.mpr ⟨hm, ((same_iff hl hm).mp hSame).symm⟩
  have hPerm : l.encode.Perm m.encode := perm_encode hMine hOther
  refine ⟨hPerm.length_eq, hPerm, perm_encode hMine (lists_ofAutomaton _), fun hObtainable => ?_⟩
  have hValid := Automaton.validate_eq_ok_iff.mpr hObtainable.wellFormed.1
  have hStands {o : Layout k} (ho : o.Lists l.automaton) : StandsFor o.encode l.automaton :=
    standsFor_of_lists hObtainable.storable hValid ho
  have hDecoded {o : Layout k} (ho : o.Lists l.automaton) :
      Automaton.ofBinary k o.encode = .ok l.automaton := by
    rw [← (hStands ho).decoded [], List.append_nil]
  refine ⟨l.automaton, hDecoded hMine, hDecoded hOther,
    restore_of_standsFor (p := l.portable) (hStands hMine),
    restore_of_standsFor (p := m.portable) (hStands hOther), fun o ho => ?_⟩
  have hDistinct : o.Distinct := (lists_iff.mp ho).1
  exact ⟨(same_iff_lists hDistinct hMine).mpr ho, (same_iff_lists hDistinct hOther).mpr ho⟩

/-- The automaton of `shuffled` in another order, at each level. -/
def reshuffled : Layout .nfa where
  stateCount := 300
  initial := some 251
  finals := [0, 299]
  rows := [(7, [(.char 'a', [1]), (.char 'é', [])]),
    (251, [(.char '€', [2, 255, 299]), (.char '𝄞', [0]), (.epsilon, [250])]), (0, [])]

theorem encode_of_same_reshuffled :
    shuffled.Distinct ∧ reshuffled.Distinct ∧ shuffled.same reshuffled = true ∧
      Obtainable shuffled.automaton ∧ shuffled.encode.Perm reshuffled.encode ∧
      ∃ a, Automaton.ofBinary .nfa shuffled.encode = .ok a ∧
        Automaton.ofBinary .nfa reshuffled.encode = .ok a := by
  have hDecoded : Automaton.ofBinary .nfa shuffled.encode = .ok shuffled.automaton := by
    decide +kernel
  have hFirst : shuffled.Distinct := by decide
  have hSecond : reshuffled.Distinct := by decide
  have hSame : shuffled.same reshuffled = true := by decide
  have hObtainable : Obtainable shuffled.automaton := .ofBinary shuffled.encode hDecoded
  obtain ⟨_, hPerm, _, hDecode⟩ := encode_of_same shuffled reshuffled hFirst hSecond hSame
  obtain ⟨a, hOne, hOther, _⟩ := hDecode hObtainable
  exact ⟨hFirst, hSecond, hSame, hObtainable, hPerm, a, hOne, hOther⟩

end Layout

end Automata.Binary
