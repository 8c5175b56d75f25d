import Automata.Binary.Portable
import Automata.Proofs.Binary.Storable

/-! # Binary forms that are read back

The bytes of a layout stand for the automaton that is spelled (`StandsFor`): it is decoded from
them, whatever follows them, and from nothing shorter. Since the order in which it is spelled out
does not matter, and what is decoded is valid and can be stored, decoding and encoding can be
repeated at will.
-/

namespace Automata.Binary

variable {k : Kind} {a : Automaton k} {l : Layout k} {bytes : Bytes}

/-- The bytes stand for the automaton: it is decoded from them, whatever follows them, and nothing
is decoded from them when they are cut short. -/
structure StandsFor (bytes : Bytes) (a : Automaton k) : Prop where
  decoded : ∀ rest, Automaton.ofBinary k (bytes ++ rest) = .ok a
  cut_short : ∀ short, short <+: bytes → short ≠ bytes → ∃ e, Automaton.ofBinary k short = .error e

theorem standsFor_of_fits (hFits : l.Fits) (hValid : l.automaton.validate = .ok ()) :
    StandsFor l.encode l.automaton := by
  have hReads := Layout.reads_decode hFits
  refine ⟨fun rest => ?_, fun short hPrefix hCut => ?_⟩
  · rw [Automaton.ofBinary, hReads rest]
    simp only [hValid]
    rfl
  · obtain ⟨e, hError⟩ := hReads.error_of_cut (Layout.steady_decode k) hPrefix hCut
    refine ⟨.decode e, ?_⟩
    rw [Automaton.ofBinary, hError]

theorem standsFor_of_lists (hStorable : a.Storable) (hValid : a.validate = .ok ())
    (hLists : l.Lists a) : StandsFor l.encode a := by
  have hFits := Layout.fits_of_lists (Automaton.validate_eq_ok_iff.mp hValid) hStorable hLists
  have hEq := Layout.automaton_of_lists hLists
  have hStands := standsFor_of_fits hFits (hEq.symm ▸ hValid)
  rw [hEq] at hStands
  exact hStands

/-- What is obtained is stored and decoded. -/
theorem standsFor_toBinary (h : Obtainable a) : StandsFor a.toBinary a :=
  standsFor_of_lists h.storable (Automaton.validate_eq_ok_iff.mpr h.wellFormed.1)
    (Layout.lists_ofAutomaton a)

theorem restore_of_standsFor {p : Portable} {a : Automaton p.kind} (h : StandsFor p.bytes a) :
    p.restore = .ok ⟨p.kind, a⟩ := by
  have hDecoded := h.decoded []
  rw [List.append_nil] at hDecoded
  rw [Portable.restore, hDecoded]
  rfl

/-- **A valid automaton is decoded from its binary form.** In whatever order its sets and tables are
spelled out, it is decoded from the bytes, whatever follows them, and no shorter bytes are accepted.
The same bytes are handed on in its place, and it is restored from them. -/
theorem encode_roundTrip (hStorable : a.Storable) (hValid : a.validate = .ok ())
    (hLists : l.Lists a) :
    StandsFor l.encode a ∧ StandsFor l.portable.bytes a ∧ l.portable.restore = .ok ⟨k, a⟩ := by
  have hStands := standsFor_of_lists hStorable hValid hLists
  exact ⟨hStands, hStands, restore_of_standsFor (p := l.portable) hStands⟩

/-- A spelling out of order, with an empty row, an empty target and characters of one to four
bytes. -/
def shuffled : Layout .nfa where
  stateCount := 300
  initial := some 251
  finals := [299, 0]
  rows := [(251, [(.epsilon, [250]), (.char '€', [299, 2, 255]), (.char '𝄞', [0])]), (0, []),
    (7, [(.char 'é', []), (.char 'a', [1])])]

theorem encode_roundTrip_shuffled :
    shuffled.automaton.Storable ∧ shuffled.automaton.validate = .ok () ∧
      shuffled.Lists shuffled.automaton ∧ StandsFor shuffled.encode shuffled.automaton ∧
      StandsFor shuffled.portable.bytes shuffled.automaton ∧
      shuffled.portable.restore = .ok ⟨.nfa, shuffled.automaton⟩ := by
  have hDecoded : Automaton.ofBinary .nfa shuffled.encode = .ok shuffled.automaton := by
    decide +kernel
  obtain ⟨hStorable, hValid⟩ := Automaton.storable_of_ofBinary hDecoded
  have hLists : shuffled.Lists shuffled.automaton := Layout.lists_iff.mpr ⟨by decide, rfl⟩
  exact ⟨hStorable, hValid, hLists, encode_roundTrip hStorable hValid hLists⟩

end Automata.Binary
