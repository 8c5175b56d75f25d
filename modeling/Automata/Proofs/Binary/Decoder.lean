import Automata.Binary.Layout
import Automata.Proofs.Automaton.Edits

/-! # Decoders and the bytes that follow

A decoder takes what it reads off the front of a sequence of bytes. `Reads` says that it takes off
exactly the given bytes, whatever follows them, and `Steady` that what it has once read does not
change when more bytes follow. Both carry over from the parts of a decoder to the whole. Together
they show that bytes that are read whole cannot be read when they are cut short
(`Reads.error_of_cut`): a decoder content with less would be content with less of the whole as well.
-/

namespace Automata.Binary

variable {α β : Type} {d : Decoder α} {f : α → Decoder β}

theorem bind_eq_ok {bytes rest : Bytes} {b : β} :
    (d >>= f) bytes = .ok (b, rest) ↔
      ∃ a between, d bytes = .ok (a, between) ∧ f a between = .ok (b, rest) := by
  have hStep : (d >>= f) bytes = d bytes >>= fun p => f p.1 p.2 := rfl
  rw [hStep, bind_eq_ok_iff, Prod.exists]

/-! ### Reading whole -/

/-- The decoder takes the bytes off as `x`, whatever follows them. -/
def Reads (d : Decoder α) (bytes : Bytes) (x : α) : Prop :=
  ∀ rest, d (bytes ++ rest) = .ok (x, rest)

theorem Reads.pure (x : α) : Reads (pure x) [] x := fun _ => rfl

theorem Reads.bind {bytes more : Bytes} {a : α} {b : β} (h : Reads d bytes a)
    (g : Reads (f a) more b) : Reads (d >>= f) (bytes ++ more) b := by
  intro rest
  rw [List.append_assoc]
  exact bind_eq_ok.mpr ⟨a, more ++ rest, h (more ++ rest), g rest⟩

theorem Reads.map {bytes : Bytes} {a : α} (h : Reads d bytes a) (g : α → β) :
    Reads (do let x ← d; return g x) bytes (g a) := by
  have hBind := h.bind (f := fun x => Pure.pure (g x)) (Reads.pure (g a))
  rw [List.append_nil] at hBind
  exact hBind

theorem reads_takeByte (b : UInt8) : Reads takeByte [b] b := fun _ => rfl

theorem reads_takeBytes (bytes : Bytes) : Reads (takeBytes bytes.length) bytes bytes := by
  intro rest
  have hLong : ¬ (bytes ++ rest).length < bytes.length := by
    rw [List.length_append]
    omega
  rw [takeBytes, if_neg hLong, List.take_left, List.drop_left]

theorem reads_decodeMany {encode : α → Bytes} {xs : List α}
    (h : ∀ x ∈ xs, Reads d (encode x) x) :
    Reads (decodeMany d xs.length) (xs.flatMap encode) xs := by
  induction xs with
  | nil => exact Reads.pure []
  | cons x xs ih =>
      have hRest := ih fun y hy => h y (List.mem_cons_of_mem x hy)
      exact (h x (List.mem_cons_self ..)).bind (hRest.map (x :: ·))

/-! ### What can be read -/

/-- Whether the decoder reads nothing but what has the property. -/
def Yields (d : Decoder α) (p : α → Prop) : Prop :=
  ∀ bytes x rest, d bytes = .ok (x, rest) → p x

theorem yields_decodeMany {p : α → Prop} (h : Yields d p) (count : Nat) :
    Yields (decodeMany d count) fun xs => ∀ x ∈ xs, p x := by
  induction count with
  | zero =>
      intro bytes xs rest hRead
      obtain ⟨rfl, _⟩ := Prod.mk.inj (Except.ok.inj hRead)
      exact fun x hx => absurd hx List.not_mem_nil
  | succ count ih =>
      intro bytes xs rest hRead
      obtain ⟨x, _, hFirst, hRead⟩ := bind_eq_ok.mp hRead
      obtain ⟨others, _, hOthers, hRead⟩ := bind_eq_ok.mp hRead
      obtain ⟨rfl, _⟩ := Prod.mk.inj (Except.ok.inj hRead)
      exact List.forall_mem_cons.mpr ⟨h _ _ _ hFirst, ih _ _ _ hOthers⟩

/-! ### Reading with more behind -/

/-- What the decoder reads does not change when more bytes follow. -/
def Steady (d : Decoder α) : Prop :=
  ∀ bytes x rest, d bytes = .ok (x, rest) → ∀ more, d (bytes ++ more) = .ok (x, rest ++ more)

theorem Steady.pure (x : α) : Steady (pure x) := by
  intro bytes y rest h more
  obtain ⟨rfl, rfl⟩ := Prod.mk.inj (Except.ok.inj h)
  rfl

theorem Steady.throw (e : DecodeError) : Steady (throw e : Decoder α) := by
  intro bytes x rest h
  cases h

theorem Steady.bind (h : Steady d) (g : ∀ a, Steady (f a)) : Steady (d >>= f) := by
  intro bytes b rest hBoth more
  obtain ⟨a, between, hFirst, hSecond⟩ := bind_eq_ok.mp hBoth
  exact bind_eq_ok.mpr ⟨a, between ++ more, h _ _ _ hFirst more, g a _ _ _ hSecond more⟩

theorem Steady.ite {p : Prop} [Decidable p] {e : Decoder α} (h : Steady d) (g : Steady e) :
    Steady (if p then d else e) := by
  split
  · exact h
  · exact g

theorem steady_takeByte : Steady takeByte := by
  intro bytes x rest h more
  cases bytes with
  | nil => cases h
  | cons b bytes =>
      obtain ⟨rfl, rfl⟩ := Prod.mk.inj (Except.ok.inj h)
      rfl

theorem steady_takeBytes (count : Nat) : Steady (takeBytes count) := by
  intro bytes x rest h more
  rw [takeBytes] at h ⊢
  by_cases hShort : bytes.length < count
  · rw [if_pos hShort] at h
    cases h
  · have hLong : ¬ (bytes ++ more).length < count := by
      rw [List.length_append]
      omega
    rw [if_neg hShort] at h
    obtain ⟨rfl, rfl⟩ := Prod.mk.inj (Except.ok.inj h)
    rw [if_neg hLong, List.take_append_of_le_length (by omega),
      List.drop_append_of_le_length (by omega)]

theorem steady_decodeMany (h : Steady d) (count : Nat) : Steady (decodeMany d count) := by
  induction count with
  | zero => exact .pure []
  | succ count ih => exact h.bind fun x => ih.bind fun rest => .pure (x :: rest)

/-! ### Cutting short -/

/-- **Bytes that are read whole are refused when they are cut short.** -/
theorem Reads.error_of_cut (hSteady : Steady d) {bytes short : Bytes} {x : α}
    (h : Reads d bytes x) (hPrefix : short <+: bytes) (hCut : short ≠ bytes) :
    ∃ e, d short = .error e := by
  cases hShort : d short with
  | error e => exact ⟨e, rfl⟩
  | ok p =>
      obtain ⟨y, rest⟩ := p
      obtain ⟨more, rfl⟩ := hPrefix
      -- the bytes cut off would be left over although everything is read
      have hMore := hSteady short y rest hShort more
      have hWhole := h []
      rw [List.append_nil, hMore] at hWhole
      obtain ⟨_, hRest⟩ := Prod.mk.inj (Except.ok.inj hWhole)
      have hNil : more = [] := (List.append_eq_nil_iff.mp hRest).2
      exact absurd (by rw [hNil, List.append_nil]) hCut

end Automata.Binary
