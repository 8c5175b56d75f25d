import Automata.Proofs.Binary.Number

/-! # Layouts read back

When the numbers and the lengths of a layout have room in their places (`Layout.Fits`), decoding
takes its bytes off as the layout (`Layout.reads_decode`). The proofs follow the layout part by
part: a part is read back when its own parts are, and no part looks at the bytes behind it
(`Layout.steady_decode`). Whatever else is decoded keeps within the limit on states
(`Layout.le_of_decode`).
-/

namespace Automata.Binary

variable {k : Kind}

/-! ### Collections -/

/-- The number of lengths that can be stored. -/
def lengthLimit : Nat := 0x10000000000000000

def FitsList {α : Type} (fits : α → Prop) (xs : List α) : Prop :=
  xs.length < lengthLimit ∧ ∀ x ∈ xs, fits x

theorem reads_decodeList {α : Type} {d : Decoder α} {encode : α → Bytes} {fits : α → Prop}
    (hRead : ∀ x, fits x → Reads d (encode x) x) {xs : List α} (h : FitsList fits xs) :
    Reads (decodeList d) (encodeList encode xs) xs :=
  (reads_decodeU64 h.1).bind (reads_decodeMany fun x hx => hRead x (h.2 x hx))

theorem steady_decodeList {α : Type} {d : Decoder α} (h : Steady d) : Steady (decodeList d) :=
  steady_decodeU64.bind fun count => steady_decodeMany h count

def FitsStates (states : List State) : Prop := FitsList (· ≤ stateLimit) states

theorem reads_decodeStates {states : List State} (h : FitsStates states) :
    Reads (decodeList decodeU32) (encodeList encodeNumber states) states :=
  reads_decodeList (fun _ hs => reads_decodeU32 hs) h

/-! ### Initial states -/

theorem reads_decodeInitial {initial : Option State} (h : ∀ s, initial = some s → s ≤ stateLimit) :
    Reads decodeInitial (encodeInitial initial) initial := by
  cases initial with
  | none => exact (reads_takeByte 0).bind (.pure none)
  | some s => exact (reads_takeByte 1).bind ((reads_decodeU32 (h s rfl)).map some)

theorem steady_decodeInitial : Steady decodeInitial :=
  steady_takeByte.bind fun _ =>
    .ite (.pure none) <| .ite (steady_decodeU32.bind fun s => .pure (some s)) (.throw _)

/-! ### Symbols -/

/-- The first byte of a character tells how many follow, and with them it is read back. -/
theorem reads_decodeCharacter (c : Char) : Reads decodeCharacter (Utf8.encodeChar c) c := by
  obtain ⟨lead, tail, hBytes, hWidth, hChar⟩ := Utf8.exists_encodeChar c
  have hZero : ¬ Utf8.width lead = 0 := by omega
  have hTail : Utf8.width lead - 1 = tail.length := by omega
  intro rest
  rw [hBytes]
  refine bind_eq_ok.mpr ⟨lead, tail ++ rest, rfl, ?_⟩
  rw [if_neg hZero, hTail]
  refine bind_eq_ok.mpr ⟨tail, rest, reads_takeBytes tail rest, ?_⟩
  rw [hChar]
  rfl

theorem steady_decodeCharacter : Steady decodeCharacter := by
  refine steady_takeByte.bind fun lead => ?_
  refine .ite (.throw _) ?_
  refine (steady_takeBytes _).bind fun tail => ?_
  cases Utf8.decodeChar? (lead :: tail) with
  | none => exact .throw _
  | some c => exact .pure c

theorem reads_decodeSymbol (x : Symbol) : Reads decodeSymbol (encodeSymbol x) x := by
  have hTag : ∀ n ≤ 1, Reads decodeU32 (encodeNumber n) n := fun n hn =>
    reads_decodeU32 (Nat.le_trans hn (by decide))
  cases x with
  | char c =>
      have hChar := (reads_decodeCharacter c).map Symbol.char
      exact (hTag 0 (by omega)).bind hChar
  | epsilon => exact (hTag 1 (by omega)).bind (.pure Symbol.epsilon)

theorem steady_decodeSymbol : Steady decodeSymbol :=
  steady_decodeU32.bind fun _ =>
    .ite (steady_decodeCharacter.bind fun c => .pure (Symbol.char c)) <|
      .ite (.pure Symbol.epsilon) (.throw _)

/-! ### Rows -/

def Spelled.Fits : {k : Kind} → Spelled k → Prop
  | .nfa, states => FitsStates states
  | .dfa, state => state ≤ stateLimit

theorem reads_decodeSpelled {t : Spelled k} (h : t.Fits) :
    Reads (decodeSpelled k) (encodeSpelled k t) t := by
  cases k with
  | nfa => exact reads_decodeStates h
  | dfa => exact reads_decodeU32 h

theorem steady_decodeSpelled (k : Kind) : Steady (decodeSpelled k) := by
  cases k with
  | nfa => exact steady_decodeList steady_decodeU32
  | dfa => exact steady_decodeU32

theorem reads_decodeEntry {p : Symbol × Spelled k} (h : p.2.Fits) :
    Reads (decodeEntry k) (encodeSymbol p.1 ++ encodeSpelled k p.2) p :=
  (reads_decodeSymbol p.1).bind ((reads_decodeSpelled h).map (p.1, ·))

theorem steady_decodeEntry (k : Kind) : Steady (decodeEntry k) :=
  steady_decodeSymbol.bind fun x => (steady_decodeSpelled k).bind fun t => .pure (x, t)

def FitsRow (row : List (Symbol × Spelled k)) : Prop := FitsList (fun p => p.2.Fits) row

theorem reads_decodeRow {p : State × List (Symbol × Spelled k)} (hState : p.1 ≤ stateLimit)
    (hRow : FitsRow p.2) : Reads (decodeRow k) (encodeNumber p.1 ++ encodeRow k p.2) p :=
  (reads_decodeU32 hState).bind
    ((reads_decodeList (fun _ hp => reads_decodeEntry hp) hRow).map (p.1, ·))

theorem steady_decodeRow (k : Kind) : Steady (decodeRow k) :=
  steady_decodeU32.bind fun s =>
    (steady_decodeList (steady_decodeEntry k)).bind fun row => .pure (s, row)

theorem yields_decodeRow (k : Kind) : Yields (decodeRow k) fun p => p.1 ≤ stateLimit := by
  intro bytes p rest h
  obtain ⟨s, _, hState, h⟩ := bind_eq_ok.mp h
  obtain ⟨row, _, _, h⟩ := bind_eq_ok.mp h
  obtain ⟨rfl, _⟩ := Prod.mk.inj (Except.ok.inj h)
  exact decodeU32_le hState

/-! ### Layouts -/

namespace Layout

/-- Whether a layout can be stored: each number has room in its place, and so has each length. -/
structure Fits (l : Layout k) : Prop where
  stateCount : l.stateCount ≤ stateLimit
  initial : ∀ s, l.initial = some s → s ≤ stateLimit
  finals : FitsStates l.finals
  rows : FitsList (fun p => p.1 ≤ stateLimit ∧ FitsRow p.2) l.rows

/-- **A layout that fits is taken off its bytes, whatever follows them.** -/
theorem reads_decode {l : Layout k} (h : l.Fits) : Reads (decode k) l.encode l := by
  have hRows := reads_decodeList (fun _ hp => reads_decodeRow hp.1 hp.2) h.rows
  have hWhole : Reads (decode k) _ l :=
    (reads_decodeU32 h.stateCount).bind <| (reads_decodeInitial h.initial).bind <|
      (reads_decodeStates h.finals).bind <| hRows.map (Layout.mk l.stateCount l.initial l.finals)
  rw [encode, List.append_assoc, List.append_assoc]
  exact hWhole

theorem steady_decode (k : Kind) : Steady (decode k) :=
  steady_decodeU32.bind fun _ => steady_decodeInitial.bind fun _ =>
    (steady_decodeList steady_decodeU32).bind fun _ =>
      (steady_decodeList (steady_decodeRow k)).bind fun _ => .pure _

/-! ### What can be decoded -/

/-- **No state count and no row name past the limit is decoded.** -/
theorem le_of_decode {l : Layout k} {bytes rest : Bytes} (h : decode k bytes = .ok (l, rest)) :
    l.stateCount ≤ stateLimit ∧ ∀ p ∈ l.rows, p.1 ≤ stateLimit := by
  obtain ⟨count, _, hCount, h⟩ := bind_eq_ok.mp h
  obtain ⟨initial, _, _, h⟩ := bind_eq_ok.mp h
  obtain ⟨finals, _, _, h⟩ := bind_eq_ok.mp h
  obtain ⟨rows, _, hRows, h⟩ := bind_eq_ok.mp h
  obtain ⟨rfl, _⟩ := Prod.mk.inj (Except.ok.inj h)
  obtain ⟨length, _, _, hRows⟩ := bind_eq_ok.mp hRows
  exact ⟨decodeU32_le hCount, yields_decodeMany (yields_decodeRow k) length _ _ _ hRows⟩

end Layout

/-- What is decoded is spelled by some layout and has been validated. -/
theorem exists_layout_of_ofBinary {a : Automaton k} {bytes : Bytes}
    (h : Automaton.ofBinary k bytes = .ok a) :
    ∃ l rest, Layout.decode k bytes = .ok (l, rest) ∧ l.automaton.validate = .ok () ∧
      l.automaton = a := by
  rw [Automaton.ofBinary] at h
  cases hDecode : Layout.decode k bytes with
  | error e =>
      rw [hDecode] at h
      cases h
  | ok p =>
      rw [hDecode] at h
      obtain ⟨⟨⟩, hValid, hEq⟩ := bind_eq_ok_iff.mp h
      exact ⟨p.1, p.2, rfl, hValid, Except.ok.inj hEq⟩

end Automata.Binary
