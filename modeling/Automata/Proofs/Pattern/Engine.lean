import Automata.Pattern.Engine
import Automata.Proofs.Automaton.Obtainable
import Automata.Proofs.Machine.FirstWord
import Automata.Proofs.Machine.Walk

/-! # What is imported from an engine

The automaton that is imported does on ASCII characters what the engine's automaton does on bytes,
as long as no dead and no quit state is entered (`run_machine`). Its states are those that the
engine enters on such texts, numbered in the order of the first texts that lead to them, and it
accepts the texts after which the engine reports a match (`ofEngine_imports`). This holds of every
engine; the automaton of a pattern is an instance (`ofPattern_eq_ofEngine`).
-/

namespace Automata

open ByteAutomaton (asciiAlphabet)

/-- Whether all characters are ASCII. -/
def Text.Ascii (t : Text) : Prop := ∀ c ∈ t, c.toNat < 128

instance (t : Text) : Decidable t.Ascii := inferInstanceAs (Decidable (∀ c ∈ t, c.toNat < 128))

namespace Engine

variable {e : Engine} {start : Fin e.size}

/-! ### Runs over bytes -/

/-- The state that bytes lead to. -/
def read (e : Engine) (q : Fin e.size) (bytes : Bytes) : Fin e.size := bytes.foldl e.next q

/-- The states that are entered, one after each byte. -/
def entered (e : Engine) (q : Fin e.size) : Bytes → List (Fin e.size)
  | [] => []
  | b :: bytes => e.next q b :: e.entered (e.next q b) bytes

def Clear (e : Engine) (q : Fin e.size) (bytes : Bytes) : Prop :=
  ∀ r ∈ e.entered q bytes, e.dead r = false ∧ e.quit r = false

instance (q : Fin e.size) (bytes : Bytes) : Decidable (e.Clear q bytes) :=
  inferInstanceAs (Decidable (∀ r ∈ e.entered q bytes, e.dead r = false ∧ e.quit r = false))

/-- Whether an ASCII text leads from `p` to `q` without entering a dead or quit state. -/
structure Leads (e : Engine) (p : Fin e.size) (word : Text) (q : Fin e.size) : Prop where
  ascii : word.Ascii
  clear : e.Clear p (Utf8.encode word)
  reads : e.read p (Utf8.encode word) = q

/-- Whether an ASCII text ends in a match and no dead or quit state is entered on the way. -/
def Accepts (e : Engine) (p : Fin e.size) (word : Text) : Prop :=
  word.Ascii ∧ e.Clear p (Utf8.encode word) ∧ e.matchesAtEnd (e.read p (Utf8.encode word)) = true

instance (p : Fin e.size) (word : Text) : Decidable (e.Accepts p word) :=
  inferInstanceAs (Decidable (_ ∧ _ ∧ _))

theorem accepts_iff_leads {p : Fin e.size} {word : Text} :
    e.Accepts p word ↔ ∃ q, e.Leads p word q ∧ e.matchesAtEnd q = true := by
  refine ⟨?_, ?_⟩
  · intro h
    obtain ⟨hAscii, hClear, hMatch⟩ := h
    exact ⟨_, ⟨hAscii, hClear, rfl⟩, hMatch⟩
  · intro h
    obtain ⟨q, ⟨hAscii, hClear, rfl⟩, hMatch⟩ := h
    exact ⟨hAscii, hClear, hMatch⟩

/-! ### Dead states -/

/-- Dead states cannot be left and see no match. -/
structure Lawful (e : Engine) : Prop where
  next : ∀ q b, e.dead q = true → e.dead (e.next q b) = true
  unmatched : ∀ q, e.dead q = true → e.matchesAtEnd q = false

theorem Lawful.dead_read (h : e.Lawful) {q : Fin e.size} (hDead : e.dead q = true)
    (bytes : Bytes) : e.dead (e.read q bytes) = true := by
  induction bytes generalizing q with
  | nil => exact hDead
  | cons b bytes ih => exact ih (h.next q b hDead)

theorem Lawful.dead_of_entered (h : e.Lawful) {q r : Fin e.size} {bytes : Bytes}
    (hr : r ∈ e.entered q bytes) (hDead : e.dead r = true) : e.dead (e.read q bytes) = true := by
  induction bytes generalizing q with
  | nil => cases hr
  | cons b bytes ih =>
      rcases List.mem_cons.mp hr with rfl | hr
      · exact h.dead_read hDead bytes
      · exact ih hr

/-- **Only quit states have to be looked for on the way.** A text that ends in a match has not met a
dead state, not even at the start. -/
theorem Lawful.accepts_iff (h : e.Lawful) {p : Fin e.size} {word : Text} :
    e.Accepts p word ↔
      word.Ascii ∧ (∀ r ∈ e.entered p (Utf8.encode word), e.quit r = false) ∧
        e.matchesAtEnd (e.read p (Utf8.encode word)) = true ∧ e.dead p = false := by
  refine ⟨?_, ?_⟩
  · intro hAccepts
    obtain ⟨hAscii, hClear, hMatch⟩ := hAccepts
    refine ⟨hAscii, fun r hr => (hClear r hr).2, hMatch, Bool.eq_false_iff.mpr fun hDead => ?_⟩
    rw [h.unmatched _ (h.dead_read hDead _)] at hMatch
    cases hMatch
  · intro hAccepts
    obtain ⟨hAscii, hQuit, hMatch, _⟩ := hAccepts
    refine ⟨hAscii, fun r hr => ⟨Bool.eq_false_iff.mpr fun hDead => ?_, hQuit r hr⟩, hMatch⟩
    rw [h.unmatched _ (h.dead_of_entered hr hDead)] at hMatch
    cases hMatch

/-! ### Texts and bytes -/

theorem encode_cons_of_lt {c : Char} (h : c.toNat < 128) (word : Text) :
    Utf8.encode (c :: word) = UInt8.ofNat c.toNat :: Utf8.encode word := by
  rw [Utf8.encode, List.flatMap_cons, Utf8.encodeChar_of_lt_80 h]
  rfl

/-- No text that begins with a character that is not ASCII leads anywhere. -/
theorem leads_cons {p q : Fin e.size} {c : Char} {word : Text} :
    e.Leads p (c :: word) q ↔
      c.toNat < 128 ∧ e.dead (e.next p (UInt8.ofNat c.toNat)) = false ∧
        e.quit (e.next p (UInt8.ofNat c.toNat)) = false ∧
        e.Leads (e.next p (UInt8.ofNat c.toNat)) word q := by
  by_cases hc : c.toNat < 128
  · refine ⟨?_, ?_⟩
    · intro h
      obtain ⟨hAscii, hClear, hReads⟩ := h
      rw [encode_cons_of_lt hc] at hClear hReads
      obtain ⟨hEntered, hRest⟩ := List.forall_mem_cons.mp hClear
      exact ⟨hc, hEntered.1, hEntered.2, (List.forall_mem_cons.mp hAscii).2, hRest, hReads⟩
    · intro h
      obtain ⟨_, hDead, hQuit, hAscii, hClear, hReads⟩ := h
      refine ⟨List.forall_mem_cons.mpr ⟨hc, hAscii⟩, ?_, ?_⟩
      · rw [encode_cons_of_lt hc]
        exact List.forall_mem_cons.mpr ⟨⟨hDead, hQuit⟩, hClear⟩
      · rw [encode_cons_of_lt hc]
        exact hReads
  · exact iff_of_false (fun h => hc (h.ascii c (List.mem_cons_self ..))) fun h => hc h.1

theorem next_machine {p q : Fin e.size} {c : Char} :
    (e.machine start).next p c = some q ↔
      c.toNat < 128 ∧ e.next p (UInt8.ofNat c.toNat) = q ∧ e.dead q = false ∧
        e.quit q = false := by
  have hNext : (e.machine start).next p c =
      if c.toNat < 128 then
        if e.dead (e.next p (UInt8.ofNat c.toNat)) || e.quit (e.next p (UInt8.ofNat c.toNat))
        then none else some (e.next p (UInt8.ofNat c.toNat))
      else none := rfl
  rw [hNext]
  by_cases hc : c.toNat < 128
  · rw [if_pos hc, ite_none_some_eq_some_iff (p := fun q => (e.dead q || e.quit q) = true),
      Bool.not_eq_true]
    refine ⟨?_, ?_⟩
    · rintro ⟨rfl, hHalted⟩
      exact ⟨hc, rfl, Bool.or_eq_false_iff.mp hHalted⟩
    · rintro ⟨_, rfl, hHalted⟩
      exact ⟨rfl, Bool.or_eq_false_iff.mpr hHalted⟩
  · rw [if_neg hc]
    exact iff_of_false (fun h => by cases h) fun h => hc h.1

/-- **The imported machine does on texts what the engine does on their bytes.** -/
theorem run_machine {p q : Fin e.size} {word : Text} :
    (e.machine start).run p word = some q ↔ e.Leads p word q := by
  induction word generalizing p with
  | nil =>
      rw [Machine.run_nil, Option.some.injEq]
      exact ⟨fun h => ⟨List.forall_mem_nil _, List.forall_mem_nil _, h⟩, fun h => h.reads⟩
  | cons c word ih =>
      rw [Machine.run_cons, Option.bind_eq_some_iff, leads_cons]
      simp only [next_machine]
      refine ⟨?_, ?_⟩
      · intro h
        obtain ⟨r, ⟨hc, rfl, hDead, hQuit⟩, hRest⟩ := h
        exact ⟨hc, hDead, hQuit, ih.mp hRest⟩
      · intro h
        obtain ⟨hc, hDead, hQuit, hRest⟩ := h
        exact ⟨_, ⟨hc, rfl, hDead, hQuit⟩, ih.mpr hRest⟩

/-! ### The imported automaton -/

/-- The first text that leads to a state. -/
structure FirstText (e : Engine) (start q : Fin e.size) (word : Text) : Prop where
  leads : e.Leads start word q
  first : ∀ v, e.Leads start v q → word = v ∨ Text.Before word v

/-- The automaton `d` is the part of the engine's automaton that ASCII texts lead to, its states
being named by their places in `found`. -/
structure Imports (e : Engine) (start : Fin e.size) (d : Dfa) (found : List (Fin e.size)) :
    Prop where
  /-- It accepts what the engine accepts. -/
  accepts : ∀ word, d.accepts word = .ok (decide (e.Accepts start word))
  /-- The states are those that texts lead to, each once. -/
  count : d.stateCount = found.length
  nodup : found.Nodup
  mem_iff : ∀ q, q ∈ found ↔ ∃ word, e.Leads start word q
  /-- They come in breadth-first order: in the order of the first texts that lead to them. -/
  order : ∃ words, List.Forall₂ (e.FirstText start) found words ∧ words.Pairwise Text.Before
  initial : d.initial = some 0
  first : found[0]? = some start
  /-- Final states and transitions are those of the engine. -/
  final : ∀ i, i ∈ d.finals ↔ ∃ q, found[i]? = some q ∧ e.matchesAtEnd q = true
  transition : ∀ t, t ∈ d.transitions ↔
    ∃ q c r, found[t.source]? = some q ∧ found[t.target]? = some r ∧ t.symbol = .char c ∧
      c.toNat < 128 ∧ e.next q (UInt8.ofNat c.toNat) = r ∧ e.dead r = false ∧ e.quit r = false

/-- **The walk through an engine's automaton imports it.** -/
theorem imports_walk (e : Engine) (start : Fin e.size) :
    e.Imports start (e.walk start).toDfa ((e.machine start).nodes asciiAlphabet e.size) := by
  have hWithin := e.within_machine start
  have hCovers := e.covers_machine start
  have hNumbered := Machine.numbered_nodes hWithin hCovers
  rw [walk, Machine.toDfa_walk hCovers, Machine.toDfa]
  generalize hFound : (e.machine start).nodes asciiAlphabet e.size = found at hNumbered ⊢
  constructor
  case accepts =>
    intro word
    rw [Machine.accepts_number hWithin hNumbered]
    refine congrArg Except.ok (Bool.eq_iff_iff.mpr ?_)
    rw [decide_eq_true_iff, accepts_iff_leads, Option.any_eq_true]
    simp only [run_machine]
    rfl
  case count => rfl
  case nodup => exact hNumbered.nodup
  case mem_iff =>
    intro q
    rw [hNumbered.mem_iff]
    exact exists_congr fun word => run_machine
  case order =>
    obtain ⟨words, hFirst, hOrder⟩ := Machine.firstWords_nodes hWithin hCovers
    rw [hFound] at hFirst
    refine ⟨words, hFirst.imp fun q word h => ⟨run_machine.mp h.leads, fun v hv => ?_⟩, hOrder⟩
    exact h.first v (run_machine.mpr hv)
  case initial => rfl
  case first => exact hNumbered.getElem?_zero
  case final => exact fun i => decide_eq_true_iff.symm.trans Machine.isFinal_number
  case transition =>
    intro t
    rw [hNumbered.mem_transitions hWithin]
    simp only [next_machine]

end Engine

/-! ### Patterns -/

open Pattern (wrapped)

/-- **What is imported is exact, whatever the engine.** When the engine compiles the wrapped pattern
to an automaton in which every search begins in one state, the part of it that ASCII texts lead to
is imported. -/
theorem Dfa.ofEngine_imports (compile : Text → Except PatternError Engine) (r : Text) (e : Engine)
    (start : Fin e.size) (hCompile : compile (wrapped r) = .ok e) (hStart : e.start = some start) :
    ∃ d found, Dfa.ofEngine compile r = .ok d ∧ e.Imports start d found := by
  refine ⟨_, _, ?_, e.imports_walk start⟩
  rw [Dfa.ofEngine, hCompile]
  simp only [Engine.toDfa, hStart]

/-- The engine at hand compiles the alternatives `a` and `abc`. -/
theorem Dfa.ofEngine_imports_abc :
    ∃ e start, Pattern.engine (wrapped "a|abc".toList) = .ok e ∧ e.start = some start ∧
      ∃ d found, Dfa.ofEngine Pattern.engine "a|abc".toList = .ok d ∧ e.Imports start d found := by
  have hStarts :
      (Pattern.engine (wrapped "a|abc".toList)).toOption.any (·.start.isSome) = true := by
    decide +kernel
  cases hCompile : Pattern.engine (wrapped "a|abc".toList) with
  | error err =>
      rw [hCompile] at hStarts
      cases hStarts
  | ok e =>
      rw [hCompile] at hStarts
      obtain ⟨start, hStart⟩ := Option.isSome_iff_exists.mp hStarts
      exact ⟨e, start, rfl, hStart, ofEngine_imports _ _ e start hCompile hStart⟩

theorem ByteAutomaton.byteAutomaton_engine (b : ByteAutomaton) :
    b.engine.byteAutomaton b.start = b := by
  cases b
  simp only [engine, Engine.byteAutomaton, Bool.or_false]
  rfl

theorem Dfa.ofPattern_eq_ofEngine (r : Text) :
    Dfa.ofPattern r = Dfa.ofEngine Pattern.engine r := by
  rw [ofPattern, ofEngine, Pattern.engine]
  cases Pattern.program (wrapped r) with
  | error e => rfl
  | ok p =>
      simp only [Except.map, Pattern.Program.engine]
      cases p.byteAutomaton? with
      | none => rfl
      | some b =>
          have hWalk := b.engine.toDfa_walk b.start
          rw [b.byteAutomaton_engine] at hWalk
          exact congrArg Except.ok hWalk.symm

end Automata
