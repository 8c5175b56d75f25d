import Automata.Proofs.Automaton.Obtainable
import Automata.Proofs.Conversion.ClosureTable
import Automata.Session

/-! # What holds throughout a session

Whatever calls are made in whatever order, and whichever of them fail, the automata of a session are
those that can be obtained (`exists_mem_run_iff`): one call keeps this (`obtainable_of_made`), so
all of them do (`forall_mem_run`). Hence all are sound (`run_sound`), and what relies on well-formed
automata without checking them does so rightly: closures are looked up in their table and sets of
states are named by states.
-/

namespace Automata.Session

variable {k : Kind} {held : List Held}

/-! ### Single calls -/

theorem get?_eq_some_iff {place : Nat} {a : Automaton k} :
    get? held k place = some a ↔ held[place]? = some ⟨k, a⟩ := by
  cases hPlace : held[place]? with
  | none => cases k <;> simp [get?, hPlace]
  | some h =>
      obtain ⟨j, b⟩ := h
      cases k <;> cases j <;> simp [get?, hPlace]

theorem keep?_eq_some_iff {r : Except Error (Automaton k)} {h : Held} :
    keep? r = some h ↔ ∃ a, r = .ok a ∧ a.stateCount ≤ stateLimit ∧ ⟨k, a⟩ = h := by
  cases r with
  | error e => simp [keep?]
  | ok a => simp [keep?]

theorem exists_of_get?_bind {place : Nat} {f : Automaton k → Option Held} {h : Held}
    (hMade : (get? held k place >>= f) = some h) :
    ∃ a, held[place]? = some ⟨k, a⟩ ∧ f a = some h := by
  obtain ⟨a, hGet, hf⟩ := Option.bind_eq_some_iff.mp hMade
  exact ⟨a, get?_eq_some_iff.mp hGet, hf⟩

/-- What a call makes, and of which of the automata held. -/
inductive Makes (held : List Held) : Call → Held → Prop
  | withStates (k : Kind) (n : Nat) : Makes held (.withStates k n) ⟨k, .withStates k n⟩
  | edit {k : Kind} {place : Nat} {e : Edit k} {a b : Automaton k} :
      held[place]? = some ⟨k, a⟩ → e.apply a = .ok b → Makes held (.edit k place e) ⟨k, b⟩
  | read {k : Kind} {policy : TransitionList.Policy} {bytes : Bytes} {a : Automaton k} :
      TransitionList.read k policy bytes = .ok a → Makes held (.read k policy bytes) ⟨k, a⟩
  | ofBinary {k : Kind} {bytes : Bytes} {a : Automaton k} :
      Automaton.ofBinary k bytes = .ok a → Makes held (.ofBinary k bytes) ⟨k, a⟩
  | ofEngine {compile : Text → Except PatternError Engine} {r : Text} {d : Dfa} :
      Dfa.ofEngine compile r = .ok d → Makes held (.ofEngine compile r) ⟨.dfa, d⟩
  | withoutEpsilon {place : Nat} {n : Nfa} :
      held[place]? = some ⟨.nfa, n⟩ → Makes held (.withoutEpsilon place) ⟨.nfa, n.withoutEpsilon⟩
  | determinize {place : Nat} {n : Nfa} {d : Dfa} :
      held[place]? = some ⟨.nfa, n⟩ → n.determinize = .ok d →
        Makes held (.determinize place) ⟨.dfa, d⟩
  | toDfa {place : Nat} {n : Nfa} {d : Dfa} :
      held[place]? = some ⟨.nfa, n⟩ → n.toDfa = .ok d → Makes held (.toDfa place) ⟨.dfa, d⟩
  | toNfa {place : Nat} {d : Dfa} :
      held[place]? = some ⟨.dfa, d⟩ → Makes held (.toNfa place) ⟨.nfa, d.toNfa⟩

/-- **All that a call can do.** What it makes has no more states than can be counted. -/
theorem makes_of_made {call : Call} {h : Held} (hMade : made held call = some h) :
    Makes held call h ∧ h.2.stateCount ≤ stateLimit := by
  cases call with
  | withStates k n =>
      rw [made] at hMade
      obtain ⟨_, hOk, hCount, rfl⟩ := keep?_eq_some_iff.mp hMade
      obtain rfl := Except.ok.inj hOk
      exact ⟨.withStates k n, hCount⟩
  | edit k place e =>
      obtain ⟨a, hPlace, hMade⟩ := exists_of_get?_bind hMade
      obtain ⟨_, hOk, hCount, rfl⟩ := keep?_eq_some_iff.mp hMade
      exact ⟨.edit hPlace hOk, hCount⟩
  | read k policy bytes =>
      obtain ⟨_, hOk, hCount, rfl⟩ := keep?_eq_some_iff.mp hMade
      exact ⟨.read hOk, hCount⟩
  | ofBinary k bytes =>
      obtain ⟨_, hOk, hCount, rfl⟩ := keep?_eq_some_iff.mp hMade
      exact ⟨.ofBinary hOk, hCount⟩
  | ofEngine compile r =>
      obtain ⟨_, hOk, hCount, rfl⟩ := keep?_eq_some_iff.mp hMade
      exact ⟨.ofEngine hOk, hCount⟩
  | withoutEpsilon place =>
      obtain ⟨n, hPlace, hMade⟩ := exists_of_get?_bind hMade
      obtain ⟨_, hOk, hCount, rfl⟩ := keep?_eq_some_iff.mp hMade
      obtain rfl := Except.ok.inj hOk
      exact ⟨.withoutEpsilon hPlace, hCount⟩
  | determinize place =>
      obtain ⟨n, hPlace, hMade⟩ := exists_of_get?_bind hMade
      obtain ⟨_, hOk, hCount, rfl⟩ := keep?_eq_some_iff.mp hMade
      exact ⟨.determinize hPlace hOk, hCount⟩
  | toDfa place =>
      obtain ⟨n, hPlace, hMade⟩ := exists_of_get?_bind hMade
      obtain ⟨_, hOk, hCount, rfl⟩ := keep?_eq_some_iff.mp hMade
      exact ⟨.toDfa hPlace hOk, hCount⟩
  | toNfa place =>
      obtain ⟨d, hPlace, hMade⟩ := exists_of_get?_bind hMade
      obtain ⟨_, hOk, hCount, rfl⟩ := keep?_eq_some_iff.mp hMade
      obtain rfl := Except.ok.inj hOk
      exact ⟨.toNfa hPlace, hCount⟩

/-- **What a call makes can be obtained** if what is held can be. -/
theorem obtainable_of_made (hHeld : ∀ h ∈ held, Obtainable h.2) {call : Call} {h : Held}
    (hMade : made held call = some h) : Obtainable h.2 := by
  have hPlaced {k : Kind} {place : Nat} {a : Automaton k} (hPlace : held[place]? = some ⟨k, a⟩) :
      Obtainable a := hHeld _ (List.mem_of_getElem? hPlace)
  obtain ⟨hMakes, hCount⟩ := makes_of_made hMade
  cases hMakes with
  | withStates k n => exact .withStates k n hCount
  | edit hPlace hOk => exact (hPlaced hPlace).edit _ hOk hCount
  | read hOk => exact .read _ _ hOk
  | ofBinary hOk => exact .ofBinary _ hOk
  | ofEngine hOk => exact .ofEngine _ _ hOk hCount
  | withoutEpsilon hPlace => exact .withoutEpsilon (hPlaced hPlace)
  | determinize hPlace hOk => exact .determinize (hPlaced hPlace) hOk hCount
  | toDfa hPlace hOk => exact .determinize (.withoutEpsilon (hPlaced hPlace)) hOk hCount
  | toNfa hPlace => exact .toNfa (hPlaced hPlace)

theorem mem_step {call : Call} {h : Held} (hMem : h ∈ step held call) :
    h ∈ held ∨ made held call = some h := by
  rw [step] at hMem
  split at hMem
  · next g hMade =>
      rw [hMade, Option.some.injEq, eq_comm]
      cases call with
      | edit k place e => exact List.mem_or_eq_of_mem_set hMem
      | _ => exact (List.mem_append.mp hMem).imp_right List.mem_singleton.mp
  · exact Or.inl hMem

theorem mem_step_of_made {call : Call} {h : Held} (hMade : made held call = some h) :
    h ∈ step held call := by
  rw [step, hMade]
  cases call with
  | edit k place e =>
      obtain ⟨a, hPlace, _⟩ := exists_of_get?_bind hMade
      exact List.mem_set (List.getElem?_eq_some_iff.mp hPlace).1 h
  | _ => exact List.mem_append_right _ (List.mem_singleton.mpr rfl)

/-! ### Sequences of calls -/

/-- **What each of the calls keeps holds of all automata of the session.** -/
theorem forall_mem_run {P : Held → Prop} {calls : List Call}
    (hMade : ∀ held, (∀ h ∈ held, P h) → ∀ call ∈ calls, ∀ h, made held call = some h → P h) :
    ∀ h ∈ run calls, P h := by
  have hFold : ∀ held, (∀ h ∈ held, P h) → ∀ h ∈ calls.foldl step held, P h := by
    induction calls with
    | nil => exact fun held hHeld => hHeld
    | cons call calls ih =>
        intro held hHeld
        refine ih (fun held hHeld call hCall => ?_) (step held call) fun h hMem => ?_
        · exact hMade held hHeld call (List.mem_cons_of_mem _ hCall)
        · rcases mem_step hMem with hMem | hNew
          · exact hHeld h hMem
          · exact hMade held hHeld call List.mem_cons_self h hNew
  exact hFold [] fun h hMem => absurd hMem List.not_mem_nil

/-- **All automata of a session can be obtained.** -/
theorem obtainable_of_mem_run (calls : List Call) : ∀ h ∈ run calls, Obtainable h.2 :=
  forall_mem_run fun _ hHeld _ _ _ hMade => obtainable_of_made hHeld hMade

theorem run_append_singleton (calls : List Call) (call : Call) :
    run (calls ++ [call]) = step (run calls) call := by
  rw [run, List.foldl_append]
  rfl

theorem exists_mem_run_of_made (calls : List Call) (call : Call) {h : Held}
    (hMade : made (run calls) call = some h) : ∃ calls, h ∈ run calls :=
  ⟨calls ++ [call], by rw [run_append_singleton]; exact mem_step_of_made hMade⟩

/-- A call on an automaton that is held makes what it makes of the automaton. -/
theorem exists_mem_run_of_held {a : Automaton k} {h : Held} (call : Nat → Call)
    {f : Automaton k → Option Held} (hCall : ∀ held place, made held (call place) =
      (get? held k place >>= f)) (hHeld : ∃ calls, ⟨k, a⟩ ∈ run calls) (hf : f a = some h) :
    ∃ calls, h ∈ run calls := by
  obtain ⟨calls, hMem⟩ := hHeld
  obtain ⟨place, hPlace⟩ := List.mem_iff_getElem?.mp hMem
  refine exists_mem_run_of_made calls (call place) ?_
  rw [hCall, get?_eq_some_iff.mpr hPlace]
  exact hf

/-- **The automata of sessions are those that can be obtained.** -/
theorem exists_mem_run_iff {a : Automaton k} :
    (∃ calls, ⟨k, a⟩ ∈ run calls) ↔ Obtainable a := by
  refine ⟨fun ⟨calls, hMem⟩ => obtainable_of_mem_run calls _ hMem, fun h => ?_⟩
  -- what is obtained has few enough states, so a session keeps it
  have hBound := fun {k : Kind} {a : Automaton k} (h : Obtainable a) => h.wellFormed.2
  have hKeep := fun {k : Kind} {r : Except Error (Automaton k)} {a : Automaton k}
    (hOk : r = .ok a) (hCount : a.stateCount ≤ stateLimit) =>
      keep?_eq_some_iff.mpr ⟨a, hOk, hCount, rfl⟩
  induction h with
  | withStates k n hn =>
      exact exists_mem_run_of_made [] (.withStates k n) (hKeep rfl hn)
  | edit e _ hApply hCount ih =>
      exact exists_mem_run_of_held (.edit _ · e) (fun _ _ => rfl) ih (hKeep hApply hCount)
  | read policy bytes hRead =>
      exact exists_mem_run_of_made [] (.read _ policy bytes)
        (hKeep hRead (hBound (.read policy bytes hRead)))
  | ofBinary bytes hDecode =>
      exact exists_mem_run_of_made [] (.ofBinary _ bytes)
        (hKeep hDecode (hBound (.ofBinary bytes hDecode)))
  | withoutEpsilon hObtainable ih =>
      exact exists_mem_run_of_held .withoutEpsilon (fun _ _ => rfl) ih
        (hKeep rfl (hBound (.withoutEpsilon hObtainable)))
  | determinize _ hOk hCount ih =>
      exact exists_mem_run_of_held .determinize (fun _ _ => rfl) ih (hKeep hOk hCount)
  | toNfa hObtainable ih =>
      exact exists_mem_run_of_held .toNfa (fun _ _ => rfl) ih
        (hKeep rfl (hBound (.toNfa hObtainable)))
  | ofEngine compile r hOk hCount =>
      exact exists_mem_run_of_made [] (.ofEngine compile r) (hKeep hOk hCount)

/-! ### Soundness -/

/-- Whether an automaton is as it should be: what it mentions are its states, which can be counted,
a deterministic one has no empty move and leads from a state to one state on a character, and
validation finds no fault. -/
structure Sound (a : Automaton k) : Prop where
  stateCount : a.stateCount ≤ stateLimit
  wellFormed : a.WellFormed
  deterministic : k = .dfa → TransitionList.Deterministic (· ∈ a.transitions)
  valid : a.validate = .ok ()

theorem sound_of_obtainable {a : Automaton k} (h : Obtainable a) : Sound a where
  stateCount := h.wellFormed.2
  wellFormed := h.wellFormed.1
  deterministic hKind s x p q hp hq := by
    subst hKind
    exact Dfa.eq_of_mem_transitions hp hq
  valid := Automaton.validate_eq_ok_iff.mpr h.wellFormed.1

/-- Whether sets of states are named by states: there is a set for each state, what a set moves to
has a place among the sets, and the automaton mentions no other places. -/
structure NamesSets (d : Nfa.Determinized) (n : Nfa) : Prop where
  count : d.subsets.length = d.dfa.stateCount
  next : ∀ subset ∈ d.subsets, ∀ c, n.move subset c ≠ ∅ →
    d.subsets.idxOf (n.move subset c) < d.dfa.stateCount
  wellFormed : d.dfa.WellFormed

theorem namesSets_of_subsetConstruction {n : Nfa} {d : Nfa.Determinized}
    (h : n.subsetConstruction = .ok d) : NamesSets d n := by
  obtain ⟨start, hNumbered, hNumber⟩ := Nfa.exists_numbered_of_subsetConstruction h
  have hCount : d.subsets.length = d.dfa.stateCount := congrArg Automaton.stateCount hNumber
  refine ⟨hCount, fun subset hMem c hNext => ?_, hNumber ▸ Machine.wellFormed_number hNumbered⟩
  have hListed := hNumbered.next_mem hMem (Nfa.next_subsetMachine.mpr ⟨rfl, hNext⟩)
  rw [← hCount]
  exact List.idxOf_lt_length_of_mem hListed

/-- **Whatever calls are made, all automata of the session are sound.** So when empty moves are
removed, each closure that is looked up stands in the table, and when an automaton is determinized,
each number given to a set of states is a state of the result. -/
theorem run_sound (calls : List Call) :
    (∀ h ∈ run calls, Sound h.2) ∧
    ∀ n : Nfa, ⟨.nfa, n⟩ ∈ run calls →
      (∀ active c, ∀ t ∈ n.move active c, t < n.closures.length) ∧
      (∀ active c, Nfa.lookUp n.closures (n.move active c).toList = some (n.closedMove active c)) ∧
      ∀ d, n.subsetConstruction = .ok d → NamesSets d n := by
  have hSound : ∀ h ∈ run calls, Sound h.2 := fun h hMem =>
    sound_of_obtainable (obtainable_of_mem_run calls h hMem)
  refine ⟨hSound, fun n hMem => ?_⟩
  have hWf : n.WellFormed := (hSound _ hMem).wellFormed
  exact ⟨fun _ _ _ => Nfa.lt_length_closures hWf, Nfa.lookUp_closures hWf,
    fun _ => namesSets_of_subsetConstruction⟩

/-- Calls of all sorts, some of which fail: a transition to no state, a second initial state, a
second target, a faulty list, bytes cut short, an automaton that is not there, and a pattern that is
none. -/
def mixedCalls : List Call :=
  [.withStates .nfa 2, .edit .nfa 0 (.addTransition 0 'a' 2), .edit .nfa 0 (.markInitial 1),
    .edit .nfa 0 (.markInitial 0), .edit .nfa 0 (.addEpsilon 1 0),
    .edit .nfa 0 (.addTransition 0 'a' 1), .edit .nfa 0 (.markFinal 0), .toDfa 0,
    .edit .dfa 1 (.addTransition 0 'a' 0), .determinize 0,
    .read .dfa .strict (Utf8.encode "1\n0 0".toList),
    .read .dfa .strict (Utf8.encode "1\n0 1 b".toList), .ofBinary .nfa [3, 1],
    .ofBinary .nfa [3, 1, 2, 0, 0], .withoutEpsilon 0, .toNfa 2, .toNfa 7,
    .ofEngine Pattern.engine "a(".toList, .ofEngine Pattern.engine "a|ab".toList]

theorem run_sound_mixedCalls :
    (run mixedCalls).map Sigma.fst = [.nfa, .dfa, .dfa, .nfa, .nfa, .nfa, .dfa] ∧
      ∀ h ∈ run mixedCalls, Sound h.2 :=
  ⟨by decide +kernel, (run_sound mixedCalls).1⟩

end Automata.Session
