import Automata.Proofs.TransitionList.Written
import Automata.TransitionList.Saving

/-! # What a file holds after saving

What cannot be written is found before the first line is put out (`run_putOut`), but the file has
been emptied by then. So a refused save leaves an empty file, which loads as the automaton with one
state and nothing else, whatever the file held before; it holds the same as before only if it was
empty already. A save that goes through leaves the written text and nothing else, and no save
touches another file.
-/

namespace Automata

/-! ### Files -/

namespace Storage

variable {files : Storage} {path : String}

@[simp] theorem write_self (files : Storage) (path : String) (bytes : Bytes) :
    files.write path bytes path = some bytes := if_pos rfl

theorem write_of_ne {other : String} (h : other ≠ path) (bytes : Bytes) :
    files.write path bytes other = files other := if_neg h

@[simp] theorem write_write (files : Storage) (path : String) (bytes more : Bytes) :
    (files.write path bytes).write path more = files.write path more := by
  funext other
  by_cases h : other = path
  · rw [h, write_self, write_self]
  · rw [write_of_ne h, write_of_ne h, write_of_ne h]

theorem write_eq_self {bytes : Bytes} (h : files path = some bytes) :
    files.write path bytes = files := by
  funext other
  by_cases hOther : other = path
  · rw [hOther, write_self, h]
  · exact write_of_ne hOther bytes

theorem read_write_self (files : Storage) (path : String) (bytes : Bytes) :
    (files.write path bytes).read path = .ok bytes := by
  rw [read, write_self]

end Storage

namespace Filing

/-- How a computation on files ends that comes to a result and leaves `after`. -/
def ending : Except Error Unit × Storage → EStateM.Result Error Storage Unit
  | (.ok (), after) => .ok () after
  | (.error e, after) => .error e after

variable {path : String} {files : Storage}

theorem run_create_bind (next : Filing Unit) :
    (create path >>= fun _ => next).run files = next.run (files.write path []) := rfl

theorem run_appendLine_bind {held : Bytes} (h : files path = some held) (line : Text)
    (next : Filing Unit) :
    (appendLine path line >>= fun _ => next).run files =
      next.run (files.write path (held ++ Utf8.encode (line ++ ['\n']))) := by
  have hRun : (appendLine path line >>= fun _ => next).run files = next.run
      (files.write path ((files path).getD [] ++ Utf8.encode (line ++ ['\n']))) := rfl
  rw [hRun, h, Option.getD_some]

/-- Lines that are put out one by one stand in the file one after the other, behind what it held. -/
theorem run_forM_appendLine {held : Bytes} (h : files path = some held) (lines : List Text) :
    (lines.forM (appendLine path)).run files =
      .ok () (files.write path (held ++ Utf8.encode (Text.unlines lines))) := by
  induction lines generalizing files held with
  | nil =>
      have hSame : files.write path (held ++ Utf8.encode (Text.unlines [])) = files :=
        Storage.write_eq_self (h.trans (congrArg some (List.append_nil held).symm))
      rw [hSame]
      rfl
  | cons line lines ih =>
      have hStep : (line :: lines).forM (appendLine path) =
          appendLine path line >>= fun _ => lines.forM (appendLine path) := rfl
      have hText : Utf8.encode (Text.unlines (line :: lines)) =
          Utf8.encode (line ++ ['\n']) ++ Utf8.encode (Text.unlines lines) := by
        rw [Text.unlines, List.flatMap_cons, Utf8.encode, List.flatMap_append]
        rfl
      rw [hStep, run_appendLine_bind h, ih (Storage.write_self ..), Storage.write_write,
        List.append_assoc, hText]

end Filing

namespace TransitionList

variable {k : Kind} {a : Automaton k} {path : String} {files : Storage}

/-! ### Putting out -/

/-- What is written is put out line by line, and what cannot be written is refused before the first
line. -/
theorem exists_lines_or_throw (path : String) (a : Automaton k) :
    (∃ lines, write a = .ok (Text.unlines lines) ∧
      putOut path a = lines.forM (Filing.appendLine path)) ∨
    ∃ e, write a = .error e ∧ putOut path a = throw e := by
  rw [write, putOut, Automaton.initialState]
  cases a.initial with
  | none => exact .inr ⟨_, rfl, rfl⟩
  | some i =>
      cases unwritable a with
      | nil => exact .inl ⟨writtenLines i a, rfl, rfl⟩
      | cons p rest => exact .inr ⟨_, rfl, rfl⟩

/-- **What cannot be written is found before anything is put out**, and what can be written is put
behind what the file held. -/
theorem run_putOut {held : Bytes} (h : files path = some held) :
    (putOut path a).run files = match write a with
      | .ok text => .ok () (files.write path (held ++ Utf8.encode text))
      | .error e => .error e files := by
  obtain ⟨lines, hWrite, hPut⟩ | ⟨e, hWrite, hPut⟩ := exists_lines_or_throw path a
  · rw [hWrite, hPut]
    exact Filing.run_forM_appendLine h lines
  · rw [hWrite, hPut]
    rfl

theorem run_putOut_of_write_eq_error {e : Error} (h : write a = .error e) :
    (putOut path a).run files = .error e files := by
  obtain ⟨lines, hWrite, -⟩ | ⟨f, hWrite, hPut⟩ := exists_lines_or_throw path a
  · rw [hWrite] at h
    cases h
  · rw [hPut]
    cases hWrite.symm.trans h
    rfl

/-! ### Saving -/

theorem run_saving : (saving path a).run files = Filing.ending (save path a files) := by
  rw [saving, Filing.run_create_bind, run_putOut (Storage.write_self ..), save]
  cases write a with
  | ok text => rfl
  | error e => rfl

theorem save_of_write_eq_ok {text : Text} (h : write a = .ok text) :
    save path a files = (.ok (), files.write path (Utf8.encode text)) := by
  rw [save, h]
  exact congrArg (Prod.mk _) (Storage.write_write ..)

theorem save_of_write_eq_error {e : Error} (h : write a = .error e) :
    save path a files = (.error e, files.write path []) := by
  rw [save, h]

def bare (k : Kind) : Automaton k := { Automaton.withStates k 1 with initial := some 0 }

theorem read_nil (k : Kind) (policy : Policy) : read k policy [] = .ok (bare k) := by
  cases k <;> cases policy <;> rfl

theorem load_write_nil (k : Kind) (policy : Policy) :
    load k policy path (files.write path []) = .ok (bare k) := by
  rw [load, Storage.read_write_self]
  exact read_nil k policy

/-- **What saving leaves.** It is refused exactly when writing is, without an initial state or on a
blank, and then the file is empty and loads as the bare automaton; so the file is the same as before
only if it was there and empty. A save that goes through leaves the written text and nothing else.
Other files are left alone. -/
theorem save_leaves (a : Automaton k) (path : String) (files : Storage) :
    ∃ result after, save path a files = (result, after) ∧
      (saving path a).run files = Filing.ending (result, after) ∧
      (∀ other, other ≠ path → after other = files other) ∧
      (result = .ok () ↔ ∃ text, write a = .ok text ∧ after path = some (Utf8.encode text)) ∧
      (∀ e, result = .error e ↔ write a = .error e) ∧
      ∀ e, result = .error e → (e = .noInitial ∨ ∃ s c, e = .unwritableSymbol s c) ∧
        after path = some [] ∧ (after path = files path ↔ files path = some []) ∧
        ∀ kind policy, load kind policy path after = .ok (bare kind) := by
  cases hWrite : write a with
  | ok text =>
      have hSave : save path a files = _ := save_of_write_eq_ok hWrite
      refine ⟨_, _, hSave, hSave ▸ run_saving, ?_, ?_, ?_, ?_⟩
      · exact fun other hOther => Storage.write_of_ne hOther _
      · exact iff_of_true rfl ⟨text, rfl, Storage.write_self ..⟩
      · exact fun e => iff_of_false nofun nofun
      · nofun
  | error e =>
      have hSave : save path a files = _ := save_of_write_eq_error hWrite
      refine ⟨_, _, hSave, hSave ▸ run_saving, ?_, ?_, ?_, ?_⟩
      · exact fun other hOther => Storage.write_of_ne hOther _
      · exact iff_of_false nofun nofun
      · exact fun e' => by rw [Except.error.injEq, Except.error.injEq]
      · rintro e' ⟨⟩
        refine ⟨?_, Storage.write_self .., ?_, fun kind policy => load_write_nil kind policy⟩
        · rcases write_error hWrite with ⟨_, rfl⟩ | ⟨s, c, _, _, _, rfl⟩
          · exact Or.inl rfl
          · exact Or.inr ⟨s, c, rfl⟩
        · rw [Storage.write_self]
          exact eq_comm

def lettered : Dfa :=
  Edit.attemptAll (.withStates .dfa 2) [.markInitial 0, .markFinal 1, .addTransition 0 'a' 1]

def spaced : Dfa := Edit.attemptAll lettered [.addTransition 0 ' ' 1]

/-- A file in which the first of the two has been saved. -/
def listed : Storage := (save "list" lettered .empty).2

/-- The save is refused and the list that was in the file is gone, although it was not empty. -/
theorem save_leaves_spaced :
    (saving "list" spaced).run listed = .error (.unwritableSymbol 0 ' ') (listed.write "list" []) ∧
      ¬ listed.write "list" [] "list" = listed "list" ∧
      load .dfa .strict "list" listed = .ok lettered ∧
      load .dfa .strict "list" (listed.write "list" []) = .ok (bare .dfa) := by
  have hRefused : save "list" spaced listed =
      (.error (.unwritableSymbol 0 ' '), listed.write "list" []) := rfl
  have hHeld : listed "list" ≠ some [] := by decide
  obtain ⟨result, after, hSave, hRun, _, _, _, hAfter⟩ := save_leaves spaced "list" listed
  obtain ⟨rfl, rfl⟩ := Prod.mk.inj (hRefused.symm.trans hSave)
  obtain ⟨_, _, hSame, hLoad⟩ := hAfter _ rfl
  exact ⟨hRun, mt hSame.mp hHeld, rfl, hLoad .dfa .strict⟩

/-- A refused save does not keep the file: not for a blank, and not without an initial state. -/
theorem not_save_keeps :
    listed "list" = some (Utf8.encode "0 1 a\n1\n".toList) ∧
      (save "list" spaced listed).1 = .error (.unwritableSymbol 0 ' ') ∧
      (save "list" spaced listed).2 "list" = some [] ∧
      (save "list" (.withStates .dfa 2) listed).1 = .error .noInitial ∧
      (save "list" (.withStates .dfa 2) listed).2 "list" = some [] ∧
      ¬ ∀ (a : Dfa) path files e, (save path a files).1 = .error e →
        (save path a files).2 path = files path := by
  have hHeld : listed "list" = some (Utf8.encode "0 1 a\n1\n".toList) := by decide
  have hEmptied : (save "list" spaced listed).2 "list" = some [] := rfl
  refine ⟨hHeld, rfl, hEmptied, rfl, rfl, fun hKept => ?_⟩
  have hSame := hKept spaced "list" listed (.unwritableSymbol 0 ' ') rfl
  rw [hEmptied, hHeld] at hSame
  cases Option.some.inj hSame

end TransitionList

end Automata
