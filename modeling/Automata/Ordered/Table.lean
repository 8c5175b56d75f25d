import Automata.Ordered.Set

/-! # Tables

A table assigns values to finitely many keys. Its entries stand in strictly ascending rank of the
keys, so a table is determined by what it answers (`Table.ext`).
-/

namespace Automata

/-- A finite map, held as its entries in strictly ascending rank of the keys. -/
structure Table (κ β : Type) [Ranked κ] where
  entries : List (κ × β)
  ascending : entries.Pairwise fun p q => rank p.1 < rank q.1

namespace Table

variable {κ β γ : Type} [Ranked κ]

instance [DecidableEq κ] [DecidableEq β] : DecidableEq (Table κ β) := fun s t =>
  decidable_of_iff (s.entries = t.entries) <| by
    cases s; cases t; simp

instance : EmptyCollection (Table κ β) := ⟨⟨[], .nil⟩⟩

instance : Inhabited (Table κ β) := ⟨∅⟩

@[simp] theorem entries_empty : (∅ : Table κ β).entries = [] := rfl

/-! ### Looking up -/

/-- The value of the first entry under `k`. -/
def find (k : κ) : List (κ × β) → Option β
  | [] => none
  | (j, b) :: rest => if rank j = rank k then some b else find k rest

def get? (t : Table κ β) (k : κ) : Option β := find k t.entries

@[simp] theorem get?_empty (k : κ) : (∅ : Table κ β).get? k = none := rfl

theorem find_eq_some_iff {k : κ} {b : β} {l : List (κ × β)}
    (h : l.Pairwise fun p q => rank p.1 < rank q.1) : find k l = some b ↔ (k, b) ∈ l := by
  induction l with
  | nil => simp [find]
  | cons p rest ih =>
      obtain ⟨j, c⟩ := p
      rw [List.pairwise_cons] at h
      rw [find]
      split
      · rename_i hEq
        have hjk : j = k := rank_inj.mp hEq
        subst hjk
        constructor
        · intro hb
          injection hb with hb
          subst hb
          simp
        · intro hMem
          rcases List.mem_cons.mp hMem with hEq' | hMem
          · injection hEq' with _ hb
            rw [hb]
          · exact absurd (h.1 _ hMem) (Nat.lt_irrefl _)
      · rename_i hNe
        rw [ih h.2, List.mem_cons]
        constructor
        · exact Or.inr
        · rintro (hEq | hMem)
          · injection hEq with hk _
            exact absurd (hk ▸ rfl) hNe
          · exact hMem

theorem get?_eq_some_iff {t : Table κ β} {k : κ} {b : β} :
    t.get? k = some b ↔ (k, b) ∈ t.entries :=
  find_eq_some_iff t.ascending

theorem eq_of_entries_eq {s t : Table κ β} (h : s.entries = t.entries) : s = t := by
  cases s; cases t; simp_all

/-- Entries in ascending rank are determined by their members. -/
theorem ascending_ext : ∀ {l m : List (κ × β)},
    (l.Pairwise fun p q => rank p.1 < rank q.1) → (m.Pairwise fun p q => rank p.1 < rank q.1) →
    (∀ p, p ∈ l ↔ p ∈ m) → l = m
  | [], [], _, _, _ => rfl
  | [], q :: m, _, _, h => absurd ((h q).mpr (by simp)) (by simp)
  | p :: l, [], _, _, h => absurd ((h p).mp (by simp)) (by simp)
  | p :: l, q :: m, hl, hm, h => by
      rw [List.pairwise_cons] at hl hm
      have hpq : p = q := by
        rcases List.mem_cons.mp ((h p).mp (by simp)) with hEq | hp
        · exact hEq
        · rcases List.mem_cons.mp ((h q).mpr (by simp)) with hEq | hq
          · exact hEq.symm
          · have h₁ := hm.1 p hp
            have h₂ := hl.1 q hq
            omega
      subst hpq
      congr 1
      refine ascending_ext hl.2 hm.2 fun x => ?_
      constructor
      · intro hx
        rcases List.mem_cons.mp ((h x).mp (List.mem_cons_of_mem p hx)) with rfl | hx'
        · exact absurd (hl.1 x hx) (Nat.lt_irrefl _)
        · exact hx'
      · intro hx
        rcases List.mem_cons.mp ((h x).mpr (List.mem_cons_of_mem p hx)) with rfl | hx'
        · exact absurd (hm.1 x hx) (Nat.lt_irrefl _)
        · exact hx'

/-- **A table is determined by what it answers.** -/
theorem ext {s t : Table κ β} (h : ∀ k, s.get? k = t.get? k) : s = t := by
  refine eq_of_entries_eq (ascending_ext s.ascending t.ascending fun p => ?_)
  obtain ⟨k, b⟩ := p
  rw [← get?_eq_some_iff, ← get?_eq_some_iff, h k]

/-! ### Changing an entry -/

/-- Writes `b` under `k`, over any value that stood there. -/
def put (k : κ) (b : β) : List (κ × β) → List (κ × β)
  | [] => [(k, b)]
  | (j, c) :: rest =>
      if rank k < rank j then (k, b) :: (j, c) :: rest
      else if rank k = rank j then (k, b) :: rest
      else (j, c) :: put k b rest

theorem fst_mem_put {k : κ} {b : β} {p : κ × β} {l : List (κ × β)} (h : p ∈ put k b l) :
    p.1 = k ∨ p ∈ l := by
  induction l with
  | nil => simp_all [put]
  | cons q rest ih =>
      obtain ⟨j, c⟩ := q
      rw [put] at h
      split at h
      · rcases List.mem_cons.mp h with rfl | h
        · exact Or.inl rfl
        · exact Or.inr h
      · split at h
        · rcases List.mem_cons.mp h with rfl | h
          · exact Or.inl rfl
          · exact Or.inr (List.mem_cons_of_mem _ h)
        · rcases List.mem_cons.mp h with rfl | h
          · exact Or.inr (by simp)
          · exact (ih h).imp id (List.mem_cons_of_mem _)

theorem pairwise_put {k : κ} {b : β} {l : List (κ × β)}
    (h : l.Pairwise fun p q => rank p.1 < rank q.1) :
    (put k b l).Pairwise fun p q => rank p.1 < rank q.1 := by
  induction l with
  | nil => simp [put]
  | cons q rest ih =>
      obtain ⟨j, c⟩ := q
      rw [List.pairwise_cons] at h
      rw [put]
      split
      · rename_i hLt
        refine List.pairwise_cons.mpr ⟨?_, List.pairwise_cons.mpr h⟩
        intro x hx
        rcases List.mem_cons.mp hx with rfl | hx
        · exact hLt
        · exact Nat.lt_trans hLt (h.1 x hx)
      · split
        · rename_i hEq
          exact List.pairwise_cons.mpr ⟨fun x hx => by simpa [hEq] using h.1 x hx, h.2⟩
        · refine List.pairwise_cons.mpr ⟨?_, ih h.2⟩
          intro x hx
          rcases fst_mem_put hx with hk | hx
          · simp only [hk]
            omega
          · exact h.1 x hx

def insert (t : Table κ β) (k : κ) (b : β) : Table κ β :=
  ⟨put k b t.entries, pairwise_put t.ascending⟩

theorem find_put {k j : κ} {b : β} {l : List (κ × β)} :
    find j (put k b l) = if rank k = rank j then some b else find j l := by
  induction l with
  | nil => simp [put, find]
  | cons q rest ih =>
      obtain ⟨i, c⟩ := q
      rw [put]
      split
      · rw [find]
      · split
        · rename_i hEq
          rw [find, find, ← hEq]
          split <;> rfl
        · rename_i hNe
          rw [find, find, ih]
          by_cases hkj : rank k = rank j
          · have hij : rank i ≠ rank j := by omega
            simp [hkj, hij]
          · simp [hkj]

@[simp] theorem get?_insert_self (t : Table κ β) (k : κ) (b : β) :
    (t.insert k b).get? k = some b := by
  simp [insert, get?, find_put]

theorem get?_insert_of_ne {t : Table κ β} {k j : κ} {b : β} (h : k ≠ j) :
    (t.insert k b).get? j = t.get? j := by
  have hRank : rank k ≠ rank j := fun hEq => h (rank_inj.mp hEq)
  simp [insert, get?, find_put, hRank]

theorem insert_insert_self (t : Table κ β) (k : κ) (b c : β) :
    (t.insert k b).insert k c = t.insert k c := by
  refine ext fun j => ?_
  by_cases hKey : k = j
  · subst hKey
    rw [get?_insert_self, get?_insert_self]
  · rw [get?_insert_of_ne hKey, get?_insert_of_ne hKey, get?_insert_of_ne hKey]

/-- The table of a list of entries, written in order, so the last entry under a key stands. -/
def ofList (l : List (κ × β)) : Table κ β :=
  l.foldl (fun t p => t.insert p.1 p.2) ∅

/-! ### Whole tables -/

def keys (t : Table κ β) : OrderedSet κ :=
  ⟨t.entries.map Prod.fst, t.ascending.map Prod.fst fun _ _ h => h⟩

theorem mem_keys {t : Table κ β} {k : κ} : k ∈ t.keys ↔ ∃ b, t.get? k = some b := by
  simp only [OrderedSet.mem_def, keys, List.mem_map, get?_eq_some_iff]
  constructor
  · rintro ⟨⟨j, b⟩, hMem, rfl⟩
    exact ⟨b, hMem⟩
  · rintro ⟨b, hMem⟩
    exact ⟨(k, b), hMem, rfl⟩

@[simp] theorem mem_keys_insert {t : Table κ β} {k j : κ} {b : β} :
    j ∈ (t.insert k b).keys ↔ j = k ∨ j ∈ t.keys := by
  rw [mem_keys, mem_keys]
  by_cases hKey : j = k
  · subst hKey
    simp
  · rw [get?_insert_of_ne (Ne.symm hKey), or_iff_right hKey]

def isEmpty (t : Table κ β) : Bool := t.entries.isEmpty

theorem isEmpty_iff {t : Table κ β} : t.isEmpty = true ↔ t = ∅ := by
  rw [isEmpty, List.isEmpty_iff]
  exact ⟨fun h => eq_of_entries_eq h, fun h => h ▸ rfl⟩

theorem isEmpty_eq_false_of_get? {t : Table κ β} {k : κ} {b : β} (h : t.get? k = some b) :
    t.isEmpty = false := by
  rw [← Bool.not_eq_true, isEmpty_iff]
  rintro rfl
  exact absurd h (by simp)

/-- Every value rewritten, keys kept. -/
def map (f : β → γ) (t : Table κ β) : Table κ γ :=
  ⟨t.entries.map fun p => (p.1, f p.2), t.ascending.map _ fun _ _ h => h⟩

@[simp] theorem get?_map (f : β → γ) (t : Table κ β) (k : κ) :
    (t.map f).get? k = (t.get? k).map f := by
  have hFind : ∀ l : List (κ × β), find k (l.map fun p => (p.1, f p.2)) = (find k l).map f := by
    intro l
    induction l with
    | nil => rfl
    | cons p rest ih =>
        simp only [List.map_cons, find, ih]
        split <;> rfl
  exact hFind t.entries

/-- The table that answers `f` on the keys of `ks` and nothing elsewhere. -/
def tabulate (ks : OrderedSet κ) (f : κ → Option β) : Table κ β where
  entries := ks.toList.filterMap fun k => (f k).map (k, ·)
  ascending := by
    refine List.pairwise_filterMap.mpr (ks.ascending.imp ?_)
    intro a b hLt p hp q hq
    rw [Option.map_eq_some_iff] at hp hq
    obtain ⟨_, _, rfl⟩ := hp
    obtain ⟨_, _, rfl⟩ := hq
    exact hLt

theorem get?_tabulate_eq_some_iff {ks : OrderedSet κ} {f : κ → Option β} {k : κ} {b : β} :
    (tabulate ks f).get? k = some b ↔ k ∈ ks ∧ f k = some b := by
  rw [get?_eq_some_iff]
  simp only [tabulate, List.mem_filterMap, Option.map_eq_some_iff, Prod.mk.injEq]
  constructor
  · rintro ⟨j, hj, c, hc, rfl, rfl⟩
    exact ⟨hj, hc⟩
  · rintro ⟨hk, hb⟩
    exact ⟨k, hk, b, hb, rfl, rfl⟩

end Table

end Automata
