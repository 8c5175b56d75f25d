import Automata.Ordered.Rank

/-! # Ordered sets

A finite set is the list of its elements in strictly ascending rank. The list is determined by
the elements (`OrderedSet.ext`), so equality of sets is equality of values and does not depend on
how the sets were built.
-/

namespace Automata

/-- A finite set, held as the list of its elements in strictly ascending rank. -/
structure OrderedSet (α : Type) [Ranked α] where
  toList : List α
  ascending : toList.Pairwise fun a b => rank a < rank b

namespace OrderedSet

variable {α β : Type} [Ranked α] [Ranked β]

instance [DecidableEq α] : DecidableEq (OrderedSet α) := fun s t =>
  decidable_of_iff (s.toList = t.toList) <| by
    cases s; cases t; simp

instance : EmptyCollection (OrderedSet α) := ⟨⟨[], .nil⟩⟩

instance : Inhabited (OrderedSet α) := ⟨∅⟩

instance : Membership α (OrderedSet α) := ⟨fun s a => a ∈ s.toList⟩

theorem mem_def {a : α} {s : OrderedSet α} : a ∈ s ↔ a ∈ s.toList := Iff.rfl

instance [DecidableEq α] (a : α) (s : OrderedSet α) : Decidable (a ∈ s) :=
  inferInstanceAs (Decidable (a ∈ s.toList))

@[simp] theorem toList_empty : (∅ : OrderedSet α).toList = [] := rfl

@[simp] theorem not_mem_empty (a : α) : a ∉ (∅ : OrderedSet α) := List.not_mem_nil

/-! ### Insertion -/

/-- Places `a` into an ascending list, once. -/
def place (a : α) : List α → List α
  | [] => [a]
  | b :: rest =>
      if rank a < rank b then a :: b :: rest
      else if rank a = rank b then b :: rest
      else b :: place a rest

theorem mem_place {x a : α} {l : List α} : x ∈ place a l ↔ x = a ∨ x ∈ l := by
  induction l with
  | nil => simp [place]
  | cons b rest ih =>
      rw [place]
      split
      · simp
      · split
        · rename_i hEq
          have hab : a = b := rank_inj.mp hEq
          subst hab
          simp
        · simp [ih, or_left_comm]

theorem pairwise_place {a : α} {l : List α} (h : l.Pairwise fun a b => rank a < rank b) :
    (place a l).Pairwise fun a b => rank a < rank b := by
  induction l with
  | nil => simp [place]
  | cons b rest ih =>
      rw [List.pairwise_cons] at h
      rw [place]
      split
      · rename_i hLt
        refine List.pairwise_cons.mpr ⟨?_, List.pairwise_cons.mpr h⟩
        intro x hx
        rcases List.mem_cons.mp hx with rfl | hx
        · exact hLt
        · exact Nat.lt_trans hLt (h.1 x hx)
      · split
        · exact List.pairwise_cons.mpr h
        · refine List.pairwise_cons.mpr ⟨?_, ih h.2⟩
          intro x hx
          rcases mem_place.mp hx with rfl | hx
          · omega
          · exact h.1 x hx

def insert (a : α) (s : OrderedSet α) : OrderedSet α :=
  ⟨place a s.toList, pairwise_place s.ascending⟩

@[simp] theorem mem_insert {x a : α} {s : OrderedSet α} : x ∈ s.insert a ↔ x = a ∨ x ∈ s :=
  mem_place

def ofList (l : List α) : OrderedSet α :=
  l.foldr insert ∅

@[simp] theorem mem_ofList {x : α} {l : List α} : x ∈ ofList l ↔ x ∈ l := by
  induction l with
  | nil => simp [ofList]
  | cons a rest ih =>
      have hStep : ofList (a :: rest) = (ofList rest).insert a := rfl
      rw [hStep, mem_insert, ih, List.mem_cons]

def singleton (a : α) : OrderedSet α :=
  ⟨[a], List.pairwise_singleton _ a⟩

@[simp] theorem toList_singleton (a : α) : (singleton a).toList = [a] := rfl

@[simp] theorem mem_singleton {x a : α} : x ∈ singleton a ↔ x = a :=
  List.mem_singleton

/-! ### Equality -/

theorem eq_of_toList_eq {s t : OrderedSet α} (h : s.toList = t.toList) : s = t := by
  cases s; cases t; simp_all

/-- **Ascending lists with the same elements are equal.** The heads are the least elements of
both lists, hence equal, and no later element repeats the head. -/
theorem ascending_ext : ∀ {l m : List α}, (l.Pairwise fun a b => rank a < rank b) →
    (m.Pairwise fun a b => rank a < rank b) → (∀ x, x ∈ l ↔ x ∈ m) → l = m
  | [], [], _, _, _ => rfl
  | [], b :: m, _, _, h => absurd ((h b).mpr (by simp)) (by simp)
  | a :: l, [], _, _, h => absurd ((h a).mp (by simp)) (by simp)
  | a :: l, b :: m, hl, hm, h => by
      rw [List.pairwise_cons] at hl hm
      have hab : a = b := by
        rcases List.mem_cons.mp ((h a).mp (by simp)) with hEq | ha
        · exact hEq
        · rcases List.mem_cons.mp ((h b).mpr (by simp)) with hEq | hb
          · exact hEq.symm
          · have h₁ := hm.1 a ha
            have h₂ := hl.1 b hb
            omega
      subst hab
      congr 1
      refine ascending_ext hl.2 hm.2 fun x => ?_
      constructor
      · intro hx
        rcases List.mem_cons.mp ((h x).mp (List.mem_cons_of_mem a hx)) with rfl | hx'
        · exact absurd (hl.1 x hx) (Nat.lt_irrefl _)
        · exact hx'
      · intro hx
        rcases List.mem_cons.mp ((h x).mpr (List.mem_cons_of_mem a hx)) with rfl | hx'
        · exact absurd (hm.1 x hx) (Nat.lt_irrefl _)
        · exact hx'

/-- **A set is determined by its elements.** -/
theorem ext {s t : OrderedSet α} (h : ∀ x, x ∈ s ↔ x ∈ t) : s = t :=
  eq_of_toList_eq (ascending_ext s.ascending t.ascending h)

theorem ofList_toList (s : OrderedSet α) : ofList s.toList = s :=
  ext fun _ => mem_ofList

theorem nodup_toList (s : OrderedSet α) : s.toList.Nodup :=
  s.ascending.imp fun {a b} hLt (hEq : a = b) => by
    rw [hEq] at hLt
    exact absurd hLt (Nat.lt_irrefl _)

/-! ### Queries and combinations -/

def isEmpty (s : OrderedSet α) : Bool := s.toList.isEmpty

theorem isEmpty_iff {s : OrderedSet α} : s.isEmpty = true ↔ s = ∅ := by
  rw [isEmpty, List.isEmpty_iff]
  exact ⟨fun h => eq_of_toList_eq h, fun h => h ▸ rfl⟩

theorem eq_empty_iff {s : OrderedSet α} : s = ∅ ↔ ∀ x, x ∉ s :=
  ⟨fun h x => h ▸ not_mem_empty x, fun h => ext fun x => by simp [h x]⟩

def size (s : OrderedSet α) : Nat := s.toList.length

def any (s : OrderedSet α) (p : α → Bool) : Bool := s.toList.any p

@[simp] theorem any_eq_true {s : OrderedSet α} {p : α → Bool} :
    s.any p = true ↔ ∃ a, a ∈ s ∧ p a = true :=
  List.any_eq_true

def filter (p : α → Bool) (s : OrderedSet α) : OrderedSet α :=
  ⟨s.toList.filter p, s.ascending.filter p⟩

@[simp] theorem mem_filter {x : α} {p : α → Bool} {s : OrderedSet α} :
    x ∈ s.filter p ↔ x ∈ s ∧ p x = true :=
  List.mem_filter

theorem filter_mem_eq [DecidableEq α] {s t : OrderedSet α} (h : ∀ x ∈ s, x ∈ t) :
    t.filter (· ∈ s) = s := by
  apply ext
  intro x
  rw [mem_filter, decide_eq_true_iff]
  exact ⟨And.right, fun hx => ⟨h x hx, hx⟩⟩

def union (s t : OrderedSet α) : OrderedSet α :=
  s.toList.foldr insert t

@[simp] theorem mem_union {x : α} {s t : OrderedSet α} : x ∈ s.union t ↔ x ∈ s ∨ x ∈ t := by
  have hFold : ∀ l : List α, x ∈ l.foldr insert t ↔ x ∈ l ∨ x ∈ t := by
    intro l
    induction l with
    | nil => simp
    | cons a rest ih => simp [ih, or_assoc]
  exact hFold s.toList

/-- All elements of the sets that `f` gives on a set. -/
def bind (s : OrderedSet α) (f : α → List β) : OrderedSet β :=
  ofList (s.toList.flatMap f)

@[simp] theorem mem_bind {y : β} {s : OrderedSet α} {f : α → List β} :
    y ∈ s.bind f ↔ ∃ a, a ∈ s ∧ y ∈ f a := by
  rw [bind, mem_ofList, List.mem_flatMap]
  rfl

/-- The numbers below `n`. -/
def below (n : Nat) : OrderedSet Nat :=
  ⟨List.range n, List.pairwise_lt_range⟩

@[simp] theorem mem_below {i n : Nat} : i ∈ below n ↔ i < n :=
  List.mem_range

end OrderedSet

end Automata
