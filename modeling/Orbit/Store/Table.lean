import Mathlib.Data.List.Pairwise
import Mathlib.Tactic.Common

/-!
Finite maps from numbers, kept sorted by key the way an ordered tree map iterates
over them.
-/

namespace Store

variable {j k : Nat} {β : Type}

variable {α : Type}

def Increasing (l : List (Nat × α)) : Prop := l.Pairwise fun a b => a.1 < b.1

def lookup (k : Nat) : List (Nat × α) → Option α
  | [] => none
  | (k', v) :: rest => if k' = k then some v else lookup k rest

def insertSorted (k : Nat) (v : α) : List (Nat × α) → List (Nat × α)
  | [] => [(k, v)]
  | (k', v') :: rest =>
    if k < k' then (k, v) :: (k', v') :: rest
    else if k = k' then (k, v) :: rest
    else (k', v') :: insertSorted k v rest

theorem mem_insertSorted {v : α} {l : List (Nat × α)} {e : Nat × α}
    (h : e ∈ insertSorted k v l) : e = (k, v) ∨ e ∈ l := by
  induction l with
  | nil => exact .inl (List.mem_singleton.mp h)
  | cons head rest ih =>
    obtain ⟨k', v'⟩ := head
    simp only [insertSorted] at h
    split at h
    · exact List.mem_cons.mp h
    split at h
    · exact (List.mem_cons.mp h).imp id (List.mem_cons_of_mem _)
    rcases List.mem_cons.mp h with rfl | h
    · exact .inr (.head _)
    · exact (ih h).imp id (List.mem_cons_of_mem _)

theorem Increasing.insertSorted {v : α} {l : List (Nat × α)} (h : Increasing l) :
    Increasing (insertSorted k v l) := by
  induction l with
  | nil => exact List.pairwise_singleton _ _
  | cons head rest ih =>
    obtain ⟨k', v'⟩ := head
    obtain ⟨hhead, hrest⟩ := List.pairwise_cons.mp h
    simp only [Store.insertSorted]
    split
    · next hlt =>
      refine List.pairwise_cons.mpr ⟨fun e he => ?_, h⟩
      rcases List.mem_cons.mp he with rfl | he
      · exact hlt
      · exact Nat.lt_trans hlt (hhead e he)
    split
    · next heq =>
      subst heq
      exact List.pairwise_cons.mpr ⟨hhead, hrest⟩
    refine List.pairwise_cons.mpr ⟨fun e he => ?_, ih hrest⟩
    rcases mem_insertSorted he with rfl | he
    · simp only
      omega
    · exact hhead e he

theorem lookup_insertSorted (k j : Nat) (v : α) (l : List (Nat × α)) :
    lookup j (insertSorted k v l) = if j = k then some v else lookup j l := by
  induction l with
  | nil => simp [insertSorted, lookup, eq_comm]
  | cons head rest ih =>
    obtain ⟨k', v'⟩ := head
    simp only [insertSorted]
    split
    · simp [lookup, eq_comm]
    split
    · next heq =>
      subst heq
      by_cases hj : k = j
      · subst hj
        simp [lookup]
      · simp [lookup, hj, Ne.symm hj]
    next hne =>
    simp only [lookup, ih]
    by_cases hk : k' = j
    · subst hk
      simp [Ne.symm hne]
    · simp [hk]

theorem Increasing.lookup_eq_some {l : List (Nat × α)} (h : Increasing l) {v : α} :
    lookup k l = some v ↔ (k, v) ∈ l := by
  induction l with
  | nil => simp [lookup]
  | cons head rest ih =>
    obtain ⟨k', v'⟩ := head
    obtain ⟨hhead, hrest⟩ := List.pairwise_cons.mp h
    simp only [lookup]
    split
    · next hk =>
      subst hk
      rw [List.mem_cons, Prod.mk.injEq]
      constructor
      · rintro ⟨⟩
        exact .inl ⟨rfl, rfl⟩
      rintro (⟨-, rfl⟩ | hin)
      · rfl
      · exact absurd (hhead _ hin) (Nat.lt_irrefl _)
    next hk =>
    rw [ih hrest, List.mem_cons, Prod.mk.injEq]
    exact ⟨.inr, fun hor => hor.resolve_left fun heq => hk heq.1.symm⟩

theorem lookup_filter_ne (k j : Nat) (l : List (Nat × α)) :
    lookup j (l.filter fun e => e.1 ≠ k) = if j = k then none else lookup j l := by
  induction l with
  | nil => simp [lookup]
  | cons head rest ih =>
    obtain ⟨k', v'⟩ := head
    by_cases hk : k' = k
    · rw [List.filter_cons_of_neg (by simpa using hk), ih]
      by_cases hj : j = k
      · simp [hj]
      rw [if_neg hj, if_neg hj, lookup, if_neg]
      rintro rfl
      exact hj hk
    rw [List.filter_cons_of_pos (by simpa using hk)]
    simp only [lookup, ih]
    by_cases hj : j = k
    · subst hj
      simp [hk]
    · simp [hj]

theorem lookup_map (f : Nat → α → β) (k : Nat) (l : List (Nat × α)) :
    lookup k (l.map fun e => (e.1, f e.1 e.2)) = (lookup k l).map (f k) := by
  induction l with
  | nil => rfl
  | cons head rest ih =>
    obtain ⟨k', v⟩ := head
    simp only [List.map_cons, lookup]
    split
    · next hk =>
      subst hk
      rfl
    · exact ih

theorem Increasing.map (f : Nat → α → β) {l : List (Nat × α)} (h : Increasing l) :
    Increasing (l.map fun e => (e.1, f e.1 e.2)) := by
  unfold Increasing
  rw [List.pairwise_map]
  exact h

/-- `BTreeMap` -/
structure Table (α : Type) where
  entries : List (Nat × α)
  sorted : Increasing entries

namespace Table

def empty : Table α := ⟨[], List.Pairwise.nil⟩

def get (t : Table α) (k : Nat) : Option α := lookup k t.entries

def insert (t : Table α) (k : Nat) (v : α) : Table α :=
  ⟨insertSorted k v t.entries, t.sorted.insertSorted⟩

def erase (t : Table α) (k : Nat) : Table α :=
  ⟨t.entries.filter fun e => e.1 ≠ k, t.sorted.filter _⟩

/-- Every value is replaced, the keys stay. -/
def map {β : Type} (t : Table α) (f : Nat → α → β) : Table β :=
  ⟨t.entries.map fun e => (e.1, f e.1 e.2), t.sorted.map f⟩

@[simp] theorem get_empty (k : Nat) : (empty : Table α).get k = none := rfl

theorem get_insert (t : Table α) (k j : Nat) (v : α) :
    (t.insert k v).get j = if j = k then some v else t.get j :=
  lookup_insertSorted k j v t.entries

@[simp] theorem get_insert_self (t : Table α) (k : Nat) (v : α) :
    (t.insert k v).get k = some v := by
  rw [get_insert, if_pos rfl]

theorem get_insert_ne (t : Table α) (v : α) (h : j ≠ k) :
    (t.insert k v).get j = t.get j := by
  rw [get_insert, if_neg h]

theorem ne_of_get {t : Table α} {w : α} (hj : t.get j = some w) (hk : t.get k = none) :
    j ≠ k := by
  rintro rfl
  rw [hk] at hj
  cases hj

/-- A new key hides nothing. -/
theorem get_insert_of_none {t : Table α} {v w : α} (hk : t.get k = none)
    (hj : t.get j = some w) : (t.insert k v).get j = some w :=
  (get_insert_ne t v (ne_of_get hj hk)).trans hj

theorem get_erase (t : Table α) (k j : Nat) : (t.erase k).get j = if j = k then none else t.get j :=
  lookup_filter_ne k j t.entries

@[simp] theorem get_erase_self (t : Table α) (k : Nat) : (t.erase k).get k = none := by
  rw [get_erase, if_pos rfl]

variable (t : Table α)

include t

theorem get_erase_ne (h : j ≠ k) : (t.erase k).get j = t.get j := by
  rw [get_erase, if_neg h]

theorem get_insert_eq_some {v w : α} :
    (t.insert k v).get j = some w ↔ (j = k ∧ w = v) ∨ (j ≠ k ∧ t.get j = some w) := by
  rw [get_insert]
  by_cases hj : j = k
  · simp [hj, eq_comm]
  · simp [hj]

theorem get_erase_eq_some {w : α} :
    (t.erase k).get j = some w ↔ j ≠ k ∧ t.get j = some w := by
  rw [get_erase]
  by_cases hj : j = k
  · simp [hj]
  · simp [hj]

theorem get_map (f : Nat → α → β) (k : Nat) :
    (t.map f).get k = (t.get k).map (f k) :=
  lookup_map f k t.entries

theorem get_eq_some {v : α} : t.get k = some v ↔ (k, v) ∈ t.entries :=
  t.sorted.lookup_eq_some

end Table

end Store
