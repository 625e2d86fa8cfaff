import Mathlib.Data.List.Count
import Mathlib.Data.List.Perm.Basic
import Orbit.Store.Table

/-!
A map of queues, one per key, against one line in which all elements stand in the
order they came. An element joins the line at its end; the first few of one key, or all
that fail a test, leave it. The map keeps a queue only while it has elements.
-/

namespace Store

open Table

variable {ks : List Nat} {k : Nat}

variable {α : Type}

/-- The elements of one line, each with the key it stands for. -/
abbrev Line (α : Type) := List (Nat × α)

namespace Line

def queue (l : Line α) (k : Nat) : List α := (l.filter fun e => e.1 = k).map (·.2)

/-- The first `n` of key `k` leave; the others keep their places. -/
def drain (k : Nat) : Nat → Line α → List α × Line α
  | 0, l => ([], l)
  | _ + 1, [] => ([], [])
  | n + 1, e :: l =>
    if e.1 = k then (e.2 :: (drain k n l).1, (drain k n l).2)
    else ((drain k (n + 1) l).1, e :: (drain k (n + 1) l).2)

@[simp] theorem queue_nil (k : Nat) : queue ([] : Line α) k = [] := rfl

theorem queue_cons (e : Nat × α) (l : Line α) (k : Nat) :
    queue (e :: l) k = if e.1 = k then e.2 :: queue l k else queue l k := by
  by_cases he : e.1 = k <;> simp [queue, he]

theorem queue_append (l m : Line α) (k : Nat) : queue (l ++ m) k = queue l k ++ queue m k := by
  simp [queue]

theorem mem_queue {l : Line α} {a : α} : a ∈ queue l k ↔ (k, a) ∈ l := by
  simp [queue]

theorem drain_fst (k n : Nat) (l : Line α) : (drain k n l).1 = (queue l k).take n := by
  fun_induction drain k n l with
  | case1 l => rfl
  | case2 n => rfl
  | case3 n e l he ih => simp [queue_cons, he, ih]
  | case4 n e l he ih => simp [queue_cons, he, ih]

theorem queue_drain (k n : Nat) (l : Line α) (j : Nat) :
    queue (drain k n l).2 j = if j = k then (queue l k).drop n else queue l j := by
  fun_induction drain k n l with
  | case1 l =>
    split
    · next hj => rw [hj, List.drop_zero]
    · rfl
  | case2 n => simp
  | case3 n e l he ih =>
    rw [ih]
    by_cases hj : j = k
    · simp [hj, queue_cons, he]
    · have hej : e.1 ≠ j := fun heq => hj (heq.symm.trans he)
      simp [hj, queue_cons, hej]
  | case4 n e l he ih =>
    rw [queue_cons, ih]
    by_cases hj : j = k
    · simp [hj, queue_cons, he]
    · simp [hj, queue_cons]

/-- Who leaves and who stays are together who stood in line. -/
theorem drain_perm (k n : Nat) (l : Line α) :
    ((drain k n l).1 ++ (drain k n l).2.map (·.2)).Perm (l.map (·.2)) := by
  fun_induction drain k n l with
  | case1 l => exact .refl _
  | case2 n => exact .refl _
  | case3 n e l he ih => exact ih.cons e.2
  | case4 n e l he ih => exact List.perm_middle.trans (ih.cons e.2)

theorem drain_sublist (k n : Nat) (l : Line α) : (drain k n l).2.Sublist l := by
  fun_induction drain k n l with
  | case1 l => exact .refl _
  | case2 n => exact .refl _
  | case3 n e l he ih => exact ih.cons e
  | case4 n e l he ih => exact ih.cons_cons e

theorem queue_filter (keep : α → Bool) (l : Line α) (k : Nat) :
    queue (l.filter fun e => keep e.2) k = (queue l k).filter keep := by
  rw [queue, queue, List.filter_map, List.filter_filter, List.filter_filter]
  congr 1
  apply List.filter_congr
  intro e _
  exact Bool.and_comm ..

end Line

/-- The queues of distinct keys, one after the other, when one of them gets an element in
front. -/
theorem flatMap_cons_perm (hks : ks.Nodup) (hk : k ∈ ks) (a : α) (q : Nat → List α) :
    (ks.flatMap fun j => if k = j then a :: q j else q j).Perm (a :: ks.flatMap q) := by
  obtain ⟨front, back, rfl⟩ := List.append_of_mem hk
  have hback := (List.nodup_cons.mp (List.nodup_append.mp hks).2.1).1
  have hfront : k ∉ front := fun hin => (List.nodup_append.mp hks).2.2 k hin k (by simp) rfl
  have hother : ∀ l : List Nat, k ∉ l →
      (l.flatMap fun j => if k = j then a :: q j else q j) = l.flatMap q := by
    intro l hl
    refine List.flatMap_congr fun j hj => ?_
    rw [if_neg]
    rintro rfl
    exact hl hj
  rw [List.flatMap_append, List.flatMap_append, List.flatMap_cons, List.flatMap_cons,
    hother front hfront, hother back hback, if_pos rfl]
  exact List.perm_middle

/-- The queues of all keys in use are together the line. -/
theorem Line.flatMap_queue_perm (hks : ks.Nodup) (l : Line α)
    (h : ∀ e ∈ l, e.1 ∈ ks) : (ks.flatMap l.queue).Perm (l.map (·.2)) := by
  induction l with
  | nil => simp
  | cons e l ih =>
    have hqueue : (queue (e :: l)) = fun k => if e.1 = k then e.2 :: queue l k else queue l k :=
      funext fun k => queue_cons e l k
    rw [hqueue]
    refine (flatMap_cons_perm hks (h e (.head _)) e.2 (queue l)).trans ?_
    exact (ih fun e' he' => h e' (.tail _ he')).cons e.2

/-- The queue of a key; a key without an entry has none waiting. -/
def queue (m : Table (List α)) (k : Nat) : List α := (m.get k).getD []

namespace Table

/-- `entry(k).or_default().push(a)` -/
def pushBack (m : Table (List α)) (k : Nat) (a : α) : Table (List α) :=
  m.insert k (queue m k ++ [a])

/-- `drain(..take)` on the queue of `k`, whose entry goes when nobody is left. -/
def drainFront (m : Table (List α)) (k n : Nat) : List α × Table (List α) :=
  match m.get k with
  | none => ([], m)
  | some q =>
    let rest := q.drop n
    (q.take n, if rest.isEmpty then m.erase k else m.insert k rest)

/-- `retain` on every queue, and on the map for the queues that have elements left. -/
def retainQueues (m : Table (List α)) (keep : α → Bool) : Table (List α) :=
  let kept := m.map fun _ q => q.filter keep
  ⟨kept.entries.filter fun e => !e.2.isEmpty, kept.sorted.filter _⟩

end Table

@[simp] theorem queue_empty (k : Nat) : queue (.empty : Table (List α)) k = [] := rfl

theorem queue_pushBack (m : Table (List α)) (k j : Nat) (a : α) :
    queue (m.pushBack k a) j = if j = k then queue m k ++ [a] else queue m j := by
  simp only [queue, Table.pushBack, get_insert]
  split
  · rfl
  · rfl

theorem drainFront_fst (m : Table (List α)) (k n : Nat) :
    (m.drainFront k n).1 = (queue m k).take n := by
  unfold Table.drainFront queue
  split
  · next h => simp [h]
  · next q h => simp [h]

theorem queue_drainFront (m : Table (List α)) (k n j : Nat) :
    queue (m.drainFront k n).2 j = if j = k then (queue m k).drop n else queue m j := by
  unfold Table.drainFront queue
  split
  · next h =>
    by_cases hj : j = k
    · simp [hj, h]
    · simp [hj]
  next q h =>
  by_cases hrest : (q.drop n).isEmpty = true
  · simp only [hrest, if_true, get_erase, h]
    by_cases hj : j = k
    · simp [hj, List.isEmpty_iff.mp hrest]
    · simp [hj]
  · simp only [hrest, Bool.false_eq_true, if_false, get_insert, h]
    by_cases hj : j = k <;> simp [hj]

theorem mem_retainQueues {m : Table (List α)} {keep : α → Bool} {k : Nat} {q : List α} :
    (m.retainQueues keep).get k = some q ↔
      q ≠ [] ∧ ∃ old, m.get k = some old ∧ old.filter keep = q := by
  rw [get_eq_some]
  simp only [Table.retainQueues, List.mem_filter, ← get_eq_some, get_map,
    Option.map_eq_some_iff, Bool.not_eq_eq_eq_not, Bool.not_true, List.isEmpty_eq_false_iff]
  exact And.comm

theorem queue_retainQueues (m : Table (List α)) (keep : α → Bool) (k : Nat) :
    queue (m.retainQueues keep) k = (queue m k).filter keep := by
  have hkept := @mem_retainQueues α m keep k
  unfold queue
  cases h : (m.retainQueues keep).get k with
  | some q =>
    obtain ⟨_, old, hold, hfilter⟩ := hkept.mp h
    simp [hold, hfilter]
  | none =>
    cases hold : m.get k with
    | none => rfl
    | some old =>
      -- the queue was dropped, so nothing of it was kept
      by_cases hempty : old.filter keep = []
      · simp [hempty]
      · rw [hkept.mpr ⟨hempty, old, hold, rfl⟩] at h
        cases h

/-- The map holds, key by key, what stands in the line, and no empty queue. -/
structure Queues (m : Table (List α)) (l : Line α) : Prop where
  queue_eq : ∀ k, queue m k = l.queue k
  nonempty : ∀ k q, m.get k = some q → q ≠ []

namespace Queues

variable {m : Table (List α)} {l : Line α}

theorem empty : Queues (.empty : Table (List α)) [] where
  queue_eq _ := rfl
  nonempty _ _ h := by cases h

variable (h : Queues m l)

include h

theorem mem_iff {a : α} : a ∈ queue m k ↔ (k, a) ∈ l := by
  rw [h.queue_eq, Line.mem_queue]

/-- All queues of the map together are the line, up to order. -/
theorem flatMap_perm : (m.entries.flatMap (·.2)).Perm (l.map (·.2)) := by
  have hkeys : (m.entries.map (·.1)).Nodup := by
    rw [List.nodup_iff_pairwise_ne, List.pairwise_map]
    exact m.sorted.imp fun hlt => Nat.ne_of_lt hlt
  have hqueue : m.entries.flatMap (·.2) = (m.entries.map (·.1)).flatMap l.queue := by
    rw [List.flatMap_map]
    refine List.flatMap_congr fun e he => ?_
    rw [← h.queue_eq, queue, m.get_eq_some.mpr he]
    rfl
  rw [hqueue]
  refine Line.flatMap_queue_perm hkeys l fun e he => ?_
  have hin := h.mem_iff.mpr he
  unfold queue at hin
  cases hget : m.get e.1 with
  | none => simp [hget] at hin
  | some q => exact List.mem_map_of_mem (m.get_eq_some.mp hget)

theorem pushBack (k : Nat) (a : α) : Queues (m.pushBack k a) (l ++ [(k, a)]) where
  queue_eq j := by
    rw [queue_pushBack, Line.queue_append, Line.queue_cons]
    split
    · next hj => simp [hj, h.queue_eq]
    · next hj => simp [Ne.symm hj, h.queue_eq]
  nonempty j q hq := by
    rw [Table.pushBack, get_insert] at hq
    split at hq
    · cases hq
      simp
    · exact h.nonempty j q hq

theorem drainFront_fst (k n : Nat) :
    (m.drainFront k n).1 = (Line.drain k n l).1 := by
  rw [Store.drainFront_fst, Line.drain_fst, h.queue_eq]

theorem drainFront (k n : Nat) :
    Queues (m.drainFront k n).2 (Line.drain k n l).2 where
  queue_eq j := by
    rw [queue_drainFront, Line.queue_drain, h.queue_eq, h.queue_eq]
  nonempty j q hq := by
    unfold Table.drainFront at hq
    split at hq
    · exact h.nonempty j q hq
    dsimp only at hq
    split at hq
    · rw [get_erase] at hq
      split at hq
      · cases hq
      · exact h.nonempty j q hq
    next hrest =>
    rw [get_insert] at hq
    split at hq
    · cases hq
      exact fun hnil => hrest (List.isEmpty_iff.mpr hnil)
    · exact h.nonempty j q hq

theorem retainQueues (keep : α → Bool) :
    Queues (m.retainQueues keep) (l.filter fun e => keep e.2) where
  queue_eq k := by rw [queue_retainQueues, Line.queue_filter, h.queue_eq]
  nonempty k q hq := (mem_retainQueues.mp hq).1

end Queues

end Store
