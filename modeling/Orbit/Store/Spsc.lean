import Mathlib.Data.Nat.Basic

/-!
A ring with one producer and one consumer. It has `n` slots and two indices below `n`; the
producer owns `tail`, the consumer owns `head`, and one slot always stays free. Each side
can set its own index back to zero without the other.
-/

namespace Store

variable {n : Nat} {α : Type}

structure Spsc (n : Nat) (α : Type) where
  head : Nat
  tail : Nat
  slots : Nat → α
  head_lt : head < n
  tail_lt : tail < n

namespace Spsc

def new (hn : 0 < n) (a : α) : Spsc n α := ⟨0, 0, fun _ => a, hn, hn⟩

def isEmpty (r : Spsc n α) : Bool := r.head = r.tail

def isFull (r : Spsc n α) : Bool := (r.tail + 1) % n = r.head

/-- A full ring stays as it is. -/
def enqueue (r : Spsc n α) (a : α) : Spsc n α :=
  if r.isFull then r
  else
    { r with
      slots := fun i => if i = r.tail then a else r.slots i
      tail := (r.tail + 1) % n
      tail_lt := Nat.mod_lt _ (Nat.zero_lt_of_lt r.tail_lt) }

def dequeue (r : Spsc n α) : Option (α × Spsc n α) :=
  if r.isEmpty then none
  else
    some (r.slots r.head,
      { r with head := (r.head + 1) % n, head_lt := Nat.mod_lt _ (Nat.zero_lt_of_lt r.head_lt) })

def len (r : Spsc n α) : Nat := (r.tail + n - r.head) % n

def resetProducer (r : Spsc n α) : Spsc n α :=
  { r with tail := 0, tail_lt := Nat.zero_lt_of_lt r.tail_lt }

def resetConsumer (r : Spsc n α) : Spsc n α :=
  { r with head := 0, head_lt := Nat.zero_lt_of_lt r.head_lt }

/-- Nothing is in the ring. -/
def Empty (r : Spsc n α) : Prop := r.head = r.tail

/-- Just `a` is in the ring. -/
def One (r : Spsc n α) (a : α) : Prop := r.tail = (r.head + 1) % n ∧ r.slots r.head = a

variable {r : Spsc n α} {a b : α}

theorem succ_mod_ne {i : Nat} (hn : 2 ≤ n) (hi : i < n) : (i + 1) % n ≠ i := by
  rcases Nat.lt_or_ge (i + 1) n with h | h
  · rw [Nat.mod_eq_of_lt h]
    omega
  have heq : i + 1 = n := by omega
  rw [heq, Nat.mod_self]
  omega

theorem isEmpty_iff : r.isEmpty = true ↔ r.Empty := by
  simp [isEmpty, Empty]

theorem One.not_empty (hn : 2 ≤ n) (h : r.One a) : ¬ r.Empty := by
  intro hempty
  exact succ_mod_ne hn r.head_lt (h.1.symm.trans hempty.symm)

theorem Empty.dequeue (h : r.Empty) : r.dequeue = none := by
  rw [Spsc.dequeue, if_pos (isEmpty_iff.mpr h)]

theorem One.dequeue (hn : 2 ≤ n) (h : r.One a) : ∃ r', r.dequeue = some (a, r') ∧ r'.Empty := by
  have hne : ¬ r.isEmpty = true := fun he => h.not_empty hn (isEmpty_iff.mp he)
  rw [Spsc.dequeue, if_neg hne, h.2]
  exact ⟨_, rfl, h.1.symm⟩

theorem Empty.isFull (hn : 2 ≤ n) (h : r.Empty) : r.isFull = false := by
  have hne := succ_mod_ne hn r.tail_lt
  unfold Empty at h
  simp only [Spsc.isFull, h, decide_eq_false_iff_not]
  exact hne

theorem Empty.enqueue (hn : 2 ≤ n) (h : r.Empty) (a : α) : (r.enqueue a).One a := by
  rw [Spsc.enqueue, if_neg (by simp [h.isFull hn])]
  constructor
  · exact congrArg (fun i => (i + 1) % n) h.symm
  · exact if_pos h

theorem Empty.len (h : r.Empty) : r.len = 0 := by
  unfold Empty at h
  have heq : r.tail + n - r.head = n := by omega
  rw [Spsc.len, heq, Nat.mod_self]

theorem One.len (hn : 2 ≤ n) (h : r.One a) : r.len = 1 := by
  have hhead := r.head_lt
  have htail := h.1
  rw [Spsc.len]
  rcases Nat.lt_or_ge (r.head + 1) n with hlt | hge
  · rw [Nat.mod_eq_of_lt hlt] at htail
    have heq : r.tail + n - r.head = n + 1 := by omega
    rw [heq, Nat.add_mod_left, Nat.mod_eq_of_lt hn]
  have hlast : r.head + 1 = n := by omega
  rw [hlast, Nat.mod_self] at htail
  have heq : r.tail + n - r.head = 1 := by omega
  rw [heq, Nat.mod_eq_of_lt hn]

end Spsc

end Store
