import Mathlib.Data.Multiset.AddSub

/-!
The contract of a binary heap, by the multiset of its entries: what is on top is an
entry that no other comes before, and a pop takes out what the peek before it showed.
Nothing is said about entries of equal rank, whose order a heap does not fix.
-/

namespace Store

variable {α : Type} {before : α → α → Prop}

structure MinHeap (α : Type) (before : α → α → Prop) where
  Heap : Type
  elems : Heap → Multiset α
  new : Heap
  push : Heap → α → Heap
  peek : Heap → Option α
  pop : Heap → Option (α × Heap)
  len : Heap → Nat
  elems_new : elems new = 0
  elems_push : ∀ q e, elems (push q e) = e ::ₘ elems q
  elems_peek_none : ∀ q, peek q = none → elems q = 0
  peek_least : ∀ q e, peek q = some e → ∀ x ∈ elems q, ¬ before x e
  pop_of_peek : ∀ q e, peek q = some e → ∃ q', pop q = some (e, q') ∧ elems q = e ::ₘ elems q'
  len_eq : ∀ q, len q = (elems q).card

namespace MinHeap

/-- Push the entries of a list one after the other. -/
def fill (H : MinHeap α before) (entries : List α) : H.Heap := entries.foldl H.push H.new

theorem elems_foldl_push (H : MinHeap α before) (entries : List α) (q : H.Heap) :
    H.elems (entries.foldl H.push q) = ↑entries + H.elems q := by
  induction entries generalizing q with
  | nil => simp
  | cons e rest ih =>
    rw [List.foldl_cons, ih, H.elems_push, ← Multiset.cons_coe, Multiset.add_cons,
      Multiset.cons_add]

theorem elems_fill (H : MinHeap α before) (entries : List α) :
    H.elems (H.fill entries) = ↑entries := by
  rw [fill, H.elems_foldl_push, H.elems_new, Multiset.add_zero]

end MinHeap

end Store
