import Orbit.Paging.Mmap

/-!
Entries of page tables: what a write to one of them changes, and where a table pointer
leads.
-/

namespace Paging

/-- The entry is a pointer to the table at `child`. -/
def PointsTo (e child : Nat) : Prop :=
  Pte.isValid e = true ∧ Pte.isLeaf e = false ∧ e < 2 ^ 54 ∧ Pte.ppn e * pageSize = child

theorem within_entry {t i a : Nat} (hi : i < 512) (ha : Within (t + 8 * i) 8 a) :
    Within t pageSize a := by
  have h1 := ha.1
  have h2 := ha.2
  simp only [Within, pageSize] at *
  omega

theorem pointsTo_packTable {pa : Nat} (hpa : pa % pageSize = 0) (hend : pa + pageSize ≤ physEnd) :
    PointsTo (Pte.packTable (pa / pageSize)) pa := by
  obtain ⟨hvalid, hleaf, hppn⟩ := Pte.packTable_spec (pa / pageSize)
  simp only [pageSize, physEnd] at *
  refine ⟨hvalid, hleaf, Pte.packTable_lt ?_, ?_⟩
  · exact Nat.div_lt_of_lt_mul (by omega)
  · rw [hppn, pageSize]
    omega

namespace Ram

theorem entry_setEntry (r : Ram) (t i : Nat) {e : Nat} (he : e < 2 ^ 64) :
    (r.setEntry t i e).entry t i = e := by
  rw [entry, setEntry, word_setWord, Nat.mod_eq_of_lt he]

theorem entry_setEntry_ne (r : Ram) {t t' i i' e : Nat} (ht : t % pageSize = 0)
    (ht' : t' % pageSize = 0) (hi : i < 512) (hi' : i' < 512) (hne : ¬ (t' = t ∧ i' = i)) :
    (r.setEntry t i e).entry t' i' = r.entry t' i' := by
  apply word_congr
  intro x hx
  apply sameOutside_setWord
  rintro ⟨h1, h2⟩
  obtain ⟨h3, h4⟩ := hx
  simp only [pageSize] at ht ht'
  omega

end Ram

theorem pageLayout_wf : pageLayout.Wf := ⟨12, rfl⟩

theorem pageLayout_span : pageLayout.span = pageSize := by decide

end Paging
