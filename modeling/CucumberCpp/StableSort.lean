import Mathlib

/-! Stable sorting by a comparator that says what goes before what. -/
namespace StableSort

variable {α : Type} (comp : α → α → Bool)

/-- What goes before something equivalent to it, stays before it. -/
def stableSort (xs : List α) : List α := xs.insertionSort fun a b => comp b a = false

variable {comp} {xs : List α}

/-- A comparator that compares keys. -/
theorem isStrictWeakOrder_of_key {κ : Type} [LinearOrder κ] (key : α → κ)
    (h : ∀ a b, comp a b = true ↔ key a < key b) :
    IsStrictWeakOrder α fun a b => comp a b = true where
  irrefl a := by
    rw [h]
    exact lt_irrefl _
  trans a b c := by
    rw [h, h, h]
    exact lt_trans
  incomp_trans a b c := by
    rw [h, h, h, h, h, h]
    rintro ⟨hab,hba⟩ ⟨hbc,hcb⟩
    rw [le_antisymm (not_lt.mp hba) (not_lt.mp hab)]
    exact ⟨hbc, hcb⟩

theorem stableSort_perm : (stableSort comp xs).Perm xs := List.perm_insertionSort _ xs

/-- Nothing is followed by something that goes before it. -/
theorem pairwise_stableSort [h : IsStrictWeakOrder α fun a b => comp a b = true] :
    (stableSort comp xs).Pairwise fun a b => comp b a = false := by
  have htotal : Std.Total fun a b : α => comp b a = false := by
    refine ⟨fun a b => ?_⟩
    by_contra hnot
    simp only [not_or, Bool.not_eq_false] at hnot
    exact h.irrefl a (h.trans a b a hnot.2 hnot.1)
  have htrans : IsTrans α fun a b => comp b a = false := by
    refine ⟨fun a b c hab hbc => ?_⟩
    simp only [← Bool.not_eq_true] at *
    intro hca
    -- what is comparable with neither of two does not lie between them
    by_cases hab' : comp a b = true
    · exact hbc (h.trans c a b hca hab')
    · by_cases hbc' : comp b c = true
      · exact hab (h.trans b c a hbc' hca)
      · exact (h.incomp_trans a b c ⟨hab', hab⟩ ⟨hbc', hbc⟩).2 hca
  exact List.pairwise_insertionSort _ xs

theorem pair_sublist_stableSort {a b : α} (hba : comp b a = false) (h : [a, b].Sublist xs) :
    [a, b].Sublist (stableSort comp xs) :=
  List.pair_sublist_insertionSort hba h

end StableSort
