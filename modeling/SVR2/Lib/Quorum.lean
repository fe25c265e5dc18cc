import Mathlib.Data.Finset.Card
import Mathlib.Data.Finset.Lattice.Basic
import Mathlib.Data.List.Sort

/-!
# Quorums

Two sets of voters that together outnumber all voters have a voter in common, and one outside
any set that is small enough.  The index that `n` of a list of indexes reach is found by
sorting the list in descending order.
-/

namespace SVR2.Lib

/-! ### Intersections -/

/-- Two sets of voters share what they have beyond the number of voters. -/
theorem card_add_card_le {α : Type} [DecidableEq α] {V A B : Finset α} (hA : A ⊆ V) (hB : B ⊆ V) :
    A.card + B.card ≤ V.card + (A ∩ B).card := by
  have hunion : (A ∪ B).card ≤ V.card := Finset.card_le_card (Finset.union_subset hA hB)
  have hsum := Finset.card_union_add_card_inter A B
  omega

/-- Two sets of voters with more than `V.card + R.card` members between them share one outside
    `R`. -/
theorem exists_mem_inter_not_mem {α : Type} [DecidableEq α] {V A B R : Finset α} (hA : A ⊆ V)
    (hB : B ⊆ V) (hcard : V.card + (V ∩ R).card < A.card + B.card) :
    ∃ x, x ∈ A ∧ x ∈ B ∧ x ∉ R := by
  by_contra hno
  have hsub : A ∩ B ⊆ V ∩ R := by
    intro x hx
    rw [Finset.mem_inter] at hx ⊢
    refine ⟨hA hx.1, ?_⟩
    by_contra hR
    exact hno ⟨x, hx.1, hx.2, hR⟩
  have hinter : (A ∩ B).card ≤ (V ∩ R).card := Finset.card_le_card hsub
  have hsum := card_add_card_le hA hB
  omega

/-- Two sets of voters that outnumber all voters share one. -/
theorem exists_mem_inter {α : Type} [DecidableEq α] {V A B : Finset α} (hA : A ⊆ V)
    (hB : B ⊆ V) (hcard : V.card < A.card + B.card) : ∃ x, x ∈ A ∧ x ∈ B := by
  obtain ⟨x, hxA, hxB, -⟩ := exists_mem_inter_not_mem (R := ∅) hA hB (by simpa using hcard)
  exact ⟨x, hxA, hxB⟩

/-! ### Ranking -/

/-- In a descending list, element `k` reaches `y` exactly if more than `k` elements do. -/
theorem le_getElem_iff_of_pairwise {s : List Nat} (hs : s.Pairwise (· ≥ ·)) {k x : Nat}
    (hx : s[k]? = some x) (y : Nat) : y ≤ x ↔ k < (s.filter fun z => decide (y ≤ z)).length := by
  induction s generalizing k with
  | nil => simp at hx
  | cons a s ih =>
    obtain ⟨ha, hs⟩ := List.pairwise_cons.mp hs
    by_cases hya : y ≤ a
    · cases k with
      | zero => simp_all
      | succ k =>
        rw [List.getElem?_cons_succ] at hx
        simp [hya, ih hs hx]
    · -- everything after `a` is below `y` too
      have hnil : s.filter (fun z => decide (y ≤ z)) = [] := by
        rw [List.filter_eq_nil_iff]
        intro z hz
        have := ha z hz
        simp only [decide_eq_true_eq]
        omega
      have hxa : x ≤ a := by
        cases k with
        | zero => simp_all
        | succ k =>
          rw [List.getElem?_cons_succ] at hx
          exact ha x (List.mem_of_getElem? hx)
      simp only [hya, decide_false, Bool.false_eq_true, not_false_eq_true, List.filter_cons_of_neg,
        hnil, List.length_nil, Nat.not_lt_zero, iff_false]
      omega

/-- Element `k` of a list sorted in descending order reaches `y` exactly if more than `k`
    elements of the list do. -/
theorem le_insertionSort_iff {l : List Nat} {k x : Nat}
    (hx : (l.insertionSort (· ≥ ·))[k]? = some x) (y : Nat) :
    y ≤ x ↔ k < (l.filter fun z => decide (y ≤ z)).length := by
  have hsorted : (l.insertionSort (· ≥ ·)).Pairwise (· ≥ ·) := List.pairwise_insertionSort _ l
  rw [le_getElem_iff_of_pairwise hsorted hx,
    ((List.perm_insertionSort (· ≥ ·) l).filter _).length_eq]

end SVR2.Lib
