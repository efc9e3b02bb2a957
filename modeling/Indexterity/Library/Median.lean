import Mathlib.Algebra.Order.Field.Basic
import Mathlib.Data.List.GetD
import Mathlib.Data.List.Sort

/-!
# Medians

The median of a list: its middle value in order, or the mean of the two middle values of an even
count. It is a matter of the values and how often each occurs, not of their order.
-/

namespace Indexterity.Library

variable {K : Type} [Field K]

/-- Of a list in order. No value stands at either place of an empty list. -/
def middle (xs : List K) : K :=
  if xs.length % 2 = 1 then xs.getD (xs.length / 2) 0
  else (xs.getD (xs.length / 2 - 1) 0 + xs.getD (xs.length / 2) 0) / 2

variable [LinearOrder K]

def median (xs : List K) : K := middle (xs.insertionSort (· ≤ ·))

variable {xs after before : List K}

theorem median_of_sorted (h : xs.Pairwise (· ≤ ·)) : median xs = middle xs := by
  rw [median, h.insertionSort_eq]

theorem median_perm {ys : List K} (h : xs.Perm ys) : median xs = median ys := by
  have hsorted (zs : List K) : (zs.insertionSort (· ≤ ·)).Pairwise (· ≤ ·) :=
    List.pairwise_insertionSort _ zs
  have hperm : (xs.insertionSort (· ≤ ·)).Perm (ys.insertionSort (· ≤ ·)) :=
    ((List.perm_insertionSort _ xs).trans h).trans (List.perm_insertionSort _ ys).symm
  rw [median, median, hperm.eq_of_pairwise' (hsorted xs) (hsorted ys)]

variable [IsStrictOrderedRing K]

theorem middle_eq (xs : List K) : middle xs =
    (xs.getD ((xs.length - 1) / 2) 0 + xs.getD (xs.length / 2) 0) / 2 := by
  unfold middle
  split
  · rw [show (xs.length - 1) / 2 = xs.length / 2 by omega, add_self_div_two]
  · rw [show (xs.length - 1) / 2 = xs.length / 2 - 1 by omega]

/-- The middle of a list is inside a stretch of one value. -/
theorem middle_within {v : K} {n : Nat}
    (hbefore : 2 * before.length < before.length + n + after.length)
    (hafter : before.length + n + after.length < 2 * (before.length + n)) :
    middle (before ++ List.replicate n v ++ after) = v := by
  have hat (i : Nat) (hle : before.length ≤ i) (hlt : i < before.length + n) :
      (before ++ List.replicate n v ++ after).getD i 0 = v := by
    rw [List.getD_append _ _ _ _ (by simpa using hlt), List.getD_append_right _ _ _ _ hle,
      List.getD_replicate _ (by omega)]
  rw [middle_eq]
  simp only [List.length_append, List.length_replicate]
  rw [hat _ (by omega) (by omega), hat _ (by omega) (by omega), add_self_div_two]

theorem middle_between {u v : K} (h : before.length = after.length) (hu : before.getLast? = some u)
    (hv : after.head? = some v) : middle (before ++ after) = (u + v) / 2 := by
  obtain ⟨front, rfl⟩ := List.getLast?_eq_some_iff.mp hu
  obtain ⟨rest, rfl⟩ := List.head?_eq_some_iff.mp hv
  have hfront : front.length = rest.length := by simpa using h
  have hlower : (front.length + (front.length + 1)) / 2 = front.length := by omega
  have hupper : (front.length + (front.length + 1 + 1)) / 2 = front.length + 1 := by omega
  rw [middle_eq]
  simp [← hfront, hlower, hupper]

theorem median_pos (hne : xs ≠ []) (h : ∀ x ∈ xs, 0 < x) : 0 < median xs := by
  have hperm := List.perm_insertionSort (· ≤ ·) xs
  have hlength : 0 < (xs.insertionSort (· ≤ ·)).length := by
    rw [hperm.length_eq]
    exact List.length_pos_iff.mpr hne
  have hat (i : Nat) (hi : i < (xs.insertionSort (· ≤ ·)).length) :
      0 < (xs.insertionSort (· ≤ ·)).getD i 0 := by
    rw [List.getD_eq_getElem _ _ hi]
    exact h _ (hperm.mem_iff.mp (List.getElem_mem hi))
  rw [median, middle_eq]
  exact div_pos (add_pos (hat _ (by omega)) (hat _ (by omega))) two_pos

end Indexterity.Library
