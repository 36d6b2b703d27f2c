import Mathlib.Data.List.Pairwise
import Mathlib.Data.List.Sort
import Mathlib.Order.Lattice
import Mathlib.Tactic.ByContra

/-!
# Lists sorted by a key

Sorting by a key puts items in the order of their keys (`pairwise_mergeSort_key`), so that of two
items with different keys the one with the smaller key comes first (`lt_of_key_lt`).  It is stable:
items that stand in order keep their order, whatever stands between them (`filter_mergeSort_key`).
`mergeSort_key_eq_insertionSort` puts one item after the other in its place, from the last to the
first; on a given list that can be computed.
-/

namespace MailRules

variable {α κ : Type} [LinearOrder κ] {p : α → Bool} {xs : List α}

theorem key_le_trans (key : α → κ) (x y z : α) (hxy : decide (key x ≤ key y) = true)
    (hyz : decide (key y ≤ key z) = true) : decide (key x ≤ key z) = true := by
  simp only [decide_eq_true_eq] at *
  exact le_trans hxy hyz

theorem key_le_total (key : α → κ) (x y : α) :
    (decide (key x ≤ key y) || decide (key y ≤ key x)) = true := by
  simpa using le_total (key x) (key y)

theorem pairwise_mergeSort_key (key : α → κ) (xs : List α) :
    (xs.mergeSort fun x y => key x ≤ key y).Pairwise fun x y => key x ≤ key y := by
  have h := List.pairwise_mergeSort (key_le_trans key) (key_le_total key) xs
  simpa only [decide_eq_true_eq] using h

/-- In the order of a key, an item with a smaller key comes first. -/
theorem lt_of_key_lt (key : α → κ) {x y : α} {i j : Nat}
    (h : xs.Pairwise fun x y => key x ≤ key y) (hi : xs[i]? = some x) (hj : xs[j]? = some y)
    (hlt : key x < key y) : i < j := by
  obtain ⟨hin, rfl⟩ := List.getElem?_eq_some_iff.1 hi
  obtain ⟨hjn, rfl⟩ := List.getElem?_eq_some_iff.1 hj
  by_contra hle
  rcases Nat.lt_or_eq_of_le (Nat.not_lt.1 hle) with hji | rfl
  · exact not_le.2 hlt (List.pairwise_iff_getElem.1 h j i hjn hin hji)
  · exact lt_irrefl _ hlt

/-- Items that stand in order keep their order, whatever stands between them. -/
theorem filter_mergeSort_key {key : α → κ} (h : (xs.filter p).Pairwise fun x y => key x ≤ key y) :
    (xs.mergeSort fun x y => key x ≤ key y).filter p = xs.filter p := by
  have hsub : (xs.filter p).Sublist (xs.mergeSort fun x y => key x ≤ key y) :=
    List.sublist_mergeSort (key_le_trans key) (key_le_total key)
      (h.imp fun h => decide_eq_true h) List.filter_sublist
  have hsub' := hsub.filter p
  simp only [List.filter_filter, Bool.and_self] at hsub'
  exact (hsub'.eq_of_length ((List.mergeSort_perm xs _).filter p).length_eq.symm).symm

/-- Items of one key keep their order. -/
theorem filter_key_mergeSort [DecidableEq κ] (key : α → κ) (k : κ) (xs : List α) :
    (xs.mergeSort fun x y => key x ≤ key y).filter (fun x => key x = k) =
      xs.filter fun x => key x = k := by
  refine filter_mergeSort_key (List.pairwise_of_forall_mem_list fun x hx y hy => ?_)
  have hkey : ∀ z ∈ xs.filter fun x => key x = k, key z = k := fun z hz => by
    simpa using (List.mem_filter.1 hz).2
  rw [hkey x hx, hkey y hy]

/-- An item goes before the first one that has no smaller key. -/
theorem mergeSort_key_eq_insertionSort (key : α → κ) (xs : List α) :
    (xs.mergeSort fun x y => key x ≤ key y) = xs.insertionSort fun x y => key x ≤ key y := by
  induction xs with
  | nil => exact List.mergeSort_nil
  | cons x xs ih =>
    obtain ⟨before, after, hcons, hxs, hbefore⟩ :=
      List.mergeSort_cons (key_le_trans key) (key_le_total key) x xs
    have hsorted := pairwise_mergeSort_key key (x :: xs)
    rw [hcons, List.pairwise_append, List.pairwise_cons] at hsorted
    rw [hcons, List.insertionSort_cons, ← ih, hxs, List.orderedInsert_eq_take_drop,
      List.takeWhile_append_of_pos (by simpa using hbefore),
      List.dropWhile_append_of_pos (by simpa using hbefore)]
    cases after with
    | nil => simp
    | cons y after => simp [hsorted.2.1.1 y List.mem_cons_self]

end MailRules
