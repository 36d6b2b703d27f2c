import MailRules.Condition.Simplify
import MailRules.Proofs.Sorting
import Mathlib.Data.List.Perm.Basic
import Mathlib.Data.Nat.Basic
import Mathlib.Tactic.SplitIfs

/-!
# Conditions in the order of their ranks

Ranks arrange siblings, and different conditions may have the same rank.

* `rank_lt_iff` says what is compared: leaves before nodes, then operations, then fields.
* Classes of conditions that a rank tells apart determine a list in the order of ranks: it is known
  from its members of each class (`eq_of_filter`).
* Arrangement keeps the order of members of equal rank, so the members of a class that stand in
  order are left alone.  `mergeSort_eq` puts the two together, and `mergeSort_parted` is what it says
  of a list that was taken apart.
* `arrange_eq_insertionSort` arranges a given condition.
-/

namespace MailRules

theorem Operation.rank_injective {o p : Operation} (h : o.rank = p.rank) : o = p := by
  cases o <;> cases p <;> first | rfl | cases h

theorem Field.rank_injective {f g : Field} (h : f.rank = g.rank) : f = g := by
  cases f <;> cases g <;> first | rfl | cases h

namespace Condition

variable {κ : Type} [DecidableEq κ] {kind : Condition → κ} {p : Condition → Bool} {c d : Condition}
  {cs ds : List Condition}

/-! ### What a rank tells -/

theorem rootOperation_rank_lt (c : Condition) : c.rootOperation.rank < 10 := by
  cases c.rootOperation <;> decide

theorem rootField_rank_lt (c : Condition) : c.rootField.rank < 10 := by
  cases c.rootField <;> decide

/-- **Leaves come before nodes**, then the operation counts, and then the field. -/
theorem rank_lt_iff : c.rank < d.rank ↔
    (c.isLeaf = true ∧ d.isLeaf = false) ∨ c.isLeaf = d.isLeaf ∧
      (c.rootOperation.rank < d.rootOperation.rank ∨
        c.rootOperation.rank = d.rootOperation.rank ∧ c.rootField.rank < d.rootField.rank) := by
  have hco := c.rootOperation_rank_lt
  have hdo := d.rootOperation_rank_lt
  have hcf := c.rootField_rank_lt
  have hdf := d.rootField_rank_lt
  unfold rank
  cases c.isLeaf <;> cases d.isLeaf <;> simp <;> omega

theorem of_rank_eq (h : c.rank = d.rank) : c.isLeaf = d.isLeaf ∧
    c.rootOperation = d.rootOperation ∧ c.rootField = d.rootField := by
  have hcd : ¬c.rank < d.rank := by omega
  have hdc : ¬d.rank < c.rank := by omega
  rw [rank_lt_iff] at hcd hdc
  have hleaf : c.isLeaf = d.isLeaf := by
    cases hc : c.isLeaf <;> cases hd : d.isLeaf <;> simp_all
  simp only [hleaf, true_and, not_or, not_and] at hcd hdc
  have hop : c.rootOperation.rank = d.rootOperation.rank := by omega
  have hfield := hcd.2.2 hop
  have hfield' := hdc.2.2 hop.symm
  exact ⟨hleaf, Operation.rank_injective hop, Field.rank_injective (by omega)⟩

/-! ### Lists in order -/

/-- Lists in the order of ranks are the same if they have the same members of each kind. -/
theorem eq_of_filter (hkind : ∀ {c d}, c.rank = d.rank → kind c = kind d)
    (hcs : cs.Pairwise fun c d => c.rank ≤ d.rank) (hds : ds.Pairwise fun c d => c.rank ≤ d.rank)
    (h : ∀ k, cs.filter (fun c => kind c = k) = ds.filter (fun d => kind d = k)) : cs = ds := by
  induction cs generalizing ds with
  | nil =>
    cases ds with
    | nil => rfl
    | cons d ds => simpa using h (kind d)
  | cons c cs ih =>
    cases ds with
    | nil => simpa using h (kind c)
    | cons d ds =>
      -- each of the first two is in the other list, so neither comes before the other
      have hmem : ∀ {a b : Condition} {as bs : List Condition},
          (b :: bs).Pairwise (fun c d => c.rank ≤ d.rank) →
          (a :: as).filter (fun c => kind c = kind a) =
            (b :: bs).filter (fun c => kind c = kind a) → b.rank ≤ a.rank := by
        intro a b as bs hbs hab
        have ha : a ∈ (b :: bs).filter fun c => kind c = kind a :=
          hab ▸ List.mem_filter.2 ⟨List.mem_cons_self, by simp⟩
        rcases List.mem_cons.1 (List.mem_filter.1 ha).1 with rfl | ha
        · exact Nat.le_refl _
        · exact (List.pairwise_cons.1 hbs).1 a ha
      have hrank : c.rank = d.rank :=
        Nat.le_antisymm (hmem hcs (h (kind d)).symm) (hmem hds (h (kind c)))
      have hcd : c = d := by
        have hhead := h (kind c)
        rw [List.filter_cons_of_pos (by simp),
          List.filter_cons_of_pos (by simp [hkind hrank])] at hhead
        exact (List.cons.inj hhead).1
      subst hcd
      refine congrArg _ (ih (List.pairwise_cons.1 hcs).2 (List.pairwise_cons.1 hds).2 fun k => ?_)
      have hk := h k
      by_cases hc : kind c = k
      · rw [List.filter_cons_of_pos (by simp [hc]), List.filter_cons_of_pos (by simp [hc])] at hk
        exact (List.cons.inj hk).2
      · rwa [List.filter_cons_of_neg (by simp [hc]), List.filter_cons_of_neg (by simp [hc])] at hk

/-! ### Arranged lists -/

/-- Arrangement puts one child after the other in its place. -/
theorem arrange_eq_insertionSort {op : Operation} : (node op cs).arrange =
    node op ((cs.map arrange).insertionSort fun c d => c.rank ≤ d.rank) := by
  rw [arrange, arrangeAll_eq_map, mergeSort_key_eq_insertionSort]

/-- A list in order is the arrangement of every list with the same members of each kind. -/
theorem mergeSort_eq (hkind : ∀ {c d}, c.rank = d.rank → kind c = kind d)
    (hds : ds.Pairwise fun c d => c.rank ≤ d.rank)
    (h : ∀ k, cs.filter (fun c => kind c = k) = ds.filter (fun d => kind d = k)) :
    (cs.mergeSort fun c d => c.rank ≤ d.rank) = ds := by
  refine eq_of_filter hkind (pairwise_mergeSort_key rank cs) hds fun k => ?_
  rw [filter_mergeSort_key (h k ▸ hds.filter _), h k]

/-- A list in order is put together again by arrangement, if it was parted by what a rank tells. -/
theorem mergeSort_parted (hp : ∀ {c d}, c.rank = d.rank → p c = p d)
    (hcs : cs.Pairwise fun c d => c.rank ≤ d.rank) :
    (((cs.filter fun c => !p c) ++ cs.filter p).mergeSort fun c d => c.rank ≤ d.rank) = cs := by
  refine mergeSort_eq hp hcs fun b => ?_
  cases b <;> simp [List.filter_append, List.filter_filter]

end Condition

end MailRules
