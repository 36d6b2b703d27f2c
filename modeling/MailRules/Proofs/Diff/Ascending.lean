import Mathlib.Data.List.Sort
import Mathlib.Data.String.Basic

/-!
# Lists in order of a key

Both differences merge two lists that are in order of a key, digests in the one case and names in
the other.  What a merge does with two heads can be said for any key.

* `Ascending` lists are strictly in order, so that a key determines its item.
* `without` leaves out the items whose keys occur in another list.
-/

namespace MailRules

variable {α : Type} {key : α → String} {x y : α} {xs ys : List α}

/-- Strictly ascending keys. -/
def Ascending (key : α → String) (xs : List α) : Prop := xs.Pairwise fun x y => key x < key y

/-- The items of one list whose keys do not occur in another. -/
def without (key : α → String) (xs ys : List α) : List α :=
  xs.filter fun x => key x ∉ ys.map key

namespace Ascending

theorem tail (h : Ascending key (x :: xs)) : Ascending key xs := (List.pairwise_cons.1 h).2

theorem nodup (h : Ascending key xs) : (xs.map key).Nodup :=
  List.pairwise_map.2 (h.imp fun hlt => hlt.ne)

/-- What comes before the first comes before all. -/
theorem lt_of_mem {k : String} (h : Ascending key (x :: xs)) (hk : k < key x) :
    ∀ z ∈ x :: xs, k < key z := by
  intro z hz
  rcases List.mem_cons.1 hz with rfl | hz
  · exact hk
  · exact hk.trans ((List.pairwise_cons.1 h).1 z hz)

theorem without (h : Ascending key xs) (ys : List α) : Ascending key (without key xs ys) :=
  h.filter _

/-- A list in order is determined by its members. -/
theorem eq_of_mem_iff (hx : Ascending key xs) (hy : Ascending key ys)
    (h : ∀ z, z ∈ xs ↔ z ∈ ys) : xs = ys := by
  have hirr : Std.Irrefl fun x y : α => key x < key y := ⟨fun z => lt_irrefl (key z)⟩
  have hanti : Std.Antisymm fun x y : α => key x < key y :=
    ⟨fun z w hzw hwz => absurd hwz hzw.asymm⟩
  exact List.Pairwise.eq_of_mem_iff hx hy h

end Ascending

theorem mem_without : x ∈ without key xs ys ↔ x ∈ xs ∧ ∀ y ∈ ys, key y ≠ key x := by
  simp [without]

theorem without_cons_of_lt (h : key x < key y) (hy : Ascending key (y :: ys)) :
    without key (x :: xs) (y :: ys) = x :: without key xs (y :: ys) := by
  have hx : key x ∉ (y :: ys).map key := by
    intro hm
    obtain ⟨z, hz, hzx⟩ := List.mem_map.1 hm
    exact absurd hzx (hy.lt_of_mem h z hz).ne'
  simp only [without, List.filter_cons, hx, not_false_eq_true, decide_true, if_true]

/-- A key that comes before all others of a list does not matter to it. -/
theorem without_cons_right (h : ∀ x ∈ xs, key y < key x) :
    without key xs (y :: ys) = without key xs ys := by
  refine List.filter_congr fun x hx => ?_
  simp [(h x hx).ne']

theorem without_cons_cons (h : key x = key y) (hx : Ascending key (x :: xs)) :
    without key (x :: xs) (y :: ys) = without key xs ys := by
  have hy : ∀ z ∈ xs, key y < key z := h ▸ (List.pairwise_cons.1 hx).1
  rw [← without_cons_right hy]
  simp [without, h]

end MailRules
