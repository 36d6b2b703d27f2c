import MailRules.Proofs.Condition.Gathered
import Mathlib.Algebra.GroupWithZero.Nat
import Mathlib.Algebra.Order.BigOperators.Group.List
import Mathlib.Algebra.Order.Group.Nat

/-!
# What simplification conserves

Simplification moves arguments between leaves and takes inner nodes away.  This is so for conditions
of every shape, and wherever the rounds are cut off.

* `Condition.pairs` are the arguments of a condition, each with its field, and `innerNodes` is the
  number of its nodes that are no leaves; the two make up its size (`size_eq`).
* A change of leaves keeps the arguments (`Leaf.Becomes.pairs_perm`), and no step of a round makes a
  node (`innerNodes_round_le`).
* `simplify_conserves` is what this means for the simplified form.
-/

namespace MailRules

/-! ### Arguments -/

namespace Leaf

variable {ls ks : List Leaf}

/-- A change of leaves loses no argument and repeats none. -/
theorem Step.pairs_perm (h : Step ls ks) : (ks.flatMap pairs).Perm (ls.flatMap pairs) := by
  cases h with
  | reorder h => exact h.symm.flatMap_right pairs
  | regroup op l ls => exact .refl _
  | @merge t l h ls =>
    have hmerged : pairs { t with args := t.args ++ l.args, raw := t.raw || l.raw } =
        t.pairs ++ l.pairs := by
      simp [pairs, h]
    rw [List.flatMap_cons, List.flatMap_cons, List.flatMap_cons, hmerged, List.append_assoc]

theorem Becomes.pairs_perm (h : Becomes ls ks) : (ks.flatMap pairs).Perm (ls.flatMap pairs) := by
  induction h with
  | refl => exact .refl _
  | tail _ hstep ih => exact hstep.pairs_perm.trans ih

end Leaf

namespace Condition

variable {cs : List Condition}

/-- The arguments of a condition, each with its field. -/
def pairs (c : Condition) : List (Field × String) := c.leaves.flatMap Leaf.pairs

@[simp] theorem pairs_leaf (l : Leaf) : (leaf l).pairs = l.pairs := by
  simp [pairs]

@[simp] theorem pairs_node (op : Operation) (cs : List Condition) :
    (node op cs).pairs = cs.flatMap pairs := by
  rw [pairs, leaves_node, List.flatMap_assoc]
  rfl

/-! ### Inner nodes -/

mutual

/-- How many nodes of a condition are no leaves. -/
def innerNodes : Condition → Nat
  | .leaf _ => 0
  | .node _ cs => 1 + innerNodesAll cs

/-- The inner nodes of a list of conditions together. -/
def innerNodesAll : List Condition → Nat
  | [] => 0
  | c :: cs => c.innerNodes + innerNodesAll cs

end

theorem innerNodesAll_eq_sum (cs : List Condition) :
    innerNodesAll cs = (cs.map innerNodes).sum := by
  induction cs with
  | nil => rfl
  | cons c cs ih => rw [innerNodesAll, ih, List.map_cons, List.sum_cons]

@[simp] theorem innerNodes_leaf (l : Leaf) : (leaf l).innerNodes = 0 := by
  rw [innerNodes]

@[simp] theorem innerNodes_node (op : Operation) (cs : List Condition) :
    (node op cs).innerNodes = 1 + (cs.map innerNodes).sum := by
  rw [innerNodes, innerNodesAll_eq_sum]

/-- **Size counts inner nodes and arguments.** -/
theorem size_eq (c : Condition) : c.size = c.innerNodes + c.pairs.length := by
  induction c with
  | leaf l => simp [size, Leaf.pairs]
  | node op cs ih =>
    have hall : sizeAll cs = (cs.map innerNodes).sum + (cs.flatMap pairs).length := by
      induction cs with
      | nil => rfl
      | cons c cs ihcs =>
        obtain ⟨hc, hcs⟩ := List.forall_mem_cons.1 ih
        rw [sizeAll, hc, ihcs hcs, List.map_cons, List.sum_cons, List.flatMap_cons,
          List.length_append]
        omega
    rw [size, hall, innerNodes_node, pairs_node, Nat.add_assoc]

/-! ### Steps of a round -/

theorem innerNodes_map_le {f : Condition → Condition}
    (h : ∀ c ∈ cs, (f c).innerNodes ≤ c.innerNodes) :
    ((cs.map f).map innerNodes).sum ≤ (cs.map innerNodes).sum := by
  rw [List.map_map]
  exact List.sum_le_sum h

/-- The children that are inlined are those of a node less. -/
theorem innerNodes_inlined_le (op : Operation) (c : Condition) :
    ((inlined op c).map innerNodes).sum ≤ c.innerNodes := by
  cases c with
  | leaf l => simp [inlined]
  | node o cs =>
    simp only [inlined]
    split_ifs
    · rw [innerNodes_node]
      exact Nat.le_add_left _ _
    · simp

theorem innerNodes_inlineAll_le (op : Operation) (cs : List Condition) :
    ((inlineAll op cs).map innerNodes).sum ≤ (cs.map innerNodes).sum := by
  unfold inlineAll
  split_ifs
  · exact Nat.le_refl _
  · rw [List.map_flatMap, List.flatMap_def, List.sum_flatten, List.map_map]
    exact List.sum_le_sum fun c _ => innerNodes_inlined_le op c

theorem innerNodes_flatten_le (c : Condition) : c.flatten.innerNodes ≤ c.innerNodes := by
  induction c with
  | leaf l => simp
  | node op cs ih =>
    rw [flatten_node, innerNodes_node, innerNodes_node]
    exact Nat.add_le_add_left ((innerNodes_inlineAll_le op _).trans (innerNodes_map_le ih)) 1

/-- Only leaves are merged, and they become leaves. -/
theorem innerNodes_mergeSiblings_le (op : Operation) (cs : List Condition) :
    ((mergeSiblings op cs).map innerNodes).sum ≤ (cs.map innerNodes).sum := by
  have hleaves : ∀ ls : List Leaf, ((ls.map leaf).map innerNodes).sum = 0 := fun ls => by
    simp [Function.comp_def]
  unfold mergeSiblings
  split_ifs
  · exact Nat.le_refl _
  · rw [List.map_append, List.sum_append, hleaves, Nat.add_zero]
    exact (List.filter_sublist.map innerNodes).sum_le_sum fun _ _ => Nat.zero_le _

theorem innerNodes_mergeLeaves_le (c : Condition) : c.mergeLeaves.innerNodes ≤ c.innerNodes := by
  induction c with
  | leaf l => simp
  | node op cs ih =>
    rw [mergeLeaves_node, innerNodes_node, innerNodes_node]
    exact Nat.add_le_add_left ((innerNodes_mergeSiblings_le op _).trans (innerNodes_map_le ih)) 1

theorem innerNodes_reduced_le (op : Operation) (cs : List Condition) :
    (reduced op cs).innerNodes ≤ (node op cs).innerNodes := by
  unfold reduced
  cases hr : reduct? op cs with
  | none => exact Nat.le_refl _
  | some d =>
    rcases reduct?_eq_some.1 hr with ⟨rfl, rfl⟩ | ⟨-, rfl⟩
    · simp only [Option.getD_some, innerNodes_node, List.map_cons, List.map_nil, List.sum_singleton]
      omega
    · simp

theorem innerNodes_collapse_le (c : Condition) : c.collapse.innerNodes ≤ c.innerNodes := by
  induction c with
  | leaf l => simp
  | node op cs ih =>
    rw [collapse_node, innerNodes_node]
    refine (innerNodes_reduced_le op _).trans ?_
    rw [innerNodes_node]
    exact Nat.add_le_add_left (innerNodes_map_le ih) 1

theorem innerNodes_round_le (c : Condition) : c.round.innerNodes ≤ c.innerNodes :=
  calc c.round.innerNodes ≤ c.flatten.mergeLeaves.innerNodes := innerNodes_collapse_le _
    _ ≤ c.flatten.innerNodes := innerNodes_mergeLeaves_le _
    _ ≤ c.innerNodes := innerNodes_flatten_le c

theorem innerNodes_arrange_le (c : Condition) : c.arrange.innerNodes ≤ c.innerNodes := by
  induction c with
  | leaf l => simp
  | node op cs ih =>
    have hsort : (((cs.map arrange).mergeSort fun a b => a.rank ≤ b.rank).map innerNodes).sum =
        ((cs.map arrange).map innerNodes).sum :=
      ((List.mergeSort_perm _ _).map innerNodes).sum_nat
    rw [arrange_node, innerNodes_node, innerNodes_node, hsort]
    exact Nat.add_le_add_left (innerNodes_map_le ih) 1

theorem innerNodes_simplify_le (c : Condition) : c.simplify.innerNodes ≤ c.innerNodes := by
  have hround : ∀ d : Condition, d.innerNodes ≤ c.innerNodes → d.round.innerNodes ≤ c.innerNodes :=
    fun d hd => (innerNodes_round_le d).trans hd
  exact (innerNodes_arrange_le _).trans (rounds_keep hround maxRounds (Nat.le_refl _))

/-- **Simplification loses no argument, repeats none, and makes no condition larger.** -/
theorem simplify_conserves (c : Condition) :
    c.simplify.pairs.Perm c.pairs ∧ c.simplify.size ≤ c.size := by
  have hpairs : c.simplify.pairs.Perm c.pairs := (becomes_simplify c).pairs_perm
  refine ⟨hpairs, ?_⟩
  calc c.simplify.size = c.simplify.innerNodes + c.simplify.pairs.length := size_eq _
    _ ≤ c.innerNodes + c.pairs.length :=
      Nat.add_le_add (innerNodes_simplify_le c) hpairs.length_eq.le
    _ = c.size := (size_eq c).symm

end Condition

end MailRules
