import MailRules.Condition.Basic
import Mathlib.Data.List.Flatten

/-!
# What conditions mean

A condition is true or false once it is known which arguments the fields of a message match.

* `Condition.holds` is the truth of a condition, for given truth values of pairs of a field and an
  argument.
* `Operation.joined` combines truth values; it respects concatenation and does not depend on order
  (`joined_flatten`, `joined_perm`).
* `Condition.Meaningful` rules out the shapes whose meaning is open: leaves without arguments,
  several arguments that nothing combines, negations of anything but one condition.
-/

namespace MailRules

/-! ### Truth values together -/

namespace Operation

/-- Several truth values as one: at least one of them for "or", all of them otherwise. -/
def joined (op : Operation) (bs : List Bool) : Bool :=
  if op = .or then bs.any id else bs.all id

@[simp] theorem joined_singleton (op : Operation) (b : Bool) : op.joined [b] = b := by
  cases op <;> simp [joined]

theorem joined_flatten (op : Operation) (bss : List (List Bool)) :
    op.joined bss.flatten = op.joined (bss.map op.joined) := by
  by_cases h : op = .or
  · have hj : ∀ bs, op.joined bs = bs.any id := fun bs => if_pos h
    rw [hj, hj, List.any_map, List.any_flatten]
    exact congrArg bss.any (funext fun bs => (hj bs).symm)
  · have hj : ∀ bs, op.joined bs = bs.all id := fun bs => if_neg h
    rw [hj, hj, List.all_map, List.all_flatten]
    exact congrArg bss.all (funext fun bs => (hj bs).symm)

theorem joined_append (op : Operation) (bs cs : List Bool) :
    op.joined (bs ++ cs) = op.joined [op.joined bs, op.joined cs] := by
  simpa using joined_flatten op [bs, cs]

theorem joined_perm {op : Operation} {bs cs : List Bool} (h : bs.Perm cs) :
    op.joined bs = op.joined cs := by
  by_cases ho : op = .or
  · simp only [joined, ho, if_true, h.any_eq]
  · simp only [joined, ho, if_false, h.all_eq]

/-- How many conditions a node of an operation may have; the operation that is not set has no
nodes. -/
def Takes : Operation → Nat → Prop
  | .unset, _ => False
  | .not, n => n = 1
  | .and, _ | .or, _ => True

end Operation

/-! ### Leaves -/

namespace Leaf

/-- The arguments of a leaf, each with its field. -/
def pairs (l : Leaf) : List (Field × String) := l.args.map fun a => (l.field, a)

/-- Whether some or all of the matches of a leaf are true, as its grouping says. -/
def holds (v : Field × String → Bool) (l : Leaf) : Bool := l.grouping.joined (l.pairs.map v)

/-- There are arguments, and if there are several, "and" or "or" combines them. -/
def Meaningful (l : Leaf) : Prop :=
  l.args ≠ [] ∧ (1 < l.args.length → l.grouping = .and ∨ l.grouping = .or)

/-- Under an operation that a leaf takes further arguments by, it means its pairs joined by that
operation. -/
theorem holds_of_mergeable {op : Operation} {l : Leaf} {v : Field × String → Bool}
    (hl : l.Meaningful) (h : l.args.length ≤ 1 ∨ l.grouping = op) :
    l.holds v = op.joined (l.pairs.map v) := by
  rcases h with h | rfl
  · -- a single argument is its own pair, however it is grouped
    obtain ⟨a, ha⟩ : ∃ a, l.args = [a] := by
      have := List.length_pos_iff.2 hl.1
      exact List.length_eq_one_iff.1 (by omega)
    simp [holds, pairs, ha]
  · rfl

end Leaf

/-! ### Conditions -/

namespace Condition

variable (v : Field × String → Bool)

mutual

/-- Whether a condition is true, given which pairs of a field and an argument match. -/
def holds : Condition → Bool
  | .leaf l => l.holds v
  | .node .not cs => !Operation.and.joined (truths cs)
  | .node op cs => op.joined (truths cs)

/-- The truth of each condition of a list. -/
def truths : List Condition → List Bool
  | [] => []
  | c :: cs => c.holds :: truths cs

end

theorem truths_eq_map (cs : List Condition) : truths v cs = cs.map (holds v) := by
  induction cs with
  | nil => rfl
  | cons c cs ih => rw [truths, ih, List.map_cons]

@[simp] theorem holds_leaf (l : Leaf) : (leaf l).holds v = l.holds v := by
  simp only [holds]

@[simp] theorem holds_not (c : Condition) : (node .not [c]).holds v = !c.holds v := by
  simp [holds, truths]

/-- A node that is no negation joins its children. -/
theorem holds_node {op : Operation} (h : op ≠ .not) (cs : List Condition) :
    (node op cs).holds v = op.joined (cs.map (holds v)) := by
  rw [← truths_eq_map]
  cases op <;> first | exact absurd rfl h | simp only [holds]

/-- Two nodes of one operation mean the same if their children do when joined; a negation has to
keep its children. -/
theorem holds_node_congr {op : Operation} {cs ds : List Condition}
    (h : op ≠ .not → op.joined (cs.map (holds v)) = op.joined (ds.map (holds v)))
    (hn : op = .not → cs = ds) : (node op cs).holds v = (node op ds).holds v := by
  by_cases ho : op = .not
  · rw [hn ho]
  · rw [holds_node v ho, holds_node v ho, h ho]

/-- The order of the children does not matter to any node. -/
theorem holds_node_perm (op : Operation) {cs ds : List Condition}
    (h : (cs.map (holds v)).Perm (ds.map (holds v))) :
    (node op cs).holds v = (node op ds).holds v := by
  by_cases ho : op = .not
  · subst ho
    simp only [holds, truths_eq_map, Operation.joined_perm h]
  · rw [holds_node v ho, holds_node v ho, Operation.joined_perm h]

mutual

/-- A condition without shapes whose meaning is open. -/
def Meaningful : Condition → Prop
  | .leaf l => l.Meaningful
  | .node op cs => op.Takes cs.length ∧ AllMeaningful cs

/-- `Meaningful` for every condition of a list. -/
def AllMeaningful : List Condition → Prop
  | [] => True
  | c :: cs => c.Meaningful ∧ AllMeaningful cs

end

theorem allMeaningful_iff {cs : List Condition} :
    AllMeaningful cs ↔ ∀ c ∈ cs, c.Meaningful := by
  induction cs with
  | nil => simp [AllMeaningful]
  | cons c cs ih => simp [AllMeaningful, ih]

@[simp] theorem meaningful_leaf {l : Leaf} : (leaf l).Meaningful ↔ l.Meaningful := by
  simp only [Meaningful]

@[simp] theorem meaningful_node {op : Operation} {cs : List Condition} :
    (node op cs).Meaningful ↔ op.Takes cs.length ∧ ∀ c ∈ cs, c.Meaningful := by
  simp only [Meaningful, allMeaningful_iff]

end Condition

end MailRules
