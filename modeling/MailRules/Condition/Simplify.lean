import MailRules.Condition.Basic

/-!
# The simplified form of a condition

Three steps are applied in rounds until a round changes nothing, at most `maxRounds` times;
then the children of every node are arranged by `Condition.rank`.

* `flatten` puts the children of an "and" inside an "and" (and of an "or" inside an "or") into
  the outer node.
* `mergeLeaves` joins sibling leaves of one field into one leaf with several arguments.
* `collapse` replaces a node with one child by that child, and a double negation by its content.

Each step comes with the number of places it changes (`flattenCount`, `mergeCount`,
`collapseCount`), counted apart from the change itself, so that the loop is a recursion on trees.
-/

namespace MailRules

/-! ### Merging leaves -/

namespace Leaf

/-- Whether a leaf can take further arguments under the given operation: it has at most one
argument, or its arguments are combined by that operation already. -/
def mergeable (op : Operation) (l : Leaf) : Bool :=
  l.args.length ≤ 1 || l.grouping = op

/-- Adds a leaf to leaves of pairwise different fields: its arguments go to the leaf of its
field, or it becomes the last of them, grouped by the operation. -/
def mergeInto (op : Operation) (l : Leaf) : List Leaf → List Leaf
  | [] => [{ l with grouping := op }]
  | t :: ts =>
    if t.field = l.field then { t with args := t.args ++ l.args, raw := t.raw || l.raw } :: ts
    else t :: mergeInto op l ts

/-- One leaf for each field, in the order in which the fields first occur. -/
def mergeAll (op : Operation) (ls : List Leaf) : List Leaf :=
  ls.foldl (fun merged l => mergeInto op l merged) []

/-- How many leaves lose their place or change their grouping when they are merged, given the
fields that have been seen before. -/
def mergeCount (op : Operation) (seen : List Field) : List Leaf → Nat
  | [] => 0
  | l :: ls =>
    (if l.field ∈ seen ∨ l.grouping ≠ op then 1 else 0) + mergeCount op (l.field :: seen) ls

end Leaf

namespace Condition

/-! ### Associativity -/

/-- Whether a condition is an inner node of the given operation. -/
def isNodeOf (op : Operation) : Condition → Bool
  | .node op' _ => op' = op
  | .leaf _ => false

/-- The children that a child contributes to a node of the given operation. -/
def inlined (op : Operation) : Condition → List Condition
  | .node op' cs => if op' = op then cs else [.node op' cs]
  | .leaf l => [.leaf l]

/-- The children of a node, with those of the same operation replaced by their own children.  A
negation is no associative operation and keeps its children. -/
def inlineAll (op : Operation) (cs : List Condition) : List Condition :=
  if op = .not then cs else cs.flatMap (inlined op)

/-- How many children `inlineAll` replaces. -/
def inlineCount (op : Operation) (cs : List Condition) : Nat :=
  if op = .not then 0 else cs.countP (isNodeOf op)

mutual

/-- Inlines children of the same associative operation, from the leaves upwards. -/
def flatten : Condition → Condition
  | .leaf l => .leaf l
  | .node op cs => .node op (inlineAll op (flattenAll cs))

/-- `flatten` on every member of a list. -/
def flattenAll : List Condition → List Condition
  | [] => []
  | c :: cs => c.flatten :: flattenAll cs

end

theorem flattenAll_eq_map (cs : List Condition) : flattenAll cs = cs.map flatten := by
  induction cs with
  | nil => rfl
  | cons c cs ih => rw [flattenAll, ih, List.map_cons]

mutual

/-- How many nodes `flatten` dissolves. -/
def flattenCount : Condition → Nat
  | .leaf _ => 0
  | .node op cs => flattenCountAll cs + inlineCount op (flattenAll cs)

/-- `flattenCount` of a list together. -/
def flattenCountAll : List Condition → Nat
  | [] => 0
  | c :: cs => c.flattenCount + flattenCountAll cs

end

/-! ### Leaves of one field -/

/-- The leaf that a child of a node of the given operation offers for merging. -/
def mergeableLeaf? (op : Operation) : Condition → Option Leaf
  | .leaf l => if l.mergeable op then some l else none
  | .node _ _ => none

/-- The children of a node after merging: those that cannot be merged keep their order and come
first, the merged leaves follow.  An only child stays as it is. -/
def mergeSiblings (op : Operation) (cs : List Condition) : List Condition :=
  if cs.length ≤ 1 then cs
  else
    cs.filter (fun c => (c.mergeableLeaf? op).isNone) ++
      (Leaf.mergeAll op (cs.filterMap (mergeableLeaf? op))).map .leaf

/-- How many leaves `mergeSiblings` merges or regroups. -/
def mergeSiblingsCount (op : Operation) (cs : List Condition) : Nat :=
  if cs.length ≤ 1 then 0 else Leaf.mergeCount op [] (cs.filterMap (mergeableLeaf? op))

mutual

/-- Merges sibling leaves of one field, from the leaves upwards. -/
def mergeLeaves : Condition → Condition
  | .leaf l => .leaf l
  | .node op cs => .node op (mergeSiblings op (mergeLeavesAll cs))

/-- `mergeLeaves` on every member of a list. -/
def mergeLeavesAll : List Condition → List Condition
  | [] => []
  | c :: cs => c.mergeLeaves :: mergeLeavesAll cs

end

theorem mergeLeavesAll_eq_map (cs : List Condition) :
    mergeLeavesAll cs = cs.map mergeLeaves := by
  induction cs with
  | nil => rfl
  | cons c cs ih => rw [mergeLeavesAll, ih, List.map_cons]

mutual

/-- How many leaves `mergeLeaves` merges or regroups. -/
def mergeCount : Condition → Nat
  | .leaf _ => 0
  | .node op cs => mergeCountAll cs + mergeSiblingsCount op (mergeLeavesAll cs)

/-- `mergeCount` of a list together. -/
def mergeCountAll : List Condition → Nat
  | [] => 0
  | c :: cs => c.mergeCount + mergeCountAll cs

end

/-! ### Redundant nodes -/

/-- What a node with the given children reduces to, when it reduces at all: the content of a
double negation, or the only child of a node that is no negation. -/
def reduct? : Operation → List Condition → Option Condition
  | .not, [.node .not [c]] => some c
  | .not, _ => none
  | _, [c] => some c
  | _, _ => none

/-- A node, reduced where it is redundant. -/
def reduced (op : Operation) (cs : List Condition) : Condition :=
  (reduct? op cs).getD (.node op cs)

mutual

/-- Replaces redundant nodes, from the leaves upwards. -/
def collapse : Condition → Condition
  | .leaf l => .leaf l
  | .node op cs => reduced op (collapseAll cs)

/-- `collapse` on every member of a list. -/
def collapseAll : List Condition → List Condition
  | [] => []
  | c :: cs => c.collapse :: collapseAll cs

end

theorem collapseAll_eq_map (cs : List Condition) : collapseAll cs = cs.map collapse := by
  induction cs with
  | nil => rfl
  | cons c cs ih => rw [collapseAll, ih, List.map_cons]

mutual

/-- How many nodes `collapse` replaces. -/
def collapseCount : Condition → Nat
  | .leaf _ => 0
  | .node op cs => collapseCountAll cs + if (reduct? op (collapseAll cs)).isSome then 1 else 0

/-- `collapseCount` of a list together. -/
def collapseCountAll : List Condition → Nat
  | [] => 0
  | c :: cs => c.collapseCount + collapseCountAll cs

end

/-! ### Order of siblings -/

/-- Siblings are arranged by this number: leaves before nodes, then by operation, then by
field. -/
def rank (c : Condition) : Nat :=
  (if c.isLeaf then 0 else 100) + 10 * c.rootOperation.rank + c.rootField.rank

mutual

/-- Arranges the children of every node by `rank`; children of equal rank keep their order. -/
def arrange : Condition → Condition
  | .leaf l => .leaf l
  | .node op cs => .node op ((arrangeAll cs).mergeSort fun a b => a.rank ≤ b.rank)

/-- `arrange` on every member of a list. -/
def arrangeAll : List Condition → List Condition
  | [] => []
  | c :: cs => c.arrange :: arrangeAll cs

end

theorem arrangeAll_eq_map (cs : List Condition) : arrangeAll cs = cs.map arrange := by
  induction cs with
  | nil => rfl
  | cons c cs ih => rw [arrangeAll, ih, List.map_cons]

/-! ### Rounds -/

/-- One round of the three steps. -/
def round (c : Condition) : Condition :=
  c.flatten.mergeLeaves.collapse

/-- How many places a round changes. -/
def roundCount (c : Condition) : Nat :=
  c.flattenCount + c.flatten.mergeCount + c.flatten.mergeLeaves.collapseCount

/-- Rounds until one changes nothing, at most as many as given. -/
def rounds : Nat → Condition → Condition
  | 0, c => c
  | n + 1, c => if c.roundCount = 0 then c.round else rounds n c.round

/-- The most rounds a simplification takes. -/
def maxRounds : Nat := 4

/-- The simplified form of a condition. -/
def simplify (c : Condition) : Condition :=
  (rounds maxRounds c).arrange

end Condition

end MailRules
