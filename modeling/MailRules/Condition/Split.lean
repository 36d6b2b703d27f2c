import MailRules.Condition.Basic

/-!
# Splitting a condition into alternatives

A condition that is too large for one filter is cut into pieces that hold together exactly when
the condition does: the members of an outer "or" become pieces, and what is still larger than
the limit is cut along an "or" inside it.

* `Condition.pieces` are the pieces for a size limit.
* `Condition.split` is the same, and refuses a limit of zero where groups have to be formed.
-/

namespace MailRules

/-- Consecutive groups of the given length, the last of which may be shorter.  No groups are
formed for the length zero. -/
def groupsOf {α : Type} (k : Nat) (xs : List α) : List (List α) :=
  if _h : k = 0 ∨ xs = [] then []
  else xs.take k :: groupsOf k (xs.drop k)
termination_by xs.length
decreasing_by
  have := List.length_pos_iff.2 (fun hx => _h (.inr hx))
  simp only [List.length_drop]
  omega

/-- Why a condition cannot be split. -/
inductive SplitError where
  /-- No piece may have any size. -/
  | zeroLimit
  deriving DecidableEq

/-- The text of the error. -/
def SplitError.message : SplitError → String
  | .zeroLimit => "range() arg 3 must not be zero"

namespace Condition

/-- The alternatives of an outer "or"; any other condition is its only alternative. -/
def alternatives : Condition → List Condition
  | .node .or cs => cs
  | c => [c]

/-- Cuts a condition into groups of the given number of children or arguments, each under the
same operation, or of the same field. -/
def groups (k : Nat) : Condition → List Condition
  | .node op cs => (groupsOf k cs).map (.node op)
  | .leaf l => (groupsOf k l.args).map fun args => .leaf { l with args }

/-- Splits a list at the first member with the greatest positive size among those rooted at
"or": what stands before it, the member, and what follows. -/
def splitLargestOr : List Condition → Option (List Condition × Condition × List Condition)
  | [] => none
  | c :: cs =>
    let own : Option Condition := if c.rootOperation = .or ∧ 0 < c.size then some c else none
    match own, splitLargestOr cs with
    | none, none => none
    | some d, none => some ([], d, cs)
    | none, some (before, d, after) => some (c :: before, d, after)
    | some d, some (before, e, after) =>
      if d.size < e.size then some (c :: before, e, after) else some ([], d, cs)

/-- Cuts an "and" node along its largest "or" child; every piece holds one group of that child
and all other children.  The groups have as many members as the limit leaves room for. -/
def splitAnd (limit : Int) (c : Condition) : List Condition :=
  match c with
  | .leaf _ => [c]
  | .node _ cs =>
    match splitLargestOr cs with
    | none => [c]
    | some (before, d, after) =>
      let room : Int := max 1 (limit - ((c.size : Int) - d.size))
      (d.groups room.toNat).map fun g => .node .and (g :: (before ++ after))

/-- The pieces of one alternative: itself if it fits, otherwise groups of what it is rooted at. -/
def fit (limit : Int) (c : Condition) : List Condition :=
  if (c.size : Int) ≤ limit then [c]
  else match c.rootOperation with
    | .or => c.groups limit.toNat
    | .and => c.splitAnd limit
    | _ => [c]

/-- The pieces of a condition for a size limit. -/
def pieces (limit : Int) (c : Condition) : List Condition :=
  c.alternatives.flatMap (fit limit)

/-- Whether an alternative is larger than the limit and rooted at "or", so that groups of the
limit's length are asked for. -/
def needsGroups (limit : Int) (c : Condition) : Bool :=
  c.alternatives.any fun d => limit < d.size && d.rootOperation = .or

/-- The pieces of a condition; groups of no members cannot be formed. -/
def split (limit : Int) (c : Condition) : Except SplitError (List Condition) :=
  if limit = 0 ∧ c.needsGroups limit then .error .zeroLimit else .ok (c.pieces limit)

end Condition

end MailRules
