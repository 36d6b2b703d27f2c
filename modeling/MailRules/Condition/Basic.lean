/-!
# Conditions

The condition of a rule is a tree of operations over matches on the fields of a message.

* `Operation` and `Field` are the two alphabets; both are ordered, and siblings are arranged by
  that order.
* `Leaf` matches one field against one or more arguments, `Condition` combines leaves.
* `Condition.size` counts one for each argument and one for each inner node; it is the measure
  that filters are kept small by.
-/

namespace MailRules

/-- How the parts of a condition are combined. -/
inductive Operation where
  /-- They are not combined, as a single part is not. -/
  | unset
  /-- All of them have to hold. -/
  | and
  /-- One of them has to hold. -/
  | or
  /-- The only part must not hold. -/
  | not
  deriving DecidableEq, Inhabited

namespace Operation

/-- The place of an operation in the order of siblings. -/
def rank : Operation → Nat
  | .unset => 0 | .and => 1 | .or => 2 | .not => 3

/-- The text of an operation. -/
def name : Operation → String
  | .unset => "<none>" | .and => "and" | .or => "or" | .not => "not"

end Operation

/-- What part of a message a leaf looks at.  `has` and `query` take search terms of any kind. -/
inductive Field where
  /-- No part, as with an inner node. -/
  | unset
  /-- A part that has a search operator. -/
  | sender | recipient | cc | bcc | replyTo | subject | list
  /-- The message as a whole. -/
  | has | query
  deriving DecidableEq, Inhabited

namespace Field

/-- The place of a field in the order of siblings. -/
def rank : Field → Nat
  | .unset => 0 | .sender => 1 | .recipient => 2 | .cc => 3 | .bcc => 4 | .replyTo => 5
  | .subject => 6 | .list => 7 | .has => 8 | .query => 9

/-- The search operator of a field, which is also its name in a written config. -/
def name : Field → String
  | .unset => "<none>" | .sender => "from" | .recipient => "to" | .cc => "cc" | .bcc => "bcc"
  | .replyTo => "replyto" | .subject => "subject" | .list => "list" | .has => "has"
  | .query => "query"

/-- Whether arguments of the field are search terms by themselves, without an operator. -/
def isBare : Field → Bool
  | .has | .query => true
  | _ => false

end Field

/-- A match of one field.  Several arguments are combined by `grouping`; a raw leaf holds
arguments that are already in search notation. -/
structure Leaf where
  /-- The field that is matched. -/
  field : Field
  /-- How several arguments are combined. -/
  grouping : Operation := .unset
  /-- What the field is matched with. -/
  args : List String := []
  /-- Whether the arguments are in search notation already. -/
  raw : Bool := false
  deriving DecidableEq, Inhabited

/-- A condition on messages. -/
inductive Condition where
  /-- Conditions combined by an operation. -/
  | node (op : Operation) (children : List Condition)
  /-- A match of one field. -/
  | leaf (l : Leaf)
  deriving Inhabited

namespace Condition

/-- Induction on conditions: a node may use what holds of its children. -/
@[elab_as_elim, induction_eliminator]
theorem induct {motive : Condition → Prop}
    (node : ∀ op cs, (∀ c ∈ cs, motive c) → motive (.node op cs))
    (leaf : ∀ l, motive (.leaf l)) : ∀ c, motive c
  | .leaf l => leaf l
  | .node op cs => node op cs fun c _ => induct node leaf c

/-- Whether a condition is a single match. -/
def isLeaf : Condition → Bool
  | .leaf _ => true
  | .node _ _ => false

/-- The operation at the root, which for a leaf is its grouping. -/
def rootOperation : Condition → Operation
  | .leaf l => l.grouping
  | .node op _ => op

/-- The field at the root, which an inner node does not have. -/
def rootField : Condition → Field
  | .leaf l => l.field
  | .node _ _ => .unset

mutual

/-- One for each argument of a leaf and one for each inner node. -/
def size : Condition → Nat
  | .leaf l => l.args.length
  | .node _ cs => 1 + sizeAll cs

/-- The sizes of a list of conditions together. -/
def sizeAll : List Condition → Nat
  | [] => 0
  | c :: cs => c.size + sizeAll cs

end

theorem sizeAll_append (cs ds : List Condition) :
    sizeAll (cs ++ ds) = sizeAll cs + sizeAll ds := by
  induction cs with
  | nil => simp [sizeAll]
  | cons c cs ih => simp [sizeAll, ih, Nat.add_assoc]

end Condition

end MailRules
