import MailRules.Condition.Basic
import MailRules.Config.Basic

/-!
# Conditions of written filter nodes

A filter node states one thing; a node that states nothing, or several things, or is raw where no
search notation can stand, is malformed.

* `FilterNode.check` is the test of one node.
* `FilterNode.condition` is the condition of a node, or the error of the first malformed node:
  a node before its children, and children from left to right.
-/

namespace MailRules

/-- Why a filter node is malformed. -/
inductive SyntaxError where
  /-- Nothing is stated. -/
  | empty
  /-- More than one thing is stated, in the given fields. -/
  | several (fields : List String)
  /-- A raw node matches a field that only takes plain texts. -/
  | misplacedRaw
  deriving DecidableEq

/-- The written names of the fields that a raw node may match. -/
def rawFields : List String := ["from", "to", "subject"]

/-- The text of the error. -/
def SyntaxError.message : SyntaxError → String
  | .empty => "empty filter node"
  | .several fs => "multiple fields specified in the same filter node: " ++ ",".intercalate fs
  | .misplacedRaw => "'isRaw' can be used only with fields " ++ ", ".intercalate rawFields

/-- The field of a written name. -/
def Field.ofName? (s : String) : Option Field :=
  [Field.sender, .recipient, .cc, .bcc, .replyTo, .subject, .list, .has, .query].find? (·.name = s)

namespace FilterNode

/-- What is wrong with a node by itself, if anything. -/
def check (n : FilterNode) : Except SyntaxError Unit :=
  match n.populated with
  | [] => .error .empty
  | [name] => if n.raw && !rawFields.contains name then .error .misplacedRaw else .ok ()
  | names => .error (.several names)

/-- The leaf of a node that matches a field. -/
def leaf (n : FilterNode) : Condition :=
  match n.textFields with
  | (name, arg) :: _ =>
    .leaf { field := (Field.ofName? name).getD .unset, args := [arg], raw := n.raw }
  | [] => .leaf { field := .unset }

mutual

/-- The condition of a node. -/
def condition (n : FilterNode) : Except SyntaxError Condition := do
  n.check
  match n with
  | ⟨some (m :: ms), _, _, _, _⟩ => return .node .and (← conditions (m :: ms))
  | ⟨_, some (m :: ms), _, _, _⟩ => return .node .or (← conditions (m :: ms))
  | ⟨_, _, some m, _, _⟩ => return .node .not [← m.condition]
  | n => return n.leaf
termination_by structural n

/-- The conditions of a list of nodes. -/
def conditions : List FilterNode → Except SyntaxError (List Condition)
  | [] => .ok []
  | n :: ns => return (← n.condition) :: (← conditions ns)
termination_by structural ns => ns

end

end FilterNode

end MailRules
