import MailRules.Filter.Basic

/-!
# Written configs

What a config document declares: labels to keep, and rules of a filter node and actions.

* `FilterNode` is one node of a rule's matching expression.  A well-formed node has exactly one
  populated field; the type allows any number, since malformed nodes are reported by rule.
* `Actions` are what a rule asks for; `markSpam` and `markImportant` have three states.
* `Config` is a whole document.  Its version is fixed and not part of the data.
-/

namespace MailRules

/-- The version of the config format. -/
def configVersion : String := "v1alpha3"

/-- Who wrote a config. -/
structure Author where
  /-- The name. -/
  name : String := ""
  /-- The address. -/
  email : String := ""
  deriving DecidableEq, Inhabited

/-- The colors of a label. -/
structure LabelColor where
  /-- The color behind the name. -/
  background : String
  /-- The color of the name. -/
  text : String
  deriving DecidableEq, Inhabited

/-- A label that a config declares. -/
structure LabelDecl where
  /-- The name, with those of the labels above it. -/
  name : String
  /-- The colors, if the config says any. -/
  color : Option LabelColor := none
  deriving DecidableEq, Inhabited

/-- The matches on fields that a node states, one text for each field. -/
structure FieldMatches where
  /-- Who the message is from. -/
  sender : Option String := none
  /-- Who the message is to. -/
  recipient : Option String := none
  /-- Who is sent a copy. -/
  cc : Option String := none
  /-- Who is sent a hidden copy. -/
  bcc : Option String := none
  /-- Who an answer goes to. -/
  replyTo : Option String := none
  /-- What the subject contains. -/
  subject : Option String := none
  /-- The mailing list. -/
  list : Option String := none
  /-- What the message has, as a search term. -/
  has : Option String := none
  /-- A search that finds the message. -/
  query : Option String := none
  deriving DecidableEq, Inhabited

/-- One node of a matching expression: all of some nodes, any of some nodes, not a node, or
matches on fields.  A raw node holds a text in search notation. -/
structure FilterNode where
  /-- Nodes that all have to match. -/
  all : Option (List FilterNode) := none
  /-- Nodes one of which has to match. -/
  any : Option (List FilterNode) := none
  /-- A node that must not match. -/
  negated : Option FilterNode := none
  /-- The matches on fields. -/
  fields : FieldMatches := {}
  /-- Whether the text of a field is in search notation. -/
  raw : Bool := false
  deriving Inhabited

/-- What a rule does with a message. -/
structure Actions where
  /-- Whether the message skips the inbox. -/
  archive : Bool := false
  /-- Whether it is deleted. -/
  delete : Bool := false
  /-- Whether it is marked as read. -/
  markRead : Bool := false
  /-- Whether it is starred. -/
  star : Bool := false
  /-- Whether it is spam, or never spam. -/
  markSpam : Option Bool := none
  /-- Whether it is important, or never important. -/
  markImportant : Option Bool := none
  /-- The inbox tab it goes to. -/
  category : Option Category := none
  /-- The names of the labels it is given. -/
  labels : List String := []
  /-- The address it is forwarded to. -/
  forward : Option String := none
  deriving DecidableEq, Inhabited

/-- Whether a rule does nothing.  An empty forward address is none. -/
def Actions.isEmpty (a : Actions) : Bool :=
  !(a.archive || a.delete || a.markRead || a.star || a.markSpam.isSome || a.markImportant.isSome ||
    a.category.isSome || !a.labels.isEmpty || (a.forward.getD "") != "")

/-- A rule as it is written. -/
structure RuleDecl where
  /-- What the rule matches. -/
  filter : FilterNode
  /-- What it does. -/
  actions : Actions
  deriving Inhabited

/-- A config document. -/
structure Config where
  /-- Who wrote the config. -/
  author : Option Author := none
  /-- The labels; if there are none, labels are left alone. -/
  labels : List LabelDecl := []
  /-- The rules, in order. -/
  rules : List RuleDecl := []
  deriving Inhabited

namespace FilterNode

/-- The matches on fields that are not empty, by the written names of the fields. -/
def textFields (n : FilterNode) : List (String × String) :=
  let f := n.fields
  [("from", f.sender), ("to", f.recipient), ("cc", f.cc), ("bcc", f.bcc), ("replyto", f.replyTo),
    ("subject", f.subject), ("list", f.list), ("has", f.has), ("query", f.query)].filterMap
    fun m => match m.2 with
      | some s => if s = "" then none else some (m.1, s)
      | none => none

/-- The written names of the populated fields.  Empty lists and texts do not count. -/
def populated (n : FilterNode) : List String :=
  (if (n.all.getD []).isEmpty then [] else ["and"]) ++
    (if (n.any.getD []).isEmpty then [] else ["or"]) ++
    (if n.negated.isNone then [] else ["not"]) ++ n.textFields.map (·.1)

end FilterNode

end MailRules
