import MailRules.Config.Basic
import MailRules.Value.Basic

/-!
# Configs as document values

The document of a config, in the order of its declaration.  Members that are absent or at their
default are left out; an explicit empty text of a field and an explicit `false` of a three-state
flag are kept.
-/

namespace MailRules

/-- A member that is left out when there is no value. -/
def memberOf (name : String) (v : Option Value) : List (String × Value) :=
  match v with
  | some v => [(name, v)]
  | none => []

/-- A flag that is left out when it is not set. -/
def flagMember (name : String) (b : Bool) : List (String × Value) :=
  memberOf name (if b then some (.bool true) else none)

/-- A list that is left out when it is empty. -/
def listMember (name : String) (vs : List Value) : List (String × Value) :=
  memberOf name (if vs.isEmpty then none else some (.list vs))

/-- A text that is left out when it is empty. -/
def textMember (name s : String) : List (String × Value) :=
  memberOf name (if s = "" then none else some (.str s))

/-- The document of an author. -/
def Author.toValue (a : Author) : Value :=
  .object (textMember "name" a.name ++ textMember "email" a.email)

/-- The document of a label's colors. -/
def LabelColor.toValue (c : LabelColor) : Value :=
  .object [("background", .str c.background), ("text", .str c.text)]

/-- The document of a label. -/
def LabelDecl.toValue (l : LabelDecl) : Value :=
  .object (("name", .str l.name) :: memberOf "color" (l.color.map LabelColor.toValue))

/-- The members of matches on fields. -/
def FieldMatches.members (f : FieldMatches) : List (String × Value) :=
  [("from", f.sender), ("to", f.recipient), ("cc", f.cc), ("bcc", f.bcc), ("replyto", f.replyTo),
    ("subject", f.subject), ("list", f.list), ("has", f.has), ("query", f.query)].flatMap
    fun m => memberOf m.1 (m.2.map Value.str)

namespace FilterNode

mutual

/-- The document of a filter node. -/
def toValue : FilterNode → Value
  | ⟨all, any, negated, fields, raw⟩ =>
    .object (nodesMember "and" all ++ nodesMember "or" any ++ nodeMember "not" negated ++
      fields.members ++ flagMember "isRaw" raw)

/-- The documents of filter nodes. -/
def toValues : List FilterNode → List Value
  | [] => []
  | n :: ns => n.toValue :: toValues ns

/-- The member for a list of filter nodes. -/
def nodesMember (name : String) : Option (List FilterNode) → List (String × Value)
  | some ns => [(name, .list (toValues ns))]
  | none => []

/-- The member for one filter node. -/
def nodeMember (name : String) : Option FilterNode → List (String × Value)
  | some n => [(name, n.toValue)]
  | none => []

end

end FilterNode

/-- The document of a rule's actions. -/
def Actions.toValue (a : Actions) : Value :=
  .object (flagMember "archive" a.archive ++ flagMember "delete" a.delete ++
    flagMember "markRead" a.markRead ++ flagMember "star" a.star ++
    memberOf "markSpam" (a.markSpam.map Value.bool) ++
    memberOf "markImportant" (a.markImportant.map Value.bool) ++
    memberOf "category" (a.category.map fun c => Value.str c.name) ++
    listMember "labels" (a.labels.map Value.str) ++
    memberOf "forward" (a.forward.map Value.str))

/-- The document of a rule. -/
def RuleDecl.toValue (r : RuleDecl) : Value :=
  .object [("filter", r.filter.toValue), ("actions", r.actions.toValue)]

/-- The document of a config. -/
def Config.toValue (c : Config) : Value :=
  .object (("version", .str configVersion) :: (memberOf "author" (c.author.map Author.toValue) ++
    listMember "labels" (c.labels.map LabelDecl.toValue) ++
    listMember "rules" (c.rules.map RuleDecl.toValue)))

end MailRules
