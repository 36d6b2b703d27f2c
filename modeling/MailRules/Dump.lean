import MailRules.Compile
import MailRules.Config.Document
import MailRules.Yaml.Printer

/-!
# Dumps

Filters, labels and rules spelled out as documents, every member shown, to stand below an error
message.
-/

namespace MailRules

/-- The document of criteria. -/
def Criteria.toValue (c : Criteria) : Value :=
  .object [("from_", .str c.sender), ("to", .str c.recipient), ("subject", .str c.subject),
    ("query", .str c.query)]

/-- The document of an action. -/
def Action.toValue (a : Action) : Value :=
  .object [("add_label", .str a.addLabel),
    ("category", (a.category.map fun c => Value.str c.name).getD .null),
    ("archive", .bool a.archive), ("delete", .bool a.delete),
    ("mark_important", .bool a.markImportant), ("mark_not_important", .bool a.markNotImportant),
    ("mark_read", .bool a.markRead), ("mark_not_spam", .bool a.markNotSpam),
    ("star", .bool a.star), ("forward", .str a.forward)]

/-- The document of a filter. -/
def Filter.toValue (f : Filter) : Value :=
  .object [("criteria", f.criteria.toValue), ("action", f.action.toValue), ("id", .str f.id)]

/-- The document of a label. -/
def Label.toValue (l : Label) : Value :=
  .object [("name", .str l.name), ("color", (l.color.map LabelColor.toValue).getD .null),
    ("id", .str l.id)]

/-- A filter below an error message. -/
def Filter.dump (f : Filter) : String :=
  "Filter (internal representation):\n" ++ Yaml.printInline f.toValue

/-- A rule below an error message. -/
def RuleDecl.dump (r : RuleDecl) : String :=
  "Rule:\n" ++ Yaml.printInline r.toValue

/-- What is shown below the message of a rule's error. -/
def RuleError.details (e : RuleError) : Option String :=
  e.declaration.map RuleDecl.dump

end MailRules
