import MailRules.Config.Basic
import MailRules.Config.Checked

/-!
# Reading configs from document values

Every object of a document is read by a list of accepted names for each member, so that no member
is ignored: one that stands under no accepted name, or under a second name for the same thing, is
refused.

* `readNode`, `readActions`, `readRule` and `readConfig` read the parts of a config.
-/

namespace MailRules

/-- A reading in which the given names account for all members. -/
def Checked.closed {α : Type} (names : List (List String)) (ms : Members) (x : Checked α) :
    Checked α :=
  x.orRefused (otherMembers names ms)

/-! ### Names of members -/

/-- The accepted names of the members of an author. -/
def authorNames : List (List String) := [["name"], ["email"]]
/-- The accepted names of the members of a color. -/
def colorNames : List (List String) := [["background"], ["text"]]
/-- The accepted names of the members of a label. -/
def labelNames : List (List String) := [["name"], ["color"]]
/-- The accepted names of the members of a filter node. -/
def nodeNames : List (List String) := [
  ["and", "and_"], ["or", "or_"], ["not", "not_"], ["from", "from_"], ["to"], ["cc"], ["bcc"],
  ["replyto", "replyTo", "reply_to"], ["subject"], ["list", "list_"], ["has"], ["query"],
  ["isRaw", "is_raw"]]
/-- The accepted names of the members of a rule's actions. -/
def actionNames : List (List String) := [
  ["archive"], ["delete"], ["markRead", "mark_read"], ["star"], ["markSpam", "mark_spam"],
  ["markImportant", "mark_important"], ["category"], ["labels"], ["forward"]]
/-- The accepted names of the members of a rule. -/
def ruleNames : List (List String) := [["filter"], ["actions"]]
/-- The accepted names of the members of a config. -/
def configNames : List (List String) := [["version"], ["author"], ["labels"], ["rules"]]

/-! ### Parts of a config -/

/-- An author. -/
def readAuthor : Value → Checked Author :=
  readObject fun ms =>
    (((defaulted ms ["name"] "" readText).map Author.mk).ap
      (defaulted ms ["email"] "" readText)).closed authorNames ms

/-- The colors of a label. -/
def readColor : Value → Checked LabelColor :=
  readObject fun ms =>
    (((required ms ["background"] readText).map LabelColor.mk).ap
      (required ms ["text"] readText)).closed colorNames ms

/-- A declared label. -/
def readLabel : Value → Checked LabelDecl :=
  readObject fun ms =>
    (((required ms ["name"] readText).map LabelDecl.mk).ap
      (optional ms ["color"] readColor)).closed labelNames ms

/-- The matches on fields of a filter node. -/
def readFieldMatches (ms : Members) : Checked FieldMatches :=
  ((((((((((optional ms ["from", "from_"] readText).map FieldMatches.mk).ap
    (optional ms ["to"] readText)).ap
    (optional ms ["cc"] readText)).ap
    (optional ms ["bcc"] readText)).ap
    (optional ms ["replyto", "replyTo", "reply_to"] readText)).ap
    (optional ms ["subject"] readText)).ap
    (optional ms ["list", "list_"] readText)).ap
    (optional ms ["has"] readText)).ap
    (optional ms ["query"] readText))

mutual

/-- A filter node. -/
def readNode : Value → Checked FilterNode
  | .map ms =>
    let nodes := fun (names : List String) =>
      match h : findNamed ms names with
      | some (n, .list xs) =>
        have : sizeOf xs < sizeOf ms := by
          have := sizeOf_findNamed_lt h; simp only [Value.list.sizeOf_spec] at this; omega
        ((Checked.sequence 0 (readNodes xs)).map some).within n
      | some (_, .scalar .null) => .ok none
      | some (n, _) => (Checked.refuse .notList).within n
      | none => .ok none
    let negated :=
      match h : findNamed ms ["not", "not_"] with
      | some (_, .scalar .null) => .ok none
      | some (n, v) =>
        have : sizeOf v < sizeOf ms := sizeOf_findNamed_lt h
        ((readNode v).map some).within n
      | none => .ok none
    ((((((nodes ["and", "and_"]).map FilterNode.mk).ap (nodes ["or", "or_"])).ap negated).ap
      (readFieldMatches ms)).ap (defaulted ms ["isRaw", "is_raw"] false readFlag)).closed
        nodeNames ms
  | _ => Checked.refuse .notObject
termination_by v => sizeOf v

/-- The readings of a list of filter nodes. -/
def readNodes : List Value → List (Checked FilterNode)
  | [] => []
  | x :: xs => readNode x :: readNodes xs
termination_by xs => sizeOf xs

end

/-- The actions of a rule. -/
def readActions : Value → Checked Actions :=
  readObject fun ms =>
    ((((((((((defaulted ms ["archive"] false readFlag).map Actions.mk).ap
      (defaulted ms ["delete"] false readFlag)).ap
      (defaulted ms ["markRead", "mark_read"] false readFlag)).ap
      (defaulted ms ["star"] false readFlag)).ap
      (optional ms ["markSpam", "mark_spam"] readFlag)).ap
      (optional ms ["markImportant", "mark_important"] readFlag)).ap
      (optional ms ["category"] (readChoice Category.ofName?))).ap
      (defaulted ms ["labels"] [] (readList readText))).ap
      (optional ms ["forward"] readText)).closed actionNames ms

/-- A rule. -/
def readRule : Value → Checked RuleDecl :=
  readObject fun ms =>
    (((required ms ["filter"] readNode).map RuleDecl.mk).ap
      (required ms ["actions"] readActions)).closed ruleNames ms

/-- The version of a config, which has to be the supported one. -/
def readVersion (v : Value) : Checked Unit :=
  match readText v with
  | .ok s => if s = configVersion then .ok () else Checked.refuse .wrongVersion
  | .refused ps => .refused ps

/-- A config. -/
def readConfig : Value → Checked Config :=
  readObject fun ms =>
    (((((required ms ["version"] readVersion).map fun _ => Config.mk).ap
      (optional ms ["author"] readAuthor)).ap
      (defaulted ms ["labels"] [] (readList readLabel))).ap
      (defaulted ms ["rules"] [] (readList readRule))).closed configNames ms

end MailRules
