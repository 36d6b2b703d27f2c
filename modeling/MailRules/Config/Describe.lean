import MailRules.Dump
import MailRules.Text.Lines

/-!
# Configs that describe an account

* `MailConfig.describe` is a config that declares given labels and filters: each filter becomes a
  rule of its own.
* `Config.text` is a config as a YAML text, with a note above the labels.
-/

namespace MailRules

/-- Why no rule declares a filter. -/
inductive DescribeFault where
  /-- The filter matches nothing, or its flags contradict each other. -/
  | noCriteria | contradictory
  deriving DecidableEq

/-- The text of the fault. -/
def DescribeFault.message : DescribeFault → String
  | .noCriteria => "empty criteria"
  | .contradictory => "in 'mark important': cannot be both true and false"

/-- A fault of the filter at a position. -/
structure DescribeError where
  /-- The position of the filter. -/
  index : Nat
  /-- What is wrong with it. -/
  fault : DescribeFault
  /-- The filter. -/
  filter : Filter

/-- The text of the error. -/
def DescribeError.message (e : DescribeError) : String :=
  s!"importing filter #{e.index}: {e.fault.message}"

/-! ### Rules -/

/-- Whether a text was already quoted or spaced out, so that it must not be quoted again. -/
def isSpacedOut (s : String) : Bool :=
  s.toList.any fun c => c = ' ' || c = '\'' || c = '"'

/-- A node for the text of a slot, absent if the text is empty. -/
def slotNode (value : String) (fields : FieldMatches) (raw : Bool) : List FilterNode :=
  if value = "" then [] else [{ fields, raw }]

/-- The node that states some criteria. -/
def Criteria.node? (c : Criteria) : Option FilterNode :=
  let nodes := slotNode c.sender { sender := some c.sender } (isSpacedOut c.sender) ++
    slotNode c.recipient { recipient := some c.recipient } (isSpacedOut c.recipient) ++
    slotNode c.subject { subject := some c.subject } (isSpacedOut c.subject) ++
    slotNode c.query { query := some c.query } false
  match nodes with
  | [] => none
  | [n] => some n
  | ns => some { all := some ns }

/-- The actions that ask for an action.  None asks for opposite marks. -/
def Action.actions? (a : Action) : Option Actions :=
  if a.markImportant && a.markNotImportant then none
  else some {
    archive := a.archive
    delete := a.delete
    markRead := a.markRead
    star := a.star
    markSpam := if a.markNotSpam then some false else none
    markImportant := if a.markImportant then some true
      else if a.markNotImportant then some false else none
    category := a.category
    labels := if a.addLabel = "" then [] else [a.addLabel]
    forward := if a.forward = "" then none else some a.forward }

/-- The rule that declares a filter. -/
def Filter.rule (f : Filter) : Except DescribeFault RuleDecl :=
  match f.criteria.node? with
  | none => .error .noCriteria
  | some filter => match f.action.actions? with
    | none => .error .contradictory
    | some actions => .ok { filter, actions }

/-- The rules that declare filters, the first of which has the given position. -/
def rulesFrom (i : Nat) : List Filter → Except DescribeError (List RuleDecl)
  | [] => .ok []
  | f :: fs =>
    match f.rule with
    | .error fault => .error ⟨i, fault, f⟩
    | .ok r => match rulesFrom (i + 1) fs with
      | .error e => .error e
      | .ok rs => .ok (r :: rs)

/-! ### Configs -/

/-- Stands in for the author, whom an account does not tell. -/
def placeholderAuthor : Author :=
  { name := "YOUR NAME HERE (auto imported)", email := "your-email@gmail.com" }

/-- The declaration of a label. -/
def Label.declaration (l : Label) : LabelDecl :=
  { name := l.name, color := l.color }

/-- The config that declares labels and filters. -/
def MailConfig.describe (m : MailConfig) : Except DescribeError Config :=
  match rulesFrom 0 m.filters with
  | .error e => .error e
  | .ok rules => .ok {
      author := some placeholderAuthor
      labels := m.labels.map Label.declaration
      rules }

/-- The note above the labels of a config. -/
def labelsNote : String :=
  "# Note: labels management is optional. If you prefer to use the\n" ++
    "# Gmail interface to add and remove labels, you can safely remove\n" ++
    "# this section of the config.\n"

/-- A config as a YAML text below a header. -/
def Config.text (header : String) (c : Config) : String :=
  let lines := (textLines (Yaml.print c.toValue)).map fun line =>
    if !c.labels.isEmpty && line.startsWith "labels:" then labelsNote ++ line else line
  header ++ String.join lines

end MailRules
