import MailRules.Condition.OfNode
import MailRules.Condition.Simplify
import MailRules.Condition.Split
import MailRules.Condition.Query
import MailRules.Label

/-!
# Compiling configs

A config is compiled in two steps.  First every rule is read: its filter node becomes a simplified
condition.  Then every rule is turned into filters: each piece of its condition, written as
criteria, with each of its actions.

* `readRules` and `Rule.filters` are the steps, `Config.compile` is both.
* `RuleError` attributes a fault to a rule; faults of the first step carry the rule as it is
  written.
-/

namespace MailRules

/-- A rule that has been read. -/
structure Rule where
  /-- What the rule matches. -/
  condition : Condition
  /-- What it does. -/
  actions : Actions

/-- What is wrong with a rule. -/
inductive RuleFault where
  /-- The rule cannot be read. -/
  | malformed (e : SyntaxError)
  /-- The rule does nothing. -/
  | emptyActions
  /-- The condition has no search notation. -/
  | unwritable (e : QueryError)
  /-- The rule marks as spam, which no filter can. -/
  | toSpam

/-- The text of the fault. -/
def RuleFault.message : RuleFault → String
  | .malformed e => e.message
  | .emptyActions => "empty action"
  | .unwritable e => e.message
  | .toSpam => "gmail filters don't allow one to send messages to spam directly"

/-- A fault of the rule at a position.  The declaration is given if the rule could not be read. -/
structure RuleError where
  /-- The position of the rule. -/
  index : Nat
  /-- What is wrong with it. -/
  fault : RuleFault
  /-- The rule as it is written, if it could not be read. -/
  declaration : Option RuleDecl := none

/-- The text of the error. -/
def RuleError.message (e : RuleError) : String :=
  s!"rule #{e.index}: {e.fault.message}"

/-- Why a config cannot be compiled. -/
inductive CompileError where
  /-- A rule is faulty. -/
  | rule (e : RuleError)
  /-- A condition cannot be split. -/
  | split (e : SplitError)

/-! ### Reading rules -/

/-- Reads a rule.  A malformed filter is reported before empty actions. -/
def RuleDecl.read (r : RuleDecl) : Except RuleFault Rule :=
  match r.filter.condition with
  | .error e => .error (.malformed e)
  | .ok c => if r.actions.isEmpty then .error .emptyActions else .ok ⟨c.simplify, r.actions⟩

/-- Reads rules, the first of which has the given position. -/
def readRulesFrom (i : Nat) : List RuleDecl → Except RuleError (List Rule)
  | [] => .ok []
  | r :: rs =>
    match r.read with
    | .error fault => .error { index := i, fault, declaration := some r }
    | .ok rule => match readRulesFrom (i + 1) rs with
      | .error e => .error e
      | .ok rules => .ok (rule :: rules)

/-- The rules of a config. -/
def readRules (c : Config) : Except RuleError (List Rule) :=
  readRulesFrom 0 c.rules

/-! ### Actions -/

/-- The action that carries everything a rule asks for but the labels after the first. -/
def Actions.mainAction (a : Actions) : Action where
  addLabel := a.labels.headD ""
  category := a.category
  archive := a.archive
  delete := a.delete
  markImportant := a.markImportant = some true
  markNotImportant := a.markImportant = some false
  markRead := a.markRead
  markNotSpam := a.markSpam = some false
  star := a.star
  forward := a.forward.getD ""

/-- The actions of a rule.  A filter applies one label at most, so every label after the first
gets an action of its own. -/
def Actions.filterActions (a : Actions) : Except RuleFault (List Action) :=
  if a.markSpam = some true then .error .toSpam
  else .ok (a.mainAction :: (a.labels.drop 1).map fun l => { addLabel := l })

/-! ### Filters -/

/-- Why a rule has no filters. -/
inductive FilterFault where
  /-- The rule is faulty. -/
  | rule (f : RuleFault)
  /-- Its condition cannot be split. -/
  | split (e : SplitError)

/-- Every piece of a rule's condition with every action of the rule. -/
def Rule.filters (limit : Int) (r : Rule) : Except FilterFault (List Filter) :=
  match r.condition.split limit with
  | .error e => .error (.split e)
  | .ok pieces =>
    match Condition.criteriaAll pieces with
    | .error e => .error (.rule (.unwritable e))
    | .ok cs => match r.actions.filterActions with
      | .error f => .error (.rule f)
      | .ok as => .ok (cs.flatMap fun c => as.map fun a => { criteria := c, action := a })

/-- The filters of rules, the first of which has the given position. -/
def filtersOfRulesFrom (limit : Int) (i : Nat) : List Rule → Except CompileError (List Filter)
  | [] => .ok []
  | r :: rs =>
    match r.filters limit with
    | .error (.rule fault) => .error (.rule { index := i, fault })
    | .error (.split e) => .error (.split e)
    | .ok fs => match filtersOfRulesFrom limit (i + 1) rs with
      | .error e => .error e
      | .ok gs => .ok (fs ++ gs)

/-- The filters of rules, in order. -/
def filtersOfRules (limit : Int) (rs : List Rule) : Except CompileError (List Filter) :=
  filtersOfRulesFrom limit 0 rs

/-! ### Configs -/

/-- Labels and filters, as a config declares them or an account holds them. -/
structure MailConfig where
  /-- The labels of the user. -/
  labels : List Label := []
  /-- The filters. -/
  filters : List Filter := []
  deriving Inhabited

/-- The size limit of a filter, unless another is asked for. -/
def defaultSizeLimit : Int := 20

/-- The labels and filters that a config declares. -/
def Config.compile (limit : Int) (c : Config) : Except CompileError MailConfig :=
  match readRules c with
  | .error e => .error (.rule e)
  | .ok rules => match filtersOfRules limit rules with
    | .error e => .error e
    | .ok filters => .ok { labels := c.labels.map Label.ofDecl, filters }

end MailRules
