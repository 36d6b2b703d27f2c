import MailRules.Compile
import MailRules.Diff.Labels

/-!
# Difference of a config and an account

* `Plan` is what has to change so that an account holds what a config declares.
* `diff` computes it.  Labels are compared only if the config declares any, so that a config that
  does not manage labels never removes one.
* `Plan.validate` refuses a plan that is not safe to carry out.
-/

namespace MailRules

/-- Why a plan is not safe to carry out. -/
inductive PlanError where
  /-- The declared labels are refused. -/
  | labels (e : LabelError)
  /-- A label is to be removed that a declared filter applies. -/
  | labelInUse (name : String)
  deriving DecidableEq

/-- The text of the error. -/
def PlanError.message : PlanError → String
  | .labels e => "validating labels: " ++ e.message
  | .labelInUse n =>
    "invalid labels diff: cannot remove label \"" ++ n ++ "\", used in filter"

/-- What has to change, and the declared labels and filters it was computed from. -/
structure Plan where
  /-- The filters that have to change. -/
  filters : FilterDiff
  /-- The labels that have to change. -/
  labels : LabelDiff
  /-- What is declared. -/
  declared : MailConfig

namespace Plan

/-- Whether nothing has to change. -/
def isEmpty (p : Plan) : Bool :=
  p.filters.isEmpty && p.labels.isEmpty

/-- The plan for review. -/
def render (o : DiffOptions) (p : Plan) : String :=
  "\n".intercalate (
    (if p.filters.isEmpty then [] else ["Filters:", p.filters.render o]) ++
    (if p.labels.isEmpty then [] else ["Labels:", p.labels.render o.color]))

/-- Refuses a plan that changes labels while the declared ones are not valid, and one that removes
a label that a declared filter applies. -/
def validate (p : Plan) : Except PlanError Unit :=
  if p.labels.isEmpty then .ok ()
  else match Label.validateAll p.declared.labels with
    | .error e => .error (.labels e)
    | .ok () => match p.labels.removedInUse? p.declared.filters with
      | some l => .error (.labelInUse l.name)
      | none => .ok ()

end Plan

/-- What has to change so that the account holds what is declared. -/
def diff (declared existing : MailConfig) : Plan where
  filters := diffFilters existing.filters declared.filters
  labels := if declared.labels.isEmpty then {} else diffLabels existing.labels declared.labels
  declared := declared

end MailRules
