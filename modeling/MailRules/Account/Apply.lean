import MailRules.Account.Client

/-!
# Carrying out a plan

A plan is carried out in steps.  Labels are created before the filters that apply them, and
deleted after the filters that applied them are gone; filters are added before others are deleted.
A label is created before the labels below it and deleted after them, since its name is shorter
than theirs.

* `Plan.steps` are the steps, `Plan.apply` carries them out.
-/

namespace MailRules

/-- A step in carrying out a plan. -/
inductive Step where
  /-- Labels are created, in the order given. -/
  | addLabels (ls : List Label)
  /-- Filters are created. -/
  | addFilters (fs : List Filter)
  /-- Labels are changed to what is given, by their ids. -/
  | updateLabels (ls : List Label)
  /-- The filters of some ids are deleted. -/
  | deleteFilters (ids : List String)
  /-- Labels are kept although the config does not declare them. -/
  | keepLabels (count : Nat)
  /-- The labels of some ids are deleted, in the order given. -/
  | deleteLabels (ids : List String)
  deriving DecidableEq

namespace Step

/-- The number of things that a step is about. -/
def count : Step → Nat
  | .addLabels ls | .updateLabels ls => ls.length
  | .addFilters fs => fs.length
  | .deleteFilters ids | .deleteLabels ids => ids.length
  | .keepLabels n => n

/-- The notice that a step is given. -/
def notice (s : Step) : Notice :=
  match s with
  | .addLabels _ => .creatingLabels s.count
  | .addFilters _ => .creatingFilters s.count
  | .updateLabels _ => .updatingLabels s.count
  | .deleteFilters _ => .deletingFilters s.count
  | .keepLabels _ => .keepingLabels s.count
  | .deleteLabels _ => .deletingLabels s.count

/-- Carries out a step. -/
def perform : Step → Client Unit
  | .addLabels ls => Client.addLabels ls
  | .addFilters fs => Client.addFilters fs
  | .updateLabels ls => Client.updateLabels ls
  | .deleteFilters ids => Client.deleteFilters ids
  | .keepLabels _ => pure ()
  | .deleteLabels ids => Client.deleteLabels ids

end Step

/-- Labels in order of creation: those with shorter names first. -/
def creationOrder (ls : List Label) : List Label :=
  ls.mergeSort fun l m => l.name.length ≤ m.name.length

/-- Labels in order of deletion: those with longer names first. -/
def deletionOrder (ls : List Label) : List Label :=
  ls.mergeSort fun l m => m.name.length ≤ l.name.length

/-- The declaration of a changed label under the id of the account's. -/
def LabelChange.update (c : LabelChange) : Label :=
  { c.new with id := c.old.id }

namespace Plan

/-- The steps of a plan.  Steps that are about nothing are left out. -/
def steps (removeLabels : Bool) (p : Plan) : List Step :=
  [ .addLabels (creationOrder p.labels.added),
    .addFilters p.filters.added,
    .updateLabels (p.labels.modified.map LabelChange.update),
    .deleteFilters (p.filters.removed.map (·.id)),
    if removeLabels then .deleteLabels ((deletionOrder p.labels.removed).map (·.id))
    else .keepLabels p.labels.removed.length ].filter fun s => s.count ≠ 0

/-- Carries out a plan that is safe. -/
def apply (removeLabels : Bool) (p : Plan) : Client Unit := do
  match p.validate with
  | .error e => throw (.plan e)
  | .ok () => (p.steps removeLabels).forM fun s => do
      Client.notify s.notice
      s.perform

end Plan

end MailRules
