import MailRules.Diff.Filters
import MailRules.Label

/-!
# Difference of labels

Which labels have to be added, removed and changed.  Labels are compared by name.

* `diffLabels` merges the two sides in order of their names.
* `LabelDiff.render` shows the difference for review.
* `LabelDiff.removedInUse?` finds a label that is to be removed although a filter applies it.
-/

namespace MailRules

/-- A label of the account and the declaration it does not satisfy. -/
structure LabelChange where
  /-- The label of the account. -/
  old : Label
  /-- The declaration. -/
  new : Label
  deriving DecidableEq

/-- Labels to be added, removed and changed. -/
structure LabelDiff where
  /-- What is declared and not there. -/
  added : List Label := []
  /-- What is there and not declared. -/
  removed : List Label := []
  /-- What is there, but otherwise. -/
  modified : List LabelChange := []
  deriving Inhabited

/-- Labels in order of their names. -/
def byName (ls : List Label) : List Label :=
  ls.mergeSort fun l m => l.name ≤ m.name

/-- Merges two lists of labels that are in order of their names. -/
def mergeLabels : List Label → List Label → LabelDiff
  | [], ls => { added := ls }
  | us, [] => { removed := us }
  | u :: us, l :: ls =>
    if u.name < l.name then
      let d := mergeLabels us (l :: ls)
      { d with removed := u :: d.removed }
    else if l.name < u.name then
      let d := mergeLabels (u :: us) ls
      { d with added := l :: d.added }
    else
      let d := mergeLabels us ls
      if u.satisfies l then d else { d with modified := ⟨u, l⟩ :: d.modified }
termination_by us ls => us.length + ls.length

/-- The difference between the labels of an account and the declared ones. -/
def diffLabels (existing declared : List Label) : LabelDiff :=
  mergeLabels (byName existing) (byName declared)

namespace LabelDiff

/-- Whether nothing has to be changed. -/
def isEmpty (d : LabelDiff) : Bool :=
  d.added.isEmpty && d.removed.isEmpty && d.modified.isEmpty

/-- The difference for review.  Only the new side of a change shows an id. -/
def render (color : Bool) (d : LabelDiff) : String :=
  let line := fun (l : Label) => l.describe ++ "\n"
  let bare := fun (l : Label) => line { l with id := "" }
  let old := d.modified.map (fun m => bare m.old) ++ d.removed.map bare
  let new := d.modified.map (fun m => line m.new) ++ d.added.map line
  let diff := Sequence.unifiedDiff FilterDiff.heads.1 FilterDiff.heads.2 3 old new
  if color then colorDiff diff else diff

/-- The first label that is to be removed although one of the filters applies it. -/
def removedInUse? (d : LabelDiff) (fs : List Filter) : Option Label :=
  d.removed.find? fun l => fs.any (·.hasLabel l.name)

end LabelDiff

end MailRules
