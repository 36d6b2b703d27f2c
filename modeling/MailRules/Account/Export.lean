import MailRules.Account.Resource
import MailRules.Dump

/-!
# Filters to stored filters

* `Filter.exported` is the stored form of a filter, `exportAll` that of several.
* Flags become system labels that are added or removed; the name of a label becomes its id.
-/

namespace MailRules

/-- Why a filter has no stored form. -/
inductive ExportFault where
  /-- The filter does nothing, or matches nothing. -/
  | noAction | noCriteria
  /-- The filter adds a label that the account has not. -/
  | unknownLabel (name : String)
  deriving DecidableEq

/-- The text of the fault. -/
def ExportFault.message : ExportFault → String
  | .noAction => "no action specified"
  | .noCriteria => "no criteria specified"
  | .unknownLabel n => "label \"" ++ n ++ "\" not found"

/-- A fault of the filter at a position. -/
structure ExportError where
  /-- The position of the filter. -/
  index : Nat
  /-- What is wrong with it. -/
  fault : ExportFault
  /-- The filter. -/
  filter : Filter

/-- The text of the error. -/
def ExportError.message (e : ExportError) : String :=
  s!"exporting filter #{e.index}: {e.fault.message}"

/-- A text that is unset if it is empty. -/
def nonEmpty? (s : String) : Option String :=
  if s = "" then none else some s

/-- The stored form of criteria. -/
def Criteria.exported (c : Criteria) : RemoteCriteria where
  sender := nonEmpty? c.sender
  recipient := nonEmpty? c.recipient
  subject := nonEmpty? c.subject
  query := nonEmpty? c.query

namespace Action

/-- The system labels that an action adds. -/
def addedSystemLabels (a : Action) : List SystemLabel :=
  (if a.delete then [.trash] else []) ++ (if a.markImportant then [.important] else []) ++
    (if a.star then [.starred] else []) ++ (a.category.map SystemLabel.category).toList

/-- The system labels that an action removes. -/
def removedSystemLabels (a : Action) : List SystemLabel :=
  (if a.archive then [.inbox] else []) ++ (if a.markNotImportant then [.important] else []) ++
    (if a.markRead then [.unread] else []) ++ (if a.markNotSpam then [.spam] else [])

/-- The stored form of an action. -/
def exported (m : LabelMap) (a : Action) : Except ExportFault RemoteAction :=
  let stored := fun (own : List String) => ({
    addLabelIds := a.addedSystemLabels.map SystemLabel.id ++ own
    removeLabelIds := a.removedSystemLabels.map SystemLabel.id
    forward := nonEmpty? a.forward } : RemoteAction)
  if a.addLabel = "" then .ok (stored [])
  else match m.id? a.addLabel with
    | some id => .ok (stored [id])
    | none => .error (.unknownLabel a.addLabel)

end Action

/-- The stored form of a filter, which has no id yet. -/
def Filter.exported (m : LabelMap) (f : Filter) : Except ExportFault RemoteFilter :=
  if f.action.isEmpty then .error .noAction
  else if f.criteria.isEmpty then .error .noCriteria
  else match f.action.exported m with
    | .error e => .error e
    | .ok action => .ok { criteria := f.criteria.exported, action }

/-- The stored forms of filters, the first of which has the given position. -/
def exportFrom (m : LabelMap) (i : Nat) : List Filter → Except ExportError (List RemoteFilter)
  | [] => .ok []
  | f :: fs =>
    match f.exported m with
    | .error fault => .error ⟨i, fault, f⟩
    | .ok r => match exportFrom m (i + 1) fs with
      | .error e => .error e
      | .ok rs => .ok (r :: rs)

/-- The stored forms of filters. -/
def exportAll (m : LabelMap) (fs : List Filter) : Except ExportError (List RemoteFilter) :=
  exportFrom m 0 fs

end MailRules
