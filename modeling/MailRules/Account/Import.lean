import MailRules.Account.Resource
import MailRules.Text.Quoted

/-!
# Stored filters to filters

A stored filter may do what no config can say; such a filter is refused with a reason and left
alone.

* `RemoteFilter.imported` is the filter of a stored filter.
* `importAll` takes all stored filters; if any is refused, the error has the reasons by id and the
  filters that were taken.
-/

namespace MailRules

/-- Why a stored action is refused. -/
inductive ActionFault where
  /-- A second category is added to a first. -/
  | categories (new old : Category)
  /-- A label is added that the account has not. -/
  | unknownLabel (id : String)
  /-- A label is removed that no flag stands for. -/
  | cannotRemove (id : String)
  /-- Nothing is done. -/
  | nothing
  deriving DecidableEq

/-- The text of the fault. -/
def ActionFault.message : ActionFault → String
  | .categories n o => "multiple categories: '" ++ n.name ++ "', '" ++ o.name ++ "'"
  | .unknownLabel id => "unknown label ID '" ++ id ++ "'"
  | .cannotRemove id => "unsupported label to remove \"" ++ id ++ "\""
  | .nothing => "empty or unsupported action"

/-- Why a stored filter is refused. -/
inductive ImportFault where
  /-- No config can say the action. -/
  | action (f : ActionFault)
  /-- No config can say a field with the given value. -/
  | unsupported (field value : String)
  deriving DecidableEq

/-- The text of the fault. -/
def ImportFault.message : ImportFault → String
  | .action f => "importing action: " ++ f.message
  | .unsupported field value =>
    "importing criteria: usage of unsupported field \"" ++ field ++ "\" (value " ++ value ++ ")"

namespace Action

/-- An action that adds a label of the given id as well. -/
def adding (m : LabelMap) (a : Action) (id : String) : Except ActionFault Action :=
  match SystemLabel.ofId? id with
  | some (.category c) => match a.category with
    | some old => .error (.categories c old)
    | none => .ok { a with category := some c }
  | some .trash => .ok { a with delete := true }
  | some .important => .ok { a with markImportant := true }
  | some .starred => .ok { a with star := true }
  | _ => match m.name? id with
    | some name => .ok { a with addLabel := name }
    | none => .error (.unknownLabel id)

/-- An action that removes a label of the given id as well. -/
def removing (a : Action) (id : String) : Except ActionFault Action :=
  match SystemLabel.ofId? id with
  | some .inbox => .ok { a with archive := true }
  | some .unread => .ok { a with markRead := true }
  | some .important => .ok { a with markNotImportant := true }
  | some .spam => .ok { a with markNotSpam := true }
  | _ => .error (.cannotRemove id)

end Action

/-- The action of a stored action. -/
def RemoteAction.imported (m : LabelMap) (r : RemoteAction) : Except ActionFault Action := do
  let a ← r.addLabelIds.foldlM (Action.adding m) {}
  let a ← r.removeLabelIds.foldlM Action.removing a
  let a := { a with forward := r.forward.getD "" }
  if a.isEmpty then .error .nothing else .ok a

namespace RemoteCriteria

/-- The first restriction that criteria cannot express, with its value. -/
def unsupported? (r : RemoteCriteria) : Option (String × String) :=
  if r.excludeChats = some true then some ("excludeChats", "True")
  else match r.size, r.sizeComparison with
    | none, none | some 0, none => none
    | none, some c | some 0, some c => some ("sizeComparison", c.name)
    | some n, _ => some ("size", toString n)

/-- The criteria of stored criteria.  A negated query and attachments become part of the query. -/
def imported (r : RemoteCriteria) : Criteria where
  sender := r.sender.getD ""
  recipient := r.recipient.getD ""
  subject := r.subject.getD ""
  query :=
    let term := fun (s : Option String) => if s.getD "" = "" then [] else [s.getD ""]
    " ".intercalate (term r.query ++
      (term r.negatedQuery).map (fun q => "-\x7b" ++ q ++ "\x7d") ++
      if r.hasAttachment = some true then ["has:attachment"] else [])

end RemoteCriteria

/-- The filter of a stored filter.  A refused action is reported before refused criteria. -/
def RemoteFilter.imported (m : LabelMap) (r : RemoteFilter) : Except ImportFault Filter :=
  match r.action.imported m with
  | .error f => .error (.action f)
  | .ok action => match r.criteria.unsupported? with
    | some (field, value) => .error (.unsupported field value)
    | none => .ok { criteria := r.criteria.imported, action, id := r.id.getD "" }

/-! ### Several filters -/

/-- Why some stored filters were refused, by id, and the filters that were not. -/
structure ImportFailure where
  /-- The ids of the filters that were refused, each with the reason. -/
  errors : List (String × ImportFault)
  /-- The other filters, imported. -/
  filters : List Filter

namespace ImportFailure

/-- The text of the failure. -/
def message (e : ImportFailure) : String :=
  s!"{e.errors.length} filter(s) could not be imported"

/-- A line for each refused filter. -/
def details (e : ImportFailure) : String :=
  "\n".intercalate (e.errors.map fun x =>
    "importing filter " ++ quoted x.1 ++ ": " ++ x.2.message)

/-- Adds a reason.  An id that is there already keeps its place and takes the new reason. -/
def putReason (id : String) (fault : ImportFault) :
    List (String × ImportFault) → List (String × ImportFault)
  | [] => [(id, fault)]
  | e :: es => if e.1 = id then (id, fault) :: es else e :: putReason id fault es

end ImportFailure

/-- The filters that are not refused. -/
def importable (m : LabelMap) (rs : List RemoteFilter) : List Filter :=
  rs.filterMap fun r => (r.imported m).toOption

/-- The reasons of refused filters, by id in order of first appearance. -/
def importReasons (m : LabelMap) (rs : List RemoteFilter) : List (String × ImportFault) :=
  rs.foldl (fun reasons r => match r.imported m with
    | .error fault => ImportFailure.putReason (r.id.getD "") fault reasons
    | .ok _ => reasons) []

/-- The filters of stored filters, unless some are refused. -/
def importAll (m : LabelMap) (rs : List RemoteFilter) : Except ImportFailure (List Filter) :=
  let reasons := importReasons m rs
  if reasons.isEmpty then .ok (importable m rs) else .error ⟨reasons, importable m rs⟩

end MailRules
