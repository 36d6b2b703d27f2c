import MailRules.Account.Export
import MailRules.Account.Import
import MailRules.Account.Store
import MailRules.Diff.Basic

/-!
# Working on an account

The requests that listing, adding, changing and deleting come down to.  Every request may fail,
and the first failure ends the work; what was done before stays done.

* `Session` is an account with what happened to it, and with failures that lie ahead.
* `Client` is work in a session; `listLabels`, `addFilters` and the like are such work.
* `fetch` is what the account holds, as far as a config can say it.
-/

namespace MailRules

/-! ### Sessions -/

/-- A kind of request. -/
inductive Method where
  | listLabels | createLabel | patchLabel | deleteLabel | listFilters | createFilter
  | deleteFilter
  deriving DecidableEq

namespace Method

/-- The name of a kind of request. -/
def name : Method → String
  | .listLabels => "labels.list" | .createLabel => "labels.create"
  | .patchLabel => "labels.patch" | .deleteLabel => "labels.delete"
  | .listFilters => "filters.list" | .createFilter => "filters.create"
  | .deleteFilter => "filters.delete"

/-- The kind of request of a name. -/
def ofName? (s : String) : Option Method :=
  [.listLabels, .createLabel, .patchLabel, .deleteLabel, .listFilters, .createFilter,
    .deleteFilter].find? (·.name = s)

end Method

/-- The kind of a request. -/
def Request.method : Request → Method
  | .createLabel .. => .createLabel
  | .patchLabel .. => .patchLabel
  | .deleteLabel _ => .deleteLabel
  | .createFilter .. => .createFilter
  | .deleteFilter _ => .deleteFilter

/-- A failure that lies ahead: it stops a request of the given kind, after some others of that
kind have passed. -/
structure ExpectedFailure where
  /-- The kind of request that is stopped. -/
  method : Method
  /-- What the account answers. -/
  failure : HttpFailure
  /-- How many requests of the kind pass before. -/
  after : Nat := 0

/-- Something worth telling the user about. -/
inductive Notice where
  /-- Labels are about to be created. -/
  | creatingLabels (count : Nat)
  /-- Filters are about to be created. -/
  | creatingFilters (count : Nat)
  /-- Labels are about to be changed. -/
  | updatingLabels (count : Nat)
  /-- Filters are about to be deleted. -/
  | deletingFilters (count : Nat)
  /-- Labels are kept that could be deleted. -/
  | keepingLabels (count : Nat)
  /-- Labels are about to be deleted. -/
  | deletingLabels (count : Nat)
  /-- Some filters of the account are left out, as no config can say them. -/
  | ignoringFilters (e : ImportFailure)

/-- The text of a notice. -/
def Notice.message : Notice → String
  | .creatingLabels n => s!"Creating {n} label(s)"
  | .creatingFilters n => s!"Creating {n} filter(s)"
  | .updatingLabels n => s!"Updating {n} label(s)"
  | .deletingFilters n => s!"Deleting {n} filter(s)"
  | .keepingLabels n => s!"Keeping {n} label(s) not in the config"
  | .deletingLabels n => s!"Deleting {n} label(s)"
  | .ignoringFilters e =>
    s!"Ignoring {e.errors.length} filter(s) that could not be imported:\n{e.details}"

/-- An account, the requests that reached it, the failures ahead, and the notices given. -/
structure Session where
  /-- The account as it is now. -/
  account : Account := {}
  /-- The changing requests that reached the account, in order, those it refused included. -/
  requests : List Request := []
  /-- The failures that lie ahead. -/
  failures : List ExpectedFailure := []
  /-- The notices given so far. -/
  notices : List Notice := []

/-- What a request was sent for. -/
inductive RemoteCall where
  /-- The labels, or the filters, are listed. -/
  | listLabels | listFilters
  /-- A label is created. -/
  | createLabel (name : String)
  /-- The label of a name is changed. -/
  | updateLabel (name : String)
  /-- The label of an id is deleted. -/
  | deleteLabel (id : String)
  /-- The filter at a position of a batch is created. -/
  | createFilter (index : Nat)
  /-- The filter of an id is deleted. -/
  | deleteFilter (id : String)
  deriving DecidableEq

/-- The text of what a request was sent for. -/
def RemoteCall.message : RemoteCall → String
  | .listLabels => "listing labels"
  | .listFilters => "listing filters"
  | .createLabel n => "creating label \"" ++ n ++ "\""
  | .updateLabel n => "updating label \"" ++ n ++ "\""
  | .deleteLabel id => "deleting label \"" ++ id ++ "\""
  | .createFilter i => s!"creating filter #{i}"
  | .deleteFilter id => "deleting filter \"" ++ id ++ "\""

/-- Why work on an account stopped. -/
inductive SyncError where
  /-- A request failed. -/
  | remote (call : RemoteCall) (failure : HttpFailure)
  /-- A label cannot be changed, as its id is not known. -/
  | noLabelId (name : String)
  /-- Something stored has not the expected form. -/
  | malformed (problems : List Problem)
  /-- A filter has no stored form. -/
  | exporting (e : ExportError)
  /-- Stored filters were refused. -/
  | importing (e : ImportFailure)
  /-- The plan is not safe to carry out. -/
  | plan (e : PlanError)

/-- The text of the error.  Malformed documents are reported by their problems. -/
def SyncError.message : SyncError → String
  | .remote call f => call.message ++ ": " ++ f.message
  | .noLabelId n => "cannot update label \"" ++ n ++ "\" without ID"
  | .malformed ps => "\n".intercalate (problemReports ps)
  | .exporting e => e.message
  | .importing e => e.message
  | .plan e => e.message

/-- What is shown below the message. -/
def SyncError.details : SyncError → Option String
  | .exporting e => some e.filter.dump
  | .importing e => some e.details
  | _ => none

/-- Work in a session. -/
abbrev Client := ExceptT SyncError (StateM Session)

/-- The failures left after a request of a kind, and the failure that stops it, if one does. -/
def nextFailure (m : Method) :
    List ExpectedFailure → Option HttpFailure × List ExpectedFailure
  | [] => (none, [])
  | f :: fs =>
    if f.method = m then
      match f.after with
      | 0 => (some f.failure, fs)
      | n + 1 =>
        let (failure, rest) := nextFailure m fs
        (failure, { f with after := n } :: rest)
    else
      let (failure, rest) := nextFailure m fs
      (failure, f :: rest)

namespace Client

/-- Lets a request through, or stops it by a failure that is due. -/
def pass (m : Method) (call : RemoteCall) : Client Unit := do
  let s ← get
  let (failure, failures) := nextFailure m s.failures
  set { s with failures }
  match failure with
  | some f => throw (.remote call f)
  | none => pure ()

/-- Sends a request that changes the account. -/
def send (call : RemoteCall) (r : Request) : Client Unit := do
  pass r.method call
  let s ← get
  match s.account.perform r with
  | .ok account => set { s with account, requests := s.requests ++ [r] }
  | .error f =>
    set { s with requests := s.requests ++ [r] }
    throw (.remote call f)

/-- Gives a notice. -/
def notify (n : Notice) : Client Unit :=
  modify fun s => { s with notices := s.notices ++ [n] }

/-- Entries in their stored forms; the first that has none stops the work. -/
def readEntries {α : Type} (read : Value → Checked α) (es : List (Entry α)) :
    Client (List α) :=
  es.mapM fun e => match e.read read with
    | .ok a => pure a
    | .refused ps => throw (.malformed ps)

/-! ### Labels -/

/-- The labels of the user. -/
def listLabels : Client (List Label) := do
  pass .listLabels .listLabels
  let ls ← readEntries readRemoteLabel (← get).account.labels
  return ls.filterMap RemoteLabel.label?

/-- Adds labels. -/
def addLabels (ls : List Label) : Client Unit :=
  ls.forM fun l => send (.createLabel l.name) (.createLabel l.name l.color)

/-- Changes labels to what is given, by their ids. -/
def updateLabels (ls : List Label) : Client Unit :=
  ls.forM fun l =>
    if l.id = "" then throw (.noLabelId l.name)
    else send (.updateLabel l.name) (.patchLabel l.id l.name l.color)

/-- Deletes the labels of some ids. -/
def deleteLabels (ids : List String) : Client Unit :=
  ids.forM fun id => send (.deleteLabel id) (.deleteLabel id)

/-! ### Filters -/

/-- The filters of the account. -/
def listFilters : Client (List Filter) := do
  pass .listFilters .listFilters
  let rs ← readEntries readRemoteFilter (← get).account.filters
  let labels ← listLabels
  match importAll (.ofLabels labels) rs with
  | .ok fs => return fs
  | .error e => throw (.importing e)

/-- Creates filters, the first of which has the given position. -/
def createFiltersFrom (i : Nat) : List RemoteFilter → Client Unit
  | [] => pure ()
  | r :: rs => do
    send (.createFilter i) (.createFilter r.criteria r.action)
    createFiltersFrom (i + 1) rs

/-- Adds filters.  None is added if one of them applies a label that is not there. -/
def addFilters (fs : List Filter) : Client Unit := do
  let labels ← listLabels
  match exportAll (.ofLabels labels) fs with
  | .error e => throw (.exporting e)
  | .ok rs => createFiltersFrom 0 rs

/-- Deletes the filters of some ids. -/
def deleteFilters (ids : List String) : Client Unit :=
  ids.forM fun id => send (.deleteFilter id) (.deleteFilter id)

/-! ### The whole account -/

/-- What the account holds.  Filters that are refused are left out, unless there are no others. -/
def fetch : Client MailConfig := do
  let labels ← listLabels
  try
    return { labels, filters := ← listFilters }
  catch
    | .importing e =>
      if e.filters.isEmpty then throw (.importing e)
      else do
        notify (.ignoringFilters e)
        return { labels, filters := e.filters }
    | e => throw e

/-- What the account holds, if a config can say all of it. -/
def fetchAll : Client MailConfig := do
  let labels ← listLabels
  return { labels, filters := ← listFilters }

end Client

end MailRules
