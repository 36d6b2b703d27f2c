import MailRules.Account.Resource

/-!
# Accounts

A mail account with its labels and filters, and what a request does to it.

* An `Entry` is a stored form, or a document that may fail to be one.
* `Account.perform` is the account after a request: creating stores what is sent under a new id,
  patching overwrites the given members, deleting removes by id.
* An account may refuse a name for a new label, as one that is taken (`nameTaken`), and nothing can
  be done to an id that is not there.
-/

namespace MailRules

/-! ### Entries -/

/-- Something stored in an account, in the expected form or as a document. -/
inductive Entry (α : Type) where
  /-- A stored form. -/
  | stored (a : α)
  /-- A document that need not be one. -/
  | document (v : Value)

/-- A stored label. -/
abbrev LabelEntry := Entry RemoteLabel
/-- A stored filter. -/
abbrev FilterEntry := Entry RemoteFilter

/-- An entry of a document: in the expected form, if the document can be read. -/
def Entry.ofDocument {α : Type} (read : Value → Checked α) (v : Value) : Entry α :=
  match read v with
  | .ok a => .stored a
  | .refused _ => .document v

/-- A member of an entry's document. -/
def documentMember (v : Value) (name : String) : Value :=
  (v.get? name).getD .null

namespace Entry

/-- The stored form of an entry. -/
def read {α : Type} (readDocument : Value → Checked α) : Entry α → Checked α
  | .stored a => .ok a
  | .document v => readDocument v

/-- The id of a label. -/
def labelId : LabelEntry → Value
  | .stored l => .str l.id
  | .document v => documentMember v "id"

/-- The name of a label. -/
def labelName : LabelEntry → Value
  | .stored l => .str l.name
  | .document v => documentMember v "name"

/-- The id of a filter. -/
def filterId : FilterEntry → Value
  | .stored f => (f.id.map Value.str).getD .null
  | .document v => documentMember v "id"

/-- A label with another name, and with other colors if some are given. -/
def patchLabel (name : String) (color : Option LabelColor) : LabelEntry → LabelEntry
  | .stored l => .stored { l with name, color := color.orElse fun _ => l.color }
  | .document (.map ms) =>
    let ms := Value.putMember (.str "name") (.str name) ms
    .document (.map (match color with
      | none => ms
      | some c => Value.putMember (.str "color") (.object [("backgroundColor", .str c.background),
          ("textColor", .str c.text)]) ms))
  | .document v => .document v

end Entry

/-- Whether a value is the given text. -/
def Value.isText (s : String) : Value → Bool
  | .scalar (.str t) => t = s
  | _ => false

/-! ### Requests -/

/-- A request that changes an account. -/
inductive Request where
  /-- A label is created under a name. -/
  | createLabel (name : String) (color : Option LabelColor)
  /-- The label of an id is given a name, and colors if some are given. -/
  | patchLabel (id name : String) (color : Option LabelColor)
  /-- The label of an id is deleted. -/
  | deleteLabel (id : String)
  /-- A filter is created. -/
  | createFilter (criteria : RemoteCriteria) (action : RemoteAction)
  /-- The filter of an id is deleted. -/
  | deleteFilter (id : String)
  deriving DecidableEq

/-- How an account refuses a request. -/
structure HttpFailure where
  /-- The status code. -/
  status : Int
  /-- The status in words. -/
  reason : String
  deriving DecidableEq

/-- The text of the failure. -/
def HttpFailure.message (f : HttpFailure) : String :=
  s!"<HttpError {f.status} \"{f.reason}\">"

/-- Nothing has the id of a request. -/
def HttpFailure.notFound : HttpFailure := ⟨404, "Not Found"⟩
/-- A name is taken. -/
def HttpFailure.conflict : HttpFailure := ⟨409, "Conflict"⟩

/-- The ids that an account gives, by how many it has given before. -/
structure IdSupply where
  /-- The id of a new label. -/
  label : Nat → String := fun n => "NL" ++ toString (n + 1)
  /-- The id of a new filter. -/
  filter : Nat → String := fun n => "NF" ++ toString (n + 1)

/-- Whether one of some labels has a name. -/
def nameTaken (ls : List LabelEntry) (name : String) : Bool :=
  ls.any (·.labelName.isText name)

/-- An account. -/
structure Account where
  /-- The labels, those of the system included. -/
  labels : List LabelEntry := []
  /-- The filters. -/
  filters : List FilterEntry := []
  /-- The ids for new labels and filters. -/
  ids : IdSupply := {}
  /-- Whether a name is refused for a new label, given the labels that are there. -/
  refusesName : List LabelEntry → String → Bool := nameTaken
  /-- How many labels have been created. -/
  createdLabels : Nat := 0
  /-- How many filters have been created. -/
  createdFilters : Nat := 0

/-- A list with the first item of a kind changed, if there is one. -/
def changeFirst? {α : Type} (p : α → Bool) (f : α → α) : List α → Option (List α)
  | [] => none
  | x :: xs => if p x then some (f x :: xs) else (changeFirst? p f xs).map (x :: ·)

/-- A list without the first item of a kind, if there is one. -/
def removeFirst? {α : Type} (p : α → Bool) : List α → Option (List α)
  | [] => none
  | x :: xs => if p x then some xs else (removeFirst? p xs).map (x :: ·)

namespace Account

/-- The account after a request. -/
def perform (a : Account) : Request → Except HttpFailure Account
  | .createLabel name color =>
    if a.refusesName a.labels name then .error .conflict
    else .ok { a with
      labels := a.labels ++ [.stored { id := a.ids.label a.createdLabels, name, color }]
      createdLabels := a.createdLabels + 1 }
  | .patchLabel id name color =>
    match changeFirst? (·.labelId.isText id) (Entry.patchLabel name color) a.labels with
    | some labels => .ok { a with labels }
    | none => .error .notFound
  | .deleteLabel id =>
    match removeFirst? (·.labelId.isText id) a.labels with
    | some labels => .ok { a with labels }
    | none => .error .notFound
  | .createFilter criteria action =>
    .ok { a with
      filters := a.filters ++
        [.stored { id := some (a.ids.filter a.createdFilters), criteria, action }]
      createdFilters := a.createdFilters + 1 }
  | .deleteFilter id =>
    match removeFirst? (·.filterId.isText id) a.filters with
    | some filters => .ok { a with filters }
    | none => .error .notFound

end Account

end MailRules
