import MailRules.Config.Checked
import MailRules.Label

/-!
# What an account stores

Filters and labels in the form in which a mail account stores and sends them.  A stored filter
does everything by ids of labels: besides the user's labels there are system labels, and adding or
removing one of those is what archiving, starring and the like come down to.

* `SystemLabel.id` is the fixed id of a system label.
* `RemoteFilter` and `RemoteLabel` are the stored forms; `readRemoteFilter` and `readRemoteLabel`
  read them from document values, whatever other members those have.
-/

namespace MailRules

/-! ### System labels -/

/-- The labels that every account has. -/
inductive SystemLabel where
  | inbox | spam | trash | unread | starred | important
  /-- The label of an inbox tab. -/
  | category (c : Category)
  deriving DecidableEq

namespace SystemLabel

/-- The id of a system label. -/
def id : SystemLabel → String
  | .inbox => "INBOX" | .spam => "SPAM" | .trash => "TRASH" | .unread => "UNREAD"
  | .starred => "STARRED" | .important => "IMPORTANT"
  | .category .personal => "CATEGORY_PERSONAL" | .category .social => "CATEGORY_SOCIAL"
  | .category .updates => "CATEGORY_UPDATES" | .category .forums => "CATEGORY_FORUMS"
  | .category .promotions => "CATEGORY_PROMOTIONS"

/-- All system labels. -/
def all : List SystemLabel :=
  [.inbox, .spam, .trash, .unread, .starred, .important] ++ Category.all.map .category

/-- The system label of an id. -/
def ofId? (id : String) : Option SystemLabel :=
  all.find? (·.id = id)

end SystemLabel

/-! ### Stored forms -/

/-- How a size is compared. -/
inductive SizeComparison where
  | larger | smaller
  deriving DecidableEq

/-- The written name of a comparison. -/
def SizeComparison.name : SizeComparison → String
  | .larger => "larger" | .smaller => "smaller"

/-- The comparison of a written name. -/
def SizeComparison.ofName? (s : String) : Option SizeComparison :=
  [.larger, .smaller].find? (·.name = s)

/-- Stored criteria. -/
structure RemoteCriteria where
  /-- Who the message is from. -/
  sender : Option String := none
  /-- Who the message is to. -/
  recipient : Option String := none
  /-- What the subject contains. -/
  subject : Option String := none
  /-- A search that finds the message. -/
  query : Option String := none
  /-- A search that does not find it. -/
  negatedQuery : Option String := none
  /-- Whether there is an attachment. -/
  hasAttachment : Option Bool := none
  /-- Whether chats are left out. -/
  excludeChats : Option Bool := none
  /-- A size in bytes. -/
  size : Option Int := none
  /-- Whether the message is larger or smaller than the size. -/
  sizeComparison : Option SizeComparison := none
  deriving DecidableEq, Inhabited

/-- A stored action: ids of labels to add and to remove, and an address to forward to. -/
structure RemoteAction where
  /-- The ids of the labels that are added. -/
  addLabelIds : List String := []
  /-- The ids of the labels that are removed. -/
  removeLabelIds : List String := []
  /-- The address that the message is forwarded to. -/
  forward : Option String := none
  deriving DecidableEq, Inhabited

/-- A stored filter. -/
structure RemoteFilter where
  /-- The id that the account gave. -/
  id : Option String := none
  /-- What the filter matches. -/
  criteria : RemoteCriteria := {}
  /-- What it does. -/
  action : RemoteAction := {}
  deriving DecidableEq, Inhabited

/-- Who made a label. -/
inductive LabelKind where
  | system | user
  deriving DecidableEq

/-- The kind of a written name. -/
def LabelKind.ofName? (s : String) : Option LabelKind :=
  if s = "system" then some .system else if s = "user" then some .user else none

/-- A stored label. -/
structure RemoteLabel where
  /-- The id that the account gave. -/
  id : String
  /-- The name, with those of the labels above it. -/
  name : String
  /-- Who made the label, if that is said. -/
  kind : Option LabelKind := none
  /-- The colors, if there are any. -/
  color : Option LabelColor := none
  deriving DecidableEq

/-- The label that a stored label is.  System labels are nobody's to manage. -/
def RemoteLabel.label? (l : RemoteLabel) : Option Label :=
  if l.kind = some .system then none else some { name := l.name, color := l.color, id := l.id }

/-! ### Reading stored forms -/

/-- Stored colors. -/
def readRemoteColor : Value → Checked LabelColor :=
  readObject fun ms =>
    ((required ms ["backgroundColor", "background_color"] readText).map LabelColor.mk).ap
      (required ms ["textColor", "text_color"] readText)

/-- A stored label. -/
def readRemoteLabel : Value → Checked RemoteLabel :=
  readObject fun ms =>
    ((((required ms ["id"] readText).map RemoteLabel.mk).ap
      (required ms ["name"] readText)).ap
      (optional ms ["type"] (readChoice LabelKind.ofName?))).ap
      (optional ms ["color"] readRemoteColor)

/-- Stored criteria. -/
def readRemoteCriteria : Value → Checked RemoteCriteria :=
  readObject fun ms =>
    (((((((((optional ms ["from", "from_"] readText).map RemoteCriteria.mk).ap
      (optional ms ["to"] readText)).ap
      (optional ms ["subject"] readText)).ap
      (optional ms ["query"] readText)).ap
      (optional ms ["negatedQuery", "negated_query"] readText)).ap
      (optional ms ["hasAttachment", "has_attachment"] readFlag)).ap
      (optional ms ["excludeChats", "exclude_chats"] readFlag)).ap
      (optional ms ["size"] readInteger)).ap
      (optional ms ["sizeComparison", "size_comparison"] (readChoice SizeComparison.ofName?))

/-- A stored action. -/
def readRemoteAction : Value → Checked RemoteAction :=
  readObject fun ms =>
    (((defaulted ms ["addLabelIds", "add_label_ids"] [] (readList readText)).map
      RemoteAction.mk).ap
      (defaulted ms ["removeLabelIds", "remove_label_ids"] [] (readList readText))).ap
      (optional ms ["forward"] readText)

/-- A stored filter. -/
def readRemoteFilter : Value → Checked RemoteFilter :=
  readObject fun ms =>
    (((optional ms ["id"] readText).map RemoteFilter.mk).ap
      (defaulted ms ["criteria"] {} readRemoteCriteria)).ap
      (defaulted ms ["action"] {} readRemoteAction)

/-! ### Names and ids -/

/-- The names and ids of labels, the latest added first. -/
structure LabelMap where
  /-- Each name with its id. -/
  entries : List (String × String) := []

namespace LabelMap

/-- Adds a label.  Its name and its id stand for each other from then on. -/
def add (m : LabelMap) (id name : String) : LabelMap :=
  ⟨(id, name) :: m.entries⟩

/-- The id of a name. -/
def id? (m : LabelMap) (name : String) : Option String :=
  (m.entries.find? (·.2 = name)).map (·.1)

/-- The name of an id. -/
def name? (m : LabelMap) (id : String) : Option String :=
  (m.entries.find? (·.1 = id)).map (·.2)

/-- The names and ids of some labels. -/
def ofLabels (ls : List Label) : LabelMap :=
  ls.foldl (fun m l => m.add l.id l.name) {}

end LabelMap

end MailRules
