/-!
# Filters

A filter as it exists, or will exist, in a mail account: criteria in four slots, an action, and
the id the account gave it.

* `Criteria` and `Action` hold what a filter matches and does; an empty text is an unset one.
* `Filter.same` compares filters by content, that is, without their ids.
-/

namespace MailRules

/-- The inbox tab a message is sorted under. -/
inductive Category where
  | personal | social | updates | forums | promotions
  deriving DecidableEq, Inhabited

namespace Category

/-- All categories. -/
def all : List Category := [.personal, .social, .updates, .forums, .promotions]

/-- The written name of a category. -/
def name : Category → String
  | .personal => "personal" | .social => "social" | .updates => "updates"
  | .forums => "forums" | .promotions => "promotions"

/-- The category of a written name. -/
def ofName? (s : String) : Option Category :=
  all.find? (·.name = s)

end Category

/-- What a filter matches.  A message has to match every slot that is set. -/
structure Criteria where
  /-- Who the message is from, as search terms. -/
  sender : String := ""
  /-- Who the message is to, as search terms. -/
  recipient : String := ""
  /-- What the subject contains, as search terms. -/
  subject : String := ""
  /-- All else, as search terms with their operators. -/
  query : String := ""
  deriving DecidableEq, Inhabited

/-- Whether no slot is set. -/
def Criteria.isEmpty (c : Criteria) : Bool :=
  c = {}

/-- What a filter does with a message. -/
structure Action where
  /-- The name of the label that is added; empty for none. -/
  addLabel : String := ""
  /-- The inbox tab. -/
  category : Option Category := none
  /-- Whether the message skips the inbox. -/
  archive : Bool := false
  /-- Whether it is deleted. -/
  delete : Bool := false
  /-- Whether it is marked as important. -/
  markImportant : Bool := false
  /-- Whether it is never marked as important. -/
  markNotImportant : Bool := false
  /-- Whether it is marked as read. -/
  markRead : Bool := false
  /-- Whether it is never sent to spam. -/
  markNotSpam : Bool := false
  /-- Whether it is starred. -/
  star : Bool := false
  /-- The address it is forwarded to; empty for none. -/
  forward : String := ""
  deriving DecidableEq, Inhabited

/-- Whether an action does nothing. -/
def Action.isEmpty (a : Action) : Bool :=
  a = {}

/-- A filter.  The id is empty for a filter that no account holds yet. -/
structure Filter where
  /-- What the filter matches. -/
  criteria : Criteria := {}
  /-- What it does. -/
  action : Action := {}
  /-- The id that the account gave; empty if there is none. -/
  id : String := ""
  deriving DecidableEq, Inhabited

namespace Filter

/-- Whether two filters match and do the same, whatever their ids. -/
def same (f g : Filter) : Bool :=
  f.criteria = g.criteria && f.action = g.action

/-- Whether a filter applies the label of the given name. -/
def hasLabel (f : Filter) (name : String) : Bool :=
  f.action.addLabel = name

/-- Whether two lists hold filters of the same content in the same order. -/
def sameAll : List Filter → List Filter → Bool
  | [], [] => true
  | f :: fs, g :: gs => f.same g && sameAll fs gs
  | _, _ => false

end Filter

end MailRules
