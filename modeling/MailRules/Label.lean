import MailRules.Config.Basic

/-!
# Labels

A label as it exists, or will exist, in an account.  A name with slashes places a label below
others.

* `Label.describe` is the form that a user reviews.
* `Label.validateAll` refuses names that an account cannot hold.
* `Label.satisfies` says when a label of the account needs no change.
-/

namespace MailRules

/-- A label.  The id is empty for a label that no account holds yet. -/
structure Label where
  /-- The name, with those of the labels above it before slashes. -/
  name : String
  /-- The colors, if there are any. -/
  color : Option LabelColor := none
  /-- The id that the account gave; empty if there is none. -/
  id : String := ""
  deriving DecidableEq, Inhabited

/-- Why labels are refused. -/
inductive LabelError where
  /-- A label has no name. -/
  | unnamed
  /-- A name begins with a slash. -/
  | slashAtStart (name : String)
  /-- A name ends with a slash. -/
  | slashAtEnd (name : String)
  /-- Two labels have one name. -/
  | repeated (name : String)
  deriving DecidableEq

/-- The text of the error. -/
def LabelError.message : LabelError → String
  | .unnamed => "invalid label without a name"
  | .slashAtStart n => "label \"" ++ n ++ "\" shouldn't start with /"
  | .slashAtEnd n => "label \"" ++ n ++ "\" shouldn't end with /"
  | .repeated n => "label \"" ++ n ++ "\" provided multiple times"

namespace Label

/-- A label as it is reviewed: its name, its id if it has one, and its colors. -/
def describe (l : Label) : String :=
  (if l.id = "" then l.name else l.name ++ " [" ++ l.id ++ "]") ++
    match l.color with
    | some c => "; color: " ++ c.background ++ ", " ++ c.text
    | none => ""

/-- What is wrong with a label, given the names of those before it. -/
def fault? (seen : List String) (l : Label) : Option LabelError :=
  if l.name = "" then some .unnamed
  else if l.name.toList.head? = some '/' then some (.slashAtStart l.name)
  else if l.name.toList.getLast? = some '/' then some (.slashAtEnd l.name)
  else if seen.contains l.name then some (.repeated l.name)
  else none

/-- The first fault of labels that follow others of the given names. -/
def validateAfter (seen : List String) : List Label → Except LabelError Unit
  | [] => .ok ()
  | l :: ls => match l.fault? seen with
    | some e => .error e
    | none => validateAfter (l.name :: seen) ls

/-- Refuses labels without a name, with a slash at an end of the name, and repeated names. -/
def validateAll (ls : List Label) : Except LabelError Unit :=
  validateAfter [] ls

/-- Whether a label of the account is as it is declared.  A declaration without a color accepts
any. -/
def satisfies (existing declared : Label) : Bool :=
  existing.name = declared.name && (declared.color.isNone || existing.color = declared.color)

/-- The label of a declaration. -/
def ofDecl (l : LabelDecl) : Label :=
  { name := l.name, color := l.color }

end Label

end MailRules
