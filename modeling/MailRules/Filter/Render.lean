import MailRules.Filter.Basic
import MailRules.Filter.Layout
import MailRules.Text.FormEncoding
import MailRules.Text.Quoted
import MailRules.Digest.Sha256

/-!
# Filters as texts

* `Criteria.search` is the search that finds what the criteria match, `Criteria.searchAddress`
  the page that shows it.
* `Filter.render` is the form that a user reviews; `renderAll` puts several one after the other.
* `Filter.contentText` spells out the content of a filter field by field, and `Filter.digest`
  identifies the content by the digest of that text.
-/

namespace MailRules

/-! ### Searches -/

namespace Criteria

/-- The search that finds what the criteria match. -/
def search (c : Criteria) : String :=
  let slot := fun (operator value : String) => if value = "" then [] else [operator ++ value]
  " ".intercalate (slot "from:" c.sender ++ slot "to:" c.recipient ++ slot "subject:" c.subject ++
    slot "" c.query)

/-- The page that shows what the criteria match. -/
def searchAddress (c : Criteria) : String :=
  "https://mail.google.com/mail/u/0/#search/" ++ formEncoded c.search

end Criteria

/-! ### Review -/

/-- A line for a value, absent if the value is empty. -/
def valueLine (name value : String) : String :=
  if value = "" then "" else "    " ++ name ++ ": " ++ value ++ "\n"

/-- A line for a flag, absent if it is not set. -/
def flagLine (name : String) (value : Bool) : String :=
  if value then "    " ++ name ++ "\n" else ""

namespace Filter

/-- A filter as it is reviewed. -/
def render (f : Filter) : String :=
  let a := f.action
  String.join [
    "* Criteria:\n",
    valueLine "from" f.criteria.sender,
    valueLine "to" f.criteria.recipient,
    valueLine "subject" f.criteria.subject,
    valueLine "query" (indentQuery f.criteria.query 2),
    "  Actions:\n",
    flagLine "archive" a.archive,
    flagLine "delete" a.delete,
    flagLine "mark as important" a.markImportant,
    flagLine "never mark as important" a.markNotImportant,
    flagLine "never mark as spam" a.markNotSpam,
    flagLine "mark as read" a.markRead,
    flagLine "star" a.star,
    valueLine "categorize as" ((a.category.map Category.name).getD ""),
    valueLine "apply label" a.addLabel,
    valueLine "forward to" a.forward]

/-- A filter as it is reviewed, after the search it stands for. -/
def renderWithSearch (f : Filter) : String :=
  "# Search: " ++ f.criteria.search ++ "\n# URL: " ++ f.criteria.searchAddress ++ "\n" ++ f.render

/-- Filters one after the other, with an empty line between them. -/
def renderAll (withSearch : Bool) (fs : List Filter) : String :=
  "\n".intercalate (fs.map fun f => if withSearch then f.renderWithSearch else f.render)

/-! ### Content -/

/-- The spelling of a flag. -/
def flagText (b : Bool) : String :=
  if b then "True" else "False"

/-- The spelling of a category. -/
def categoryText : Option Category → String
  | none => "None"
  | some c => "<Category." ++ c.name.toUpper ++ ": '" ++ c.name ++ "'>"

/-- The content of a filter, field by field, with its texts in quotation marks. -/
def contentText (f : Filter) : String :=
  let c := f.criteria
  let a := f.action
  String.join [
    "(FilterCriteria(from_=", quoted c.sender, ", to=", quoted c.recipient, ", subject=",
    quoted c.subject, ", query=", quoted c.query, "), FilterActions(add_label=",
    quoted a.addLabel, ", category=", categoryText a.category, ", archive=", flagText a.archive,
    ", delete=", flagText a.delete, ", mark_important=", flagText a.markImportant,
    ", mark_not_important=", flagText a.markNotImportant, ", mark_read=", flagText a.markRead,
    ", mark_not_spam=", flagText a.markNotSpam, ", star=", flagText a.star, ", forward=",
    quoted a.forward, "))"]

/-- The digest that identifies the content of a filter. -/
def digest (f : Filter) : String :=
  sha256Hex f.contentText

end Filter

end MailRules
