import MailRules.Text.Lines

/-!
# Layout of queries

A query is shown over several lines, one term a line, with the content of a group indented.

* `layoutFrom` is what a scan over a query writes, and `layoutBreaks` whether it begins a line.
* `indentQuery` is the shown form; a query without blanks and groups stays on its line.
-/

namespace MailRules

/-- Where the scan stands: inside a term, before one (further blanks are dropped), or inside
quotation marks. -/
inductive LayoutState where
  /-- A term has begun, and a blank ends the line. -/
  | inTerm
  /-- No term has begun. -/
  | betweenTerms
  /-- Quotation marks are open. -/
  | inQuotes
  deriving DecidableEq

/-- A new line with its indentation; there is no indentation below zero. -/
def freshLine (level : Int) : List Char :=
  '\n' :: List.replicate (2 * level.toNat) ' '

/-- What the scan writes for a query.  A blank outside quotation marks ends a line; an opening
bracket begins a deeper line after it, and a closing one stands on a line of its own. -/
def layoutFrom (level : Int) : LayoutState → List Char → List Char
  | _, [] => []
  | .inQuotes, c :: rest => c :: layoutFrom level (if c = '"' then .inTerm else .inQuotes) rest
  | state, c :: rest =>
    if c = ' ' then
      if state = .betweenTerms then layoutFrom level .betweenTerms rest
      else freshLine level ++ layoutFrom level .betweenTerms rest
    else if c = '\x7b' || c = '(' then
      c :: (freshLine (level + 1) ++ layoutFrom (level + 1) .betweenTerms rest)
    else if c = '\x7d' || c = ')' then
      freshLine (level - 1) ++ c :: (freshLine (level - 1) ++
        layoutFrom (level - 1) .betweenTerms rest)
    else if c = ':' then c :: layoutFrom level .betweenTerms rest
    else if c = '"' then c :: layoutFrom level .inQuotes rest
    else c :: layoutFrom level .inTerm rest

/-- Whether the scan begins a new line anywhere. -/
def layoutBreaks : LayoutState → List Char → Bool
  | _, [] => false
  | .inQuotes, c :: rest => layoutBreaks (if c = '"' then .inTerm else .inQuotes) rest
  | state, c :: rest =>
    if c = ' ' then state ≠ .betweenTerms || layoutBreaks .betweenTerms rest
    else if c = '\x7b' || c = '(' || c = '\x7d' || c = ')' then true
    else if c = ':' then layoutBreaks .betweenTerms rest
    else if c = '"' then layoutBreaks .inQuotes rest
    else layoutBreaks .inTerm rest

/-- A query as it is shown at an indentation level: on lines of their own below the current one,
or unchanged if there is nothing to break at. -/
def indentQuery (query : String) (level : Int) : String :=
  let chars := query.toList
  if layoutBreaks .betweenTerms chars then
    let start := List.replicate (2 * (level + 1).toNat) ' '
    let shown := start ++ layoutFrom (level + 1) .betweenTerms chars
    String.ofList ('\n' :: trimEnd (fun c => c = '\n' || c = ' ') shown)
  else query

end MailRules
