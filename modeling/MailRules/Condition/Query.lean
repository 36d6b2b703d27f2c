import MailRules.Condition.Basic
import MailRules.Filter.Basic

/-!
# Conditions in search notation

A condition is written as the criteria of a filter: matches on sender, recipient and subject go
to slots of their own, everything else to the query slot.  In a query, `(a b)` asks for both
terms, braces instead of parentheses for at least one of them, and `-a` for messages without `a`.

* `quoteArg` protects an argument that would otherwise be read as several terms.
* `Condition.query` is the search expression of a whole condition.
* `Condition.criteria` distributes a condition over the slots.
-/

namespace MailRules

/-- Why a condition has no search notation. -/
inductive QueryError where
  /-- A negation of none or several conditions. -/
  | negationArity (count : Nat)
  /-- A node without an operation. -/
  | unknownOperation
  /-- Several arguments that nothing combines. -/
  | ungroupable
  deriving DecidableEq

/-- The text of the error. -/
def QueryError.message : QueryError → String
  | .negationArity n => s!"after 'not' got {n} children, expected 1"
  | .unknownOperation => "unknown node operation <Operation.NONE: 0>"
  | .ungroupable => s!"cannot group by operation {Operation.unset.name}"

/-! ### Arguments -/

/-- The characters that end a search term or group terms. -/
def isTermBreak (c : Char) : Bool :=
  c = ' ' || c = '\t' || c = '\x7b' || c = '\x7d' || c = '(' || c = ')'

/-- Whether a text begins and ends with a quotation mark (possibly the same one). -/
def isQuoted (s : List Char) : Bool :=
  s.head? = some '"' && s.getLast? = some '"'

/-- Whether an argument has to be quoted: it contains a term break, or a plus sign outside of an
address, unless it is quoted already. -/
def needsQuotes (s : List Char) : Bool :=
  !isQuoted s && (s.any isTermBreak || (s.contains '+' && !s.contains '@'))

/-- An argument as one search term. -/
def quoteArg (s : String) : String :=
  if needsQuotes s.toList then "\"" ++ s ++ "\"" else s

/-! ### Groups -/

/-- A list of terms as one term. -/
def groupTerms (query : String) : Operation → Except QueryError String
  | .or => .ok ("\x7b" ++ query ++ "\x7d")
  | .and => .ok ("(" ++ query ++ ")")
  | .not => .ok ("-" ++ query)
  | .unset => .error .ungroupable

/-- Terms in a row; a node without terms has none. -/
def joinTerms (terms : List String) : String :=
  " ".intercalate (terms.filter (· ≠ ""))

namespace Leaf

/-- The arguments of a leaf as search terms. -/
def terms (l : Leaf) : List String :=
  if l.field = .query || l.raw then l.args else l.args.map quoteArg

/-- The arguments of a leaf as one term, which is a group if there are several. -/
def argText (l : Leaf) : Except QueryError String :=
  let text := " ".intercalate l.terms
  if l.args.length > 1 then groupTerms text l.grouping else .ok text

/-- A leaf as a search expression. -/
def query (l : Leaf) : Except QueryError String := do
  let text ← l.argText
  return if l.field.isBare then text else l.field.name ++ ":" ++ text

/-- The criteria of a leaf alone. -/
def criteria (l : Leaf) : Except QueryError Criteria := do
  match l.field with
  | .sender => return { sender := ← l.argText }
  | .recipient => return { recipient := ← l.argText }
  | .subject => return { subject := ← l.argText }
  | _ => return { query := ← l.query }

end Leaf

/-! ### Conditions -/

/-- Two terms in a row, either of which may be absent. -/
def joinTwo (a b : String) : String :=
  if a = "" then b else if b = "" then a else a ++ " " ++ b

/-- The criteria that ask for both. -/
def Criteria.join (a b : Criteria) : Criteria where
  sender := joinTwo a.sender b.sender
  recipient := joinTwo a.recipient b.recipient
  subject := joinTwo a.subject b.subject
  query := joinTwo a.query b.query

namespace Condition

mutual

/-- A condition as one search expression. -/
def query : Condition → Except QueryError String
  | .leaf l => l.query
  | .node op cs => do groupTerms (joinTerms (← queryAll cs)) op

/-- The search expressions of a list of conditions. -/
def queryAll : List Condition → Except QueryError (List String)
  | [] => .ok []
  | c :: cs => return (← c.query) :: (← queryAll cs)

end

mutual

/-- The criteria of a condition.  Only an outer "and" is spread over several slots. -/
def criteria : Condition → Except QueryError Criteria
  | .leaf l => l.criteria
  | .node .or cs => return { query := "\x7b" ++ joinTerms (← queryAll cs) ++ "\x7d" }
  | .node .and cs => return (← criteriaAll cs).foldl Criteria.join {}
  | .node .not [c] => return { query := "-" ++ (← c.query) }
  | .node .not cs => .error (.negationArity cs.length)
  | .node .unset _ => .error .unknownOperation

/-- The criteria of each condition of a list. -/
def criteriaAll : List Condition → Except QueryError (List Criteria)
  | [] => .ok []
  | c :: cs => return (← c.criteria) :: (← criteriaAll cs)

end

end Condition

end MailRules
