import MailRules.Value.Basic
import MailRules.Decimal.Shortest
import MailRules.Text.Quoted

/-!
# Values spelled out

The spelling of a value inside a message: `None`, `True`, numbers, quoted texts, dates as
constructor calls, lists in brackets and mappings in braces.
-/

namespace MailRules

/-- Numbers as arguments of a call. -/
def callText (name : String) (args : List String) : String :=
  name ++ "(" ++ ", ".intercalate args ++ ")"

/-- The spelling of a duration: its days, and the seconds of a day. -/
def durationLiteral (seconds : Int) : String :=
  let days := Int.fdiv seconds 86400
  let rest := Int.fmod seconds 86400
  let parts := (if days = 0 then [] else ["days=" ++ toString days]) ++
    (if rest = 0 then [] else ["seconds=" ++ toString rest])
  callText "datetime.timedelta" (if parts.isEmpty then ["0"] else parts)

/-- The spelling of an offset from universal time. -/
def offsetLiteral (seconds : Int) : String :=
  if seconds = 0 then "datetime.timezone.utc"
  else callText "datetime.timezone" [durationLiteral seconds]

namespace Scalar

/-- The spelling of a scalar. -/
def literal : Scalar → String
  | .null => "None"
  | .bool b => if b then "True" else "False"
  | .int i => toString i
  | .float x => floatText x
  | .str s => quoted s
  | .date d => callText "datetime.date" [toString d.year, toString d.month, toString d.day]
  | .time t =>
    let sub := if t.micro ≠ 0 then [toString t.second, toString t.micro]
      else if t.second ≠ 0 then [toString t.second] else []
    let zone := match t.offset with
      | none => []
      | some s => ["tzinfo=" ++ offsetLiteral s]
    callText "datetime.datetime" ([toString t.date.year, toString t.date.month,
      toString t.date.day, toString t.hour, toString t.minute] ++ sub ++ zone)

end Scalar

namespace Value

mutual

/-- The spelling of a value. -/
def literal : Value → String
  | .scalar s => s.literal
  | .list xs => "[" ++ ", ".intercalate (literalItems xs) ++ "]"
  | .map ms => "\x7b" ++ ", ".intercalate (literalMembers ms) ++ "\x7d"

/-- The spellings of the items of a list. -/
def literalItems : List Value → List String
  | [] => []
  | x :: xs => x.literal :: literalItems xs

/-- The spellings of the members of a mapping. -/
def literalMembers : List (Scalar × Value) → List String
  | [] => []
  | (k, v) :: ms => (k.literal ++ ": " ++ v.literal) :: literalMembers ms

end

end Value

end MailRules
