import MailRules.Text.Lines
import MailRules.Text.Printable

/-!
# Quoted texts

A text is quoted by a pair of marks, single ones unless it contains a single mark and no double
one.  A backslash stands before the mark and before itself; line feed, carriage return and tab
are written `\n`, `\r` and `\t`; any other character that is not printable is written by its
code point, in two, four or eight digits.
-/

namespace MailRules

/-- The mark that a text is quoted by. -/
def quoteMark (s : List Char) : Char :=
  if s.contains '\'' && !s.contains '"' then '"' else '\''

/-- A character inside marks. -/
def escapeChar (mark c : Char) : List Char :=
  if c = mark ∨ c = '\\' then ['\\', c]
  else if c = '\n' then ['\\', 'n']
  else if c = '\r' then ['\\', 'r']
  else if c = '\t' then ['\\', 't']
  else if isPrintable c then [c]
  else if c.toNat < 0x100 then '\\' :: 'x' :: hexDigits false 2 c.toNat
  else if c.toNat < 0x10000 then '\\' :: 'u' :: hexDigits false 4 c.toNat
  else '\\' :: 'U' :: hexDigits false 8 c.toNat

/-- A text in quotation marks. -/
def quotedChars (s : List Char) : List Char :=
  let mark := quoteMark s
  mark :: (s.flatMap (escapeChar mark) ++ [mark])

/-- A text in quotation marks. -/
def quoted (s : String) : String :=
  String.ofList (quotedChars s.toList)

end MailRules
