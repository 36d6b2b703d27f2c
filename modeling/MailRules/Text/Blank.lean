import MailRules.Text.Lines

/-!
# Blanks

The characters of the Unicode property `White_Space`.

* `trimmed` is a text without blanks at its ends.
-/

namespace MailRules

/-- Whether a character is a blank. -/
def isBlank (c : Char) : Bool :=
  ('\t' ≤ c && c ≤ '\r') || c = ' ' || c = '\u0085' || c = '\u00a0' || c = '\u1680' ||
    ('\u2000' ≤ c && c ≤ '\u200a') || c = '\u2028' || c = '\u2029' || c = '\u202f' ||
    c = '\u205f' || c = '\u3000'

/-- A text without blanks at its ends. -/
def trimmed (s : List Char) : List Char :=
  trimEnd isBlank (s.dropWhile isBlank)

end MailRules
