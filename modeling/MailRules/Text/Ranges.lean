/-!
# Sets of characters given by ranges

`CharRanges` is a set of characters as a list of closed ranges of code points, for the tables of
character properties.
-/

namespace MailRules

/-- A set of characters, as closed ranges of code points. -/
abbrev CharRanges := List (Nat × Nat)

/-- Whether a character lies in one of the ranges. -/
def CharRanges.contains (rs : CharRanges) (c : Char) : Bool :=
  rs.any fun r => r.1 ≤ c.toNat && c.toNat ≤ r.2

end MailRules
