/-!
# Lines

A text is divided into lines at every line boundary that Unicode knows: line feed, carriage
return (with a line feed after it, one boundary), vertical tab, form feed, the separators
`1c` to `1e`, next line, and the line and paragraph separators.

* `linesKeeping` divides a text and leaves the boundaries at the ends of the lines.
* `splitAtChar` divides at one character and leaves it out.
-/

namespace MailRules

/-- Whether a character ends a line. -/
def isLineEnd (c : Char) : Bool :=
  c = '\n' || c = '\r' || c = '\x0b' || c = '\x0c' || c = '\x1c' || c = '\x1d' || c = '\x1e' ||
    c = '\u0085' || c = '\u2028' || c = '\u2029'

/-- The lines of a text with their boundaries; a text that ends in a boundary has no line after
it. -/
def linesKeeping : List Char → List (List Char)
  | [] => []
  | '\r' :: '\n' :: rest => ['\r', '\n'] :: linesKeeping rest
  | c :: rest =>
    if isLineEnd c then [c] :: linesKeeping rest
    else match linesKeeping rest with
      | [] => [[c]]
      | l :: ls => (c :: l) :: ls

/-- The lines of a text with their boundaries, as texts. -/
def textLines (s : String) : List String :=
  (linesKeeping s.toList).map String.ofList

/-- The parts of a text between the occurrences of a character. -/
def splitAtChar (sep : Char) : List Char → List (List Char)
  | [] => [[]]
  | c :: rest =>
    if c = sep then [] :: splitAtChar sep rest
    else match splitAtChar sep rest with
      | [] => [[c]]
      | p :: ps => (c :: p) :: ps

/-- A text without the given characters at its end. -/
def trimEnd (drop : Char → Bool) (s : List Char) : List Char :=
  (s.reverse.dropWhile drop).reverse

/-- The number in decimal digits, with zeros before it up to the given width. -/
def padded (width n : Nat) : String :=
  let digits := toString n
  String.ofList (List.replicate (width - digits.length) '0') ++ digits

/-- A number in base sixteen, with zeros before it up to the given width. -/
def hexDigits (upper : Bool) (width n : Nat) : List Char :=
  let digits := Nat.toDigits 16 n
  List.replicate (width - digits.length) '0' ++ if upper then digits.map Char.toUpper else digits

end MailRules
