import MailRules.Jsonnet.Expr
import MailRules.Yaml.Plain

/-!
# The words of a Jsonnet text

* `tokens?` divides a text into words; comments and blanks separate them.
* Texts stand between single or double marks, after `@` without escapes, or between triple bars
  over several lines.
-/

namespace MailRules

namespace Jsonnet

/-- The characters that operators are made of. -/
def isOperatorChar (c : Char) : Bool :=
  "!$:~+-&|^=<>*/%".toList.contains c

/-- The operator at the beginning of a text: as many characters as possible, but it does not run
into a comment or a text block, and does not end in a sign of its own unless it is that sign. -/
def operatorAt (cs : List Char) : List Char :=
  let run := upToComment (cs.takeWhile isOperatorChar)
  let trimmed := run.take 1 ++ trimSigns (run.drop 1)
  trimmed
where
  upToComment : List Char → List Char
    | [] => []
    | '/' :: '/' :: _ => []
    | '/' :: '*' :: _ => []
    | '|' :: '|' :: '|' :: _ => []
    | c :: cs => c :: upToComment cs
  trimSigns (cs : List Char) : List Char :=
    (cs.reverse.dropWhile fun c => c = '+' || c = '-' || c = '~' || c = '!' || c = '$').reverse

/-- What follows a comment up to its closing mark. -/
def afterComment : List Char → Option (List Char)
  | '*' :: '/' :: cs => some cs
  | _ :: cs => afterComment cs
  | [] => none

/-- The value of four hexadecimal digits. -/
def unit? (a b c d : Char) : Option Nat :=
  Yaml.number? 16 [a, b, c, d]

/-- The content of a text up to its mark, and what follows. -/
def quotedText (mark : Char) : List Char → Option (List Char × List Char)
  | [] => none
  | '\\' :: 'u' :: a :: b :: c :: d :: '\\' :: 'u' :: e :: f :: g :: h :: cs => do
    let high ← unit? a b c d
    let low ← unit? e f g h
    if 0xd800 ≤ high && high < 0xdc00 && 0xdc00 ≤ low && low < 0xe000 then
      let (text, rest) ← quotedText mark cs
      return (Char.ofNat (0x10000 + (high - 0xd800) * 0x400 + (low - 0xdc00)) :: text, rest)
    else
      let (text, rest) ← quotedText mark ('\\' :: 'u' :: e :: f :: g :: h :: cs)
      return (Char.ofNat high :: text, rest)
  | '\\' :: 'u' :: a :: b :: c :: d :: cs => do
    let code ← unit? a b c d
    let (text, rest) ← quotedText mark cs
    return (Char.ofNat code :: text, rest)
  | '\\' :: c :: cs => do
    let known := [('"', '"'), ('\'', '\''), ('\\', '\\'), ('/', '/'), ('b', '\x08'),
      ('f', '\x0c'), ('n', '\n'), ('r', '\r'), ('t', '\t')]
    let e ← known.find? (·.1 = c)
    let (text, rest) ← quotedText mark cs
    return (e.2 :: text, rest)
  | c :: cs =>
    if c = mark then some ([], cs)
    else do
      let (text, rest) ← quotedText mark cs
      return (c :: text, rest)

/-- The content of a text without escapes, in which the mark is written twice. -/
def verbatimText (mark : Char) : List Char → Option (List Char × List Char)
  | [] => none
  | [c] => if c = mark then some ([], []) else none
  | c :: d :: cs =>
    if c = mark then
      if d = mark then do
        let (text, rest) ← verbatimText mark cs
        return (mark :: text, rest)
      else some ([], d :: cs)
    else do
      let (text, rest) ← verbatimText mark (d :: cs)
      return (c :: text, rest)

/-- A line and what follows its line feed. -/
def lineOf (cs : List Char) : List Char × List Char :=
  (cs.takeWhile (· ≠ '\n'), (cs.dropWhile (· ≠ '\n')).drop 1)

/-- The lines of a text block with the given indentation, up to the mark that ends it. -/
def blockLines (indent : List Char) : Nat → List Char → Option (List Char × List Char)
  | 0, _ => none
  | fuel + 1, cs =>
    let (line, rest) := lineOf cs
    if cs.isEmpty then none
    else if line.isEmpty then do
      let (text, rest) ← blockLines indent fuel rest
      return ('\n' :: text, rest)
    else if line.take indent.length = indent then do
      let (text, rest) ← blockLines indent fuel rest
      return (line.drop indent.length ++ '\n' :: text, rest)
    else
      let inner := cs.dropWhile fun c => c = ' ' || c = '\t'
      if inner.take 3 = ['|', '|', '|'] then some ([], inner.drop 3) else none

/-- A text block, from the line behind its mark on. -/
def blockText (cs : List Char) : Option (List Char × List Char) :=
  let (head, rest) := lineOf cs
  if head.all fun c => c = ' ' || c = '\t' || c = '\r' then
    let first := rest.dropWhile (· = '\n')
    let indent := first.takeWhile fun c => c = ' ' || c = '\t'
    if indent.isEmpty then none else blockLines indent (cs.length + 1) rest
  else none

/-- The number at the beginning of a text. -/
def numberAt (cs : List Char) : List Char :=
  let (whole, rest) := Yaml.spanDigits cs
  let (fraction, rest) := match rest with
    | '.' :: cs =>
      let (digits, after) := Yaml.spanDigits cs
      if digits.isEmpty then ([], rest) else ('.' :: digits, after)
    | cs => ([], cs)
  let exponent := match rest with
    | e :: cs =>
      if e = 'e' || e = 'E' then
        let sign := match cs with
          | '+' :: _ => ['+']
          | '-' :: _ => ['-']
          | _ => []
        let digits := (cs.drop sign.length).takeWhile Char.isDigit
        if digits.isEmpty then [] else e :: sign ++ digits
      else []
    | [] => []
  whole ++ fraction ++ exponent

/-- The first word of a text and what follows it; blanks and comments give no word. -/
def tokenAt (cs : List Char) : Option (Option Token × List Char) :=
  let isNameChar := fun c : Char => c.isAlphanum || c = '_'
  match cs with
  | [] => none
  | '#' :: rest => some (none, rest.dropWhile (· ≠ '\n'))
  | '/' :: '/' :: rest => some (none, rest.dropWhile (· ≠ '\n'))
  | '/' :: '*' :: rest => (afterComment rest).map fun rest => (none, rest)
  | '|' :: '|' :: '|' :: rest =>
    (blockText rest).map fun x => (some (.text (String.ofList x.1)), x.2)
  | '@' :: mark :: rest =>
    if mark = '\'' || mark = '"' then
      (verbatimText mark rest).map fun x => (some (.text (String.ofList x.1)), x.2)
    else none
  | c :: rest =>
    if c = ' ' || c = '\t' || c = '\n' || c = '\r' then some (none, rest)
    else if c = '\'' || c = '"' then
      (quotedText c rest).map fun x => (some (.text (String.ofList x.1)), x.2)
    else if c.isDigit then
      let digits := numberAt cs
      (Yaml.decimalFloat? digits).map fun x => (some (.number x), cs.drop digits.length)
    else if c.isAlpha || c = '_' then
      let name := cs.takeWhile isNameChar
      some (some (.name (String.ofList name)), cs.drop name.length)
    else if "\x7b\x7d[](),.;".toList.contains c then
      some (some (.symbol (String.singleton c)), rest)
    else if isOperatorChar c then
      let op := operatorAt cs
      if op.isEmpty then none else some (some (.symbol (String.ofList op)), cs.drop op.length)
    else none

/-- The words of a text. -/
def tokensFrom : Nat → List Char → Option (List Token)
  | _, [] => some []
  | 0, _ => none
  | fuel + 1, cs => do
    let (t, rest) ← tokenAt cs
    let ts ← tokensFrom fuel rest
    return match t with
      | some t => t :: ts
      | none => ts

/-- The words of a text, if it can be divided into words. -/
def tokens? (text : String) : Option (List Token) :=
  tokensFrom text.length text.toList

end Jsonnet

end MailRules
