import MailRules.Value.Basic
import MailRules.Decimal.Shortest
import MailRules.Text.Lines
import MailRules.Yaml.Plain

/-!
# Writing YAML

A document value in block style: two blanks of indentation, the items of a list not indented
under their name, texts of more than eighty columns broken at blanks.

* `ScalarForm` is what a text's characters permit, and `scalarStyle` the style that follows:
  plain if the text would be read back as a text, single quotes if it can be written in them, and
  double quotes otherwise.
* `Pen` is what has been written, with what the next indicator has to know of it.
* `Yaml.print` is the written form.
-/

namespace MailRules

namespace Yaml

/-! ### Styles of scalars -/

/-- Whether a character is a line break inside a scalar. -/
def isScalarBreak (c : Char) : Bool :=
  c = '\n' || c = '\u0085' || c = '\u2028' || c = '\u2029'

/-- Whether a character separates a scalar from what stands beside it. -/
def isSeparator (c : Char) : Bool :=
  c = '\x00' || c = ' ' || c = '\t' || c = '\r' || isScalarBreak c

/-- Whether a character cannot stand in a plain or single-quoted scalar. -/
def isSpecial (c : Char) : Bool :=
  !(c = '\n' || (' ' ≤ c && c ≤ '~') ||
    ((c = '\u0085' || ('\u00a0' ≤ c && c ≤ '\ufffd') ||
      (0x10000 ≤ c.toNat && c.toNat < 0x10ffff)) && c ≠ '\ufeff'))

/-- Whether a character with its neighbours would be read as an indicator.  `first` is set at the
beginning of a scalar. -/
def isIndicator (first : Bool) (before : Option Char) (c : Char) (after : Option Char) : Bool :=
  let separated := fun (n : Option Char) => match n with
    | none => true
    | some d => isSeparator d
  if first then
    "#,[]\x7b\x7d&*!|>'\"%@\x60".toList.contains c ||
      ((c = '?' || c = ':' || c = '-') && separated after)
  else (c = ':' && separated after) || (c = '#' && separated before)

/-- Whether any character of a scalar is read as an indicator, or the scalar begins like a mark
between documents. -/
def hasIndicator (s : List Char) : Bool :=
  s.take 3 = ['-', '-', '-'] || s.take 3 = ['.', '.', '.'] || go none s
where
  go (before : Option Char) : List Char → Bool
    | [] => false
    | c :: cs => isIndicator before.isNone before c cs.head? || go (some c) cs

/-- Whether two neighbours with the given properties stand in a text. -/
def hasPair (p q : Char → Bool) (s : List Char) : Bool :=
  (s.zip (s.drop 1)).any fun x => p x.1 && q x.2

/-- What the characters of a text permit. -/
structure ScalarForm where
  /-- Whether the text is empty. -/
  empty : Bool
  /-- Whether it has several lines. -/
  multiline : Bool
  /-- Whether it may be written plainly. -/
  plain : Bool
  /-- Whether it may be written in single quotation marks. -/
  singleQuoted : Bool

/-- What the characters of a text permit. -/
def ScalarForm.of (s : List Char) : ScalarForm :=
  let isBlank := fun c : Char => c = ' '
  let edge := fun c : Option Char => c.any fun c => isBlank c || isScalarBreak c
  let special := hasPair isBlank isScalarBreak s || s.any isSpecial
  let indentedBreak := hasPair isScalarBreak isBlank s
  { empty := s.isEmpty
    multiline := s.any isScalarBreak
    plain := !(edge s.head? || edge s.getLast? || indentedBreak || special ||
      s.any isScalarBreak || hasIndicator s)
    singleQuoted := !(indentedBreak || special) }

/-- How a scalar is written. -/
inductive ScalarStyle where
  | plain | singleQuoted | doubleQuoted
  deriving DecidableEq

/-- The style of a scalar.  `plainKept` says that the plain form is read back as the same value,
and `isName` that the scalar is a name on the line of its value. -/
def scalarStyle (plainKept isName : Bool) (s : List Char) : ScalarStyle :=
  let form := ScalarForm.of s
  if plainKept && !(isName && (form.empty || form.multiline)) && form.plain then .plain
  else if form.singleQuoted && !(isName && form.multiline) then .singleQuoted
  else .doubleQuoted

/-! ### The pen -/

/-- The columns that a line may have before it is broken. -/
def lineWidth : Nat := 80

/-- What has been written: the text, the column, whether the last character separates, and
whether the line holds nothing but indentation and indicators. -/
structure Pen where
  /-- The text so far. -/
  text : String := ""
  /-- The column. -/
  column : Nat := 0
  /-- Whether the last character separates. -/
  separated : Bool := true
  /-- Whether the line holds nothing but indentation and indicators. -/
  fresh : Bool := true
  deriving Inhabited

namespace Pen

/-- Writes characters that are no indicator. -/
def write (p : Pen) (s : String) : Pen :=
  { p with text := p.text ++ s, column := p.column + s.length }

/-- Writes an indicator, after a blank where one is needed. -/
def indicator (p : Pen) (s : String) (needsBlank : Bool) (separated : Bool := false)
    (fresh : Bool := false) : Pen :=
  let s := if p.separated || !needsBlank then s else " " ++ s
  { p.write s with separated, fresh := p.fresh && fresh }

/-- Begins a new line, by the given break. -/
def lineBreak (p : Pen) (c : Char) : Pen :=
  { text := p.text.push c, column := 0, separated := true, fresh := true }

/-- Moves to an indentation, on a new line unless the line is fresh and short enough. -/
def indent (p : Pen) (n : Nat) : Pen :=
  let p := if !p.fresh || n < p.column || (p.column = n && !p.separated) then p.lineBreak '\n'
    else p
  if p.column < n then
    { p.write (String.ofList (List.replicate (n - p.column) ' ')) with separated := true }
  else p

end Pen

/-! ### Scalars -/

/-- Writes a plain scalar, breaking long lines at single blanks. -/
def printPlain (indent : Nat) (split : Bool) (s : List Char) (p : Pen) : Pen :=
  if s.isEmpty then p
  else
    let p := if p.separated then p else p.write " "
    go s.length { p with separated := false, fresh := false } s
where
  /-- Each round writes a word and the blanks behind it. -/
  go : Nat → Pen → List Char → Pen
    | 0, p, _ => p
    | fuel + 1, p, s =>
      let word := s.takeWhile (· ≠ ' ')
      let rest := s.dropWhile (· ≠ ' ')
      let blanks := rest.takeWhile (· = ' ')
      let rest := rest.dropWhile (· = ' ')
      let p := p.write (String.ofList word)
      if blanks.isEmpty then p
      else
        let p := if blanks.length = 1 && lineWidth < p.column && split then
            { p.indent indent with separated := false, fresh := false }
          else p.write (String.ofList blanks)
        go fuel p rest

/-- Writes the line breaks of a single-quoted scalar; a first line feed is written twice, since
one alone would be read as a blank. -/
def printBreaks (breaks : List Char) (p : Pen) : Pen :=
  let p := if breaks.head? = some '\n' then p.lineBreak '\n' else p
  breaks.foldl Pen.lineBreak p

/-- Writes a scalar in single quotes, breaking long lines at single blanks inside it. -/
def printSingleQuoted (indent : Nat) (split : Bool) (s : List Char) (p : Pen) : Pen :=
  (go (s.length + 1) true (p.indicator "'" true) s).indicator "'" false
where
  /-- Each round writes a run of blanks, of breaks, or of other characters. -/
  go : Nat → Bool → Pen → List Char → Pen
    | 0, _, p, _ => p
    | _, _, p, [] => p
    | fuel + 1, first, p, c :: cs =>
      if c = ' ' then
        let blanks := (c :: cs).takeWhile (· = ' ')
        let rest := (c :: cs).dropWhile (· = ' ')
        let p := if blanks.length = 1 && lineWidth < p.column && split && !first && !rest.isEmpty
          then p.indent indent else p.write (String.ofList blanks)
        go fuel false p rest
      else if isScalarBreak c then
        let breaks := (c :: cs).takeWhile isScalarBreak
        go fuel false ((printBreaks breaks p).indent indent) ((c :: cs).dropWhile isScalarBreak)
      else if c = '\'' then go fuel false (p.write "''") cs
      else
        let isOther := fun c : Char => c ≠ ' ' && !isScalarBreak c && c ≠ '\''
        go fuel false (p.write (String.ofList ((c :: cs).takeWhile isOther)))
          ((c :: cs).dropWhile isOther)

/-- The letters of escapes. -/
def escapeLetters : List (Char × Char) := [
  ('\x00', '0'), ('\x07', 'a'), ('\x08', 'b'), ('\t', 't'), ('\n', 'n'), ('\x0b', 'v'),
  ('\x0c', 'f'), ('\r', 'r'), ('\x1b', 'e'), ('"', '"'), ('\\', '\\'), ('\u0085', 'N'),
  ('\u00a0', '_'), ('\u2028', 'L'), ('\u2029', 'P')]

/-- Whether a character is escaped between double quotes. -/
def isEscaped (c : Char) : Bool :=
  c = '"' || c = '\\' || c = '\u0085' || c = '\u2028' || c = '\u2029' || c = '\ufeff' ||
    !((' ' ≤ c && c ≤ '~') || ('\u00a0' ≤ c && c ≤ '\ufffd'))

/-- The escape of a character. -/
def escape (c : Char) : String :=
  match escapeLetters.find? (·.1 = c) with
  | some e => String.ofList ['\\', e.2]
  | none =>
    let n := c.toNat
    String.ofList (if n ≤ 0xff then '\\' :: 'x' :: hexDigits true 2 n
      else if n ≤ 0xffff then '\\' :: 'u' :: hexDigits true 4 n
      else '\\' :: 'U' :: hexDigits true 8 n)

/-- Writes a scalar in double quotes.  A long line is broken after a blank or an escape by a
backslash; a blank that begins the next line is escaped. -/
def printDoubleQuoted (indent : Nat) (split : Bool) (s : List Char) (p : Pen) : Pen :=
  (go true [] (p.indicator "\"" true) s).indicator "\"" false
where
  /-- `held` are the characters since the last write, in reverse order. -/
  go (first : Bool) (held : List Char) (p : Pen) : List Char → Pen
    | [] => p.write (String.ofList held.reverse)
    | c :: cs =>
      let inside := !first && !cs.isEmpty && split
      if isEscaped c then
        let p := (p.write (String.ofList held.reverse)).write (escape c)
        if inside && lineWidth + 1 < p.column then go false [] (continued [] cs.head? p) cs
        else go false [] p cs
      else if inside && (c = ' ' || held.isEmpty) && lineWidth < p.column + held.length then
        go false [c] (continued held.reverse (some c) p) cs
      else go false (c :: held) p cs
  /-- Ends a line after some characters; `next` is the character that begins the next line. -/
  continued (held : List Char) (next : Option Char) (p : Pen) : Pen :=
    let p := p.write (String.ofList (held ++ ['\\']))
    let p := { p.indent indent with separated := false, fresh := false }
    if next = some ' ' then p.write "\\" else p

/-- Writes a scalar in the style that suits it. -/
def printText (indent : Nat) (plainKept isName : Bool) (s : List Char) (p : Pen) : Pen :=
  match scalarStyle plainKept isName s with
  | .plain => printPlain indent (!isName) s p
  | .singleQuoted => printSingleQuoted indent (!isName) s p
  | .doubleQuoted => printDoubleQuoted indent (!isName) s p

/-- The text of a float, in which an exponent has a point before it. -/
def floatScalar (x : Float) : String :=
  if x.isNaN then ".nan"
  else if x.isInf then (if x < 0.0 then "-.inf" else ".inf")
  else
    let s := (floatText x).toList
    String.ofList (if s.contains '.' || !s.contains 'e' then s
      else s.takeWhile (· ≠ 'e') ++ '.' :: '0' :: s.dropWhile (· ≠ 'e'))

/-- The text of a date. -/
def dateScalar (d : Date) : String :=
  padded 4 d.year ++ "-" ++ padded 2 d.month ++ "-" ++ padded 2 d.day

/-- The text of a scalar, and whether its plain form is read back as the same value. -/
def scalarText : Scalar → String × Bool
  | .null => ("null", true)
  | .bool b => (if b then "true" else "false", true)
  | .int i => (toString i, true)
  | .float x => (floatScalar x, true)
  | .str s => (s, PlainKind.of s.toList = .str)
  | .date d => (dateScalar d, true)
  | .time t => (dateScalar t.date ++ " " ++ padded 2 t.hour ++ ":" ++ padded 2 t.minute ++ ":" ++
      padded 2 t.second, true)

/-- Writes a scalar. -/
def printScalar (indent : Nat) (isName : Bool) (s : Scalar) (p : Pen) : Pen :=
  let (text, plainKept) := scalarText s
  printText indent plainKept isName text.toList p

/-- Whether a scalar can be a name on the line of its value: it is short, not empty, and has no
line breaks. -/
def isSimpleName (s : Scalar) : Bool :=
  let text := (scalarText s).1.toList
  !text.isEmpty && !text.any isScalarBreak && text.length + 5 < 128

/-! ### Documents -/

mutual

/-- Writes a value.  `indent` is the indentation of the collection that holds it, if any, and
`inMapping` whether that is a mapping. -/
def printValue (indent : Option Nat) (inMapping : Bool) (p : Pen) : Value → Pen
  | .scalar s => printScalar ((indent.map (· + 2)).getD 2) false s p
  | .list [] => (p.indicator "[" true true).indicator "]" false
  | .map [] => (p.indicator "\x7b" true true).indicator "\x7d" false
  | .list (x :: xs) =>
    let n := match indent with
      | none => 0
      | some n => if inMapping && !p.fresh then n else n + 2
    printItems n p (x :: xs)
  | .map (m :: ms) => printMembers ((indent.map (· + 2)).getD 0) p (m :: ms)

/-- Writes the items of a list at an indentation. -/
def printItems (n : Nat) (p : Pen) : List Value → Pen
  | [] => p
  | x :: xs =>
    let p := (p.indent n).indicator "-" true false true
    printItems n (printValue (some n) false p x) xs

/-- Writes the members of a mapping at an indentation.  A name that is not simple stands on
lines of its own. -/
def printMembers (n : Nat) (p : Pen) : List (Scalar × Value) → Pen
  | [] => p
  | (k, v) :: ms =>
    let p := p.indent n
    let p := if isSimpleName k then (printScalar (n + 2) true k p).indicator ":" false
      else ((printScalar (n + 2) false k (p.indicator "?" true false true)).indent n).indicator
        ":" true false true
    printMembers n (printValue (some n) true p v) ms

end

/-- A document.  A lone plain scalar is followed by a mark, since nothing else ends it. -/
def print (v : Value) : String :=
  let p := (printValue none false {} v).indent 0
  let isOpen : Bool := match v with
    | .scalar s => scalarStyle (scalarText s).2 false (scalarText s).1.toList = .plain
    | _ => false
  if isOpen then ((p.indicator "..." true).indent 0).text else p.text

/-- A document without line feeds at its end, to be shown inside a message. -/
def printInline (v : Value) : String :=
  String.ofList (trimEnd (· = '\n') (print v).toList)

end Yaml

end MailRules
