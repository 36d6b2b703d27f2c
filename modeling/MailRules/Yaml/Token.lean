import MailRules.Yaml.Cursor

/-!
# YAML tokens

* `Token` is a piece of a YAML text: a mark of structure, a scalar, an anchor, an alias or a tag.
* The functions `scan...` read one token of a kind at a cursor; `none` is a text that is not YAML.

A plain or quoted scalar over several lines is folded: one line break is a blank, and of several
the first is dropped.
-/

namespace MailRules

namespace Yaml

/-- A written tag: its handle, if it has one, and the rest. -/
structure TagText where
  /-- The handle, with its exclamation marks. -/
  handle : Option String
  /-- The rest. -/
  suffix : String
  deriving DecidableEq

/-- A piece of a YAML text. -/
inductive Token where
  /-- The version of the language. -/
  | versionDirective (major : Nat)
  /-- A handle and what it means. -/
  | tagDirective (handle meaning : String)
  /-- A directive that is not known. -/
  | otherDirective
  /-- Where a document begins or ends, or the text ends. -/
  | documentStart | documentEnd | streamEnd
  /-- Where a block begins or ends. -/
  | blockSequenceStart | blockMappingStart | blockEnd
  /-- A bracket of a flow collection. -/
  | flowSequenceStart | flowSequenceEnd | flowMappingStart | flowMappingEnd
  /-- What stands before an item, a name or a value. -/
  | blockEntry | flowEntry | key | value
  /-- A name that refers to an earlier node. -/
  | alias (name : String)
  /-- A name for the node that follows. -/
  | anchor (name : String)
  /-- A tag for the node that follows. -/
  | tag (t : TagText)
  /-- A scalar, and whether it is written plainly. -/
  | scalar (plain : Bool) (text : List Char)
  deriving DecidableEq

/-! ### Names -/

/-- Whether a character can stand in the name of an anchor, a handle or a directive. -/
def isNameChar (c : Char) : Bool :=
  c.isAlphanum || c = '-' || c = '_'

/-- An anchor or alias, whose mark stands at the cursor. -/
def scanName (p : Cursor) : Option (String × Cursor) :=
  let p := p.next
  let name := p.leading isNameChar
  let q := p.skip name.length
  if name.isEmpty then none
  else match q.head? with
    | none => some (String.ofList name, q)
    | some c =>
      if q.separates 0 || "?:,]\x7d%@\x60".toList.contains c then some (String.ofList name, q)
      else none

/-- Whether a character can stand in a tag. -/
def isTagChar (c : Char) : Bool :=
  c.isAlphanum || "-;/?:@&=+$,_.!~*'()[]%".toList.contains c

/-- The value of two hexadecimal digits. -/
def hexPair? (a b : Char) : Option UInt8 :=
  let digit := fun c : Char =>
    if c.isDigit then some (c.toNat - '0'.toNat)
    else if 'a' ≤ c && c ≤ 'f' then some (c.toNat - 'a'.toNat + 10)
    else if 'A' ≤ c && c ≤ 'F' then some (c.toNat - 'A'.toNat + 10)
    else none
  match digit a, digit b with
  | some x, some y => some (UInt8.ofNat (16 * x + y))
  | _, _ => none

/-- The bytes that a run of escapes in a tag stands for, and what follows it. -/
def tagEscapes : List Char → Option (List UInt8 × List Char)
  | '%' :: a :: b :: cs => do
    let byte ← hexPair? a b
    let (bytes, rest) ← tagEscapes cs
    return (byte :: bytes, rest)
  | '%' :: _ => none
  | cs => some ([], cs)

/-- The text of a tag, with its escapes read as UTF-8. -/
def unescapeTag : Nat → List Char → Option (List Char)
  | 0, cs => some cs
  | _, [] => some []
  | fuel + 1, c :: cs =>
    if c = '%' then do
      let (bytes, rest) ← tagEscapes (c :: cs)
      let text ← String.fromUTF8? bytes.toByteArray
      return text.toList ++ (← unescapeTag fuel rest)
    else do return c :: (← unescapeTag fuel cs)

/-- The main part of a tag. -/
def scanTagText (p : Cursor) : Option (String × Cursor) :=
  let raw := p.leading isTagChar
  if raw.isEmpty then none
  else (unescapeTag raw.length raw).map fun text => (String.ofList text, p.skip raw.length)

/-- A handle: an exclamation mark, or a name between two of them. -/
def scanHandle (p : Cursor) : Option (String × Cursor) :=
  if p.head? ≠ some '!' then none
  else
    let name := p.next.leading isNameChar
    if p.ahead? 1 = some ' ' then some ("!", p.next)
    else if p.ahead? (name.length + 1) = some '!' then
      some (String.ofList ('!' :: name ++ ['!']), p.skip (name.length + 2))
    else none

/-- A tag, whose mark stands at the cursor. -/
def scanTag (p : Cursor) : Option (TagText × Cursor) := do
  let (t, q) ←
    if p.ahead? 1 = some '<' then do
      let (suffix, q) ← scanTagText (p.skip 2)
      if q.head? = some '>' then pure (TagText.mk none suffix, q.next) else none
    else if p.separates 1 then pure (TagText.mk none "!", p.next)
    else do
      let word := p.next.rest.takeWhile fun c => !(c = ' ' || isBreak c)
      let (handle, q) ← if word.contains '!' then scanHandle p else pure ("!", p.next)
      let (suffix, q) ← scanTagText q
      pure (TagText.mk (some handle) suffix, q)
  if q.endsWord 0 then pure (t, q) else none

/-! ### Directives -/

/-- The rest of a line that holds at most a comment. -/
def scanLineRest (p : Cursor) : Option Cursor :=
  let p := p.skipBlanks
  let p := if p.head? = some '#' then p.skipLine else p
  if p.endsLine 0 then some (match p.lineBreak? with
    | some (_, q) => q
    | none => p)
  else none

/-- A number of a version. -/
def scanNumber (p : Cursor) : Option (Nat × Cursor) :=
  let digits := p.leading Char.isDigit
  if digits.isEmpty then none
  else some (digits.foldl (fun n c => 10 * n + (c.toNat - '0'.toNat)) 0, p.skip digits.length)

/-- A directive, whose mark stands at the cursor. -/
def scanDirective (p : Cursor) : Option (Token × Cursor) := do
  let p := p.next
  let name := p.leading isNameChar
  let q := p.skip name.length
  if name.isEmpty || !q.endsWord 0 then none
  else do
    let (token, q) ←
      if name = "YAML".toList then do
        let (major, q) ← scanNumber q.skipBlanks
        if q.head? ≠ some '.' then none
        else do
          let (_, q) ← scanNumber q.next
          if q.endsWord 0 then pure (Token.versionDirective major, q) else none
      else if name = "TAG".toList then do
        let (handle, q) ← scanHandle q.skipBlanks
        if q.head? ≠ some ' ' then none
        else do
          let (meaning, q) ← scanTagText q.skipBlanks
          if q.endsWord 0 then pure (Token.tagDirective handle meaning, q) else none
      else pure (Token.otherDirective, q.skipLine)
    let q ← scanLineRest q
    pure (token, q)

/-! ### Block scalars -/

/-- What becomes of the line breaks at the end of a block scalar. -/
inductive Chomping where
  /-- None stays. -/
  | strip
  /-- One stays. -/
  | clip
  /-- All stay. -/
  | keep
  deriving DecidableEq

/-- The chomping that a sign asks for. -/
def Chomping.ofSign : Char → Chomping
  | '+' => .keep
  | _ => .strip

/-- The head of a block scalar: a sign for the chomping and a digit for the indentation, in
either order. -/
def scanBlockHead (p : Cursor) : Option ((Chomping × Option Nat) × Cursor) :=
  let isSign := fun c : Char => c = '+' || c = '-'
  let step := fun c : Char => c.toNat - '0'.toNat
  let (chomping, increment, q) := match p.rest with
    | a :: b :: _ =>
      if isSign a then
        if b.isDigit then (Chomping.ofSign a, some (step b), p.skip 2)
        else (Chomping.ofSign a, none, p.next)
      else if a.isDigit then
        if isSign b then (Chomping.ofSign b, some (step a), p.skip 2)
        else (Chomping.clip, some (step a), p.next)
      else (Chomping.clip, none, p)
    | [a] =>
      if isSign a then (Chomping.ofSign a, none, p.next)
      else if a.isDigit then (Chomping.clip, some (step a), p.next)
      else (Chomping.clip, none, p)
    | [] => (Chomping.clip, none, p)
  if increment = some 0 || !q.endsWord 0 then none
  else (scanLineRest q).map fun q => ((chomping, increment), q)

/-- Moves over blanks up to an indentation. -/
def skipIndent (indent : Nat) : Nat → Cursor → Cursor
  | 0, p => p
  | fuel + 1, p =>
    if p.column < indent && p.head? = some ' ' then skipIndent indent fuel p.next else p

/-- The empty lines before a line of a block scalar. -/
def scanBlockBreaks (indent : Nat) : Nat → Cursor → List Char × Cursor
  | 0, p => ([], p)
  | fuel + 1, p =>
    let p := skipIndent indent indent p
    match p.lineBreak? with
    | some (b, q) =>
      let (bs, q) := scanBlockBreaks indent fuel q
      (b :: bs, q)
    | none => ([], p)

/-- The empty lines at the beginning of a block scalar, and the greatest indentation of them and
of the first line that is not empty. -/
def scanBlockStart : Nat → Nat → Cursor → List Char × Nat × Cursor
  | 0, most, p => ([], most, p)
  | fuel + 1, most, p =>
    if p.head? = some ' ' then scanBlockStart fuel (max most p.next.column) p.next
    else match p.lineBreak? with
      | some (b, q) =>
        let (bs, most, q) := scanBlockStart fuel most q
        (b :: bs, most, q)
      | none => ([], most, p)

/-- The lines of a block scalar from one that is not empty: the text, the last line break, the
empty lines at the end, and the cursor behind them. -/
def scanBlockLines (folded : Bool) (indent : Nat) : Nat → Cursor →
    List Char × List Char × List Char × Cursor
  | 0, p => ([], [], [], p)
  | fuel + 1, p =>
    let isBlank := fun (c : Option Char) => c = some ' ' || c = some '\t'
    let line := p.leading fun c => !isBreak c
    let ownIndent := isBlank p.head?
    let p := p.skip line.length
    let (lineBreak, p) := match p.lineBreak? with
      | some (b, q) => ([b], q)
      | none => ([], p)
    let (breaks, p) := scanBlockBreaks indent (p.rest.length + 1) p
    if p.column = indent && p.head?.isSome then
      let joint := if folded && lineBreak = ['\n'] && !ownIndent && !isBlank p.head? then
          (if breaks.isEmpty then [' '] else [])
        else lineBreak
      let (text, last, trailing, q) := scanBlockLines folded indent fuel p
      (line ++ joint ++ breaks ++ text, last, trailing, q)
    else (line, lineBreak, breaks, p)

/-- A literal or folded scalar, whose mark stands at the cursor, inside a block of the given
indentation. -/
def scanBlockScalar (folded : Bool) (blockIndent : Int) (p : Cursor) :
    Option (Token × Cursor) := do
  let ((chomping, increment), p) ← scanBlockHead p.next
  let least := (max 1 (blockIndent + 1)).toNat
  let fuel := p.rest.length + 1
  let (indent, breaks, p) := match increment with
    | some n =>
      let indent := least + n - 1
      let (breaks, p) := scanBlockBreaks indent fuel p
      (indent, breaks, p)
    | none =>
      let (breaks, most, p) := scanBlockStart fuel 0 p
      (max least most, breaks, p)
  let (text, last, trailing, p) :=
    if p.column = indent && p.head?.isSome then
      let (text, last, trailing, p) := scanBlockLines folded indent fuel p
      (breaks ++ text, last, trailing, p)
    else ([], [], breaks, p)
  let ending := match chomping with
    | .strip => []
    | .clip => last
    | .keep => last ++ trailing
  return (.scalar false (text ++ ending), p)

/-! ### Quoted scalars -/

/-- The empty lines inside a quoted scalar; a mark between documents may not stand there. -/
def scanQuotedBreaks : Nat → Cursor → Option (List Char × Cursor)
  | 0, p => some ([], p)
  | fuel + 1, p =>
    if p.isDocumentMark then none
    else
      let p := p.skipWhile fun c => c = ' ' || c = '\t'
      match p.lineBreak? with
      | some (b, q) => do
        let (bs, q) ← scanQuotedBreaks fuel q
        return (b :: bs, q)
      | none => some ([], p)

/-- Blanks and line breaks inside a quoted scalar. -/
def scanQuotedSpaces (p : Cursor) : Option (List Char × Cursor) :=
  let isSpace := fun c : Char => c = ' ' || c = '\t'
  let blanks := p.leading isSpace
  let p := p.skip blanks.length
  match p.head?, p.lineBreak? with
  | none, _ => none
  | _, some (b, q) => do
    let (breaks, q) ← scanQuotedBreaks (q.rest.length + 1) q
    let joint := if b ≠ '\n' then [b] else if breaks.isEmpty then [' '] else []
    return (joint ++ breaks, q)
  | _, none => some (blanks, p)

/-- The characters that stand for others after a backslash. -/
def quotedEscapes : List (Char × Char) := [
  ('0', '\x00'), ('a', '\x07'), ('b', '\x08'), ('t', '\t'), ('\t', '\t'), ('n', '\n'),
  ('v', '\x0b'), ('f', '\x0c'), ('r', '\r'), ('e', '\x1b'), (' ', ' '), ('"', '"'),
  ('\\', '\\'), ('/', '/'), ('N', '\u0085'), ('_', '\u00a0'), ('L', '\u2028'), ('P', '\u2029')]

/-- The digits that a code point has after a letter. -/
def codeLength? : Char → Option Nat
  | 'x' => some 2 | 'u' => some 4 | 'U' => some 8 | _ => none

/-- The character of a code point in hexadecimal digits. -/
def codePoint? (digits : List Char) : Option Char :=
  let value := digits.foldl (fun acc c => acc.bind fun n =>
    if c.isDigit then some (16 * n + (c.toNat - '0'.toNat))
    else if 'a' ≤ c && c ≤ 'f' then some (16 * n + (c.toNat - 'a'.toNat + 10))
    else if 'A' ≤ c && c ≤ 'F' then some (16 * n + (c.toNat - 'A'.toNat + 10))
    else none) (some 0)
  value.bind fun n => if n.isValidChar then some (Char.ofNat n) else none

/-- An escape, whose backslash stands at the cursor. -/
def scanEscape (p : Cursor) : Option (List Char × Cursor) := do
  let c ← p.ahead? 1
  match quotedEscapes.find? (·.1 = c), codeLength? c with
  | some e, _ => return ([e.2], p.skip 2)
  | none, some n =>
    let digits := (p.skip 2).rest.take n
    if digits.length < n then none
    else return ([← codePoint? digits], p.skip (2 + n))
  | none, none =>
    let (_, q) ← p.next.lineBreak?
    scanQuotedBreaks (q.rest.length + 1) q

/-- The content of a quoted scalar up to the mark that ends it. -/
def scanQuotedText (double : Bool) : Nat → Cursor → Option (List Char × Cursor)
  | 0, _ => none
  | fuel + 1, p => do
    let c ← p.head?
    let quote := if double then '"' else '\''
    if c = quote then
      if !double && p.ahead? 1 = some '\'' then
        let (text, q) ← scanQuotedText double fuel (p.skip 2)
        return ('\'' :: text, q)
      else return ([], p.next)
    else
      let (part, q) ←
        if c = '\\' && double then scanEscape p
        else if c = ' ' || c = '\t' || isBreak c then scanQuotedSpaces p
        else some ([c], p.next)
      let (text, q) ← scanQuotedText double fuel q
      return (part ++ text, q)

/-- A quoted scalar, whose mark stands at the cursor. -/
def scanQuoted (double : Bool) (p : Cursor) : Option (Token × Cursor) := do
  let (text, q) ← scanQuotedText double (p.rest.length + 1) p.next
  return (.scalar false text, q)

/-! ### Plain scalars -/

/-- Whether a plain scalar may begin at the cursor. -/
def beginsPlain (inFlow : Bool) (p : Cursor) : Bool :=
  match p.head? with
  | none => false
  | some c =>
    if c = '-' || c = '?' || c = ':' then
      !p.separates 1 && (c = '-' || !inFlow)
    else !(p.separates 0 || ",[]\x7b\x7d#&*!|>'\"%@\x60".toList.contains c)

/-- The characters of a plain scalar up to a blank, a line break or an indicator. -/
def plainWord (inFlow : Bool) : List Char → List Char
  | [] => []
  | c :: cs =>
    let separated := fun (d : Option Char) => match d with
      | none => true
      | some d => d = ' ' || d = '\t' || isBreak d ||
          (inFlow && ",[]\x7b\x7d".toList.contains d)
    if c = ' ' || c = '\t' || isBreak c || (c = ':' && separated cs.head?) ||
        (inFlow && ",?[]\x7b\x7d".toList.contains c) then []
    else c :: plainWord inFlow cs

/-- The line breaks between two lines of a plain scalar; a mark between documents ends it. -/
def scanPlainBreaks : Nat → Cursor → Option (List Char) × Cursor
  | 0, p => (some [], p)
  | fuel + 1, p =>
    if p.head? = some ' ' then scanPlainBreaks fuel p.next
    else match p.lineBreak? with
      | some (b, q) =>
        if q.isDocumentMark then (none, q)
        else match scanPlainBreaks fuel q with
          | (some bs, q) => (some (b :: bs), q)
          | (none, q) => (none, q)
      | none => (some [], p)

/-- What stands between two parts of a plain scalar: the text it is read as, which is empty if
the scalar ends, and whether a line was begun. -/
def scanPlainSpaces (p : Cursor) : List Char × Bool × Cursor :=
  let blanks := p.leading (· = ' ')
  let p := p.skip blanks.length
  match p.lineBreak? with
  | some (b, q) =>
    if q.isDocumentMark then ([], true, q)
    else match scanPlainBreaks (q.rest.length + 1) q with
      | (none, q) => ([], true, q)
      | (some breaks, q) =>
        let joint := if b ≠ '\n' then [b] else if breaks.isEmpty then [' '] else []
        (joint ++ breaks, true, q)
  | none => (blanks, false, p)

/-- The parts of a plain scalar from the cursor on: the text, whether a line was begun behind the
last part, and the cursor behind it. -/
def scanPlainText (inFlow : Bool) (indent : Int) : Nat → Cursor → List Char × Bool × Cursor
  | 0, p => ([], false, p)
  | fuel + 1, p =>
    let word := plainWord inFlow p.rest
    let (spaces, newLine, q) := scanPlainSpaces (p.skip word.length)
    let goesOn := !spaces.isEmpty && q.head? ≠ some '#' && (inFlow || indent ≤ q.column) &&
      !(plainWord inFlow q.rest).isEmpty
    if goesOn then
      let (text, newLine, q) := scanPlainText inFlow indent fuel q
      (word ++ spaces ++ text, newLine, q)
    else (word, newLine, q)

end Yaml

end MailRules
