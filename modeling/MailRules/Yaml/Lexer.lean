import MailRules.Yaml.Token

/-!
# From a YAML text to its tokens

Besides the tokens that stand in the text there are tokens for the beginning and the end of
blocks, which follow from the indentation, and a token before every name of a mapping, which is
known only when the colon after it is found.

* `PossibleKey` remembers where such a token may have to be put.
* `Lexer` is the state of the scan, `Lexer.step` reads one token of the text.
* `tokens?` are all tokens of a text, and `none` if the text is not YAML.
-/

namespace MailRules

namespace Yaml

/-- A place where the name of a mapping may begin: the number of the token, and whether a colon
has to follow, since nothing else can stand at the indentation of the block. -/
structure PossibleKey where
  /-- The number of the token that would be the name. -/
  token : Nat
  /-- Whether a colon has to follow. -/
  required : Bool
  /-- The position in the text. -/
  index : Nat
  /-- The line. -/
  line : Nat
  /-- The column. -/
  column : Nat

/-- The state of a scan: the tokens so far, the indentations of the open blocks, the depth of
flow collections, whether the name of a mapping may begin here, and where one may have begun at
each depth. -/
structure Lexer where
  /-- The rest of the text. -/
  cursor : Cursor
  /-- The tokens so far. -/
  tokens : Array Token := #[]
  /-- The indentations of the blocks around the innermost. -/
  indents : List Int := []
  /-- The indentation of the innermost block. -/
  indent : Int := -1
  /-- The depth of flow collections. -/
  flowLevel : Nat := 0
  /-- Whether the name of a mapping may begin here. -/
  keyAllowed : Bool := true
  /-- Where a name may have begun, by depth. -/
  keys : List (Nat × PossibleKey) := []

namespace Lexer

/-- Whether the scan is inside a flow collection. -/
def inFlow (s : Lexer) : Bool :=
  s.flowLevel ≠ 0

/-- Adds a token. -/
def push (s : Lexer) (t : Token) : Lexer :=
  { s with tokens := s.tokens.push t }

/-- Adds a token that the text spells by some characters at the cursor. -/
def pushOver (s : Lexer) (n : Nat) (t : Token) : Lexer :=
  { s.push t with cursor := s.cursor.skip n }

/-- Moves over blanks, comments and line breaks; outside flow collections a name may begin on a
new line. -/
def skipToToken : Nat → Lexer → Lexer
  | 0, s => s
  | fuel + 1, s =>
    let p := s.cursor.skipBlanks
    let p := if p.head? = some '#' then p.skipLine else p
    match p.lineBreak? with
    | some (_, q) =>
      skipToToken fuel { s with cursor := q, keyAllowed := s.keyAllowed || !s.inFlow }
    | none => { s with cursor := p }

/-- Gives up the places for names that are on another line or too far behind. -/
def dropStaleKeys (s : Lexer) : Option Lexer :=
  let isStale := fun (k : Nat × PossibleKey) =>
    k.2.line ≠ s.cursor.line || 1024 < s.cursor.index - k.2.index
  if s.keys.any fun k => isStale k && k.2.required then none
  else some { s with keys := s.keys.filter fun k => !isStale k }

/-- Gives up the place for a name at the current depth. -/
def dropKey (s : Lexer) : Option Lexer :=
  if s.keys.any fun k => k.1 = s.flowLevel && k.2.required then none
  else some { s with keys := s.keys.filter fun k => k.1 ≠ s.flowLevel }

/-- Remembers that a name may begin here. -/
def saveKey (s : Lexer) : Option Lexer :=
  if !s.keyAllowed then some s
  else do
    let s ← s.dropKey
    let p := s.cursor
    let key : PossibleKey :=
      { token := s.tokens.size, required := !s.inFlow && s.indent = p.column, index := p.index,
        line := p.line, column := p.column }
    return { s with keys := (s.flowLevel, key) :: s.keys }

/-- Closes the blocks that are indented further than a column. -/
def unwindFrom (column : Int) (indent : Int) (tokens : Array Token) :
    List Int → Int × List Int × Array Token
  | [] => (indent, [], tokens)
  | outer :: rest =>
    if column < indent then unwindFrom column outer (tokens.push .blockEnd) rest
    else (indent, outer :: rest, tokens)

/-- Closes the blocks that are indented further than a column, outside flow collections. -/
def unwind (s : Lexer) (column : Int) : Lexer :=
  if s.inFlow then s
  else
    let (indent, indents, tokens) := unwindFrom column s.indent s.tokens s.indents
    { s with indent, indents, tokens }

/-- Opens a block at a column, with the given token at the given place, if the column is further
indented than the blocks that are open. -/
def openBlock (s : Lexer) (column : Nat) (place : Nat) (t : Token) : Lexer :=
  if !s.inFlow && s.indent < column then
    { s with
      indents := s.indent :: s.indents, indent := column,
      tokens := s.tokens.insertIdxIfInBounds place t }
  else s

/-- Adds a scanned token. -/
def pushScanned (s : Lexer) (keyAllowed : Bool) : Option (Token × Cursor) → Option Lexer
  | some (t, q) => some { s.push t with cursor := q, keyAllowed }
  | none => none

/-- A mark between documents, or the end of the text. -/
def endDocument (s : Lexer) (n : Nat) (t : Token) : Option Lexer := do
  let s ← (s.unwind (-1)).dropKey
  return { s.pushOver n t with keyAllowed := false }

/-- The beginning of a flow collection. -/
def openFlow (s : Lexer) (t : Token) : Option Lexer := do
  let s ← s.saveKey
  return { s.pushOver 1 t with flowLevel := s.flowLevel + 1, keyAllowed := true }

/-- The end of a flow collection. -/
def closeFlow (s : Lexer) (t : Token) : Option Lexer := do
  let s ← s.dropKey
  if s.flowLevel = 0 then none
  else return { s.pushOver 1 t with flowLevel := s.flowLevel - 1, keyAllowed := false }

/-- The mark of an item or of a name, which may begin a block. -/
def entry (s : Lexer) (block mark : Token) (keyAllowed : Bool) : Option Lexer :=
  if !s.inFlow && !s.keyAllowed then none
  else do
    let s := s.openBlock s.cursor.column s.tokens.size block
    let s ← { s with keyAllowed }.dropKey
    return s.pushOver 1 mark

/-- The colon between a name and its value. -/
def valueMark (s : Lexer) : Option Lexer :=
  match s.keys.find? (·.1 = s.flowLevel) with
  | some (_, k) =>
    let s := { s with
      keys := s.keys.filter fun k => k.1 ≠ s.flowLevel,
      tokens := s.tokens.insertIdxIfInBounds k.token .key, keyAllowed := false }
    some ((s.openBlock k.column k.token .blockMappingStart).pushOver 1 .value)
  | none => s.entry .blockMappingStart .value (!s.inFlow)

/-- A scalar, alias, anchor or tag, which may be the name of a mapping. -/
def content (s : Lexer) (scan : Cursor → Option (Token × Cursor)) : Option Lexer := do
  let s ← s.saveKey
  s.pushScanned false (scan s.cursor)

/-- A plain scalar. -/
def plain (s : Lexer) : Option Lexer := do
  let s ← s.saveKey
  let p := s.cursor
  let (text, newLine, q) := scanPlainText s.inFlow (s.indent + 1) (p.rest.length + 1) p
  return { s.push (.scalar true text) with cursor := q, keyAllowed := newLine }

/-- Whether a blank, a line break or the end follows the mark at the cursor, which matters
outside flow collections only. -/
def isMarkAlone (s : Lexer) : Bool :=
  s.inFlow || s.cursor.separates 1

/-- Reads one token of the text. -/
def step (s : Lexer) : Option Lexer := do
  let s := skipToToken (s.cursor.rest.length + 1) s
  let s ← s.dropStaleKeys
  let s := s.unwind s.cursor.column
  let p := s.cursor
  let name := fun (make : String → Token) (p : Cursor) =>
    (scanName p).map fun x => (make x.1, x.2)
  match p.head? with
  | none => s.endDocument 0 .streamEnd
  | some c =>
    if c = '%' && p.column = 0 then do
      let s ← (s.unwind (-1)).dropKey
      s.pushScanned false (scanDirective s.cursor)
    else if p.column = 0 && p.isMark '-' then s.endDocument 3 .documentStart
    else if p.column = 0 && p.isMark '.' then s.endDocument 3 .documentEnd
    else if c = '[' then s.openFlow .flowSequenceStart
    else if c = '\x7b' then s.openFlow .flowMappingStart
    else if c = ']' then s.closeFlow .flowSequenceEnd
    else if c = '\x7d' then s.closeFlow .flowMappingEnd
    else if c = ',' then do
      let s ← { s with keyAllowed := true }.dropKey
      return s.pushOver 1 .flowEntry
    else if c = '-' && p.separates 1 then s.entry .blockSequenceStart .blockEntry true
    else if c = '?' && s.isMarkAlone then s.entry .blockMappingStart .key (!s.inFlow)
    else if c = ':' && s.isMarkAlone then s.valueMark
    else if c = '*' then s.content (name .alias)
    else if c = '&' then s.content (name .anchor)
    else if c = '!' then s.content fun p => (scanTag p).map fun x => (.tag x.1, x.2)
    else if (c = '|' || c = '>') && !s.inFlow then do
      let s ← { s with keyAllowed := true }.dropKey
      s.pushScanned true (scanBlockScalar (c = '>') s.indent s.cursor)
    else if c = '\'' then s.content (scanQuoted false)
    else if c = '"' then s.content (scanQuoted true)
    else if beginsPlain s.inFlow p then s.plain
    else none

/-- Reads tokens up to the end of the text. -/
def run : Nat → Lexer → Option (List Token)
  | 0, _ => none
  | fuel + 1, s => do
    let s ← s.step
    if s.tokens.back? = some .streamEnd then return s.tokens.toList else run fuel s

end Lexer

/-- Whether a character may stand in a YAML text. -/
def isYamlChar (c : Char) : Bool :=
  c = '\t' || c = '\n' || c = '\r' || (' ' ≤ c && c ≤ '~') || c = '\u0085' ||
    ('\u00a0' ≤ c && c ≤ '\ufffd') || 0x10000 ≤ c.toNat

/-- All tokens of a text. -/
def tokens? (text : List Char) : Option (List Token) :=
  if text.all isYamlChar then
    let cursor : Cursor := { rest := text }
    Lexer.run (text.length + 2)
      { cursor := if text.head? = some '\ufeff' then cursor.next else cursor }
  else none

end Yaml

end MailRules
