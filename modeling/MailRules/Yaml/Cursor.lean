/-!
# Positions in a YAML text

A cursor is the rest of a text with the line and the column it begins at.

* `Cursor.next` moves over one character, `Cursor.skip` over several, `Cursor.skipWhile` over all
  that satisfy a test.
* `Cursor.lineBreak?` reads a line break; a carriage return and the next-line character are read
  as line feeds.
-/

namespace MailRules

namespace Yaml

/-- Whether a character is a line break. -/
def isBreak (c : Char) : Bool :=
  c = '\n' || c = '\r' || c = '\u0085' || c = '\u2028' || c = '\u2029'

/-- The rest of a text and where it begins. -/
structure Cursor where
  /-- What has not been read. -/
  rest : List Char
  /-- How many characters have been read. -/
  index : Nat := 0
  /-- The number of the line, from zero. -/
  line : Nat := 0
  /-- The number of the column, from zero. -/
  column : Nat := 0

namespace Cursor

/-- The character some places ahead. -/
def ahead? (p : Cursor) (n : Nat) : Option Char :=
  p.rest[n]?

/-- The character at the cursor. -/
def head? (p : Cursor) : Option Char :=
  p.rest.head?

/-- Moves over one character. -/
def next (p : Cursor) : Cursor :=
  match p.rest with
  | [] => p
  | c :: cs =>
    if isBreak c && !(c = '\r' && cs.head? = some '\n') then
      { rest := cs, index := p.index + 1, line := p.line + 1, column := 0 }
    else
      { rest := cs, index := p.index + 1, line := p.line,
        column := if c = '\ufeff' then p.column else p.column + 1 }

/-- Moves over some characters. -/
def skip (p : Cursor) : Nat → Cursor
  | 0 => p
  | n + 1 => p.next.skip n

/-- The characters before the first that fails a test. -/
def leading (p : Cursor) (test : Char → Bool) : List Char :=
  p.rest.takeWhile test

/-- Moves to the first character that fails a test. -/
def skipWhile (p : Cursor) (test : Char → Bool) : Cursor :=
  p.skip (p.leading test).length

/-- Moves over blanks. -/
def skipBlanks (p : Cursor) : Cursor :=
  p.skipWhile (· = ' ')

/-- Moves to the end of the line. -/
def skipLine (p : Cursor) : Cursor :=
  p.skipWhile fun c => !isBreak c

/-- Reads a line break. -/
def lineBreak? (p : Cursor) : Option (Char × Cursor) :=
  match p.rest with
  | '\r' :: '\n' :: _ => some ('\n', p.skip 2)
  | c :: _ =>
    if c = '\u2028' || c = '\u2029' then some (c, p.next)
    else if isBreak c then some ('\n', p.next)
    else none
  | [] => none

/-- Whether the text ends or a line ends some places ahead. -/
def endsLine (p : Cursor) (n : Nat) : Bool :=
  match p.ahead? n with
  | none => true
  | some c => isBreak c

/-- Whether a blank, a line break or the end stands some places ahead. -/
def endsWord (p : Cursor) (n : Nat) : Bool :=
  match p.ahead? n with
  | none => true
  | some c => c = ' ' || isBreak c

/-- Whether a blank, a tab, a line break or the end stands some places ahead. -/
def separates (p : Cursor) (n : Nat) : Bool :=
  p.endsWord n || p.ahead? n = some '\t'

/-- Whether three of the given characters stand here as a mark between documents. -/
def isMark (p : Cursor) (c : Char) : Bool :=
  p.rest.take 3 = [c, c, c] && p.separates 3

/-- Whether a mark between documents stands here. -/
def isDocumentMark (p : Cursor) : Bool :=
  p.isMark '-' || p.isMark '.'

end Cursor

end Yaml

end MailRules
