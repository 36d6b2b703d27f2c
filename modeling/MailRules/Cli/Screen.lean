import MailRules.Text.Color

/-!
# What is shown on a screen

* `echoed` is a text as it is shown without colors.
* `shown` is a message as it is shown: without characters that move the cursor, and with blanks
  for tabs.
* `table` draws a table with a title.
-/

namespace MailRules

namespace Screen

/-! ### Texts -/

/-- Whether a character can stand inside a terminal code. -/
def isCodeChar (c : Char) : Bool :=
  c = ';' || c = '?' || c.isDigit

/-- What follows the terminal code at the beginning of a text. -/
def afterCode? : List Char → Option (List Char)
  | '\x1b' :: '[' :: cs => match cs.dropWhile isCodeChar with
    | c :: rest => if c.isAlpha then some rest else none
    | [] => none
  | _ => none

/-- A text without terminal codes. -/
def withoutCodes : Nat → List Char → List Char
  | 0, cs => cs
  | _, [] => []
  | fuel + 1, c :: cs => match afterCode? (c :: cs) with
    | some rest => withoutCodes fuel rest
    | none => c :: withoutCodes fuel cs

/-- A text as it is shown where there are no colors. -/
def echoed (s : String) : String :=
  String.ofList (withoutCodes s.length s.toList)

/-- Whether what follows a bracket makes it a mark: a small letter or a sign that a mark begins
with, and a closing bracket before the next opening one. -/
def opensMark : List Char → Bool
  | c :: cs =>
    (('a' ≤ c && c ≤ 'z') || c = '#' || c = '/' || c = '@') &&
      (cs.dropWhile fun c => c ≠ '[' && c ≠ ']').head? = some ']'
  | [] => false

/-- A text without the backslashes that stand before a bracket which opens no mark. -/
def plainBrackets : List Char → List Char
  | '\\' :: '[' :: cs =>
    if opensMark cs then '\\' :: '[' :: plainBrackets cs else '[' :: plainBrackets cs
  | c :: cs => c :: plainBrackets cs
  | [] => []

/-- A text that is to stand for itself among marked texts.  A lone backslash at its end would
hide the mark after it and is written twice; one before a bracket that opens no mark is not
written. -/
def unmarked (s : String) : String :=
  let plain := String.ofList (plainBrackets s.toList)
  match s.toList.reverse with
  | '\\' :: '\\' :: _ => plain
  | '\\' :: _ => plain ++ "\\"
  | _ => plain

/-- The lines of a message as they are shown. -/
def shownLines (s : String) : List (List Char) :=
  (splitAtChar '\n' (withoutControls s.toList)).map fun line => (expandTabs line).flatten

/-- A message as it is shown, with a line feed behind it. -/
def shown (s : String) : String :=
  String.join ((shownLines s).map fun line => String.ofList line ++ "\n")

/-! ### Tables -/

/-- A column of a table: its title, and whether its cells stand to the right. -/
structure Column where
  /-- The text of the first row. -/
  title : String
  /-- Whether the cells stand to the right. -/
  toRight : Bool := false

/-- A line filled up with blanks to a width. -/
def fillLine (toRight : Bool) (width : Nat) (line : List Char) : List Char :=
  let blanks := List.replicate (width - cellWidth line) ' '
  if toRight then blanks ++ line else line ++ blanks

/-- A line in the middle of a width. -/
def centerLine (width : Nat) (line : List Char) : List Char :=
  let free := width - cellWidth line
  List.replicate (free / 2) ' ' ++ line ++ List.replicate (free - free / 2) ' '

/-- A line that frames a table: a stretch for each column between marks. -/
def frame (left stretch between right : Char) (widths : List Nat) : List Char :=
  left :: ([between].intercalate (widths.map fun w => List.replicate (w + 2) stretch) ++ [right])

/-- The lines of a row: its cells line by line between marks, the lower ones filled up. -/
def rowLines (mark : Char) (columns : List (Column × Nat)) (cells : List (List (List Char))) :
    List (List Char) :=
  let height := (cells.map List.length).foldl max 0
  (List.range height).map fun i =>
    let parts := (columns.zip cells).map fun ((column, width), lines) =>
      ' ' :: fillLine column.toRight width (lines.getD i []) ++ [' ']
    mark :: ([mark].intercalate parts ++ [mark])

/-- A table with a title over it. -/
def table (title : String) (columns : List Column) (rows : List (List String)) : String :=
  let heads := columns.map fun c => shownLines c.title
  let rows := rows.map (·.map shownLines)
  let widths := columns.zipIdx.map fun (_, i) =>
    (((heads :: rows).flatMap fun r => r.getD i []).map cellWidth).foldl max 0
  let sized := columns.zip widths
  let lines := [
    centerLine (widths.foldl (fun n w => n + w + 3) 1) title.toList,
    frame '┏' '━' '┳' '┓' widths] ++
    rowLines '┃' sized heads ++ [frame '┡' '━' '╇' '┩' widths] ++
    rows.flatMap (rowLines '│' sized) ++ [frame '└' '─' '┴' '┘' widths]
  String.join (lines.map fun line => String.ofList line ++ "\n")

end Screen

end MailRules
