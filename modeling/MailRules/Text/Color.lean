import MailRules.Text.CellWidth
import MailRules.Text.Lines

/-!
# Colored differences

The lines of a difference in terminal colors: heads of files bold, heads of hunks cyan, removed
lines red and added lines green.

* `expandTabs` replaces a tab by blanks up to the next multiple of eight cells.
* `colorDiff` marks every line that has a style; control characters are left out.
-/

namespace MailRules

/-- The code of a line's style, if it has one. -/
def lineStyle? : List Char → Option String
  | '-' :: '-' :: '-' :: _ => some "1"
  | '+' :: '+' :: '+' :: _ => some "1"
  | '@' :: '@' :: _ => some "36"
  | '-' :: _ => some "31"
  | '+' :: _ => some "32"
  | _ => none

/-- Whether a character would move the cursor or ring the bell. -/
def isControlCode (c : Char) : Bool :=
  [7, 8, 11, 12, 13].contains c.toNat

/-- A text without the characters that move the cursor or ring the bell. -/
def withoutControls (s : List Char) : List Char :=
  s.filter fun c => !isControlCode c

/-- The parts of a line between tabs, each with blanks for the tab that ends it; `cell` is where
the first part begins. -/
def tabParts (cell : Nat) : List (List Char) → List (List Char)
  | [] => []
  | [p] => if p.isEmpty then [] else [p]
  | p :: ps =>
    let stop := (cell + cellWidth p) / 8 * 8 + 8
    (p ++ List.replicate (stop - (cell + cellWidth p)) ' ') :: tabParts stop ps

/-- The parts of a line, with its tabs replaced. -/
def expandTabs (line : List Char) : List (List Char) :=
  tabParts 0 (splitAtChar '\t' line)

/-- A part of a line in a style. -/
def styled (code : String) (part : List Char) : List Char :=
  ("\x1b[" ++ code ++ "m").toList ++ part ++ "\x1b[0m".toList

/-- A line in its style. -/
def colorLine (line : List Char) : List Char :=
  let parts := expandTabs (withoutControls line)
  match lineStyle? line with
  | some code => parts.flatMap (styled code)
  | none => parts.flatten

/-- A difference in colors. -/
def colorDiff (diff : String) : String :=
  String.ofList (['\n'].intercalate ((splitAtChar '\n' diff.toList).map colorLine))

end MailRules
