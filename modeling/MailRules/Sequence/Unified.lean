import MailRules.Sequence.Matching

/-!
# Unified differences

The difference of two lists of lines as hunks: the changed lines, marked by `-` and `+`, with some
unchanged lines around them.

* `edits` turns matching blocks into a list of spans that are equal or replaced.
* `hunks` cuts the spans into groups, so that no group has a long unchanged stretch.
* `unifiedDiff` writes the hunks under a header; equal lists have no difference to show.
-/

namespace MailRules

/-- A span of two lists of lines, from `a1` to `a2` in the first and `b1` to `b2` in the second.
Bounds are integers, since the context around a change may be given as any integer. -/
structure Span where
  /-- Whether the lines are the same on both sides. -/
  equal : Bool
  /-- Where the span begins in the first list. -/
  a1 : Int
  /-- Where it ends there. -/
  a2 : Int
  /-- Where the span begins in the second list. -/
  b1 : Int
  /-- Where it ends there. -/
  b2 : Int
  deriving DecidableEq, Inhabited

namespace Sequence

/-- The spans of two lists, from the given positions on, by the blocks that match. -/
def editsFrom (i j : Nat) (la lb : Nat) : List Block → List Span
  | [] => if i < la ∨ j < lb then [⟨false, i, la, j, lb⟩] else []
  | m :: ms =>
    let gap : List Span := if i < m.a ∨ j < m.b then [⟨false, i, m.a, j, m.b⟩] else []
    gap ++ ⟨true, m.a, m.a + m.size, m.b, m.b + m.size⟩ ::
      editsFrom (m.a + m.size) (m.b + m.size) la lb ms

/-- Leaves at most the given context of an unchanged span at the beginning. -/
def trimFirst (n : Int) : List Span → List Span
  | s :: ss => (if s.equal then { s with a1 := max s.a1 (s.a2 - n), b1 := max s.b1 (s.b2 - n) }
      else s) :: ss
  | [] => []

/-- Leaves at most the given context of an unchanged span at the end. -/
def trimLast (n : Int) : List Span → List Span
  | [] => []
  | [s] => [if s.equal then { s with a2 := min s.a2 (s.a1 + n), b2 := min s.b2 (s.b1 + n) } else s]
  | s :: ss => s :: trimLast n ss

/-- Whether a group shows any change. -/
def showsChange (group : List Span) : Bool :=
  match group with
  | [] => false
  | [s] => !s.equal
  | _ => true

/-- Cuts spans at unchanged stretches of more than twice the context. -/
def groupSpans (n : Int) (group : List Span) : List Span → List (List Span)
  | [] => if showsChange group then [group] else []
  | s :: ss =>
    if s.equal ∧ 2 * n < s.a2 - s.a1 then
      (group ++ [{ s with a2 := min s.a2 (s.a1 + n), b2 := min s.b2 (s.b1 + n) }]) ::
        groupSpans n [{ s with a1 := max s.a1 (s.a2 - n), b1 := max s.b1 (s.b2 - n) }] ss
    else groupSpans n (group ++ [s]) ss

/-- The groups of changes of two lists, with the given context. -/
def hunks (n : Int) (xs ys : List String) : List (List Span) :=
  let spans := editsFrom 0 0 xs.length ys.length (matchingBlocks xs (markPopular ys))
  let spans := if spans.isEmpty then [⟨true, 0, 1, 0, 1⟩] else spans
  groupSpans n [] (trimLast n (trimFirst n spans))

/-- A bound as a position of a list; a negative one counts from the end. -/
def position (length : Nat) (i : Int) : Nat :=
  (if i < 0 then i + length else i).toNat

/-- The members of a list between two bounds. -/
def between {α : Type} (xs : List α) (i j : Int) : List α :=
  let start := position xs.length i
  (xs.take (position xs.length j)).drop start

/-- The lines of a range, as a hunk's head gives them: the first and their number, which is left
out if it is one.  An empty range is given by the line before it. -/
def rangeText (start stop : Int) : String :=
  let length := stop - start
  if length = 1 then toString (start + 1)
  else if length = 0 then toString start ++ ",0"
  else toString (start + 1) ++ "," ++ toString length

/-- The lines of a span, with their marks. -/
def spanLines (xs ys : List String) (s : Span) : List String :=
  if s.equal then (between xs s.a1 s.a2).map (" " ++ ·)
  else (between xs s.a1 s.a2).map ("-" ++ ·) ++ (between ys s.b1 s.b2).map ("+" ++ ·)

/-- A hunk with its head. -/
def hunkLines (xs ys : List String) (group : List Span) : List String :=
  match group.head?, group.getLast? with
  | some first, some last =>
    ("@@ -" ++ rangeText first.a1 last.a2 ++ " +" ++ rangeText first.b1 last.b2 ++ " @@\n") ::
      group.flatMap (spanLines xs ys)
  | _, _ => []

/-- The difference of two lists of lines. -/
def unifiedDiff (oldName newName : String) (n : Int) (xs ys : List String) : String :=
  match hunks n xs ys with
  | [] => ""
  | groups => String.join (["--- " ++ oldName ++ "\n", "+++ " ++ newName ++ "\n"] ++
      groups.flatMap (hunkLines xs ys))

end Sequence

end MailRules
