/-!
# Assignment of least cost

Rows are assigned to columns so that the costs add up to the least.  Rows are taken one after the
other; each is assigned along a shortest augmenting path, under potentials `u` and `v` that keep
all reduced costs at zero or above.

* `Assignment.search` finds the path for a row, `Assignment.augment` turns it into assignments.
* `assign` is the assignment, as pairs of a row and a column in ascending order of rows.  Where
  there are more rows than columns, the columns are assigned to rows.
-/

namespace MailRules

namespace Assignment

/-- What has been assigned so far, and the potentials. -/
structure State where
  /-- The potentials of the rows. -/
  u : Array Float
  /-- The potentials of the columns. -/
  v : Array Float
  /-- The row that each column is assigned. -/
  rowOf : Array (Option Nat)
  /-- The column that each row is assigned. -/
  colOf : Array (Option Nat)

/-- A search for a path: the least costs of reaching each column and from which row, the rows and
columns seen, and the columns that remain, in the order in which they are tried. -/
structure Search where
  /-- The least cost of reaching each column so far. -/
  cost : Array Float
  /-- The row before each column on the way there. -/
  path : Array Nat
  /-- The rows seen. -/
  rows : List Nat
  /-- The columns seen. -/
  cols : List Nat
  /-- The columns that remain. -/
  remaining : Array Nat
  /-- The row that is gone on from. -/
  row : Nat
  /-- The least cost so far. -/
  least : Float
  /-- The free column at the end of the path, once it is found. -/
  sink : Option Nat

/-- The least cost of the remaining columns and where it stands, while the columns are gone
through. -/
structure Scan where
  /-- The least cost of reaching each column so far. -/
  cost : Array Float
  /-- The row before each column on the way there. -/
  path : Array Nat
  /-- Where among the remaining columns the least cost stands. -/
  place : Nat
  /-- The least cost. -/
  low : Float

/-- Tries the remaining column at a place.  A column without a row wins a tie. -/
def scanColumn (costs : Nat → Nat → Float) (s : State) (row : Nat) (least : Float)
    (scan : Scan) (place j : Nat) : Scan :=
  let r := least + costs row j - s.u.getD row 0 - s.v.getD j 0
  let better := r < scan.cost.getD j 0
  let cost := if better then scan.cost.setIfInBounds j r else scan.cost
  let path := if better then scan.path.setIfInBounds j row else scan.path
  let c := cost.getD j 0
  if c < scan.low || (c == scan.low && (s.rowOf.getD j none).isNone) then
    ⟨cost, path, place, c⟩
  else ⟨cost, path, scan.place, scan.low⟩

/-- An infinite cost. -/
def unreached : Float := 1.0 / 0.0

/-- One step of a search: goes through the remaining columns and takes the nearest. -/
def searchStep (costs : Nat → Nat → Float) (s : State) (q : Search) : Search :=
  let scan := q.remaining.toList.zipIdx.foldl
    (fun scan p => scanColumn costs s q.row q.least scan p.2 p.1) ⟨q.cost, q.path, 0, unreached⟩
  let j := q.remaining.getD scan.place 0
  let last := q.remaining.getD (q.remaining.size - 1) 0
  let next := s.rowOf.getD j none
  { cost := scan.cost, path := scan.path, rows := q.row :: q.rows, cols := j :: q.cols,
    remaining := (q.remaining.setIfInBounds scan.place last).pop, row := next.getD q.row,
    least := scan.low, sink := if next.isNone then some j else none }

/-- A search until a column without a row is reached. -/
def search (costs : Nat → Nat → Float) (s : State) : Nat → Search → Search
  | 0, q => q
  | fuel + 1, q => if q.sink.isSome then q else search costs s fuel (searchStep costs s q)

/-- Assigns along the path of a search, from a column back to the row that the search began at. -/
def augment (path : Array Nat) (start : Nat) : Nat → Nat → State → State
  | 0, _, s => s
  | fuel + 1, j, s =>
    let i := path.getD j 0
    let previous := (s.colOf.getD i none).getD 0
    let s := { s with
      rowOf := s.rowOf.setIfInBounds j (some i), colOf := s.colOf.setIfInBounds i (some j) }
    if i = start then s else augment path start fuel previous s

/-- Changes a potential by some amount. -/
def shift (a : Array Float) (i : Nat) (d : Float) : Array Float :=
  a.setIfInBounds i (a.getD i 0 + d)

/-- Assigns one more row. -/
def assignRow (costs : Nat → Nat → Float) (columns : Nat) (s : State) (row : Nat) : State :=
  let q := search costs s (columns + 1)
    { cost := Array.replicate columns unreached, path := Array.replicate columns 0, rows := [],
      cols := [], remaining := ((List.range columns).reverse).toArray, row, least := 0,
      sink := none }
  let u := q.rows.foldl (fun u i =>
    if i = row then u
    else shift u i (q.least - q.cost.getD ((s.colOf.getD i none).getD 0) 0))
    (shift s.u row q.least)
  let v := q.cols.foldl (fun v j =>
    v.setIfInBounds j (v.getD j 0 - (q.least - q.cost.getD j 0))) s.v
  augment q.path row (columns + 1) (q.sink.getD 0) { s with u, v }

/-- The columns that rows are assigned to, where there are at least as many columns. -/
def columnsOf (costs : Nat → Nat → Float) (rows columns : Nat) : List Nat :=
  let s := (List.range rows).foldl (assignRow costs columns)
    { u := Array.replicate rows 0, v := Array.replicate columns 0,
      rowOf := Array.replicate columns none, colOf := Array.replicate rows none }
  s.colOf.toList.map (·.getD 0)

end Assignment

/-- The assignment of least cost between rows and columns. -/
def assign (costs : Nat → Nat → Float) (rows columns : Nat) : List (Nat × Nat) :=
  if rows ≤ columns then (List.range rows).zip (Assignment.columnsOf costs rows columns)
  else
    let pairs := (Assignment.columnsOf (fun i j => costs j i) columns rows).zip
      (List.range columns)
    pairs.mergeSort fun p q => p.1 ≤ q.1

end MailRules
