/-!
# Matching blocks of two sequences

Two sequences are compared by their longest common run, and then in the same way by what stands
before it in both and what stands behind it in both.

* `longestRun` is the longest run that two sequences share; of several, the one that begins
  first in the first sequence, and then in the second.
* `matchingBlocks` are the runs of the comparison in ascending order, with runs that touch in
  both sequences joined.
* `similarity` is the share of members that lie in a block.

Members of the second sequence may be marked as popular.  A popular member begins no run; a run
only extends over it.
-/

namespace MailRules

/-- A run of `size` equal members at the given positions of two sequences. -/
structure Block where
  /-- Where the run begins in the first sequence. -/
  a : Nat
  /-- Where it begins in the second. -/
  b : Nat
  /-- How long it is. -/
  size : Nat
  deriving DecidableEq, Inhabited

namespace Sequence

variable {α : Type} [BEq α]

/-- The length of the common beginning of two lists. -/
def commonLength : List α → List α → Nat
  | x :: xs, y :: ys => if x == y then commonLength xs ys + 1 else 0
  | _, _ => 0

/-- For each member of the second list, the length of the run that ends at `x` and there; `before`
holds, for each, the length of the run that ends one place earlier in both. -/
def runLengths (x : α) : List Nat → List (α × Bool) → List Nat
  | n :: before, (y, popular) :: ys =>
    (if !popular && x == y then n + 1 else 0) :: runLengths x before ys
  | _, _ => []

/-- The better of a run and the runs of the given lengths that end at position `i` and at `j`,
`j + 1` and so on. -/
def bestOf (i : Nat) (best : Block) : Nat → List Nat → Block
  | _, [] => best
  | j, n :: ns =>
    bestOf i (if best.size < n then ⟨i + 1 - n, j + 1 - n, n⟩ else best) (j + 1) ns

/-- The longest run, given the position in the first list, the run lengths that end just before
it, and the best run so far. -/
def longestFrom (ys : List (α × Bool)) : Nat → List Nat → Block → List α → Block
  | _, _, best, [] => best
  | i, before, best, x :: xs =>
    let row := runLengths x (0 :: before) ys
    longestFrom ys (i + 1) row (bestOf i best 0 row) xs

/-- The longest common run, extended over popular members on both sides. -/
def longestRun (xs : List α) (ys : List (α × Bool)) : Block :=
  let best := longestFrom ys 0 (ys.map fun _ => 0) ⟨0, 0, 0⟩ xs
  let plain := ys.map (·.1)
  let left := commonLength (xs.take best.a).reverse (plain.take best.b).reverse
  let right := commonLength (xs.drop (best.a + best.size)) (plain.drop (best.b + best.size))
  ⟨best.a - left, best.b - left, left + best.size + right⟩

/-- The blocks of two lists that stand at the given offsets.  A block takes a member at least out
of the first list, so what is left on either side of it is shorter, and the length of the first
list is fuel enough. -/
def blocksFrom : Nat → Nat → Nat → List α → List (α × Bool) → List Block
  | 0, _, _, _, _ => []
  | fuel + 1, i, j, xs, ys =>
    let m := longestRun xs ys
    if m.size = 0 then []
    else
      blocksFrom fuel i j (xs.take m.a) (ys.take m.b) ++
        ⟨i + m.a, j + m.b, m.size⟩ ::
        blocksFrom fuel (i + m.a + m.size) (j + m.b + m.size) (xs.drop (m.a + m.size))
          (ys.drop (m.b + m.size))

/-- Joins blocks that touch in both sequences. -/
def joinTouching : List Block → List Block
  | [] => []
  | m :: ms => match joinTouching ms with
    | n :: ns =>
      if m.a + m.size = n.a ∧ m.b + m.size = n.b then ⟨m.a, m.b, m.size + n.size⟩ :: ns
      else m :: n :: ns
    | [] => [m]

/-- Marks the members that occur more often than one time in a hundred, and once more.  In lists
of less than two hundred members none is marked. -/
def markPopular (ys : List α) : List (α × Bool) :=
  if ys.length < 200 then ys.map fun y => (y, false)
  else ys.map fun y => (y, ys.length / 100 + 1 < ys.count y)

/-- The matching blocks of two sequences. -/
def matchingBlocks (xs : List α) (ys : List (α × Bool)) : List Block :=
  joinTouching (blocksFrom xs.length 0 0 xs ys)

/-- The members of each sequence that lie in blocks. -/
def covered : List Block → Nat
  | [] => 0
  | m :: ms => m.size + covered ms

/-- Twice the matching members over all members; two empty sequences are alike. -/
def similarity (xs ys : List α) : Float :=
  let total := xs.length + ys.length
  if total = 0 then 1.0
  else
    let matching := covered (matchingBlocks xs (ys.map fun y => (y, false)))
    2.0 * Float.ofNat matching / Float.ofNat total

end Sequence

end MailRules
