import MailRules.Filter.Render
import MailRules.Sequence.Assignment
import MailRules.Sequence.Unified
import MailRules.Text.Color

/-!
# Difference of filters

Which filters have to be added and removed so that an account holds exactly the declared ones.
Filters are compared by content.

* `changedFilters` merges the two sides in order of their digests.
* `lineUp` puts the filters of two lists next to each other by a given assignment, and
  `lineUpSimilar` does so by how alike they look.
* `diffFilters` is the difference, `FilterDiff.render` shows it for review.
-/

namespace MailRules

/-! ### Merging by digest -/

/-- Filters with their digests. -/
abbrev DigestedFilters := List (String × Filter)

/-- Leaves the last of neighbours of the same digest. -/
def keepLast : DigestedFilters → DigestedFilters
  | [] => []
  | [f] => [f]
  | f :: g :: fs => if f.1 = g.1 then keepLast (g :: fs) else f :: keepLast (g :: fs)

/-- Filters in order of their digests, the last of those with the same digest only. -/
def digested (fs : List Filter) : DigestedFilters :=
  keepLast ((fs.map fun f => (f.digest, f)).mergeSort fun f g => f.1 ≤ g.1)

/-- Filters to be added and filters to be removed. -/
structure FilterDiff where
  /-- What is declared and not there. -/
  added : List Filter := []
  /-- What is there and not declared. -/
  removed : List Filter := []
  deriving Inhabited

/-- Merges two lists that are in order of their digests: what stands on the left only has to be
removed, what stands on the right only has to be added. -/
def mergeFilters : DigestedFilters → DigestedFilters → FilterDiff
  | [], ls => { added := ls.map (·.2) }
  | us, [] => { removed := us.map (·.2) }
  | u :: us, l :: ls =>
    if u.1 < l.1 then
      let d := mergeFilters us (l :: ls)
      { d with removed := u.2 :: d.removed }
    else if l.1 < u.1 then
      let d := mergeFilters (u :: us) ls
      { d with added := l.2 :: d.added }
    else mergeFilters us ls
termination_by us ls => us.length + ls.length

/-- The filters to be added to and removed from what an account holds. -/
def changedFilters (existing declared : List Filter) : FilterDiff :=
  mergeFilters (digested existing) (digested declared)

/-! ### Order for review -/

/-- The members of a list at some positions, and then all others in order. -/
def selectFirst (positions : List Nat) (fs : List Filter) : List Filter :=
  positions.filterMap (fs[·]?) ++
    (fs.zipIdx.filter fun p => !positions.contains p.2).map (·.1)

/-- Two lists of filters in the order of an assignment between them; members that are not
assigned follow in their own order. -/
def lineUp (pairs : List (Nat × Nat)) (fs gs : List Filter) : List Filter × List Filter :=
  (selectFirst (pairs.map (·.1)) fs, selectFirst (pairs.map (·.2)) gs)

/-- How far two filters differ, by the lines of their rendering. -/
def reviewCost (xs ys : List String) : Float :=
  1 - Sequence.similarity xs ys

/-- The assignment of filters that look alike. -/
def similarPairs (fs gs : List Filter) : List (Nat × Nat) :=
  let lines := fun (f : Filter) => textLines f.render
  let ys := gs.map lines
  let table := (fs.map fun f =>
    let xs := lines f
    (ys.map (reviewCost xs)).toArray).toArray
  assign (fun i j => (table.getD i #[]).getD j 0) fs.length gs.length

/-- Two lists of filters, those that look alike next to each other. -/
def lineUpSimilar (fs gs : List Filter) : List Filter × List Filter :=
  lineUp (similarPairs fs gs) fs gs

/-! ### The difference -/

/-- How a difference is shown. -/
structure DiffOptions where
  /-- How many equal lines are shown around a change. -/
  contextLines : Int := 5
  /-- Whether the difference is colored. -/
  color : Bool := false
  /-- Whether the searches of filters are shown. -/
  withSearch : Bool := false

namespace FilterDiff

/-- Whether nothing has to be changed. -/
def isEmpty (d : FilterDiff) : Bool :=
  d.added.isEmpty && d.removed.isEmpty

/-- The heads of the two sides of a difference. -/
def heads : String × String := ("Current", "TO BE APPLIED")

/-- The difference for review, as a difference of texts. -/
def render (o : DiffOptions) (d : FilterDiff) : String :=
  let lines := fun fs => textLines (Filter.renderAll o.withSearch fs)
  let diff := Sequence.unifiedDiff heads.1 heads.2 o.contextLines (lines d.removed) (lines d.added)
  if o.color then colorDiff diff else diff

end FilterDiff

/-- The difference between what an account holds and what is declared. -/
def diffFilters (existing declared : List Filter) : FilterDiff :=
  let d := changedFilters existing declared
  if d.added.isEmpty || d.removed.isEmpty then d
  else
    let lined := lineUpSimilar d.added d.removed
    { added := lined.1, removed := lined.2 }

end MailRules
