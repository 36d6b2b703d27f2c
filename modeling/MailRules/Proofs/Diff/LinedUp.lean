import MailRules.Proofs.Diff.Visible
import Mathlib.Data.List.Perm.Basic
import Mathlib.Data.List.Range

/-!
# Lining up loses nothing

The filters of a difference are put next to each other by an assignment, for review.  Whichever
assignment it is, all filters are there afterwards as often as before, each with its id.

* `IsAssignment` is what is asked of an assignment between the positions of two lists.
* `Rearranges` says that a list holds what stands at some positions of another, and then the rest in
  order; it has the same members as often (`Rearranges.perm`), and is the same list if the positions
  are all there are, in order (`Rearranges.eq_self`).
* `lineUp_rearranges` says how two lists are lined up, and that a difference of filters has the
  members that it was found to have.
-/

namespace MailRules

/-- Pairs of a row and a column that assign as many rows as can be, in order, to columns of their
own. -/
structure IsAssignment (pairs : List (Nat × Nat)) (rows columns : Nat) : Prop where
  /-- As many rows are assigned as can be. -/
  length : pairs.length = min rows columns
  /-- The rows are in order. -/
  ascending : (pairs.map Prod.fst).Pairwise (· < ·)
  /-- The rows are there. -/
  row_lt : ∀ p ∈ pairs, p.1 < rows
  /-- No column is assigned twice. -/
  distinct : (pairs.map Prod.snd).Nodup
  /-- The columns are there. -/
  column_lt : ∀ p ∈ pairs, p.2 < columns

instance (pairs : List (Nat × Nat)) (rows columns : Nat) :
    Decidable (IsAssignment pairs rows columns) :=
  decidable_of_iff (pairs.length = min rows columns ∧ (pairs.map Prod.fst).Pairwise (· < ·) ∧
      (∀ p ∈ pairs, p.1 < rows) ∧ (pairs.map Prod.snd).Nodup ∧ ∀ p ∈ pairs, p.2 < columns)
    ⟨fun ⟨h₁, h₂, h₃, h₄, h₅⟩ => ⟨h₁, h₂, h₃, h₄, h₅⟩, fun ⟨h₁, h₂, h₃, h₄, h₅⟩ =>
      ⟨h₁, h₂, h₃, h₄, h₅⟩⟩

/-! ### Lists in another order -/

/-- A list holds what stands at the given positions of another, and then what stands at all others,
in order. -/
def Rearranges (first : List Nat) (fs out : List Filter) : Prop :=
  ∃ rest : List Nat, rest.Pairwise (· < ·) ∧ (first ++ rest).Perm (List.range fs.length) ∧
    out.map some = (first ++ rest).map (fs[·]?)

variable {ks : List Nat} {fs gs out : List Filter}

theorem map_some_eq (fs : List Filter) : fs.map some = (List.range fs.length).map (fs[·]?) := by
  refine List.ext_getElem (by simp) fun i hi _ => ?_
  simp

namespace Rearranges

/-- What is rearranged has the same members, each as often as before. -/
theorem perm (h : Rearranges ks fs out) : out.Perm fs := by
  obtain ⟨rest, -, hperm, hout⟩ := h
  refine (List.map_perm_map_iff (Option.some_injective Filter)).1 ?_
  rw [hout, map_some_eq fs]
  exact hperm.map _

/-- Each of the given positions is followed in its turn. -/
theorem getElem? (h : Rearranges ks fs out) {k i : Nat} (hk : ks[k]? = some i) :
    out[k]? = fs[i]? := by
  obtain ⟨rest, -, hperm, hout⟩ := h
  have hi : i < fs.length := List.mem_range.1
    (hperm.subset (List.mem_append_left _ (List.mem_of_getElem? hk)))
  have hsome : (out.map some)[k]? = some fs[i]? := by
    rw [hout, List.getElem?_map, List.getElem?_append_left (List.getElem?_eq_some_iff.1 hk).1, hk]
    rfl
  rw [List.getElem?_map] at hsome
  obtain ⟨f, hf, hfi⟩ := Option.map_eq_some_iff.1 hsome
  rw [hf, ← hfi]

/-- All positions in order lead to the list itself. -/
theorem eq_self (h : Rearranges ks fs out) (hks : ks.Pairwise (· < ·))
    (hlen : ks.length = fs.length) : out = fs := by
  obtain ⟨rest, -, hperm, hout⟩ := h
  have hrest : rest = [] := by
    have := hperm.length_eq
    rw [List.length_append, List.length_range] at this
    exact List.length_eq_zero_iff.1 (by omega)
  rw [hrest, List.append_nil] at hperm hout
  have hrange : ks = List.range fs.length :=
    hperm.eq_of_pairwise (fun a b _ _ hab hba => absurd hab hba.asymm) hks List.pairwise_lt_range
  refine List.map_injective_iff.2 (Option.some_injective Filter) ?_
  rw [hout, hrange, map_some_eq fs]

end Rearranges

/-! ### Members at some positions -/

theorem map_some_filterMap (h : ∀ k ∈ ks, k < fs.length) :
    (ks.filterMap (fs[·]?)).map some = ks.map (fs[·]?) := by
  induction ks with
  | nil => rfl
  | cons k ks ih =>
    obtain ⟨hk, hks⟩ := List.forall_mem_cons.1 h
    rw [List.filterMap_cons, List.getElem?_eq_getElem hk, List.map_cons, List.map_cons, ih hks,
      List.getElem?_eq_getElem hk]

/-- The members at positions of a kind are those of the positions of that kind, in order. -/
theorem map_some_filter_zipIdx (q : Nat → Bool) (fs : List Filter) :
    ((fs.zipIdx.filter fun p => q p.2).map (·.1)).map some =
      ((List.range fs.length).filter q).map (fs[·]?) := by
  have hpositions : fs.zipIdx.map Prod.snd = List.range fs.length := by
    rw [List.zipIdx_map_snd, List.range_eq_range']
  rw [← hpositions, List.filter_map, List.map_map, List.map_map]
  refine List.map_congr_left fun p hp => ?_
  exact (List.mem_zipIdx_iff_getElem?.1 (List.mem_filter.1 hp).1).symm

/-- **Selecting positions rearranges a list.** -/
theorem rearranges_selectFirst (hnd : ks.Nodup) (hlt : ∀ k ∈ ks, k < fs.length) :
    Rearranges ks fs (selectFirst ks fs) := by
  refine ⟨(List.range fs.length).filter fun k => !ks.contains k,
    List.pairwise_lt_range.filter _, ?_, ?_⟩
  · have hnodup : (ks ++ (List.range fs.length).filter fun k => !ks.contains k).Nodup := by
      refine List.nodup_append'.2 ⟨hnd, List.nodup_range.filter _, fun k hk hk' => ?_⟩
      simpa [hk] using (List.mem_filter.1 hk').2
    refine (List.perm_ext_iff_of_nodup hnodup List.nodup_range).2 fun k => ?_
    simp only [List.mem_append, List.mem_filter, List.mem_range, Bool.not_eq_true',
      List.contains_eq_mem, decide_eq_false_iff_not]
    by_cases hk : k ∈ ks
    · simp [hk, hlt k hk]
    · simp [hk]
  · rw [selectFirst, List.map_append, List.map_append, map_some_filterMap hlt,
      map_some_filter_zipIdx fun k => !ks.contains k]

/-! ### Two lists next to each other -/

/-- Two lists stand next to each other by the pairs of an assignment. -/
structure LinedUp (pairs : List (Nat × Nat)) (fs gs : List Filter)
    (lined : List Filter × List Filter) : Prop where
  /-- The first list begins with its assigned members. -/
  left : Rearranges (pairs.map Prod.fst) fs lined.1
  /-- The second list begins with its assigned members. -/
  right : Rearranges (pairs.map Prod.snd) gs lined.2
  /-- The members of each pair are in its place. -/
  paired : ∀ k i j : Nat, pairs[k]? = some (i, j) → lined.1[k]? = fs[i]? ∧ lined.2[k]? = gs[j]?
  /-- A list that is not longer keeps its order. -/
  leftKept : fs.length ≤ gs.length → lined.1 = fs

theorem IsAssignment.linedUp {pairs : List (Nat × Nat)}
    (h : IsAssignment pairs fs.length gs.length) : LinedUp pairs fs gs (lineUp pairs fs gs) := by
  have hleft : Rearranges (pairs.map Prod.fst) fs (lineUp pairs fs gs).1 :=
    rearranges_selectFirst (h.ascending.imp Nat.ne_of_lt) (List.forall_mem_map.2 h.row_lt)
  have hright : Rearranges (pairs.map Prod.snd) gs (lineUp pairs fs gs).2 :=
    rearranges_selectFirst h.distinct (List.forall_mem_map.2 h.column_lt)
  refine ⟨hleft, hright, fun k i j hk => ⟨hleft.getElem? ?_, hright.getElem? ?_⟩, fun hle => ?_⟩
  · rw [List.getElem?_map, hk]
    rfl
  · rw [List.getElem?_map, hk]
    rfl
  · refine hleft.eq_self h.ascending ?_
    rw [List.length_map, h.length, Nat.min_eq_left hle]

/-- **Lining up loses nothing.**  By an assignment, both lists are rearranged, the members of each
pair in one place.  So where a difference is lined up by one, it has the filters that are to be
added and removed, each as often as before and with its id. -/
theorem lineUp_rearranges {pairs : List (Nat × Nat)}
    (h : IsAssignment pairs fs.length gs.length) :
    LinedUp pairs fs gs (lineUp pairs fs gs) ∧
      ∀ existing declared, changedFilters existing declared = { added := fs, removed := gs } →
        similarPairs fs gs = pairs →
        (diffFilters existing declared).added.Perm fs ∧
          (diffFilters existing declared).removed.Perm gs := by
  refine ⟨h.linedUp, fun existing declared hchanged hpairs => ?_⟩
  simp only [diffFilters, hchanged, lineUpSimilar, hpairs]
  split_ifs
  · exact ⟨.refl _, .refl _⟩
  · exact ⟨h.linedUp.left.perm, h.linedUp.right.perm⟩

/-- Five filters that are equal but for their ids stand next to each other by the pairs, and one
filter in the place of another is added as it is. -/
theorem lineUp_rearranges_twins :
    IsAssignment [(0, 1), (2, 0)] 3 2 ∧
      (lineUp [(0, 1), (2, 0)] [archivedUnder "1", archivedUnder "2", archivedUnder "3"]
        [archivedUnder "4", archivedUnder "5"]).1.Perm
          [archivedUnder "1", archivedUnder "2", archivedUnder "3"] ∧
      (lineUp [(0, 1), (2, 0)] [archivedUnder "1", archivedUnder "2", archivedUnder "3"]
        [archivedUnder "4", archivedUnder "5"]).1[1]? = some (archivedUnder "3") ∧
      IsAssignment [(0, 0)] 1 1 ∧
      (diffFilters [archivedQuery "a b"] [archivedQuery "a  b"]).added.Perm
        [archivedQuery "a  b"] := by
  have htwins : IsAssignment [(0, 1), (2, 0)]
      [archivedUnder "1", archivedUnder "2", archivedUnder "3"].length
      [archivedUnder "4", archivedUnder "5"].length := by decide
  have hsingle : IsAssignment [(0, 0)] [archivedQuery "a  b"].length [archivedQuery "a b"].length :=
    by decide
  have hchanged : changedFilters [archivedQuery "a b"] [archivedQuery "a  b"] =
      { added := [archivedQuery "a  b"], removed := [archivedQuery "a b"] } := by
    rw [changedFilters_eq, onlyIn_singleton digest_spacedQuery,
      onlyIn_singleton digest_spacedQuery.symm]
  have hpairs : similarPairs [archivedQuery "a  b"] [archivedQuery "a b"] = [(0, 0)] := by
    decide +kernel
  exact ⟨htwins, (lineUp_rearranges htwins).1.left.perm,
    ((lineUp_rearranges htwins).1.paired 1 2 0 rfl).1, hsingle,
    ((lineUp_rearranges hsingle).2 _ _ hchanged hpairs).1⟩

end MailRules
