import MailRules.Proofs.Account.Apply
import MailRules.Proofs.Diff.Filters

/-!
# Filters that are declared no more

A plan deletes filters by their ids, but finds them by content.  Of several filters of one content
it finds the last, so the others stay until the account is compared again.

* `Plan.took_filterDeletions` says which filters have been deleted wherever the run of a plan stops.
* `mem_removed_iff` says which filters are to be removed, by their place in the account;
  `apply_deletes_last_stale` says of a run which of them are deleted.
* `twin_not_deleted` is a run that comes to its end and leaves a filter that is not declared.
-/

namespace MailRules

/-! ### The filters that a run deletes -/

namespace Plan

variable {p : Plan} {removeLabels : Bool} {a : Account}

/-- Filters are deleted only if all filters can be exported. -/
theorem filter_deleteFilter_requests :
    (p.requests removeLabels a).filter (·.method = .deleteFilter) =
      if (p.exportsIn a).isSome then p.filterDeletions else [] := by
  rw [filter_requests]
  cases p.exportsIn a <;> simp

/-- **A run deletes the filters to be removed, one after the other.**  Wherever it stops, it has sent
the first of these requests and no others, and all of them if it comes to its end. -/
theorem took_filterDeletions (p : Plan) (removeLabels : Bool) (s : Session) :
    ∃ done refused, s.Took done refused ((p.apply removeLabels).outcome s).2 ∧
      (done ++ refused).filter (·.method = .deleteFilter) <+: p.filterDeletions ∧
      (((p.apply removeLabels).outcome s).1 = .ok () →
        done.filter (·.method = .deleteFilter) = p.filterDeletions) := by
  cases hv : p.validate with
  | error e =>
    rw [apply_of_invalid hv]
    exact ⟨[], [], .of_eq rfl rfl, List.nil_prefix, fun h => nomatch h⟩
  | ok _ =>
    obtain ⟨done, refused, ht, hp, hok⟩ := follows_apply removeLabels s hv
    refine ⟨done, refused, ht, ?_, fun hdone => ?_⟩
    · have hsent := hp.filter (fun r : Request => decide (r.method = .deleteFilter))
      rw [filter_deleteFilter_requests] at hsent
      refine hsent.trans ?_
      split_ifs
      · exact List.prefix_rfl
      · exact List.nil_prefix
    · obtain ⟨rfl, -⟩ := hok () hdone
      obtain ⟨-, ⟨rs, hrs⟩, -⟩ := of_apply (Prod.ext hdone rfl)
      rw [filter_deleteFilter_requests, hrs]
      rfl

end Plan

/-! ### The last of its content -/

/-- An item is the last of its kind if no other comes behind it. -/
theorem getLast?_filter_eq_some_iff {α : Type} {p : α → Bool} {x : α} {before after : List α}
    (hx : p x = true) (hnot : x ∉ after) :
    ((before ++ x :: after).filter p).getLast? = some x ↔ ∀ y ∈ after, p y = false := by
  rw [List.filter_append, List.filter_cons_of_pos hx, List.getLast?_append_of_ne_nil _ (by simp)]
  constructor
  · intro h y hy
    by_contra hp
    have hmem : y ∈ after.filter p := List.mem_filter.2 ⟨hy, Bool.of_not_eq_false hp⟩
    rw [List.getLast?_cons_of_ne_nil (List.ne_nil_of_mem hmem)] at h
    exact hnot (List.mem_filter.1 (List.mem_of_getLast? h)).1
  · intro h
    rw [List.filter_eq_nil_iff.2 fun y hy => by simp [h y hy]]
    rfl

section

variable {declared existing : MailConfig} {f : Filter} {before after : List Filter}

/-- **Of the filters of one content that is not declared the last is to be removed.** -/
theorem mem_removed_iff (hd : DigestsDistinguish (existing.filters ++ declared.filters))
    (hf : existing.filters = before ++ f :: after) (hnot : f ∉ after)
    (hstale : ∀ g ∈ declared.filters, f.same g = false) :
    f ∈ (diff declared existing).filters.removed ↔ ∀ g ∈ after, f.same g = false := by
  have hmem : ∀ {g}, g ∈ existing.filters → g ∈ existing.filters ++ declared.filters :=
    List.mem_append_left _
  have hfe : f ∈ existing.filters := by simp [hf]
  have hdigest : ∀ g ∈ existing.filters ++ declared.filters,
      (decide (g.digest = f.digest) = false ↔ f.same g = false) := by
    intro g hg
    rw [decide_eq_false_iff_not, Bool.eq_false_iff, not_iff_not]
    exact ⟨fun h => hd f (hmem hfe) g hg h.symm, fun h => (Filter.digest_eq_of_same h).symm⟩
  have hother : ∀ g ∈ declared.filters, g.digest ≠ f.digest := fun g hg =>
    of_decide_eq_false ((hdigest g (List.mem_append_right _ hg)).2 (hstale g hg))
  have hremoved : f ∈ (diff declared existing).filters.removed ↔
      f ∈ onlyIn existing.filters declared.filters := mem_diffFilters_removed
  have hlast : (existing.filters.filter fun g => g.digest = f.digest).getLast? = some f ↔
      ∀ g ∈ after, decide (g.digest = f.digest) = false := by
    rw [hf]
    exact getLast?_filter_eq_some_iff (by simp) hnot
  rw [hremoved, mem_onlyIn_iff, and_iff_left hother, hlast]
  exact forall₂_congr fun g hg => hdigest g (hmem (by simp [hf, hg]))

/-- **A filter that is not declared is deleted exactly if it is the last of its content.**  Where
ids are distinct and digests distinguish the filters, there is one list of ids by which a run
deletes filters: wherever it stops, it has sent the deletions of a first part of the list, and of
the whole list if it comes to its end.  For each content that is not declared, the id of a filter
is in the list exactly if no filter of that content comes after it in the account, and there is
one. -/
theorem apply_deletes_last_stale (hids : (existing.filters.map Filter.id).Nodup)
    (hd : DigestsDistinguish (existing.filters ++ declared.filters)) (removeLabels : Bool) :
    ∃ ids : List String,
      (∀ before f after, existing.filters = before ++ f :: after →
        (∀ g ∈ declared.filters, f.same g = false) →
          (f.id ∈ ids ↔ ∀ g ∈ after, f.same g = false) ∧
            ∃ g ∈ existing.filters, f.same g = true ∧ g.id ∈ ids) ∧
      ∀ s : Session, ∃ done refused,
        s.Took done refused (((diff declared existing).apply removeLabels).outcome s).2 ∧
          (done ++ refused).filter (·.method = .deleteFilter) <+: ids.map .deleteFilter ∧
          ((((diff declared existing).apply removeLabels).outcome s).1 = .ok () →
            done.filter (·.method = .deleteFilter) = ids.map .deleteFilter) := by
  refine ⟨(diff declared existing).filters.removed.map (·.id), fun before f after hf hstale => ?_,
    Plan.took_filterDeletions _ removeLabels⟩
  have hfe : f ∈ existing.filters := by simp [hf]
  have hnot : f ∉ after := by
    have hnodup : (before ++ f :: after).Nodup := hf ▸ hids.of_map _
    exact (List.nodup_cons.1 (List.nodup_append'.1 hnodup).2.1).1
  obtain ⟨g, hg, hfg⟩ := exists_mem_onlyIn hd hfe hstale
  refine ⟨?_, g, (of_mem_onlyIn hg).1, hfg, List.mem_map_of_mem (mem_diffFilters_removed.2 hg)⟩
  rw [← mem_removed_iff hd hf hnot hstale]
  refine ⟨fun hid => ?_, fun h => List.mem_map_of_mem h⟩
  -- the id is that of no other filter
  obtain ⟨k, hk, hkf⟩ := List.mem_map.1 hid
  rwa [← List.inj_on_of_nodup_map hids (of_mem_diff_removed hk).1 hfe hkf]

end

/-! ### Two filters of one content -/

/-- A fetched config with two filters of one content. -/
def twinFilters : MailConfig where
  filters := [archivedUnder "F1", archivedUnder "F2"]

/-- An account that holds two filters of one content. -/
def twinSession : Session where
  account := { filters := ["F1", "F2"].map fun id => .stored {
    id := some id
    criteria := { query := some "a" }
    action := { removeLabelIds := ["INBOX"] } } }

theorem twinFilters_distinguished {declared : MailConfig} (h : declared.filters = []) :
    DigestsDistinguish (twinFilters.filters ++ declared.filters) := by
  intro f hf g hg _
  simp only [twinFilters, h, List.append_nil, List.mem_pair] at hf hg
  rcases hf with rfl | rfl <;> rcases hg with rfl | rfl <;> rfl

/-- Only the second filter is to be removed if neither is declared. -/
theorem diff_twinFilters : diff {} twinFilters =
    { filters := { removed := [archivedUnder "F2"] }, labels := {}, declared := {} } := by
  have hsame : (archivedUnder "F1").digest = (archivedUnder "F2").digest :=
    Filter.digest_eq_of_same rfl
  have hsorted : ([((archivedUnder "F2").digest, archivedUnder "F1"),
      ((archivedUnder "F2").digest, archivedUnder "F2")].mergeSort fun f g => f.1 ≤ g.1) =
        [((archivedUnder "F2").digest, archivedUnder "F1"),
          ((archivedUnder "F2").digest, archivedUnder "F2")] :=
    List.mergeSort_of_pairwise (by simp)
  simp [diff, diffFilters, changedFilters_eq, twinFilters, onlyIn, without, digested, hsame, hsorted,
    keepLast]

/-- The run for an empty config comes to its end and deletes the second filter. -/
theorem apply_twinFilters :
    (((diff {} twinFilters).apply true).outcome twinSession).1 = .ok () ∧
      (((diff {} twinFilters).apply true).outcome twinSession).2.requests =
        [.deleteFilter "F2"] := by
  rw [diff_twinFilters]
  exact ⟨by with_unfolding_all rfl, by with_unfolding_all rfl⟩

/-- The first of the two stays if neither is declared. -/
theorem apply_deletes_last_stale_twins :
    (twinFilters.filters.map Filter.id).Nodup ∧ DigestsDistinguish (twinFilters.filters ++ []) ∧
      ∃ done refused,
        twinSession.Took done refused (((diff {} twinFilters).apply true).outcome twinSession).2 ∧
          .deleteFilter "F1" ∉ done ∧ .deleteFilter "F2" ∈ done := by
  have hids : (twinFilters.filters.map Filter.id).Nodup := by decide
  have hd : DigestsDistinguish (twinFilters.filters ++ ({} : MailConfig).filters) :=
    twinFilters_distinguished rfl
  obtain ⟨ids, hmem, hrun⟩ := apply_deletes_last_stale hids hd true
  obtain ⟨hfirst, -⟩ := hmem [] (archivedUnder "F1") [archivedUnder "F2"] rfl (by simp)
  obtain ⟨hlast, -⟩ := hmem [archivedUnder "F1"] (archivedUnder "F2") [] rfl (by simp)
  obtain ⟨done, refused, ht, -, hall⟩ := hrun twinSession
  have hdone := hall apply_twinFilters.1
  have hdeleted : ∀ id, .deleteFilter id ∈ done ↔ id ∈ ids := fun id => by
    have := congrArg (Request.deleteFilter id ∈ ·) hdone
    simpa [Request.method] using this
  refine ⟨hids, hd, done, refused, ht, fun h => ?_, (hdeleted "F2").2 (hlast.2 (by simp))⟩
  exact absurd (hfirst.1 ((hdeleted "F1").1 h) (archivedUnder "F2") (List.mem_singleton_self _))
    (by decide)

/-- **A filter may stay though it is not declared** and the run comes to its end. -/
theorem twin_not_deleted :
    ¬∀ (declared existing : MailConfig) (removeLabels : Bool) (s : Session),
      (existing.filters.map Filter.id).Nodup →
      DigestsDistinguish (existing.filters ++ declared.filters) →
      (((diff declared existing).apply removeLabels).outcome s).1 = .ok () →
      ∀ f ∈ existing.filters, (∀ g ∈ declared.filters, f.same g = false) →
        .deleteFilter f.id ∈ (((diff declared existing).apply removeLabels).outcome s).2.requests := by
  intro h
  have hsent := h {} twinFilters true twinSession (by decide) (twinFilters_distinguished rfl)
    apply_twinFilters.1 (archivedUnder "F1") List.mem_cons_self (by simp)
  rw [apply_twinFilters.2] at hsent
  exact absurd hsent (by decide)

end MailRules
