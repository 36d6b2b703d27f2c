import MailRules.Proofs.Diff.Filters
import MailRules.Proofs.Filter.Review
import MailRules.Proofs.Sequence.Unified

/-!
# When a difference of filters can be seen

Whether there is a difference is decided on the contents of filters; what a user sees and confirms
is a difference of texts.

* `FilterDiff.showsChange_render_iff`: a difference shows a change exactly if the texts of its two
  sides differ.
* `diffFilters_visible_iff`: of filters without line feeds, a difference that is not empty shows
  nothing exactly if no searches are shown and its two sides are shown alike, filter by filter.
* Such filters differ in their queries (`query_ne_of_mem_diffFilters`), though in spaces and line
  feeds only (`Filter.ShownAlike.visible_query`); `spacedQuery_not_visible` is a difference of them.
* `sha256_eq_of_blocks` finds a digest in two steps, to tell the digests of two filters apart.
-/

namespace MailRules

open Sequence (ShowsChange)

variable {existing declared : List Filter} {o : DiffOptions}

/-! ### Differences of texts -/

theorem complete_ended {ls : List (List Char)} (h : ls ≠ []) : Complete (ended ls) := by
  rw [← List.dropLast_concat_getLast h, ended_append]
  have hlast : Complete (ended [ls.getLast h]) := by
    rw [ended_cons, ended_nil]
    exact Complete.append ⟨'\n', rfl, rfl⟩ _
  exact hlast.append _

namespace Filter

/-- A review ends with a line end, unless there is nothing to review. -/
theorem complete_renderAll (withSearch : Bool) {fs : List Filter} (h : fs ≠ []) :
    Complete (renderAll withSearch fs).toList := by
  obtain ⟨fs, f, rfl⟩ := (List.eq_nil_or_concat' fs).resolve_left h
  have htext := toList_renderAll withSearch h
  -- the empty line below the last filter is cut off
  rw [List.flatMap_append, List.flatMap_singleton, closing, ← List.cons_append,
    ← List.append_assoc, ended_append] at htext
  rw [List.append_cancel_right htext]
  exact complete_ended (List.append_ne_nil_of_right_ne_nil _ (List.cons_ne_nil _ _))

theorem complete_of_mem_review (withSearch : Bool) (fs : List Filter) :
    ∀ l ∈ textLines (renderAll withSearch fs), Complete l.toList := by
  intro l hl
  obtain ⟨s, hs, rfl⟩ := List.mem_map.1 hl
  rw [String.toList_ofList]
  refine complete_of_mem_linesKeeping ?_ s hs
  rcases eq_or_ne fs [] with rfl | hne
  · exact .inl rfl
  · exact .inr (complete_renderAll withSearch hne)

end Filter

theorem textLines_inj {s t : String} : textLines s = textLines t ↔ s = t := by
  refine ⟨fun h => ?_, congrArg _⟩
  have hofList : Function.Injective String.ofList := fun a b hab => by
    simpa using congrArg String.toList hab
  exact String.toList_injective (linesKeeping_injective (List.map_injective_iff.2 hofList h))

/-- **What a difference shows.**  It shows a change exactly if its two sides are reviewed
differently. -/
theorem FilterDiff.showsChange_render_iff (d : FilterDiff) (hcolor : o.color = false)
    (hn : 0 ≤ o.contextLines) :
    ShowsChange (d.render o) ↔
      Filter.renderAll o.withSearch d.removed ≠ Filter.renderAll o.withSearch d.added := by
  have hplain : d.render o = Sequence.unifiedDiff "Current" "TO BE APPLIED" o.contextLines
      (textLines (Filter.renderAll o.withSearch d.removed))
      (textLines (Filter.renderAll o.withSearch d.added)) := by
    rw [render, hcolor, if_neg Bool.false_ne_true, heads]
  have hold : ∀ x ∈ "Current".toList, isLineEnd x = false := by simp [isLineEnd]
  have hnew : ∀ x ∈ "TO BE APPLIED".toList, isLineEnd x = false := by simp [isLineEnd]
  rw [hplain, Sequence.showsChange_unifiedDiff_iff hold hnew hn
    (Filter.complete_of_mem_review _ _) (Filter.complete_of_mem_review _ _), ne_eq, textLines_inj]

/-! ### Differences of contents -/

/-- Two sides of a difference that are shown alike differ in a query. -/
theorem query_ne_of_mem_diffFilters {f g : Filter}
    (hf : f ∈ (diffFilters existing declared).removed)
    (hg : g ∈ (diffFilters existing declared).added) (h : f.ShownAlike g) :
    f.criteria.query ≠ g.criteria.query := by
  intro hquery
  have hsame : f.same g = true := by
    rw [Filter.same_iff, Filter.content, Filter.content, Filter.criteria_eq_of_alike h hquery,
      h.action]
  have hdeclared := (of_mem_onlyIn (mem_diffFilters_added.1 hg)).1
  rw [(of_mem_onlyIn (mem_diffFilters_removed.1 hf)).2 g hdeclared] at hsame
  cases hsame

/-- Where filters are shown alike, their queries are the same but for spaces and line feeds. -/
theorem Filter.ShownAlike.visible_query {f g : Filter} (h : f.ShownAlike g) :
    f.criteria.query.toList.filter isVisible = g.criteria.query.toList.filter isVisible := by
  rw [← filter_isVisible_indentQuery f.criteria.query 2, h.query, filter_isVisible_indentQuery]

theorem singleLine_of_mem_diffFilters (h : ∀ f ∈ existing ++ declared, f.SingleLine) :
    (∀ f ∈ (diffFilters existing declared).removed, f.SingleLine) ∧
      ∀ g ∈ (diffFilters existing declared).added, g.SingleLine :=
  ⟨fun f hf => h f (List.mem_append_left _ (of_mem_onlyIn (mem_diffFilters_removed.1 hf)).1),
    fun g hg => h g (List.mem_append_right _ (of_mem_onlyIn (mem_diffFilters_added.1 hg)).1)⟩

/-- **When a difference can be seen.**  A difference shows a change exactly if its two sides are
reviewed differently.  Of filters without line feeds, one that is not empty shows nothing exactly if
the searches are left out and each filter to be removed is shown as the one to be added in its
place. -/
theorem diffFilters_visible_iff (hcolor : o.color = false) (hn : 0 ≤ o.contextLines) :
    (ShowsChange ((diffFilters existing declared).render o) ↔
      Filter.renderAll o.withSearch (diffFilters existing declared).removed ≠
        Filter.renderAll o.withSearch (diffFilters existing declared).added) ∧
    ((diffFilters existing declared).isEmpty = false →
      (∀ f ∈ existing ++ declared, f.SingleLine) →
      (¬ShowsChange ((diffFilters existing declared).render o) ↔
        o.withSearch = false ∧ List.Forall₂ Filter.ShownAlike
          (diffFilters existing declared).removed (diffFilters existing declared).added)) := by
  have hshows := (diffFilters existing declared).showsChange_render_iff hcolor hn
  refine ⟨hshows, fun hempty hsingle => ?_⟩
  obtain ⟨hremoved, hadded⟩ := singleLine_of_mem_diffFilters hsingle
  rw [hshows, ne_eq, not_not, Filter.renderAll_eq_iff hremoved hadded]
  constructor
  · intro halike
    refine ⟨Bool.eq_false_iff.2 fun hsearch => ?_, halike.imp fun f g hfg => hfg.1⟩
    -- with the search the first two would be the same
    revert hempty halike
    generalize hrs : (diffFilters existing declared).removed = rs
    generalize has : (diffFilters existing declared).added = as
    intro hempty halike
    cases halike with
    | nil =>
      rw [FilterDiff.isEmpty, has, hrs] at hempty
      cases hempty
    | @cons f g rs as hfg _ =>
      exact query_ne_of_mem_diffFilters (hrs ▸ List.mem_cons_self) (has ▸ List.mem_cons_self)
        hfg.1 (hfg.2 hsearch)
  · rintro ⟨hsearch, halike⟩
    refine halike.imp fun f g hfg => ⟨hfg, fun h => ?_⟩
    rw [hsearch] at h
    cases h

/-- A new filter is seen. -/
theorem diffFilters_visible_iff_newFilter :
    ({} : DiffOptions).color = false ∧ 0 ≤ ({} : DiffOptions).contextLines ∧
      (diffFilters [] [archivedUnder ""]).isEmpty = false ∧
      (∀ f ∈ [] ++ [archivedUnder ""], f.SingleLine) ∧
      ShowsChange ((diffFilters [] [archivedUnder ""]).render {}) := by
  have hadded : archivedUnder "" ∈ (diffFilters [] [archivedUnder ""]).added :=
    mem_diffFilters_added.2 (mem_onlyIn_iff.2 ⟨by simp, by simp⟩)
  have hempty : (diffFilters [] [archivedUnder ""]).isEmpty = false := by
    rw [FilterDiff.isEmpty, List.isEmpty_eq_false_iff.2 (List.ne_nil_of_mem hadded), Bool.false_and]
  have hsingle : ∀ f ∈ [] ++ [archivedUnder ""], f.SingleLine := by
    intro f hf
    obtain rfl := List.mem_singleton.1 hf
    exact ⟨by decide, by decide, by decide, by decide, by decide, by decide⟩
  have hcolor : ({} : DiffOptions).color = false := rfl
  have hn : 0 ≤ ({} : DiffOptions).contextLines := by decide
  have hvisible := (diffFilters_visible_iff hcolor hn).2 hempty hsingle
  refine ⟨hcolor, hn, hempty, hsingle, not_not.1 fun hnot => ?_⟩
  -- nothing is removed that could be shown in its place
  have halike := (hvisible.1 hnot).2
  have hremoved : (diffFilters [] [archivedUnder ""]).removed = [] :=
    List.eq_nil_iff_forall_not_mem.2 fun f hf =>
      List.not_mem_nil (of_mem_onlyIn (mem_diffFilters_removed.1 hf)).1
  rw [hremoved, List.forall₂_nil_left_iff] at halike
  exact List.ne_nil_of_mem hadded halike

/-! ### Digests in steps -/

namespace Sha256

/-- Some blocks are worked in first, then the others. -/
theorem blocks_add (m n : Nat) (s : Array UInt32) (ws : List UInt32) :
    blocks (m + n) s ws = blocks n (blocks m s ws) (ws.drop (16 * m)) := by
  induction m generalizing s ws with
  | zero => simp [blocks]
  | succ m ih =>
    rw [Nat.add_right_comm, blocks, blocks]
    split_ifs with hws
    · rw [List.isEmpty_iff.1 hws, List.drop_nil]
      cases n <;> rfl
    · rw [ih, List.drop_drop, Nat.mul_succ, Nat.add_comm 16]

end Sha256

/-- A digest from the state that is reached behind some blocks. -/
theorem sha256_eq_of_blocks {message : List UInt8} {m n : Nat} {s t : Array UInt32}
    (hlen : (Sha256.words (Sha256.pad message)).length = m + n)
    (hs : Sha256.blocks m Sha256.initialState (Sha256.words (Sha256.pad message)) = s)
    (ht : Sha256.blocks n s ((Sha256.words (Sha256.pad message)).drop (16 * m)) = t) :
    sha256 message = t := by
  rw [sha256, hlen, Sha256.blocks_add, hs, ht]

/-! ### A difference that cannot be seen -/

theorem selectFirst_singleton {ps : List Nat} (h : ps.length ≤ 1) (f : Filter) :
    selectFirst ps [f] = [f] := by
  match ps, h with
  | [], _ => rfl
  | [0], _ => rfl
  | [_ + 1], _ => rfl

theorem onlyIn_singleton {f g : Filter} (h : f.digest ≠ g.digest) : onlyIn [f] [g] = [f] := by
  simp [onlyIn, without, digested, keepLast, h]

/-- One filter in the place of another. -/
theorem diffFilters_singleton {f g : Filter} (h : f.digest ≠ g.digest) :
    diffFilters [f] [g] = { added := [g], removed := [f] } := by
  have hpairs : (similarPairs [g] [f]).length ≤ 1 := by
    simp [similarPairs, assign]
  simp only [diffFilters, changedFilters_eq, onlyIn_singleton h, onlyIn_singleton h.symm,
    lineUpSimilar, lineUp]
  rw [selectFirst_singleton (by simpa using hpairs), selectFirst_singleton (by simpa using hpairs)]
  rfl

/-- A filter that archives what a query finds. -/
def archivedQuery (query : String) : Filter where
  criteria := { query }
  action := { archive := true }

theorem shownAlike_spacedQuery : (archivedQuery "a b").ShownAlike (archivedQuery "a  b") where
  action := rfl
  sender := rfl
  recipient := rfl
  subject := rfl
  query := by decide +kernel

theorem sha256_archivedQuery : sha256 (archivedQuery "a b").contentText.toUTF8.toList =
    #[0xaed78c07, 0xbedfa8dd, 0x43ca5952, 0x525af68f, 0x4c4b5ebc, 0x4dcf41fa, 0xa85a21a4,
      0x912b69c6] := by
  -- two of the four blocks at a time: worked in at once, they fill the memory
  have hs : Sha256.blocks 2 Sha256.initialState
      (Sha256.words (Sha256.pad (archivedQuery "a b").contentText.toUTF8.toList)) =
        #[0x5486476d, 0x8a8104c9, 0x48049941, 0x17801457, 0x8bcbfbdf, 0x47866a1f, 0xddeddafb,
          0xff9edf93] := by decide +kernel
  have hlen : (Sha256.words (Sha256.pad
      (archivedQuery "a b").contentText.toUTF8.toList)).length = 2 + 62 := by decide +kernel
  exact sha256_eq_of_blocks hlen hs (by decide +kernel)

theorem sha256_spacedQuery : sha256 (archivedQuery "a  b").contentText.toUTF8.toList =
    #[0x103d3ad8, 0x240252d2, 0x32dbcc48, 0xe4bb9fb9, 0x06fb968c, 0x162645f9, 0x2c6ebf0c,
      0x053b4cd6] := by
  have hs : Sha256.blocks 2 Sha256.initialState
      (Sha256.words (Sha256.pad (archivedQuery "a  b").contentText.toUTF8.toList)) =
        #[0xc638fd87, 0x30bd5e54, 0x6438fb2b, 0x984c6e3d, 0x10a6a8f1, 0xd5924f8c, 0x6dbd0374,
          0x6fdb48b9] := by decide +kernel
  have hlen : (Sha256.words (Sha256.pad
      (archivedQuery "a  b").contentText.toUTF8.toList)).length = 2 + 62 := by decide +kernel
  exact sha256_eq_of_blocks hlen hs (by decide +kernel)

theorem digest_spacedQuery : (archivedQuery "a b").digest ≠ (archivedQuery "a  b").digest := by
  rw [Filter.digest, Filter.digest, sha256Hex, sha256Hex, sha256_archivedQuery, sha256_spacedQuery]
  decide +kernel

/-- A second blank in a query makes another filter, and the difference shows nothing. -/
theorem spacedQuery_not_visible :
    (diffFilters [archivedQuery "a b"] [archivedQuery "a  b"]).isEmpty = false ∧
      ¬ShowsChange ((diffFilters [archivedQuery "a b"] [archivedQuery "a  b"]).render {}) := by
  rw [diffFilters_singleton digest_spacedQuery]
  refine ⟨rfl, ?_⟩
  rw [FilterDiff.showsChange_render_iff _ rfl (by decide), ne_eq, not_not]
  exact Filter.renderAll_of_alike (.cons ⟨shownAlike_spacedQuery, fun h => by cases h⟩ .nil)

end MailRules
