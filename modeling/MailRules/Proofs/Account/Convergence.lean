import MailRules.Proofs.Account.Completed
import MailRules.Proofs.Diff.Filters

/-!
# Plans that are carried out

Once a plan has been carried out to the end there is nothing left to do: the account holds what is
declared, and a new difference is empty but for the labels that were not to be deleted.

* `Completion` is a plan that was computed from an account and carried out in it.
* A filter that was there is still there if and only if it is declared (`declared_of_kept`,
  `kept_of_declared`), and then it is imported as before (`imported_after`); a filter that was
  added is imported as it was declared (`imported_of_added`).
* `diff_apply_converges` is the main result; `exists_holds_of_fetch` gives the contents that it is
  about.
-/

namespace MailRules

/-- A plan that was computed from an account and carried out in it to the end, with the contents
of the account and the stored forms that were created. -/
structure Completion (declared existing : MailConfig) (removeLabels : Bool) (c : Contents)
    (rs : List RemoteFilter) : Prop where
  /-- The labels were fetched from the account. -/
  labels : existing.labels = c.userLabels
  /-- The filters were fetched from the account. -/
  filters : existing.filters = c.knownFilters
  /-- No two labels or filters of the account are taken for one another. -/
  regular : c.Regular
  /-- Ids to come occur nowhere yet. -/
  fresh : c.Fresh
  /-- Digests distinguish the filters. -/
  digests : DigestsDistinguish (existing.filters ++ declared.filters)
  /-- The labels come out as declared. -/
  relabels : (diff declared existing).Relabels removeLabels c.userLabels
    (c.newUserLabels (creationOrder (diff declared existing).labels.added))
  /-- The filters to be removed had ids, and so have been deleted. -/
  found : ∀ f ∈ (diff declared existing).filters.removed, ∃ r ∈ c.filters, r.id = some f.id
  /-- The filters to be added were exported once the new labels were there. -/
  exported : List.Forall₂ (fun f r => f.exported (.ofLabels (c.userLabels ++
      c.newUserLabels (creationOrder (diff declared existing).labels.added))) = .ok r)
    (diff declared existing).filters.added rs

/-- No two filters that a config can say have the same content. -/
theorem Contents.Regular.eq_of_same {c : Contents} (h : c.Regular) {f g : Filter}
    (hf : f ∈ c.knownFilters) (hg : g ∈ c.knownFilters) (hs : f.same g = true) : f = g := by
  by_contra hne
  have hsymm : Std.Symm fun f g : Filter => f.same g = false := by
    refine ⟨fun f g hfg => Bool.eq_false_iff.2 fun hgf => ?_⟩
    rw [Filter.same_symm hgf] at hfg
    cases hfg
  rw [h.different.forall hf hg hne] at hs
  cases hs

namespace Completion

variable {declared existing : MailConfig} {removeLabels : Bool} {c : Contents}
  {rs : List RemoteFilter} (h : Completion declared existing removeLabels c rs)

include h

theorem ids_after :
    (((diff declared existing).contentsAfter removeLabels rs c).userLabels.map Label.id).Nodup := by
  rw [Plan.userLabels_contentsAfter]
  exact relabeled_ids_nodup h.regular.ids (h.fresh.ids_nodup _)
    fun k hk l hl => h.fresh.ne_of_mem_newUserLabels hk hl

/-! ### Filters that were there -/

/-- What is imported in the end was so before. -/
theorem imported_before {r : RemoteFilter} {f : Filter} (hr : r ∈ c.filters)
    (hf : r.imported (.ofLabels
      ((diff declared existing).contentsAfter removeLabels rs c).userLabels) = .ok f) :
    r.imported (.ofLabels c.userLabels) = .ok f := by
  refine imported_mono hf fun i hi n hn => ?_
  rw [Plan.userLabels_contentsAfter] at hn
  refine h.relabels.name?_before h.regular.ids (fun k hk hki => ?_) hn
  -- no filter adds a label that was not there
  obtain ⟨n, hn, hid⟩ := Contents.id_of_mem_newUserLabels hk
  exact (h.fresh.label n hn).2.2 r hr (hid ▸ hki ▸ hi)

/-- What is declared is imported in the end as it was before. -/
theorem imported_after {r : RemoteFilter} {f : Filter} (hr : r ∈ c.filters)
    (hf : r.imported (.ofLabels c.userLabels) = .ok f)
    (hd : ∃ g ∈ declared.filters, f.same g = true) :
    r.imported (.ofLabels
      ((diff declared existing).contentsAfter removeLabels rs c).userLabels) = .ok f := by
  refine imported_mono hf fun i hi n hn => ?_
  obtain ⟨l, hl, rfl, rfl⟩ := LabelMap.of_name?_ofLabels hn
  have hids := h.ids_after
  rw [Plan.userLabels_contentsAfter] at hids ⊢
  refine h.relabels.name?_after hids (.inl hl) ?_
  -- the label is the one that the filter applies, since it adds no other
  have hone : ∀ j ∈ r.action.addLabelIds, ∀ n,
      (LabelMap.ofLabels c.userLabels).name? j = some n → j = l.id := by
    intro j hj n hjn
    obtain ⟨k, hk, rfl, -⟩ := LabelMap.of_name?_ofLabels hjn
    exact h.regular.oneLabel r hr _ hj _ hi (List.mem_map_of_mem hk) (List.mem_map_of_mem hl)
  have hname := name?_of_imported hf hone (h.regular.notSystem l hl).1 hi
  obtain ⟨g, hg, hfg⟩ := hd
  refine ⟨g, hg, ?_⟩
  rw [hn] at hname
  have hact : f.action = g.action := congrArg Prod.snd (Filter.same_iff.1 hfg)
  rw [Option.some.inj hname, hact]

/-- No two filters that were there have the same content. -/
theorem eq_of_same {f g : Filter} (hf : f ∈ existing.filters) (hg : g ∈ existing.filters)
    (hs : f.same g = true) : f = g := by
  rw [h.filters] at hf hg
  exact h.regular.eq_of_same hf hg hs

theorem exists_of_removed {f : Filter} (hf : f ∈ (diff declared existing).filters.removed) :
    ∃ r ∈ c.filters, r.imported (.ofLabels c.userLabels) = .ok f := by
  have hfe := (of_mem_diff_removed hf).1
  rw [h.filters] at hfe
  exact mem_importable.1 hfe

/-- What is not declared has been deleted. -/
theorem declared_of_kept {r : RemoteFilter} {f : Filter} (hr : r ∈ c.filters)
    (hf : r.imported (.ofLabels c.userLabels) = .ok f)
    (hm : r ∈ ((diff declared existing).contentsAfter removeLabels rs c).filters) :
    ∃ g ∈ declared.filters, f.same g = true := by
  by_contra hno
  have hfe : f ∈ existing.filters := h.filters ▸ mem_importable.2 ⟨r, hr, hf⟩
  have hnone : ∀ g ∈ declared.filters, f.same g = false := fun g hg =>
    Bool.eq_false_iff.2 fun hs => hno ⟨g, hg, hs⟩
  -- the difference has a filter of the content, and there is no other than this one
  obtain ⟨f', hf', hs⟩ := exists_mem_onlyIn h.digests hfe hnone
  obtain rfl := h.eq_of_same hfe (of_mem_onlyIn hf').1 hs
  have hrem : f ∈ (diff declared existing).filters.removed := mem_diffFilters_removed.2 hf'
  obtain ⟨r', hr', hrf⟩ := h.found f hrem
  have heq : r' = r := by
    refine h.regular.unambiguous.eq_of_filterId hr' hr ?_
    rw [hrf, ← id_of_imported hf]
    rfl
  have hkept := of_decide_eq_true (List.mem_filter.1 hm).2
  exact hkept f.id (List.mem_map_of_mem hrem) (heq ▸ hrf)

/-- What is declared has not been deleted. -/
theorem kept_of_declared {r : RemoteFilter} {f : Filter} (hr : r ∈ c.filters)
    (hf : r.imported (.ofLabels c.userLabels) = .ok f)
    (hd : ∃ g ∈ declared.filters, f.same g = true) :
    r ∈ ((diff declared existing).contentsAfter removeLabels rs c).filters := by
  obtain ⟨g, hg, hs⟩ := hd
  refine List.mem_filter.2 ⟨List.mem_append_left _ hr, decide_eq_true fun id hid hrid => ?_⟩
  obtain ⟨f', hf', rfl⟩ := List.mem_map.1 hid
  obtain ⟨r', hr', hrf'⟩ := h.exists_of_removed hf'
  -- the filter to be removed would have the same id, and so be this one
  have heq : r' = r := by
    refine h.regular.unambiguous.eq_of_filterId hr' hr ?_
    rw [hrid, ← id_of_imported hrf']
    rfl
  subst heq
  rw [hf] at hrf'
  cases hrf'
  rw [(of_mem_diff_removed hf').2 g hg] at hs
  cases hs

/-! ### Filters that were added -/

/-- What was created is imported as it was declared. -/
theorem imported_of_added {f : Filter} {r : RemoteFilter} (id : Option String)
    (hf : f ∈ declared.filters) (hr : f.exported (.ofLabels (c.userLabels ++
      c.newUserLabels (creationOrder (diff declared existing).labels.added))) = .ok r) :
    ({ r with id } : RemoteFilter).imported (.ofLabels
      ((diff declared existing).contentsAfter removeLabels rs c).userLabels) =
        .ok { f with id := id.getD "" } := by
  refine imported_of_exported hr id fun i hi => ?_
  obtain ⟨l, hl, rfl, hname⟩ := LabelMap.of_id?_ofLabels hi
  have hids := h.ids_after
  rw [Plan.userLabels_contentsAfter] at hids ⊢
  refine ⟨?_, ?_⟩
  · rcases List.mem_append.1 hl with hl | hl
    · exact (h.regular.notSystem l hl).1
    · obtain ⟨n, hn, hid⟩ := Contents.id_of_mem_newUserLabels hl
      exact hid ▸ (h.fresh.label n hn).1
  · rw [← hname]
    exact h.relabels.name?_after hids (List.mem_append.1 hl) ⟨f, hf, hname.symm⟩

/-! ### What the account holds in the end -/

theorem declared_of_mem {g : Filter}
    (hg : g ∈ ((diff declared existing).contentsAfter removeLabels rs c).knownFilters) :
    ∃ d ∈ declared.filters, g.same d = true := by
  obtain ⟨r, hr, hrg⟩ := mem_importable.1 hg
  rcases List.mem_append.1 (List.mem_filter.1 hr).1 with hold | hnew
  · exact h.declared_of_kept hold (h.imported_before hold hrg) hr
  · obtain ⟨n, -, -, r₀, hr₀, heq⟩ := Contents.id_of_mem_newFilters hnew
    obtain ⟨f, hf, hfr⟩ := (exists_mem_of_forall₂ h.exported).2 r₀ hr₀
    have hfd : f ∈ declared.filters := (of_mem_onlyIn (mem_diffFilters_added.1 hf)).1
    refine ⟨f, hfd, ?_⟩
    rw [heq, h.imported_of_added r.id hfd hfr] at hrg
    cases hrg
    exact Filter.same_iff.2 rfl

theorem exists_of_declared {d : Filter} (hd : d ∈ declared.filters) :
    ∃ g ∈ ((diff declared existing).contentsAfter removeLabels rs c).knownFilters,
      d.same g = true := by
  by_cases hex : ∃ e ∈ existing.filters, d.same e = true
  · obtain ⟨e, he, hde⟩ := hex
    rw [h.filters] at he
    obtain ⟨r, hr, hre⟩ := mem_importable.1 he
    have hdecl : ∃ g ∈ declared.filters, e.same g = true := ⟨d, hd, Filter.same_symm hde⟩
    exact ⟨e, mem_importable.2 ⟨r, h.kept_of_declared hr hre hdecl,
      h.imported_after hr hre hdecl⟩, hde⟩
  · have hnone : ∀ e ∈ existing.filters, d.same e = false := fun e he =>
      Bool.eq_false_iff.2 fun hs => hex ⟨e, he, hs⟩
    have hdig : DigestsDistinguish (declared.filters ++ existing.filters) :=
      h.digests.subset (by intro f hf; simpa [or_comm] using hf)
    obtain ⟨f, hf, hdf⟩ := exists_mem_onlyIn hdig hd hnone
    have hfd : f ∈ declared.filters := (of_mem_onlyIn hf).1
    obtain ⟨r, hr, hfr⟩ := (exists_mem_of_forall₂ h.exported).1 f (mem_diffFilters_added.2 hf)
    obtain ⟨i, hi⟩ := Contents.exists_mem_newFilters (c := c) hr
    refine ⟨_, mem_importable.2 ⟨_, ?_, h.imported_of_added (some i) hfd hfr⟩, ?_⟩
    · refine List.mem_filter.2 ⟨List.mem_append_right _ hi, decide_eq_true fun id hid hid' => ?_⟩
      -- a new filter does not have the id of one that is deleted
      obtain ⟨f', hf', rfl⟩ := List.mem_map.1 hid
      obtain ⟨r', hr', hrf'⟩ := h.found f' hf'
      refine h.fresh.ne_filter hi hr' ?_
      rw [hid', hrf']
      rfl
    · exact Filter.same_trans hdf (Filter.same_iff.2 rfl)

/-- Nothing is left to be added or removed. -/
theorem diffFilters_after {again : List Filter}
    (ha : again = ((diff declared existing).contentsAfter removeLabels rs c).knownFilters) :
    (diffFilters again declared.filters).isEmpty = true := by
  refine diffFilters_isEmpty (fun d hd => ?_) fun g hg => h.declared_of_mem (ha ▸ hg)
  obtain ⟨g, hg, hs⟩ := h.exists_of_declared hd
  exact ⟨g, ha ▸ hg, hs⟩

end Completion

/-! ### Carrying out to the end -/

section

variable {declared existing again : MailConfig} {removeLabels : Bool} {c : Contents}
  {rs : List RemoteFilter} {s s' : Session}

/-- A valid plan does to the labels of an account what it should. -/
theorem Contents.Unambiguous.relabels (hu : c.Unambiguous) (hfresh : c.Fresh)
    (hl : existing.labels = c.userLabels) (hv : (diff declared existing).validate = .ok ()) :
    (diff declared existing).Relabels removeLabels c.userLabels
      (c.newUserLabels (creationOrder (diff declared existing).labels.added)) := by
  rw [← hl]
  cases hne : (diff declared existing).labels.isEmpty with
  | true =>
    have hnone : c.newUserLabels (creationOrder (diff declared existing).labels.added) = [] := by
      simp [LabelDiff.eq_empty_of_isEmpty hne, creationOrder, Contents.newUserLabels]
    rw [hnone]
    exact relabels_of_isEmpty hne
  | false =>
    refine relabels_of_valid hv hne (hl ▸ hu.names) (hl ▸ hu.ids)
      (c.created_newUserLabels _) fun k hk l hm => ?_
    exact hfresh.ne_of_mem_newUserLabels hk (hl ▸ hm)

/-- What a plan that was carried out to the end has done: its labels are there, the filters to be
removed had ids and so have been deleted, those to be added were exported once the new labels were
there, and the account holds the contents in the end. -/
theorem Contents.Unambiguous.of_apply (hu : c.Unambiguous) (hfresh : c.Fresh)
    (hc : s.account.Holds c) (hl : existing.labels = c.userLabels)
    (hf : existing.filters = c.knownFilters)
    (hrun : ((diff declared existing).apply removeLabels).outcome s = (.ok (), s')) :
    ∃ rs, (diff declared existing).Relabels removeLabels c.userLabels
        (c.newUserLabels (creationOrder (diff declared existing).labels.added)) ∧
      (∀ f ∈ (diff declared existing).filters.removed, ∃ r ∈ c.filters, r.id = some f.id) ∧
      List.Forall₂ (fun f r => f.exported (.ofLabels (c.userLabels ++
          c.newUserLabels (creationOrder (diff declared existing).labels.added))) = .ok r)
        (diff declared existing).filters.added rs ∧
      s'.account.Holds ((diff declared existing).contentsAfter removeLabels rs c) := by
  obtain ⟨hv, ⟨rs, hrs⟩, hp⟩ := Plan.of_apply hrun
  have hrel : (diff declared existing).Relabels removeLabels _ _ := hu.relabels hfresh hl hv
  have hremoved : ∀ f ∈ (diff declared existing).filters.removed,
      ∃ r ∈ c.filters, r.id.getD "" = f.id := by
    intro f hfr
    have hfe := (of_mem_diff_removed hfr).1
    rw [hf] at hfe
    obtain ⟨r, hr, hrf⟩ := mem_importable.1 hfe
    exact ⟨r, hr, (id_of_imported hrf).symm⟩
  obtain ⟨hc', hfound⟩ := hc.of_requests hu hfresh hrel hremoved hrs hp
  refine ⟨rs, hrel, hfound, ?_, hc'⟩
  obtain ⟨m, hm, hls⟩ := Plan.of_exportsIn hrs
  by_cases hadd : (diff declared existing).filters.added = []
  -- without filters to be added the labels have not been looked at
  · rw [hadd] at hm ⊢
    cases hm
    exact .nil
  · obtain ⟨b, ls, hb, hbl, rfl⟩ := hls hadd
    have hblabels := (hc.createLabels hb).userLabels_eq
    rw [Contents.userLabels_newLabels, hbl] at hblabels
    rwa [← Option.some.inj hblabels]

theorem Completion.of_apply (hc : s.account.Holds c) (hreg : c.Regular) (hfresh : c.Fresh)
    (hl : existing.labels = c.userLabels) (hf : existing.filters = c.knownFilters)
    (hd : DigestsDistinguish (existing.filters ++ declared.filters))
    (hrun : ((diff declared existing).apply removeLabels).outcome s = (.ok (), s')) :
    ∃ rs, Completion declared existing removeLabels c rs ∧
      s'.account.Holds ((diff declared existing).contentsAfter removeLabels rs c) := by
  obtain ⟨rs, hrel, hfound, hexp, hc'⟩ := hreg.unambiguous.of_apply hfresh hc hl hf hrun
  exact ⟨rs, ⟨hl, hf, hreg, hfresh, hd, hrel, hfound, hexp⟩, hc'⟩

/-- An account from which a config has been fetched holds contents. -/
theorem Account.exists_holds_of_fetch {s₀ s₁ : Session}
    (hfetch : Client.fetch.outcome s₀ = (.ok existing, s₁)) : ∃ c, s₀.account.Holds c := by
  obtain ⟨-, -, hres⟩ := Client.yields_fetch s₀
  rw [hfetch] at hres
  obtain ⟨hl, hf⟩ := hres existing rfl
  obtain ⟨ls, hls, -⟩ := Option.map_eq_some_iff.1 hl
  unfold Account.knownFilters at hf
  rw [hl, Option.bind_some] at hf
  obtain ⟨rs, hrs, -⟩ := Option.map_eq_some_iff.1 hf
  exact ⟨⟨ls, rs, s₀.account.ids, s₀.account.createdLabels, s₀.account.createdFilters⟩,
    hls, hrs, rfl, rfl, rfl⟩

/-- **Carrying out a plan converges.**  Where ids and names are unambiguous, new ids are new and
digests distinguish the filters, a plan that is carried out to the end leaves nothing to be done:
what is fetched then differs from what is declared in the labels that were to be kept only. -/
theorem diff_apply_converges {s₀ s₁ t t' : Session}
    (hfetch : Client.fetch.outcome s₀ = (.ok existing, s₁)) (hs : s.account = s₁.account)
    (hc : s.account.Holds c) (hreg : c.Regular) (hfresh : c.Fresh)
    (hd : DigestsDistinguish (existing.filters ++ declared.filters))
    (hrun : ((diff declared existing).apply removeLabels).outcome s = (.ok (), s'))
    (ht : t.account = s'.account) (hagain : Client.fetch.outcome t = (.ok again, t')) :
    (removeLabels = true → (diff declared again).isEmpty = true) ∧
      (diff declared again).filters.isEmpty = true ∧
      (diff declared again).labels =
        { removed := if removeLabels then [] else (diff declared existing).labels.removed } := by
  obtain ⟨ha, -, hres⟩ := Client.yields_fetch s₀
  rw [hfetch] at ha hres
  obtain ⟨hl, hf⟩ := hres existing rfl
  rw [← ha, ← hs, hc.userLabels_eq] at hl
  rw [← ha, ← hs, hc.knownFilters_eq] at hf
  obtain ⟨rs, h, hc'⟩ := Completion.of_apply hc hreg hfresh (Option.some.inj hl).symm
    (Option.some.inj hf).symm hd hrun
  obtain ⟨-, -, hres'⟩ := Client.yields_fetch t
  rw [hagain] at hres'
  obtain ⟨hl', hf'⟩ := hres' again rfl
  rw [ht, hc'.userLabels_eq, Plan.userLabels_contentsAfter] at hl'
  rw [ht, hc'.knownFilters_eq] at hf'
  have hfilters : (diff declared again).filters.isEmpty = true :=
    h.diffFilters_after (Option.some.inj hf').symm
  have hlabels : (diff declared again).labels = _ :=
    h.relabels.settled again (Option.some.inj hl').symm
  refine ⟨fun hr => ?_, hfilters, hlabels⟩
  rw [Plan.isEmpty, hfilters, hlabels, if_pos hr]
  rfl

end

/-- An account with a label that is not declared. -/
def oldLabel : Session where
  account := { labels := [.stored { id := "L1", name := "old", kind := some .user }] }

/-- The contents of the account. -/
def oldLabelContents : Contents where
  labels := [{ id := "L1", name := "old", kind := some .user }]
  filters := []
  ids := {}
  createdLabels := 0
  createdFilters := 0

/-- The label as a config says it. -/
def oldLabelConfig : MailConfig where
  labels := [{ name := "old", id := "L1" }]

/-- A config that declares another label, and a filter that applies it. -/
def newLabelConfig : MailConfig where
  labels := [{ name := "new" }]
  filters := [{ criteria := { sender := "a" }, action := { addLabel := "new" } }]

/-- The account once the plan for the config has been carried out. -/
def newLabel : Session where
  account := {
    labels := [.stored { id := "NL1", name := "new" }]
    filters := [.stored { id := some "NF1", criteria := { sender := some "a" },
                          action := { addLabelIds := ["NL1"] } }]
    createdLabels := 1
    createdFilters := 1 }
  requests := [.createLabel "new" none,
    .createFilter { sender := some "a" } { addLabelIds := ["NL1"] }, .deleteLabel "L1"]
  notices := [.creatingLabels 1, .creatingFilters 1, .deletingLabels 1]

theorem diff_newLabel : diff newLabelConfig oldLabelConfig = {
    filters := { added := newLabelConfig.filters }
    labels := { added := newLabelConfig.labels, removed := oldLabelConfig.labels }
    declared := newLabelConfig } := by
  have hf : diffFilters oldLabelConfig.filters newLabelConfig.filters =
      { added := newLabelConfig.filters } := by
    simp [diffFilters, oldLabelConfig, newLabelConfig, changedFilters, digested, keepLast,
      mergeFilters]
  have hl : diffLabels oldLabelConfig.labels newLabelConfig.labels =
      { added := newLabelConfig.labels, removed := oldLabelConfig.labels } := by
    with_unfolding_all rfl
  unfold diff
  rw [hf, hl]
  rfl

/-- The label and the filter are created, the other label is deleted, and that is all there is to
do. -/
theorem diff_apply_converges_newLabel :
    ((diff newLabelConfig oldLabelConfig).apply true).outcome oldLabel = (.ok (), newLabel) ∧
      ∃ again, Client.fetch.outcome newLabel = (.ok again, newLabel) ∧
        (diff newLabelConfig again).isEmpty = true := by
  have hfetch : Client.fetch.outcome oldLabel = (.ok oldLabelConfig, oldLabel) := by rfl
  have hrun : ((diff newLabelConfig oldLabelConfig).apply true).outcome oldLabel =
      (.ok (), newLabel) := by
    rw [diff_newLabel]
    with_unfolding_all rfl
  have hagain : Client.fetch.outcome newLabel = (.ok {
      labels := [{ name := "new", id := "NL1" }]
      filters := [{ criteria := { sender := "a" }, action := { addLabel := "new" },
                    id := "NF1" }] }, newLabel) := by rfl
  have hc : oldLabel.account.Holds oldLabelContents := ⟨rfl, rfl, rfl, rfl, rfl⟩
  have hnone : ∀ f, f ∉ oldLabelContents.filters := fun _ => List.not_mem_nil
  have hreg : oldLabelContents.Regular :=
    ⟨by decide, by decide, by decide, by decide, fun f hf => absurd hf (hnone f), .nil⟩
  have hfresh : oldLabelContents.Fresh := by
    refine Contents.fresh_of_default rfl (fun r hr s heq => ?_)
      (fun f hf => absurd hf (hnone f)) fun f hf => absurd hf (hnone f)
    rw [List.mem_singleton.1 hr] at heq
    have hhead := congrArg (fun i => i.toList.head?) heq
    rw [String.toList_append] at hhead
    cases hhead
  have hd : DigestsDistinguish (oldLabelConfig.filters ++ newLabelConfig.filters) := by
    intro f hf g hg _
    rw [List.mem_singleton.1 hf, List.mem_singleton.1 hg]
    exact Filter.same_refl _
  exact ⟨hrun, _, hagain,
    (diff_apply_converges hfetch rfl hc hreg hfresh hd hrun rfl hagain).1 rfl⟩

end MailRules
