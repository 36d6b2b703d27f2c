import MailRules.Proofs.Account.Convergence

/-!
# Labels that are deleted while filters add them

A plan refuses to delete a label that a declared filter applies, but it does not ask what the
filters of the account add.  A filter that is left in the account may add a label that has been
deleted, and then only for one of a few reasons.

* `Overlooked` are the reasons: the filter could not be imported, it applies another label besides,
  or its digest is that of another filter.
* `diff_apply_leaves_overlooked` says that there are no other reasons, and
  `diff_apply_labels_unused` that there is only the first where filters are regular.
* `withoutChats_keeps_deleted_label` is an account in which a filter is left so.
-/

namespace MailRules

/-- Why a stored filter is left although the label of an id that it adds has been deleted. -/
inductive Overlooked (declared : MailConfig) (c : Contents) (r : RemoteFilter) (i : String) : Prop
  /-- No config can say the filter, so it has not been looked at. -/
  | refused (h : ∀ f, r.imported (.ofLabels c.userLabels) ≠ .ok f)
  /-- The filter is known by another label that it adds as well. -/
  | otherLabel {f : Filter} (hf : r.imported (.ofLabels c.userLabels) = .ok f)
      (h : (LabelMap.ofLabels c.userLabels).name? i ≠ some f.action.addLabel)
  /-- Another filter of the account has the digest of the filter, and stands for it. -/
  | twin {f f' : Filter} {r' : RemoteFilter} (hf : r.imported (.ofLabels c.userLabels) = .ok f)
      (hr' : r' ∈ c.filters) (hne : r' ≠ r) (hf' : r'.imported (.ofLabels c.userLabels) = .ok f')
      (h : f'.digest = f.digest)
  /-- A declared filter of another content has the digest of the filter. -/
  | collision {f g : Filter} (hf : r.imported (.ofLabels c.userLabels) = .ok f)
      (hg : g ∈ declared.filters) (h : g.digest = f.digest) (hs : f.same g = false)

section

variable {declared existing : MailConfig} {removeLabels : Bool} {c : Contents}
  {rs : List RemoteFilter} {r : RemoteFilter} {s s' : Session} {i : String}

/-- An id that is deleted is that of a label of the account which no declared filter applies. -/
theorem of_mem_deletions (hv : (diff declared existing).validate = .ok ())
    (hrel : (diff declared existing).Relabels removeLabels c.userLabels
      (c.newUserLabels (creationOrder (diff declared existing).labels.added)))
    (hi : i ∈ (diff declared existing).labels.deletions removeLabels) :
    ∃ l ∈ c.userLabels, l.id = i ∧ ∀ f ∈ declared.filters, f.action.addLabel ≠ l.name := by
  obtain ⟨-, l, hl, hid⟩ := LabelDiff.mem_deletions.1 hi
  have hne : (diff declared existing).labels.isEmpty = false := by
    refine Bool.eq_false_iff.2 fun he => ?_
    rw [LabelDiff.eq_empty_of_isEmpty he] at hl
    cases hl
  exact ⟨l, hrel.removed l hl, hid, (Plan.of_validate hv hne).2 l hl⟩

/-- A filter that is created adds no label that is deleted. -/
theorem not_mem_of_created {f : Filter} {l : Label} (hu : c.Unambiguous) (hfresh : c.Fresh)
    {ls : List Label} (hl : l ∈ c.userLabels) (hf : f.action.addLabel ≠ l.name)
    (hr : f.exported (.ofLabels (c.userLabels ++ c.newUserLabels ls)) = .ok r) :
    l.id ∉ r.action.addLabelIds := by
  intro hmem
  obtain ⟨-, action, hact, rfl⟩ := of_exported hr
  obtain ⟨own, rfl, hown⟩ := action_exported_eq_ok_iff.1 hact
  rcases List.mem_append.1 hmem with hsys | hmem
  · -- the flags of an action are system labels
    obtain ⟨sys, -, hsys⟩ := List.mem_map.1 hsys
    exact SystemLabel.ofId?_eq_none_iff.1 (hu.notSystem l hl).1 sys hsys
  · rcases hown with ⟨-, rfl⟩ | ⟨-, j, hj, rfl⟩
    · cases hmem
    · obtain rfl := List.mem_singleton.1 hmem
      obtain ⟨k, hk, hid, hname⟩ := LabelMap.of_id?_ofLabels hj
      rcases List.mem_append.1 hk with hk | hk
      · rw [List.inj_on_of_nodup_map hu.ids hk hl hid] at hname
        exact hf hname.symm
      · exact hfresh.ne_of_mem_newUserLabels hk hl hid.symm

/-- A filter that is known by a label that no declared filter applies, and whose digest no other
filter has, is among those to be removed. -/
theorem mem_removed_of_unused {f : Filter} {l : Label} (hf : f ∈ existing.filters)
    (hl : ∀ g ∈ declared.filters, g.action.addLabel ≠ l.name) (hfl : f.action.addLabel = l.name)
    (hcoll : ∀ g ∈ declared.filters, g.digest = f.digest → f.same g = true)
    (htwin : ∀ g ∈ existing.filters, g.digest = f.digest → g = f) :
    f ∈ (diff declared existing).filters.removed := by
  have hnone : ∀ g ∈ declared.filters, g.digest ≠ f.digest := by
    intro g hg hd
    have hact : f.action = g.action := congrArg Prod.snd (Filter.same_iff.1 (hcoll g hg hd))
    exact hl g hg (hact ▸ hfl)
  obtain ⟨p, hp, hpf⟩ := exists_mem_digested hf
  obtain ⟨hm, hpd⟩ := of_mem_digested hp
  have hpeq : p.2 = f := htwin p.2 hm (hpd.symm.trans hpf)
  refine mem_diffFilters_removed.2 (List.mem_map.2 ⟨p, ?_, hpeq⟩)
  exact mem_without_digested.2 ⟨hp, fun g hg hgp => hnone g hg (hgp.trans hpf)⟩

/-- A filter that was there and is left adds an id that is deleted for a reason. -/
theorem overlooked_of_kept {f : Filter} {l : Label} (hu : c.Unambiguous)
    (hf : existing.filters = c.knownFilters) (hl : l ∈ c.userLabels)
    (hunused : ∀ g ∈ declared.filters, g.action.addLabel ≠ l.name)
    (hfound : ∀ f ∈ (diff declared existing).filters.removed, ∃ r ∈ c.filters, r.id = some f.id)
    (hr : r ∈ c.filters) (hrf : r.imported (.ofLabels c.userLabels) = .ok f)
    (hkept : ∀ g ∈ (diff declared existing).filters.removed, r.id ≠ some g.id) :
    Overlooked declared c r l.id := by
  have hname : (LabelMap.ofLabels c.userLabels).name? l.id = some l.name :=
    LabelMap.name?_ofLabels hu.ids hl
  by_cases hfl : f.action.addLabel = l.name
  case neg => exact .otherLabel hrf fun h => hfl (Option.some.inj (h.symm.trans hname))
  by_cases hcoll : ∀ g ∈ declared.filters, g.digest = f.digest → f.same g = true
  case neg =>
    push Not at hcoll
    obtain ⟨g, hg, hd, hs⟩ := hcoll
    exact .collision hrf hg hd (Bool.eq_false_iff.2 hs)
  by_cases htwin : ∃ r' ∈ c.filters, r' ≠ r ∧
      ∃ f', r'.imported (.ofLabels c.userLabels) = .ok f' ∧ f'.digest = f.digest
  case pos =>
    obtain ⟨r', hr', hne, f', hf', hd⟩ := htwin
    exact .twin hrf hr' hne hf' hd
  -- nothing stands for the filter, so it was to be removed, and is gone
  have hfe : f ∈ existing.filters := hf ▸ mem_importable.2 ⟨r, hr, hrf⟩
  have honly : ∀ g ∈ existing.filters, g.digest = f.digest → g = f := by
    intro g hg hd
    rw [hf] at hg
    obtain ⟨r', hr', hg'⟩ := mem_importable.1 hg
    by_contra hne
    refine htwin ⟨r', hr', fun hrr => hne ?_, g, hg', hd⟩
    rw [hrr, hrf] at hg'
    exact (Except.ok.inj hg').symm
  have hrem := mem_removed_of_unused hfe hunused hfl hcoll honly
  obtain ⟨r', hr', hid'⟩ := hfound f hrem
  have hrr : r' = r := by
    refine hu.eq_of_filterId hr' hr ?_
    rw [hid', ← id_of_imported hrf]
    rfl
  exact absurd (hrr ▸ hid') (hkept f hrem)

/-- What has been fetched from an account that holds contents is what they say. -/
theorem Account.Holds.of_fetch {s₀ s₁ : Session}
    (hfetch : Client.fetch.outcome s₀ = (.ok existing, s₁)) (hs : s.account = s₁.account)
    (hc : s.account.Holds c) :
    existing.labels = c.userLabels ∧ existing.filters = c.knownFilters := by
  obtain ⟨ha, -, hres⟩ := Client.yields_fetch s₀
  rw [hfetch] at ha hres
  obtain ⟨hl, hf⟩ := hres existing rfl
  rw [← ha, ← hs, hc.userLabels_eq] at hl
  rw [← ha, ← hs, hc.knownFilters_eq] at hf
  exact ⟨(Option.some.inj hl).symm, (Option.some.inj hf).symm⟩

theorem overlooked_of_apply (hl : existing.labels = c.userLabels)
    (hf : existing.filters = c.knownFilters) (hc : s.account.Holds c) (hu : c.Unambiguous)
    (hfresh : c.Fresh)
    (hrun : ((diff declared existing).apply removeLabels).outcome s = (.ok (), s')) :
    ∃ c', s'.account.Holds c' ∧
      ∀ i ∈ (diff declared existing).labels.deletions removeLabels, ∀ r ∈ c'.filters,
        i ∈ r.action.addLabelIds →
          r ∈ c.filters ∧ i ∈ c.userLabels.map Label.id ∧ Overlooked declared c r i := by
  obtain ⟨rs, hrel, hfound, hexp, hc'⟩ := hu.of_apply hfresh hc hl hf hrun
  refine ⟨_, hc', fun i hi r hr hir => ?_⟩
  obtain ⟨l, hlc, rfl, hunused⟩ := of_mem_deletions (Plan.of_apply hrun).1 hrel hi
  obtain ⟨hmem, hkept⟩ := List.mem_filter.1 hr
  rcases List.mem_append.1 hmem with hold | hnew
  · refine ⟨hold, List.mem_map_of_mem hlc, ?_⟩
    by_cases himp : ∃ f, r.imported (.ofLabels c.userLabels) = .ok f
    · obtain ⟨f, hrf⟩ := himp
      exact overlooked_of_kept hu hf hlc hunused hfound hold hrf fun g hg =>
        of_decide_eq_true hkept g.id (List.mem_map_of_mem hg)
    · exact .refused (not_exists.1 himp)
  · obtain ⟨n, -, -, r₀, hr₀, heq⟩ := Contents.id_of_mem_newFilters hnew
    obtain ⟨f, hfa, hfr⟩ := (exists_mem_of_forall₂ hexp).2 r₀ hr₀
    have hfd : f ∈ declared.filters := (of_mem_onlyIn (mem_diffFilters_added.1 hfa)).1
    have hnot := not_mem_of_created hu hfresh hlc (hunused f hfd) hfr
    rw [heq] at hir
    exact absurd hir hnot

/-- **A filter that is left adds a deleted label only if it was overlooked.**  Where ids and names
are unambiguous and new ids are new, a plan that is carried out to the end leaves no filter that
adds the id of a label it deleted, but for filters that were there before and that it could not
import, knows by another label, or takes for another filter. -/
theorem diff_apply_leaves_overlooked {s₀ s₁ : Session}
    (hfetch : Client.fetch.outcome s₀ = (.ok existing, s₁)) (hs : s.account = s₁.account)
    (hc : s.account.Holds c) (hu : c.Unambiguous) (hfresh : c.Fresh)
    (hrun : ((diff declared existing).apply removeLabels).outcome s = (.ok (), s')) :
    ∃ c', s'.account.Holds c' ∧
      ∀ i ∈ (diff declared existing).labels.deletions removeLabels, ∀ r ∈ c'.filters,
        i ∈ r.action.addLabelIds → r ∈ c.filters ∧ Overlooked declared c r i := by
  obtain ⟨hl, hf⟩ := hc.of_fetch hfetch hs
  obtain ⟨c', hc', hleft⟩ := overlooked_of_apply hl hf hc hu hfresh hrun
  refine ⟨c', hc', fun i hi r hr hir => ?_⟩
  obtain ⟨hold, -, hover⟩ := hleft i hi r hr hir
  exact ⟨hold, hover⟩

/-- Where filters add one label each, differ in content, and are told apart by their digests, only
filters that could not be imported are overlooked. -/
theorem Overlooked.not_imported {f : Filter} (hreg : c.Regular)
    (hd : DigestsDistinguish (c.knownFilters ++ declared.filters)) (hr : r ∈ c.filters)
    (hi : i ∈ c.userLabels.map Label.id) (hir : i ∈ r.action.addLabelIds)
    (h : Overlooked declared c r i) : r.imported (.ofLabels c.userLabels) ≠ .ok f := by
  intro hrf
  obtain ⟨l, hl, rfl⟩ := List.mem_map.1 hi
  have hknown : ∀ {r' f'}, r' ∈ c.filters → r'.imported (.ofLabels c.userLabels) = .ok f' →
      f' ∈ c.knownFilters := fun hr' hf' => mem_importable.2 ⟨_, hr', hf'⟩
  cases h with
  | refused h => exact h f hrf
  | @otherLabel f' hf' h =>
    refine h (name?_of_imported hf' (fun j hj n hn => ?_) (hreg.notSystem l hl).1 hir)
    -- whatever else the filter adds is no label of the user
    obtain ⟨k, hk, rfl, -⟩ := LabelMap.of_name?_ofLabels hn
    exact hreg.oneLabel r hr _ hj _ hir (List.mem_map_of_mem hk) hi
  | @twin f₁ f₂ r' hf₁ hr' hne hf₂ h =>
    have hsame : f₂.same f₁ = true :=
      hd f₂ (List.mem_append_left _ (hknown hr' hf₂)) f₁
        (List.mem_append_left _ (hknown hr hf₁)) h
    have heq : f₂ = f₁ := hreg.eq_of_same (hknown hr' hf₂) (hknown hr hf₁) hsame
    refine hne (hreg.unambiguous.eq_of_filterId hr' hr ?_)
    rw [← id_of_imported hf₂, ← id_of_imported hf₁, heq]
  | @collision f₁ g hf₁ hg h hs =>
    have hsame : f₁.same g = true :=
      hd f₁ (List.mem_append_left _ (hknown hr hf₁)) g (List.mem_append_right _ hg) h.symm
    rw [hs] at hsame
    cases hsame

/-- **Filters that can be imported keep their labels.**  Where filters are regular and digests
distinguish them, a filter that is left and adds a deleted label could not be imported. -/
theorem diff_apply_labels_unused {s₀ s₁ : Session}
    (hfetch : Client.fetch.outcome s₀ = (.ok existing, s₁)) (hs : s.account = s₁.account)
    (hc : s.account.Holds c) (hreg : c.Regular) (hfresh : c.Fresh)
    (hd : DigestsDistinguish (existing.filters ++ declared.filters))
    (hrun : ((diff declared existing).apply removeLabels).outcome s = (.ok (), s')) :
    ∃ c', s'.account.Holds c' ∧
      ∀ i ∈ (diff declared existing).labels.deletions removeLabels, ∀ r ∈ c'.filters,
        i ∈ r.action.addLabelIds →
          r ∈ c.filters ∧ ∀ f, r.imported (.ofLabels c.userLabels) ≠ .ok f := by
  obtain ⟨hl, hf⟩ := hc.of_fetch hfetch hs
  obtain ⟨c', hc', hleft⟩ := overlooked_of_apply hl hf hc hreg.unambiguous hfresh hrun
  refine ⟨c', hc', fun i hi r hr hir => ?_⟩
  obtain ⟨hold, hil, hover⟩ := hleft i hi r hr hir
  exact ⟨hold, fun f => hover.not_imported hreg (hf ▸ hd) hold hil hir⟩

end

/-! ### A filter that is left -/

/-- A filter that adds a label, but not to chats, which no config can say. -/
def withoutChats : RemoteFilter where
  id := some "F2"
  criteria := { sender := some "b", excludeChats := some true }
  action := { addLabelIds := ["L2"] }

/-- The contents of an account with two labels and two filters, the second of which adds the second
label. -/
def withoutChatsContents : Contents where
  labels := [{ id := "L1", name := "keep", kind := some .user },
    { id := "L2", name := "old", kind := some .user }]
  filters := [{ id := some "F1", criteria := { sender := some "a" },
                action := { addLabelIds := ["STARRED"] } }, withoutChats]
  ids := {}
  createdLabels := 0
  createdFilters := 0

/-- The account. -/
def withoutChatsSession : Session where
  account := {
    labels := withoutChatsContents.labels.map .stored
    filters := withoutChatsContents.filters.map .stored }

/-- What is fetched from the account: the second filter is left out. -/
def withoutChatsConfig : MailConfig where
  labels := [{ name := "keep", id := "L1" }, { name := "old", id := "L2" }]
  filters := [{ criteria := { sender := "a" }, action := { star := true }, id := "F1" }]

/-- A config that declares the first label only. -/
def keepConfig : MailConfig where
  labels := [{ name := "keep" }]

theorem diff_keepConfig : diff keepConfig withoutChatsConfig = {
    filters := { removed := withoutChatsConfig.filters }
    labels := { removed := [{ name := "old", id := "L2" }] }
    declared := keepConfig } := by
  have hf : diffFilters withoutChatsConfig.filters keepConfig.filters =
      { removed := withoutChatsConfig.filters } := by
    simp [diffFilters, withoutChatsConfig, keepConfig, changedFilters, digested, keepLast,
      mergeFilters]
  have hl : diffLabels withoutChatsConfig.labels keepConfig.labels =
      { removed := [{ name := "old", id := "L2" }] } := by
    rw [diffLabels, byName, mergeSort_key_eq_insertionSort Label.name]
    with_unfolding_all rfl
  unfold diff
  rw [hf, hl]
  rfl

/-- The account after the fetch, which says what was left out. -/
def withoutChatsFetched : Session :=
  { withoutChatsSession with notices := [.ignoringFilters
      ⟨[("F2", .unsupported "excludeChats" "True")], withoutChatsConfig.filters⟩] }

/-- The account once the plan for the config has been carried out. -/
def withoutOldLabel : Session where
  account := {
    labels := [.stored { id := "L1", name := "keep", kind := some .user }]
    filters := [.stored withoutChats] }
  requests := [.deleteFilter "F1", .deleteLabel "L2"]
  notices := withoutChatsFetched.notices ++ [.deletingFilters 1, .deletingLabels 1]

theorem apply_keepConfig : ((diff keepConfig withoutChatsConfig).apply true).outcome
    withoutChatsFetched = (.ok (), withoutOldLabel) := by
  rw [diff_keepConfig]
  with_unfolding_all rfl

/-- **A label is deleted while a filter adds it.**  The plan is carried out to the end and deletes
the second label; the filter that adds it is still there. -/
theorem withoutChats_keeps_deleted_label :
    Client.fetch.outcome withoutChatsSession = (.ok withoutChatsConfig, withoutChatsFetched) ∧
      ((diff keepConfig withoutChatsConfig).apply true).outcome withoutChatsFetched =
        (.ok (), withoutOldLabel) ∧
      .deleteLabel "L2" ∈ withoutOldLabel.requests ∧
      .stored withoutChats ∈ withoutOldLabel.account.filters ∧
      "L2" ∈ withoutChats.action.addLabelIds :=
  ⟨rfl, apply_keepConfig, by decide, List.mem_cons_self, by decide⟩

/-- The filter that is left could not be imported. -/
theorem diff_apply_leaves_overlooked_withoutChats :
    ∃ c', withoutOldLabel.account.Holds c' ∧ withoutChats ∈ c'.filters ∧
      Overlooked keepConfig withoutChatsContents withoutChats "L2" := by
  have hc : withoutChatsFetched.account.Holds withoutChatsContents := ⟨rfl, rfl, rfl, rfl, rfl⟩
  have hu : withoutChatsContents.Unambiguous :=
    ⟨by decide, by decide, by decide, by decide⟩
  -- no id starts like those that the account gives
  have hstart : ∀ i s : String, i.toList.head? ≠ some 'N' → i ≠ "NL" ++ s ∧ i ≠ "NF" ++ s := by
    intro i s hi
    constructor <;> rintro rfl <;> simp [String.toList_append] at hi
  have hlabels : ∀ r ∈ withoutChatsContents.labels, r.id.toList.head? ≠ some 'N' := by decide
  have hadded : ∀ f ∈ withoutChatsContents.filters, ∀ i ∈ f.action.addLabelIds,
      i.toList.head? ≠ some 'N' := by decide
  have hfilters : ∀ f ∈ withoutChatsContents.filters, (f.id.getD "").toList.head? ≠ some 'N' := by
    decide
  have hfresh : withoutChatsContents.Fresh :=
    Contents.fresh_of_default rfl (fun r hr s => (hstart _ s (hlabels r hr)).1)
      (fun f hf s hs => (hstart _ s (hadded f hf _ hs)).1 rfl)
      fun f hf s => (hstart _ s (hfilters f hf)).2
  have hfetch : Client.fetch.outcome withoutChatsSession =
      (.ok withoutChatsConfig, withoutChatsFetched) := by rfl
  obtain ⟨c', hc', hleft⟩ :=
    diff_apply_leaves_overlooked hfetch rfl hc hu hfresh apply_keepConfig
  have hmem : withoutChats ∈ c'.filters := by
    have hread : some [withoutChats] = some c'.filters := hc'.filters
    rw [← Option.some.inj hread]
    exact List.mem_singleton_self _
  have hdel : "L2" ∈ (diff keepConfig withoutChatsConfig).labels.deletions true := by
    rw [diff_keepConfig]
    exact LabelDiff.mem_deletions.2 ⟨rfl, _, List.mem_singleton_self _, rfl⟩
  exact ⟨c', hc', hmem, (hleft "L2" hdel withoutChats hmem (by decide)).2⟩

end MailRules
