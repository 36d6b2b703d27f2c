import MailRules.Proofs.Account.Apply
import MailRules.Proofs.Account.Contents
import MailRules.Proofs.Diff.Labels

/-!
# Labels after a plan is carried out

A plan creates the labels that are missing, changes those that do not satisfy their declarations,
and deletes what is not declared if it may.  After that the labels need no change.

* `Label.changed` is a label after changes that are made by id.
* `relabeled` are the labels after all of a plan's steps.
* `diffLabels_relabeled` says that a new difference has nothing to create or change.
* `Plan.Relabels` is all that matters of this for a plan; `relabels_of_isEmpty` and
  `relabels_of_valid` are the two cases.
-/

namespace MailRules

/-! ### Changes by id -/

namespace Label

/-- A label with the name of another, and with its colors if it has some. -/
def changedTo (l c : Label) : Label :=
  { l with name := c.name, color := c.color.orElse fun _ => l.color }

/-- A label after changes that are made by id. -/
def changed (cs : List Label) (l : Label) : Label :=
  cs.foldl (fun l c => if l.id = c.id then l.changedTo c else l) l

variable {cs : List Label} {c l : Label}

@[simp] theorem id_changedTo : (l.changedTo c).id = l.id := rfl

@[simp] theorem name_changedTo : (l.changedTo c).name = c.name := rfl

theorem color_changedTo {x : LabelColor} (h : c.color = some x) :
    (l.changedTo c).color = some x := by
  rw [changedTo, h]
  rfl

theorem changed_cons :
    l.changed (c :: cs) = (if l.id = c.id then l.changedTo c else l).changed cs := rfl

@[simp] theorem id_changed : (l.changed cs).id = l.id := by
  induction cs generalizing l with
  | nil => rfl
  | cons c cs ih =>
    rw [changed_cons, ih]
    split_ifs <;> rfl

/-- Changes of other labels do not matter. -/
theorem changed_of_ne (h : ∀ c ∈ cs, c.id ≠ l.id) : l.changed cs = l := by
  induction cs with
  | nil => rfl
  | cons c cs ih =>
    rw [changed_cons, if_neg fun hid => h c List.mem_cons_self hid.symm]
    exact ih fun k hk => h k (List.mem_cons_of_mem _ hk)

theorem name_changed (h : ∀ c ∈ cs, c.id = l.id → c.name = l.name) :
    (l.changed cs).name = l.name := by
  induction cs generalizing l with
  | nil => rfl
  | cons c cs ih =>
    rw [changed_cons]
    have hrest : ∀ k ∈ cs, k.id = l.id → k.name = l.name := fun k hk =>
      h k (List.mem_cons_of_mem _ hk)
    split_ifs with hid
    · have hn : c.name = l.name := h c List.mem_cons_self hid.symm
      rw [ih (by simpa [hn] using hrest)]
      exact hn
    · exact ih hrest

/-- Changes that agree on a color give it. -/
theorem color_changed {x : LabelColor} (hex : (∃ c ∈ cs, c.id = l.id) ∨ l.color = some x)
    (h : ∀ c ∈ cs, c.id = l.id → c.color = some x) : (l.changed cs).color = some x := by
  induction cs generalizing l with
  | nil => simpa [changed] using hex
  | cons c cs ih =>
    rw [changed_cons]
    have hrest : ∀ k ∈ cs, k.id = l.id → k.color = some x := fun k hk =>
      h k (List.mem_cons_of_mem _ hk)
    split_ifs with hid
    · exact ih (.inr (color_changedTo (h c List.mem_cons_self hid.symm))) hrest
    · refine ih (hex.imp_left ?_) hrest
      rintro ⟨k, hk, hkl⟩
      rcases List.mem_cons.1 hk with rfl | hk
      · exact absurd hkl.symm hid
      · exact ⟨k, hk, hkl⟩

end Label

theorem label?_changed (cs : List Label) (r : RemoteLabel) :
    (r.changed cs).label? = r.label?.map (Label.changed cs) := by
  induction cs generalizing r with
  | nil => cases h : r.label? <;> simp [RemoteLabel.changed, Label.changed, h]
  | cons c cs ih =>
    have hstep : r.changed (c :: cs) = (if r.id = c.id then r.changedTo c else r).changed cs := rfl
    rw [hstep, ih]
    by_cases hid : r.id = c.id
    · rw [if_pos hid]
      unfold RemoteLabel.label?
      by_cases hk : r.kind = some .system
      · simp [hk, RemoteLabel.changedTo]
      · simp [hk, RemoteLabel.changedTo, Label.changed_cons, Label.changedTo, hid]
    · rw [if_neg hid]
      unfold RemoteLabel.label?
      by_cases hk : r.kind = some .system
      · simp [hk]
      · simp [hk, Label.changed_cons, hid]

/-! ### Labels after all steps -/

/-- Labels after new ones have been added, some are changed by id and some are deleted by id. -/
def relabeled (ls new cs : List Label) (ids : List String) : List Label :=
  ((ls ++ new).map (Label.changed cs)).filter fun l => l.id ∉ ids

theorem mem_relabeled {ls new cs : List Label} {ids : List String} {l : Label} :
    l ∈ relabeled ls new cs ids ↔
      ∃ k, (k ∈ ls ∨ k ∈ new) ∧ k.id ∉ ids ∧ k.changed cs = l := by
  simp only [relabeled, List.mem_filter, List.mem_map, List.mem_append, decide_eq_true_eq]
  constructor
  · rintro ⟨⟨k, hk, rfl⟩, hid⟩
    exact ⟨k, hk, by simpa using hid, rfl⟩
  · rintro ⟨k, hk, hid, rfl⟩
    exact ⟨⟨k, hk, rfl⟩, by simpa using hid⟩

theorem relabeled_sublist (ls new cs : List Label) (ids : List String) :
    (relabeled ls new cs ids).Sublist ((ls ++ new).map (Label.changed cs)) :=
  List.filter_sublist

/-- No two labels have the same id afterwards. -/
theorem relabeled_ids_nodup {ls new cs : List Label} {ids : List String}
    (hi : (ls.map Label.id).Nodup) (hn : (new.map Label.id).Nodup)
    (hf : ∀ k ∈ new, ∀ l ∈ ls, l.id ≠ k.id) :
    ((relabeled ls new cs ids).map Label.id).Nodup := by
  refine List.Sublist.nodup ((relabeled_sublist ls new cs ids).map Label.id) ?_
  have hmap : ((ls ++ new).map (Label.changed cs)).map Label.id = (ls ++ new).map Label.id := by
    rw [List.map_map]
    exact List.map_congr_left fun _ _ => Label.id_changed
  rw [hmap, List.map_append, List.nodup_append']
  refine ⟨hi, hn, fun i hil hik => ?_⟩
  obtain ⟨l, hl, rfl⟩ := List.mem_map.1 hil
  obtain ⟨k, hk, hid⟩ := List.mem_map.1 hik
  exact hf k hk l hl hid.symm

section

variable {ls ds new : List Label} {removeLabels : Bool}

theorem LabelDiff.mem_deletions {d : LabelDiff} {id : String} :
    id ∈ d.deletions removeLabels ↔ removeLabels = true ∧ ∃ l ∈ d.removed, l.id = id := by
  unfold deletions
  split_ifs with hr <;> simp [hr, deletionOrder]

/-- The labels of an account, the declared ones and the ones that are created, where ids are
distinct and names are too. -/
structure Relabeling (ls ds new : List Label) : Prop where
  /-- No two labels of the account have one name. -/
  names : (ls.map Label.name).Nodup
  /-- No two labels of the account have one id. -/
  ids : (ls.map Label.id).Nodup
  /-- No two declared labels have one name. -/
  declared : (ds.map Label.name).Nodup
  /-- What is created is what is to be added, in order. -/
  created : List.Forall₂ (fun l k : Label => k.name = l.name ∧ k.color = l.color)
    (creationOrder (diffLabels ls ds).added) new
  /-- No new label has an id that is there. -/
  fresh : ∀ k ∈ new, ∀ l ∈ ls, l.id ≠ k.id

namespace Relabeling

variable (h : Relabeling ls ds new)

include h

theorem mem_added {l : Label} :
    l ∈ (diffLabels ls ds).added ↔ l ∈ ds ∧ ∀ k ∈ ls, k.name ≠ l.name :=
  (exact_diffLabels h.names h.declared).mem_added l

theorem mem_removed {l : Label} :
    l ∈ (diffLabels ls ds).removed ↔ l ∈ ls ∧ ∀ k ∈ ds, k.name ≠ l.name :=
  (exact_diffLabels h.names h.declared).mem_removed l

theorem mem_modified {c : LabelChange} :
    c ∈ (diffLabels ls ds).modified ↔
      c.old ∈ ls ∧ c.new ∈ ds ∧ c.new.name = c.old.name ∧ c.old.satisfies c.new = false := by
  rw [diffLabels_eq h.names h.declared, mem_unsatisfied h.declared]

theorem eq_of_id {k l : Label} (hk : k ∈ ls) (hl : l ∈ ls) (hid : k.id = l.id) : k = l :=
  List.inj_on_of_nodup_map h.ids hk hl hid

/-- A created label is a declaration that has no label. -/
theorem of_mem_new {k : Label} (hk : k ∈ new) :
    ∃ l ∈ ds, (∀ m ∈ ls, m.name ≠ l.name) ∧ k.name = l.name ∧ k.color = l.color := by
  obtain ⟨l, hl, hkl⟩ := (exists_mem_of_forall₂ h.created).2 k hk
  obtain ⟨hd, hn⟩ := h.mem_added.1 (List.mem_mergeSort.1 hl)
  exact ⟨l, hd, hn, hkl⟩

/-- What is changed under an id of the account is the label that has it. -/
theorem of_mem_updates {k l : Label} (hl : l ∈ ls)
    (hk : k ∈ (diffLabels ls ds).updates) (hid : k.id = l.id) :
    ∃ m ∈ ds, m.name = l.name ∧ l.satisfies m = false ∧ k.name = m.name ∧ k.color = m.color := by
  obtain ⟨c, hc, rfl⟩ := List.mem_map.1 hk
  obtain ⟨ho, hn, hname, hs⟩ := h.mem_modified.1 hc
  have heq : c.old = l := h.eq_of_id ho hl hid
  exact ⟨c.new, hn, heq ▸ hname, heq ▸ hs, rfl, rfl⟩

/-- Labels that are not declared are not changed. -/
theorem changed_of_undeclared {l : Label} (hl : l ∈ ls) (hno : ∀ m ∈ ds, m.name ≠ l.name) :
    l.changed (diffLabels ls ds).updates = l := by
  refine Label.changed_of_ne fun c hc hid => ?_
  obtain ⟨m, hm, hmn, -⟩ := h.of_mem_updates hl hc hid
  exact hno m hm hmn

/-- Created labels are not changed. -/
theorem changed_of_mem_new {k : Label} (hk : k ∈ new) :
    k.changed (diffLabels ls ds).updates = k := by
  refine Label.changed_of_ne fun c hc hid => ?_
  obtain ⟨d, hd, rfl⟩ := List.mem_map.1 hc
  exact h.fresh k hk _ (h.mem_modified.1 hd).1 hid

theorem name_changed {k : Label} (hk : k ∈ ls ∨ k ∈ new) :
    (k.changed (diffLabels ls ds).updates).name = k.name := by
  rcases hk with hk | hk
  · refine Label.name_changed fun c hc hid => ?_
    obtain ⟨m, -, hm, -, hcm, -⟩ := h.of_mem_updates hk hc hid
    exact hcm.trans hm
  · rw [h.changed_of_mem_new hk]

/-- A label that is deleted is one that is to be removed. -/
theorem mem_removed_of_deletions {k : Label} (hk : k ∈ ls ∨ k ∈ new)
    (hid : k.id ∈ (diffLabels ls ds).deletions removeLabels) : k ∈ (diffLabels ls ds).removed := by
  obtain ⟨-, l, hl, hlk⟩ := LabelDiff.mem_deletions.1 hid
  have hls : l ∈ ls := (h.mem_removed.1 hl).1
  rcases hk with hk | hk
  · rwa [h.eq_of_id hk hls hlk.symm]
  · exact absurd hlk (h.fresh k hk l hls)

/-- Only labels that are not declared are deleted. -/
theorem not_mem_deletions {k : Label} (hk : k ∈ ls ∨ k ∈ new) (hd : ∃ m ∈ ds, m.name = k.name) :
    k.id ∉ (diffLabels ls ds).deletions removeLabels := by
  intro hid
  obtain ⟨m, hm, hmk⟩ := hd
  exact (h.mem_removed.1 (h.mem_removed_of_deletions hk hid)).2 m hm hmk

theorem names_nodup :
    ((relabeled ls new (diffLabels ls ds).updates
      ((diffLabels ls ds).deletions removeLabels)).map Label.name).Nodup := by
  refine List.Sublist.nodup ((relabeled_sublist _ _ _ _).map Label.name) ?_
  have hmap : ((ls ++ new).map (Label.changed (diffLabels ls ds).updates)).map Label.name =
      (ls ++ new).map Label.name := by
    rw [List.map_map]
    exact List.map_congr_left fun k hk => h.name_changed (List.mem_append.1 hk)
  have hnew : new.map Label.name = (creationOrder (diffLabels ls ds).added).map Label.name :=
    map_eq_of_forall₂ (h.created.imp fun _ _ hk => hk.1)
  have hperm : (creationOrder (diffLabels ls ds).added).Perm (diffLabels ls ds).added :=
    List.mergeSort_perm _ _
  rw [hmap, List.map_append, List.nodup_append']
  refine ⟨h.names, ?_, ?_⟩
  -- new names are names of declarations, in another order
  · rw [hnew, (hperm.map Label.name).nodup_iff, diffLabels_eq h.names h.declared]
    refine List.Sublist.nodup (List.filter_sublist.map Label.name) ?_
    exact ((List.mergeSort_perm _ _).map Label.name).nodup_iff.2 h.declared
  -- and a declaration is created only if no label has its name
  · intro n hn hn'
    obtain ⟨l, hl, rfl⟩ := List.mem_map.1 hn
    obtain ⟨k, hk, hkl⟩ := List.mem_map.1 hn'
    obtain ⟨m, -, hno, hkm, -⟩ := h.of_mem_new hk
    exact hno l hl (hkl.symm.trans hkm)

/-- Every declaration has a label in the end. -/
theorem exists_of_declared {m : Label} (hm : m ∈ ds) :
    ∃ k, (k ∈ ls ∨ k ∈ new) ∧ k.name = m.name ∧
      k.id ∉ (diffLabels ls ds).deletions removeLabels := by
  have hex : ∃ k, (k ∈ ls ∨ k ∈ new) ∧ k.name = m.name := by
    by_cases hl : ∃ k ∈ ls, k.name = m.name
    · obtain ⟨k, hk, hkm⟩ := hl
      exact ⟨k, .inl hk, hkm⟩
    · have hadd : m ∈ creationOrder (diffLabels ls ds).added :=
        List.mem_mergeSort.2 (h.mem_added.2 ⟨hm, fun k hk hkm => hl ⟨k, hk, hkm⟩⟩)
      obtain ⟨k, hk, hkm, -⟩ := (exists_mem_of_forall₂ h.created).1 m hadd
      exact ⟨k, .inr hk, hkm⟩
  obtain ⟨k, hk, hkm⟩ := hex
  exact ⟨k, hk, hkm, h.not_mem_deletions hk ⟨m, hm, hkm.symm⟩⟩

/-- A label that is not there from the start is as it is declared, and any other is changed to be
so. -/
theorem satisfies_of_declared {k m : Label} (hk : k ∈ ls ∨ k ∈ new) (hm : m ∈ ds)
    (hn : m.name = k.name) : (k.changed (diffLabels ls ds).updates).satisfies m = true := by
  have hname := h.name_changed hk
  rcases hk with hk | hk
  · by_cases hs : k.satisfies m = true
    · -- no change is sent under its id
      rw [Label.changed_of_ne fun c hc hid => ?_]
      · exact hs
      · obtain ⟨m', hm', hn', hs', -⟩ := h.of_mem_updates hk hc hid
        rw [List.inj_on_of_nodup_map h.declared hm' hm (hn'.trans hn.symm), hs] at hs'
        cases hs'
    -- only a color can be missing, and a change that gives it is sent
    · have hcolor : ∃ x, m.color = some x := by
        refine Option.ne_none_iff_exists'.1 fun hnone => hs ?_
        simp [Label.satisfies, hn, hnone]
      obtain ⟨x, hx⟩ := hcolor
      have hmem : LabelChange.update ⟨k, m⟩ ∈ (diffLabels ls ds).updates :=
        List.mem_map_of_mem (h.mem_modified.2 ⟨hk, hm, hn, Bool.eq_false_iff.2 hs⟩)
      have hchanged : (k.changed (diffLabels ls ds).updates).color = some x := by
        refine Label.color_changed (.inl ⟨_, hmem, rfl⟩) fun c hc hid => ?_
        obtain ⟨m', hm', hn', -, -, hc'⟩ := h.of_mem_updates hk hc hid
        rw [hc', List.inj_on_of_nodup_map h.declared hm' hm (hn'.trans hn.symm), hx]
      simp [Label.satisfies, hname, hn, hchanged, hx]
  · obtain ⟨l, hl, -, hkl, hcolor⟩ := h.of_mem_new hk
    rw [h.changed_of_mem_new hk]
    have hlm : l = m := List.inj_on_of_nodup_map h.declared hl hm (hkl.symm.trans hn.symm)
    simp [Label.satisfies, hn, hcolor, hlm]

/-- What is not declared is left as it was, or deleted. -/
theorem removed_relabeled :
    without Label.name (byName (relabeled ls new (diffLabels ls ds).updates
        ((diffLabels ls ds).deletions removeLabels))) (byName ds) =
      if removeLabels then [] else (diffLabels ls ds).removed := by
  have hundeclared : ∀ {u : Label}, u ∈ without Label.name (byName (relabeled ls new
      (diffLabels ls ds).updates ((diffLabels ls ds).deletions removeLabels))) (byName ds) →
      u ∈ (diffLabels ls ds).removed ∧ u.id ∉ (diffLabels ls ds).deletions removeLabels := by
    intro u hu
    obtain ⟨hu, hno⟩ := mem_without.1 hu
    obtain ⟨k, hk, hid, rfl⟩ := mem_relabeled.1 (mem_byName.1 hu)
    rw [h.name_changed hk] at hno
    have hno' : ∀ m ∈ ds, m.name ≠ k.name := fun m hm => hno m (mem_byName.2 hm)
    rcases hk with hk | hk
    · rw [h.changed_of_undeclared hk hno']
      exact ⟨h.mem_removed.2 ⟨hk, hno'⟩, hid⟩
    · obtain ⟨l, hl, -, hkl, -⟩ := h.of_mem_new hk
      exact absurd hkl.symm (hno' l hl)
  by_cases hr : removeLabels = true
  · rw [if_pos hr]
    refine List.eq_nil_iff_forall_not_mem.2 fun u hu => ?_
    obtain ⟨hrem, hid⟩ := hundeclared hu
    exact hid (LabelDiff.mem_deletions.2 ⟨hr, u, hrem, rfl⟩)
  · have hrem : (diffLabels ls ds).removed = without Label.name (byName ls) (byName ds) := by
      rw [diffLabels_eq h.names h.declared]
    rw [if_neg hr, hrem]
    -- both sides are in order of their names, so they may be compared by their members
    refine Ascending.eq_of_mem_iff ((byName_ascending h.names_nodup).without _)
      ((byName_ascending h.names).without _) fun u => ⟨fun hu => hrem ▸ (hundeclared hu).1, ?_⟩
    intro hu
    obtain ⟨hu, hno⟩ := mem_without.1 hu
    have hno' : ∀ m ∈ ds, m.name ≠ u.name := fun m hm => hno m (mem_byName.2 hm)
    refine mem_without.2 ⟨mem_byName.2 (mem_relabeled.2 ⟨u, .inl (mem_byName.1 hu), ?_, ?_⟩), hno⟩
    · rw [LabelDiff.deletions, if_neg hr]
      exact List.not_mem_nil
    · exact h.changed_of_undeclared (mem_byName.1 hu) hno'

/-- **Nothing is left to be created or changed.** -/
theorem diffLabels_relabeled :
    diffLabels (relabeled ls new (diffLabels ls ds).updates
        ((diffLabels ls ds).deletions removeLabels)) ds =
      { removed := if removeLabels then [] else (diffLabels ls ds).removed } := by
  rw [diffLabels_eq h.names_nodup h.declared]
  congr 1
  · refine List.eq_nil_iff_forall_not_mem.2 fun m hm => ?_
    obtain ⟨hmd, hno⟩ := mem_without.1 hm
    obtain ⟨k, hk, hkm, hid⟩ := h.exists_of_declared (mem_byName.1 hmd)
    refine hno _ (mem_byName.2 (mem_relabeled.2 ⟨k, hk, hid, rfl⟩)) ?_
    rw [h.name_changed hk, hkm]
  · rw [h.removed_relabeled]
  · refine List.eq_nil_iff_forall_not_mem.2 fun c hc => ?_
    obtain ⟨ho, hcn, hn, hs⟩ := (mem_unsatisfied h.declared).1 hc
    obtain ⟨k, hk, -, heq⟩ := mem_relabeled.1 ho
    have hname : (k.changed (diffLabels ls ds).updates).name = k.name := h.name_changed hk
    rw [← heq, h.satisfies_of_declared hk hcn (hn.trans (heq ▸ hname))] at hs
    cases hs

end Relabeling

end

/-! ### Labels of a plan -/

section

variable {new : List Label} {declared existing : MailConfig} {removeLabels : Bool}

theorem LabelDiff.eq_empty_of_isEmpty {d : LabelDiff} (h : d.isEmpty = true) : d = {} := by
  obtain ⟨added, removed, modified⟩ := d
  simpa [LabelDiff.isEmpty, and_assoc] using h

/-- What is safe about a valid plan that changes labels. -/
theorem Plan.of_validate {p : Plan} (hv : p.validate = .ok ()) (hne : p.labels.isEmpty = false) :
    (p.declared.labels.map Label.name).Nodup ∧
      ∀ l ∈ p.labels.removed, ∀ f ∈ p.declared.filters, f.action.addLabel ≠ l.name := by
  unfold validate at hv
  rw [hne, if_neg Bool.false_ne_true] at hv
  cases hva : Label.validateAll p.declared.labels with
  | error e =>
    rw [hva] at hv
    cases hv
  | ok _ =>
    rw [hva] at hv
    refine ⟨nodup_of_validateAll hva, removedInUse?_eq_none.1 ?_⟩
    cases hru : p.labels.removedInUse? p.declared.filters with
    | some l =>
      simp only [hru] at hv
      cases hv
    | none => rfl

/-- The labels after all steps of a plan. -/
def Plan.labelsAfter (removeLabels : Bool) (ls new : List Label) (p : Plan) : List Label :=
  relabeled ls new p.labels.updates (p.labels.deletions removeLabels)

/-- What a plan makes of the labels of an account, new ones among them. -/
structure Plan.Relabels (p : Plan) (removeLabels : Bool) (ls new : List Label) : Prop where
  /-- Only labels of the account are changed. -/
  modified : ∀ c ∈ p.labels.modified, c.old ∈ ls
  /-- Only labels of the account are removed. -/
  removed : ∀ l ∈ p.labels.removed, l ∈ ls
  /-- No label gets another name. -/
  names : ∀ k, k ∈ ls ∨ k ∈ new → (k.changed p.labels.updates).name = k.name
  /-- No label that a declared filter applies is deleted. -/
  applied : ∀ k, k ∈ ls ∨ k ∈ new → (∃ f ∈ p.declared.filters, f.action.addLabel = k.name) →
    k.id ∉ p.labels.deletions removeLabels
  /-- Nothing is left to be created or changed. -/
  settled : ∀ again : MailConfig, again.labels = p.labelsAfter removeLabels ls new →
    (diff p.declared again).labels = { removed := if removeLabels then [] else p.labels.removed }

namespace Plan.Relabels

variable {p : Plan} {ls : List Label} (h : p.Relabels removeLabels ls new)

include h

/-- The labels in the end have the names that they had, or are new. -/
theorem name?_before {i n : String} (hids : (ls.map Label.id).Nodup) (hi : ∀ k ∈ new, k.id ≠ i)
    (hn : (LabelMap.ofLabels (p.labelsAfter removeLabels ls new)).name? i = some n) :
    (LabelMap.ofLabels ls).name? i = some n := by
  obtain ⟨l, hm, rfl, rfl⟩ := LabelMap.of_name?_ofLabels hn
  obtain ⟨k, hk, -, rfl⟩ := mem_relabeled.1 hm
  rw [Label.id_changed] at hi ⊢
  rw [h.names k hk]
  exact LabelMap.name?_ofLabels hids (hk.resolve_right fun hkn => hi k hkn rfl)

/-- A label that a declared filter applies is still there. -/
theorem name?_after {k : Label}
    (hids : ((p.labelsAfter removeLabels ls new).map Label.id).Nodup)
    (hk : k ∈ ls ∨ k ∈ new) (hf : ∃ f ∈ p.declared.filters, f.action.addLabel = k.name) :
    (LabelMap.ofLabels (p.labelsAfter removeLabels ls new)).name? k.id = some k.name := by
  have hm : k.changed p.labels.updates ∈ p.labelsAfter removeLabels ls new :=
    mem_relabeled.2 ⟨k, hk, h.applied k hk hf, rfl⟩
  have hn := LabelMap.name?_ofLabels hids hm
  rwa [Label.id_changed, h.names k hk] at hn

end Plan.Relabels

/-- A plan without changes of labels leaves them alone. -/
theorem relabels_of_isEmpty (h : (diff declared existing).labels.isEmpty = true) :
    (diff declared existing).Relabels removeLabels existing.labels [] := by
  have he := LabelDiff.eq_empty_of_isEmpty h
  have hu : (diff declared existing).labels.updates = [] := by
    rw [he]
    rfl
  have hd : (diff declared existing).labels.deletions removeLabels = [] := by
    simp [he, LabelDiff.deletions, deletionOrder]
  refine ⟨?_, ?_, fun k _ => ?_, fun k _ _ => ?_, fun again ha => ?_⟩
  · rw [he]
    intro c hc
    cases hc
  · rw [he]
    intro l hl
    cases hl
  · rw [hu]
    rfl
  · rw [hd]
    exact List.not_mem_nil
  · have hsame : again.labels = existing.labels := by
      rw [ha, Plan.labelsAfter, hu, hd]
      have hid : ∀ ls : List Label, ls.map (Label.changed []) = ls := fun ls => List.map_id' ls
      simp [relabeled, hid]
    have hlabels : (diff declared again).labels = (diff declared existing).labels := by
      simp only [diff, hsame]
    rw [he] at hlabels ⊢
    rw [ite_self]
    exact hlabels

/-- A valid plan with changes of labels carries them out. -/
theorem relabels_of_valid (hv : (diff declared existing).validate = .ok ())
    (hne : (diff declared existing).labels.isEmpty = false)
    (hn : (existing.labels.map Label.name).Nodup) (hi : (existing.labels.map Label.id).Nodup)
    (hnew : List.Forall₂ (fun l k : Label => k.name = l.name ∧ k.color = l.color)
      (creationOrder (diff declared existing).labels.added) new)
    (hf : ∀ k ∈ new, ∀ l ∈ existing.labels, l.id ≠ k.id) :
    (diff declared existing).Relabels removeLabels existing.labels new := by
  obtain ⟨hdn, hru⟩ := Plan.of_validate hv hne
  have hdecl : declared.labels.isEmpty = false := by
    refine Bool.eq_false_iff.2 fun hdecl => ?_
    simp only [diff, hdecl, if_true] at hne
    cases hne
  have hdiff : ∀ again : MailConfig,
      (diff declared again).labels = diffLabels again.labels declared.labels := by
    intro again
    simp only [diff, hdecl, Bool.false_eq_true, if_false]
  rw [hdiff] at hnew hru
  have h : Relabeling existing.labels declared.labels new := ⟨hn, hi, hdn, hnew, hf⟩
  refine ⟨?_, ?_, ?_, ?_, ?_⟩ <;> rw [hdiff]
  · exact fun c hc => (h.mem_modified.1 hc).1
  · exact fun l hl => (h.mem_removed.1 hl).1
  · exact fun k hk => h.name_changed hk
  · rintro k hk ⟨f, hfd, hfk⟩ hid
    exact hru k (h.mem_removed_of_deletions hk hid) f hfd hfk
  · intro again ha
    rw [Plan.labelsAfter, hdiff] at ha
    exact (hdiff again).trans (ha ▸ h.diffLabels_relabeled)
end

end MailRules
