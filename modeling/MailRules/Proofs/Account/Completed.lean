import MailRules.Proofs.Account.Relabeled

/-!
# Accounts after all requests of a plan

Where ids and names mean one thing only, and the ids that an account gives are new, the contents
of an account after all requests of a plan can be said outright.

* `Contents.Regular` and `Contents.Fresh` are what is asked of an account and of the ids it gives;
  `fresh_of_default` is when the ids given by default are new.  `Contents.Unambiguous` is the part
  of `Regular` that the requests depend on.
* `Plan.contentsAfter` are the contents in the end, and `userLabels_contentsAfter` the labels of
  the user among them.
* `Account.Holds.of_requests` is the main result: the requests lead there.
-/

namespace MailRules

/-! ### Accounts -/

namespace Contents

/-- The labels of the user. -/
def userLabels (c : Contents) : List Label := c.labels.filterMap RemoteLabel.label?

/-- The filters that a config can say. -/
def knownFilters (c : Contents) : List Filter := importable (.ofLabels c.userLabels) c.filters

/-- The labels of the user that are created for some labels. -/
def newUserLabels (c : Contents) (ls : List Label) : List Label :=
  (ls.zipIdx c.createdLabels).map fun p =>
    { name := p.1.name, color := p.1.color, id := c.ids.label p.2 }

/-- Ids and names that mean one thing only. -/
structure Regular (c : Contents) : Prop where
  /-- No two labels of the user have the same name. -/
  names : (c.userLabels.map Label.name).Nodup
  /-- No two labels of the user have the same id. -/
  ids : (c.userLabels.map Label.id).Nodup
  /-- No label of the user has the id of a system label. -/
  notSystem : ∀ l ∈ c.userLabels, SystemLabel.ofId? l.id = none ∧
    ∀ r ∈ c.labels, r.kind = some .system → r.id ≠ l.id
  /-- No two filters have the same id. -/
  filterIds : (c.filters.map fun f => f.id.getD "").Nodup
  /-- Every filter adds at most one label of the user. -/
  oneLabel : ∀ f ∈ c.filters, ∀ i ∈ f.action.addLabelIds, ∀ j ∈ f.action.addLabelIds,
    i ∈ c.userLabels.map Label.id → j ∈ c.userLabels.map Label.id → i = j
  /-- No two filters that a config can say have the same content. -/
  different : c.knownFilters.Pairwise fun f g => f.same g = false

/-- Ids and names that mean one thing only, whatever the filters do. -/
structure Unambiguous (c : Contents) : Prop where
  /-- No two labels of the user have the same name. -/
  names : (c.userLabels.map Label.name).Nodup
  /-- No two labels of the user have the same id. -/
  ids : (c.userLabels.map Label.id).Nodup
  /-- No label of the user has the id of a system label. -/
  notSystem : ∀ l ∈ c.userLabels, SystemLabel.ofId? l.id = none ∧
    ∀ r ∈ c.labels, r.kind = some .system → r.id ≠ l.id
  /-- No two filters have the same id. -/
  filterIds : (c.filters.map fun f => f.id.getD "").Nodup

theorem Regular.unambiguous {c : Contents} (h : c.Regular) : c.Unambiguous :=
  ⟨h.names, h.ids, h.notSystem, h.filterIds⟩

/-- Ids to come that occur nowhere in an account. -/
structure Fresh (c : Contents) : Prop where
  /-- An id for a label is no system label's, and no label or filter has it. -/
  label : ∀ n, c.createdLabels ≤ n → SystemLabel.ofId? (c.ids.label n) = none ∧
    (∀ r ∈ c.labels, r.id ≠ c.ids.label n) ∧
    ∀ f ∈ c.filters, c.ids.label n ∉ f.action.addLabelIds
  /-- No two labels to come get one id. -/
  labels : ∀ m n, c.createdLabels ≤ m → c.createdLabels ≤ n → c.ids.label m = c.ids.label n → m = n
  /-- No filter has an id that a filter to come gets. -/
  filter : ∀ n, c.createdFilters ≤ n → ∀ f ∈ c.filters, f.id.getD "" ≠ c.ids.filter n

end Contents

/-- Numbers after the same text differ as texts. -/
theorem toString_append_inj {s : String} {m n : Nat} (h : s ++ toString m = s ++ toString n) :
    m = n := by
  have hl := congrArg String.toList h
  rw [String.toList_append, String.toList_append, List.append_cancel_left_eq] at hl
  have hd : Nat.toDigits 10 m = Nat.toDigits 10 n := by
    rw [← Nat.toList_repr, ← Nat.toList_repr]
    exact hl
  rw [← Nat.ofDigitChars_ten_toDigits (n := m), hd, Nat.ofDigitChars_ten_toDigits]

/-- No system label has an id that starts like those given by default. -/
theorem ofId?_default (s : String) : SystemLabel.ofId? ("NL" ++ s) = none := by
  refine List.find?_eq_none.2 fun l _ hl => ?_
  have hh : l.id.toList.head? = some 'N' := by
    rw [of_decide_eq_true hl, String.toList_append]
    rfl
  cases l with
  | category c => cases c <;> simp [SystemLabel.id] at hh
  | _ => simp [SystemLabel.id] at hh

/-- The ids that an account gives by default are new, where nothing has an id that looks like
one. -/
theorem Contents.fresh_of_default {c : Contents} (hids : c.ids = {})
    (hl : ∀ r ∈ c.labels, ∀ s, r.id ≠ "NL" ++ s)
    (ha : ∀ f ∈ c.filters, ∀ s, "NL" ++ s ∉ f.action.addLabelIds)
    (hf : ∀ f ∈ c.filters, ∀ s, f.id.getD "" ≠ "NF" ++ s) : c.Fresh where
  label n _ := by
    rw [hids]
    exact ⟨ofId?_default _, fun r hr => hl r hr _, fun f hfm => ha f hfm _⟩
  labels m n _ _ hmn := by
    rw [hids] at hmn
    exact Nat.succ.inj (toString_append_inj hmn)
  filter n _ f hfm := by
    rw [hids]
    exact hf f hfm _

namespace Account.Holds

variable {a : Account} {c : Contents}

theorem userLabels_eq (h : a.Holds c) : a.userLabels = some c.userLabels := by
  unfold Account.userLabels
  rw [h.labels]
  rfl

theorem knownFilters_eq (h : a.Holds c) : a.knownFilters = some c.knownFilters := by
  unfold Account.knownFilters
  rw [h.userLabels_eq, h.filters]
  rfl

end Account.Holds

/-! ### Labels of the user -/

namespace Contents

variable {c : Contents} {l : Label} {ls : List Label}

theorem label?_eq_some {r : RemoteLabel} (h : r.label? = some l) :
    r.kind ≠ some .system ∧ l = { name := r.name, color := r.color, id := r.id } := by
  unfold RemoteLabel.label? at h
  split_ifs at h with hk
  exact ⟨hk, (Option.some.inj h).symm⟩

theorem mem_userLabels : l ∈ c.userLabels ↔ ∃ r ∈ c.labels, r.label? = some l :=
  List.mem_filterMap

theorem filterMap_newLabels (c : Contents) (ls : List Label) :
    (c.newLabels ls).filterMap RemoteLabel.label? = c.newUserLabels ls := by
  unfold newLabels newUserLabels
  rw [List.filterMap_map, ← List.filterMap_eq_map]
  rfl

/-- The labels of the user once new ones are there. -/
theorem userLabels_newLabels (c : Contents) (ls : List Label) (n : Nat) :
    ({ c with labels := c.labels ++ c.newLabels ls, createdLabels := n } : Contents).userLabels =
      c.userLabels ++ c.newUserLabels ls := by
  unfold userLabels
  rw [List.filterMap_append, filterMap_newLabels]

theorem filterMap_label?_filter (ids : List String) (rs : List RemoteLabel) :
    (rs.filter fun r => r.id ∉ ids).filterMap RemoteLabel.label? =
      (rs.filterMap RemoteLabel.label?).filter fun l => l.id ∉ ids := by
  induction rs with
  | nil => rfl
  | cons r rs ih =>
    cases hl : r.label? with
    | none =>
      rw [List.filterMap_cons_none hl, ← ih, List.filter_cons]
      split_ifs
      · exact List.filterMap_cons_none hl
      · rfl
    | some l =>
      obtain ⟨-, rfl⟩ := label?_eq_some hl
      rw [List.filterMap_cons_some hl, List.filter_cons, List.filter_cons, ← ih]
      split_ifs
      · exact List.filterMap_cons_some hl
      · rfl

theorem created_newUserLabels (c : Contents) (ls : List Label) :
    List.Forall₂ (fun l k : Label => k.name = l.name ∧ k.color = l.color) ls
      (c.newUserLabels ls) := by
  unfold newUserLabels
  generalize c.createdLabels = n
  induction ls generalizing n with
  | nil => exact .nil
  | cons l ls ih => exact .cons ⟨rfl, rfl⟩ (ih (n + 1))

/-- A label that is created has an id to come. -/
theorem id_of_mem_newUserLabels (h : l ∈ c.newUserLabels ls) :
    ∃ n, c.createdLabels ≤ n ∧ l.id = c.ids.label n := by
  obtain ⟨p, hp, rfl⟩ := List.mem_map.1 h
  exact ⟨p.2, List.le_snd_of_mem_zipIdx hp, rfl⟩

theorem id_of_mem_newLabels {r : RemoteLabel} (h : r ∈ c.newLabels ls) :
    ∃ n, c.createdLabels ≤ n ∧ r.id = c.ids.label n := by
  obtain ⟨p, hp, rfl⟩ := List.mem_map.1 h
  exact ⟨p.2, List.le_snd_of_mem_zipIdx hp, rfl⟩

theorem Fresh.ne_label (hc : c.Fresh) {n : Nat} (hn : c.createdLabels ≤ n) (hl : l ∈ c.userLabels) :
    l.id ≠ c.ids.label n := by
  obtain ⟨r, hr, hrl⟩ := mem_userLabels.1 hl
  obtain ⟨-, rfl⟩ := label?_eq_some hrl
  exact (hc.label n hn).2.1 r hr

/-- A label that is created does not have the id of one that was there. -/
theorem Fresh.ne_of_mem_newUserLabels (hc : c.Fresh) {k : Label} (hk : k ∈ c.newUserLabels ls)
    (hl : l ∈ c.userLabels) : l.id ≠ k.id := by
  obtain ⟨n, hn, hid⟩ := id_of_mem_newUserLabels hk
  rw [hid]
  exact hc.ne_label hn hl

theorem Fresh.ids_nodup (hc : c.Fresh) (ls : List Label) :
    ((c.newUserLabels ls).map Label.id).Nodup := by
  have hids : (c.newUserLabels ls).map Label.id =
      ((ls.zipIdx c.createdLabels).map Prod.snd).map c.ids.label := by
    unfold newUserLabels
    rw [List.map_map, List.map_map]
    rfl
  rw [hids, List.zipIdx_map_snd]
  refine List.Nodup.map_on (fun m hm n hn hmn => ?_) List.nodup_range'
  exact hc.labels m n (List.mem_range'_1.1 hm).1 (List.mem_range'_1.1 hn).1 hmn

/-- No other label has the id of a label of the user, and none will have. -/
theorem Unambiguous.labelOnce (hr : c.Unambiguous) (hc : c.Fresh) (hl : l ∈ c.userLabels) :
    ({ c with labels := c.labels ++ c.newLabels ls } : Contents).LabelOnce l.id := by
  have hnew : ∀ r ∈ c.newLabels ls, r.id ≠ l.id := by
    intro r hrn hid
    obtain ⟨n, hn, hrid⟩ := id_of_mem_newLabels hrn
    exact hc.ne_label hn hl (hid.symm.trans hrid)
  have hold : c.labels.Pairwise fun r r' => ¬(r.id = l.id ∧ r'.id = l.id) := by
    have hp := List.pairwise_filterMap.1 (List.pairwise_map.1 hr.ids)
    refine hp.imp_of_mem fun {r r'} hrm hrm' hne hids => ?_
    -- neither is a system label, so both are labels of the user
    have hlabel : ∀ k ∈ c.labels, k.id = l.id →
        k.label? = some { name := k.name, color := k.color, id := k.id } := by
      intro k hk hid
      exact if_neg fun hsys => (hr.notSystem l hl).2 k hk hsys hid
    exact hne _ (hlabel r hrm hids.1) _ (hlabel r' hrm' hids.2) (hids.1.trans hids.2.symm)
  refine List.pairwise_append.2 ⟨hold, ?_, ?_⟩
  · exact List.pairwise_of_forall_mem_list fun r hrm _ _ hids => hnew r hrm hids.1
  · intro r _ r' hr' hids
    exact hnew r' hr' hids.2

end Contents

/-! ### Filters that are created -/

namespace Contents

variable {c : Contents} {rs : List RemoteFilter} {r : RemoteFilter}

/-- A filter that is created has an id to come. -/
theorem id_of_mem_newFilters (h : r ∈ c.newFilters rs) :
    ∃ n, c.createdFilters ≤ n ∧ r.id = some (c.ids.filter n) ∧
      ∃ r₀ ∈ rs, r = { r₀ with id := r.id } := by
  obtain ⟨p, hp, rfl⟩ := List.mem_map.1 h
  exact ⟨p.2, List.le_snd_of_mem_zipIdx hp, rfl, p.1, List.fst_mem_of_mem_zipIdx hp, rfl⟩

theorem exists_mem_newFilters (h : r ∈ rs) :
    ∃ i, { r with id := some i } ∈ c.newFilters rs := by
  obtain ⟨n, hn, rfl⟩ := List.getElem_of_mem h
  refine ⟨_, List.mem_map.2 ⟨(rs[n], c.createdFilters + n), ?_, rfl⟩⟩
  rw [List.mk_add_mem_zipIdx_iff_getElem?, List.getElem?_eq_getElem hn]

/-- A new filter does not have the id of one that was there. -/
theorem Fresh.ne_filter (hc : c.Fresh) {r' : RemoteFilter} (hr : r ∈ c.newFilters rs)
    (hr' : r' ∈ c.filters) : r.id ≠ some (r'.id.getD "") := by
  obtain ⟨n, hn, hid, -⟩ := id_of_mem_newFilters hr
  rw [hid]
  exact fun heq => hc.filter n hn r' hr' (Option.some.inj heq).symm

theorem Unambiguous.eq_of_filterId (hr : c.Unambiguous) {r r' : RemoteFilter} (h : r ∈ c.filters)
    (h' : r' ∈ c.filters) (hid : r.id.getD "" = r'.id.getD "") : r = r' :=
  List.inj_on_of_nodup_map hr.filterIds h h' hid

/-- No other filter has the id of a filter, and none will have. -/
theorem Unambiguous.filterOnce (hr : c.Unambiguous) (hc : c.Fresh) (hf : r ∈ c.filters) :
    ({ c with filters := c.filters ++ c.newFilters rs } : Contents).FilterOnce (r.id.getD "") := by
  have hold : c.filters.Pairwise fun f g =>
      ¬(f.id = some (r.id.getD "") ∧ g.id = some (r.id.getD "")) := by
    refine (List.pairwise_map.1 hr.filterIds).imp fun {f g} hne hids => hne ?_
    rw [hids.1, hids.2]
  refine List.pairwise_append.2 ⟨hold, ?_, fun f _ g hg hids => hc.ne_filter hg hf hids.2⟩
  exact List.pairwise_of_forall_mem_list fun f hfn _ _ hids => hc.ne_filter hfn hf hids.1

end Contents

/-! ### The contents in the end -/

/-- The contents of an account in the end, if filters of the given stored forms are created. -/
def Plan.contentsAfter (removeLabels : Bool) (p : Plan) (rs : List RemoteFilter) (c : Contents) :
    Contents where
  labels := ((c.labels ++ c.newLabels (creationOrder p.labels.added)).map
    (RemoteLabel.changed p.labels.updates)).filter fun r => r.id ∉ p.labels.deletions removeLabels
  filters := (c.filters ++ c.newFilters rs).filter fun r =>
    ∀ id ∈ p.filters.removed.map Filter.id, r.id ≠ some id
  ids := c.ids
  createdLabels := c.createdLabels + (creationOrder p.labels.added).length
  createdFilters := c.createdFilters + rs.length

theorem RemoteLabel.id_changed (cs : List Label) (r : RemoteLabel) : (r.changed cs).id = r.id := by
  induction cs generalizing r with
  | nil => rfl
  | cons c cs ih =>
    have hstep : r.changed (c :: cs) = (if r.id = c.id then r.changedTo c else r).changed cs := rfl
    rw [hstep, ih]
    split_ifs <;> rfl

section

variable {p : Plan} {a b : Account} {c : Contents} {rs : List RemoteFilter} {removeLabels : Bool}
  {new : List Label}

theorem Plan.userLabels_contentsAfter :
    (p.contentsAfter removeLabels rs c).userLabels =
      p.labelsAfter removeLabels c.userLabels
        (c.newUserLabels (creationOrder p.labels.added)) := by
  have hchanged : ∀ rs : List RemoteLabel,
      (rs.map (RemoteLabel.changed p.labels.updates)).filterMap RemoteLabel.label? =
        (rs.filterMap RemoteLabel.label?).map (Label.changed p.labels.updates) := by
    intro rs
    rw [List.filterMap_map, List.map_filterMap]
    exact List.filterMap_congr fun r _ => label?_changed _ r
  unfold Contents.userLabels contentsAfter labelsAfter relabeled
  rw [Contents.filterMap_label?_filter, hchanged, List.filterMap_append,
    Contents.filterMap_newLabels]

/-- Changes keep ids, so that they stay unambiguous. -/
theorem Contents.LabelOnce.changed {id : String} (h : c.LabelOnce id) (cs : List Label) :
    ({ c with labels := c.labels.map (RemoteLabel.changed cs) } : Contents).LabelOnce id := by
  refine List.pairwise_map.2 (List.Pairwise.imp (fun {r r'} hrr hids => hrr ?_) h)
  rwa [RemoteLabel.id_changed, RemoteLabel.id_changed] at hids

/-- The requests of a plan lead to its contents in the end, and all filters to be removed were
there. -/
theorem Account.Holds.of_requests (h : a.Holds c) (hu : c.Unambiguous) (hfresh : c.Fresh)
    (hl : p.Relabels removeLabels c.userLabels new)
    (hf : ∀ f ∈ p.filters.removed, ∃ r ∈ c.filters, r.id.getD "" = f.id)
    (hrs : p.exportsIn a = some rs) (hp : a.performAll (p.requests removeLabels a) = .ok b) :
    b.Holds (p.contentsAfter removeLabels rs c) ∧
      ∀ f ∈ p.filters.removed, ∃ r ∈ c.filters, r.id = some f.id := by
  unfold Plan.requests at hp
  rw [hrs] at hp
  obtain ⟨a₁, h₁, hp⟩ := performAll_append_iff.1 hp
  obtain ⟨a₂, h₂, hp⟩ := performAll_append_iff.1 hp
  obtain ⟨a₃, h₃, hp⟩ := performAll_append_iff.1 hp
  obtain ⟨a₄, h₄, h₅⟩ := performAll_append_iff.1 hp
  -- what is changed or deleted is unambiguous
  have hchange : ∀ l ∈ p.labels.updates, ({ c with
      labels := c.labels ++ c.newLabels (creationOrder p.labels.added) } : Contents).LabelOnce
        l.id := by
    intro l hlu
    obtain ⟨m, hm, rfl⟩ := List.mem_map.1 hlu
    exact hu.labelOnce (l := m.old) hfresh (hl.modified m hm)
  have hfilter : ∀ id ∈ p.filters.removed.map Filter.id, ({ c with
      filters := c.filters ++ c.newFilters rs } : Contents).FilterOnce id := by
    intro id hid
    obtain ⟨f, hfr, rfl⟩ := List.mem_map.1 hid
    obtain ⟨r, hr, hrf⟩ := hf f hfr
    exact hrf ▸ hu.filterOnce hfresh hr
  have hdelete : ∀ id ∈ p.labels.deletions removeLabels, ({ c with
      labels := (c.labels ++ c.newLabels (creationOrder p.labels.added)).map
        (RemoteLabel.changed p.labels.updates) } : Contents).LabelOnce id := by
    intro id hid
    obtain ⟨-, l, hlr, rfl⟩ := LabelDiff.mem_deletions.1 hid
    exact (hu.labelOnce hfresh (hl.removed l hlr)).changed _
  have hc₃ := ((h.createLabels h₁).createFilters h₂).changeLabels hchange h₃
  obtain ⟨hc₄, hfound⟩ := hc₃.deleteFilters hfilter h₄
  refine ⟨?_, fun f hfr => ?_⟩
  · exact hc₄.deleteLabels hdelete h₅
  · obtain ⟨r, hr, hrf⟩ := hfound f.id (List.mem_map_of_mem hfr)
    obtain ⟨r', hr', hrf'⟩ := hf f hfr
    refine ⟨r, (List.mem_append.1 hr).resolve_right fun hn => ?_, hrf⟩
    exact hfresh.ne_filter hn hr' (hrf'.symm ▸ hrf)
end

end MailRules
