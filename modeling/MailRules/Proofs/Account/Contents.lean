import MailRules.Proofs.Account.Requests
import Mathlib.Tactic.SplitIfs

/-!
# What requests make of the contents of an account

An account in which everything can be read comes down to lists of stored forms, and where ids are
unambiguous a request does to them what one expects: creating appends, changing maps, deleting
filters.

* `Contents` are the stored forms, with the ids that are to come; `Account.Holds` relates them to
  an account.
* `Holds.createLabels` and the like say what the requests of one step make of the contents.
-/

namespace MailRules

/-! ### Entries that are searched for -/

namespace Entry

variable {α : Type} {read : Value → Checked α} {es es' : List (Entry α)} {rs : List α}
  {p : Entry α → Bool} {q : α → Bool}

theorem readAll_append (h : readAll read es = some rs) (a : α) :
    readAll read (es ++ [.stored a]) = some (rs ++ [a]) :=
  readAll_eq_some.2 (List.rel_append (readAll_eq_some.1 h) (.cons rfl .nil))

/-- Where at most one entry is searched for, changing the first changes all. -/
theorem readAll_changeFirst? {f : Entry α → Entry α} {g : α → α}
    (hpq : ∀ e r, e.read read = .ok r → p e = q r)
    (hfg : ∀ e r, e.read read = .ok r → (f e).read read = .ok (g r))
    (h : readAll read es = some rs) (hone : rs.Pairwise fun r r' => ¬(q r = true ∧ q r' = true))
    (hc : changeFirst? p f es = some es') :
    readAll read es' = some (rs.map fun r => if q r = true then g r else r) := by
  rw [readAll_eq_some] at h ⊢
  induction h generalizing es' with
  | nil => cases hc
  | @cons e r es rs her hes ih =>
    obtain ⟨hr, hone⟩ := List.pairwise_cons.1 hone
    unfold changeFirst? at hc
    rw [hpq e r her] at hc
    split_ifs at hc with hq
    -- the first is the one, so that no other is searched for
    · cases hc
      have hrest : rs.map (fun r => if q r = true then g r else r) = rs :=
        List.map_congr_left (fun r' hr' => if_neg fun hq' => hr r' hr' ⟨hq, hq'⟩) |>.trans
          (List.map_id' rs)
      rw [List.map_cons, hrest, if_pos hq]
      exact .cons (hfg e r her) hes
    · obtain ⟨es'', hes'', rfl⟩ := Option.map_eq_some_iff.1 hc
      rw [List.map_cons, if_neg hq]
      exact .cons her (ih hone hes'')

/-- Where at most one entry is searched for, removing the first removes all, and there is one. -/
theorem readAll_removeFirst? (hpq : ∀ e r, e.read read = .ok r → p e = q r)
    (h : readAll read es = some rs) (hone : rs.Pairwise fun r r' => ¬(q r = true ∧ q r' = true))
    (hc : removeFirst? p es = some es') :
    readAll read es' = some (rs.filter fun r => !q r) ∧ ∃ r ∈ rs, q r = true := by
  rw [readAll_eq_some] at h ⊢
  induction h generalizing es' with
  | nil => cases hc
  | @cons e r es rs her hes ih =>
    obtain ⟨hr, hone⟩ := List.pairwise_cons.1 hone
    unfold removeFirst? at hc
    rw [hpq e r her] at hc
    split_ifs at hc with hq
    · cases hc
      have hrest : rs.filter (fun r => !q r) = rs := by
        refine List.filter_eq_self.2 fun r' hr' => ?_
        simpa using fun hq' => hr r' hr' ⟨hq, hq'⟩
      rw [List.filter_cons, hrest, hq]
      exact ⟨hes, r, List.mem_cons_self, hq⟩
    · obtain ⟨es'', hes'', rfl⟩ := Option.map_eq_some_iff.1 hc
      obtain ⟨hrest, r', hr', hq'⟩ := ih hone hes''
      rw [List.filter_cons, if_pos (by simpa using hq)]
      exact ⟨.cons her hrest, r', List.mem_cons_of_mem _ hr', hq'⟩

theorem isText_labelId {e : LabelEntry} {l : RemoteLabel} (h : e.read readRemoteLabel = .ok l)
    (id : String) : e.labelId.isText id = decide (l.id = id) := by
  rw [labelId_of_read h]
  rfl

theorem isText_filterId {e : FilterEntry} {r : RemoteFilter}
    (h : e.read readRemoteFilter = .ok r) (id : String) :
    e.filterId.isText id = decide (r.id = some id) := by
  rw [filterId_of_read h]
  cases r.id with
  | none => rfl
  | some i => simp [Value.isText]

end Entry

/-! ### Contents -/

/-- The stored forms in an account, and the ids that it gives. -/
structure Contents where
  /-- The labels, those of the system included. -/
  labels : List RemoteLabel
  /-- The filters. -/
  filters : List RemoteFilter
  /-- The ids for new labels and filters. -/
  ids : IdSupply
  /-- How many labels have been created. -/
  createdLabels : Nat
  /-- How many filters have been created. -/
  createdFilters : Nat

/-- Everything in an account can be read, and comes to the given contents. -/
structure Account.Holds (a : Account) (c : Contents) : Prop where
  labels : Entry.readAll readRemoteLabel a.labels = some c.labels
  filters : Entry.readAll readRemoteFilter a.filters = some c.filters
  ids : a.ids = c.ids
  createdLabels : a.createdLabels = c.createdLabels
  createdFilters : a.createdFilters = c.createdFilters

namespace Contents

/-- At most one label has an id. -/
def LabelOnce (c : Contents) (id : String) : Prop :=
  c.labels.Pairwise fun l m => ¬(l.id = id ∧ m.id = id)

/-- At most one filter has an id. -/
def FilterOnce (c : Contents) (id : String) : Prop :=
  c.filters.Pairwise fun f g => ¬(f.id = some id ∧ g.id = some id)

/-- The labels that are created for some labels. -/
def newLabels (c : Contents) (ls : List Label) : List RemoteLabel :=
  (ls.zipIdx c.createdLabels).map fun p =>
    { id := c.ids.label p.2, name := p.1.name, color := p.1.color }

/-- The filters that are created for some stored forms. -/
def newFilters (c : Contents) (rs : List RemoteFilter) : List RemoteFilter :=
  (rs.zipIdx c.createdFilters).map fun p => { p.1 with id := some (c.ids.filter p.2) }

end Contents

/-- A stored label with the name of another, and with its colors if it has some. -/
def RemoteLabel.changedTo (r : RemoteLabel) (l : Label) : RemoteLabel :=
  { r with name := l.name, color := l.color.orElse fun _ => r.color }

/-- A stored label after changes that are made by id. -/
def RemoteLabel.changed (ls : List Label) (r : RemoteLabel) : RemoteLabel :=
  ls.foldl (fun r l => if r.id = l.id then r.changedTo l else r) r

namespace Account.Holds

variable {a b : Account} {c : Contents}

theorem createLabel {l : Label} (h : a.Holds c) (hp : a.perform l.creation = .ok b) :
    b.Holds { c with
      labels := c.labels ++
        [{ id := c.ids.label c.createdLabels, name := l.name, color := l.color }]
      createdLabels := c.createdLabels + 1 } := by
  obtain ⟨-, rfl⟩ := perform_createLabel_iff.1 hp
  rw [h.ids, h.createdLabels]
  exact ⟨Entry.readAll_append h.labels _, h.filters, rfl, rfl, h.createdFilters⟩

theorem createFilter {r : RemoteFilter} (h : a.Holds c) (hp : a.perform r.creation = .ok b) :
    b.Holds { c with
      filters := c.filters ++ [{ r with id := some (c.ids.filter c.createdFilters) }]
      createdFilters := c.createdFilters + 1 } := by
  rw [perform_createFilter_iff.1 hp, h.ids, h.createdFilters]
  exact ⟨h.labels, Entry.readAll_append h.filters _, rfl, h.createdLabels, rfl⟩

theorem changeLabel {l : Label} (h : a.Holds c) (hl : c.LabelOnce l.id)
    (hp : a.perform l.change = .ok b) :
    b.Holds { c with
      labels := c.labels.map fun r => if r.id = l.id then r.changedTo l else r } := by
  obtain ⟨es, hes, rfl⟩ := perform_patchLabel_iff.1 hp
  refine ⟨?_, h.filters, h.ids, h.createdLabels, h.createdFilters⟩
  have hone : c.labels.Pairwise fun r r' => ¬(decide (r.id = l.id) = true ∧
      decide (r'.id = l.id) = true) := by
    simpa [Contents.LabelOnce] using hl
  have hr := Entry.readAll_changeFirst? (g := fun r => r.changedTo l)
    (fun e r her => Entry.isText_labelId her l.id)
    (fun e r her => Entry.read_patchLabel her l.name l.color) h.labels hone hes
  simpa using hr

theorem deleteLabel {id : String} (h : a.Holds c) (hl : c.LabelOnce id)
    (hp : a.perform (.deleteLabel id) = .ok b) :
    b.Holds { c with labels := c.labels.filter fun r => r.id ≠ id } := by
  obtain ⟨es, hes, rfl⟩ := perform_deleteLabel_iff.1 hp
  refine ⟨?_, h.filters, h.ids, h.createdLabels, h.createdFilters⟩
  have hone : c.labels.Pairwise fun r r' => ¬(decide (r.id = id) = true ∧
      decide (r'.id = id) = true) := by
    simpa [Contents.LabelOnce] using hl
  have hr := Entry.readAll_removeFirst? (fun e r her => Entry.isText_labelId her id) h.labels
    hone hes
  simpa using hr.1

theorem deleteFilter {id : String} (h : a.Holds c) (hf : c.FilterOnce id)
    (hp : a.perform (.deleteFilter id) = .ok b) :
    b.Holds { c with filters := c.filters.filter fun r => r.id ≠ some id } ∧
      ∃ r ∈ c.filters, r.id = some id := by
  obtain ⟨es, hes, rfl⟩ := perform_deleteFilter_iff.1 hp
  have hone : c.filters.Pairwise fun f g => ¬(decide (f.id = some id) = true ∧
      decide (g.id = some id) = true) := by
    simpa [Contents.FilterOnce] using hf
  have hr := Entry.readAll_removeFirst? (fun e r her => Entry.isText_filterId her id) h.filters
    hone hes
  refine ⟨⟨h.labels, ?_, h.ids, h.createdLabels, h.createdFilters⟩, by simpa using hr.2⟩
  simpa using hr.1

/-! ### Batches of requests -/

theorem createLabels {ls : List Label} (h : a.Holds c)
    (hp : a.performAll (ls.map Label.creation) = .ok b) :
    b.Holds { c with
      labels := c.labels ++ c.newLabels ls
      createdLabels := c.createdLabels + ls.length } := by
  induction ls generalizing a c with
  | nil =>
    cases hp
    simpa [Contents.newLabels] using h
  | cons l ls ih =>
    obtain ⟨a', ha', hp⟩ := performAll_cons_iff.1 hp
    have hb := ih (h.createLabel ha') hp
    simpa [Contents.newLabels, Nat.add_comm, Nat.add_left_comm] using hb

theorem createFilters {rs : List RemoteFilter} (h : a.Holds c)
    (hp : a.performAll (rs.map RemoteFilter.creation) = .ok b) :
    b.Holds { c with
      filters := c.filters ++ c.newFilters rs
      createdFilters := c.createdFilters + rs.length } := by
  induction rs generalizing a c with
  | nil =>
    cases hp
    simpa [Contents.newFilters] using h
  | cons r rs ih =>
    obtain ⟨a', ha', hp⟩ := performAll_cons_iff.1 hp
    have hb := ih (h.createFilter ha') hp
    simpa [Contents.newFilters, Nat.add_comm, Nat.add_left_comm] using hb

/-- Changes keep ids, so that they stay unambiguous. -/
theorem changeLabels {ls : List Label} (h : a.Holds c) (hl : ∀ l ∈ ls, c.LabelOnce l.id)
    (hp : a.performAll (ls.map Label.change) = .ok b) :
    b.Holds { c with labels := c.labels.map (RemoteLabel.changed ls) } := by
  induction ls generalizing a c with
  | nil =>
    cases hp
    have hid : c.labels.map (RemoteLabel.changed []) = c.labels := List.map_id' _
    rw [hid]
    exact h
  | cons l ls ih =>
    obtain ⟨a', ha', hp⟩ := performAll_cons_iff.1 hp
    have hb := ih (h.changeLabel (hl l List.mem_cons_self) ha') (fun m hm => ?_) hp
    · rw [List.map_map] at hb
      exact hb
    · refine List.pairwise_map.2 ((hl m (List.mem_cons_of_mem _ hm)).imp fun {r r'} hrr hids => ?_)
      refine hrr ?_
      split_ifs at hids <;> exact hids

theorem deleteLabels {ids : List String} (h : a.Holds c) (hl : ∀ id ∈ ids, c.LabelOnce id)
    (hp : a.performAll (ids.map .deleteLabel) = .ok b) :
    b.Holds { c with labels := c.labels.filter fun r => r.id ∉ ids } := by
  induction ids generalizing a c with
  | nil =>
    cases hp
    simpa using h
  | cons id ids ih =>
    obtain ⟨a', ha', hp⟩ := performAll_cons_iff.1 hp
    have hb := ih (h.deleteLabel (hl id List.mem_cons_self) ha')
      (fun i hi => (hl i (List.mem_cons_of_mem _ hi)).filter _) hp
    simpa [List.filter_filter, Bool.and_comm] using hb

/-- All filters that are deleted were there. -/
theorem deleteFilters {ids : List String} (h : a.Holds c) (hf : ∀ id ∈ ids, c.FilterOnce id)
    (hp : a.performAll (ids.map .deleteFilter) = .ok b) :
    b.Holds { c with filters := c.filters.filter fun r => ∀ id ∈ ids, r.id ≠ some id } ∧
      ∀ id ∈ ids, ∃ r ∈ c.filters, r.id = some id := by
  induction ids generalizing a c with
  | nil =>
    cases hp
    exact ⟨by simpa using h, by simp⟩
  | cons id ids ih =>
    obtain ⟨a', ha', hp⟩ := performAll_cons_iff.1 hp
    obtain ⟨hholds, hfound⟩ := h.deleteFilter (hf id List.mem_cons_self) ha'
    obtain ⟨hb, hrest⟩ := ih hholds (fun i hi => (hf i (List.mem_cons_of_mem _ hi)).filter _) hp
    refine ⟨by simpa [List.filter_filter, Bool.and_comm] using hb, ?_⟩
    intro i hi
    rcases List.mem_cons.1 hi with rfl | hi
    · exact hfound
    · obtain ⟨r, hr, hri⟩ := hrest i hi
      exact ⟨r, (List.mem_filter.1 hr).1, hri⟩

end Account.Holds

end MailRules
