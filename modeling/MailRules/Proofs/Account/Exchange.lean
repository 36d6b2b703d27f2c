import MailRules.Proofs.Account.Entry
import MailRules.Proofs.Result
import Mathlib.Data.List.Nodup
import Mathlib.Tactic.SplitIfs

/-!
# Filters and their stored forms

What a stored filter is imported as, and what a filter is exported as.

* `name?_ofLabels` is the name of an id, `of_name?_ofLabels` and `of_id?_ofLabels` are the labels
  that names and ids come from.
* `Entry.ImportsAs` relates an entry of an account to the filter that it is.
* `imported_eq_ok_iff` and `action_exported_eq_ok_iff` take an import and an export apart,
  `mem_importable` and `exportAll_eq_ok_iff` lists of them.
* `imported_mono` and `name?_of_imported`: an import depends on the names of the labels that the
  stored filter adds, and on nothing else of the account.
* `imported_of_exported` is the round trip: what is exported is imported as it was.
  `exists_exported_iff` says what can be exported, `export_import_roundTrip` puts the two together.
-/

namespace MailRules

variable {m : LabelMap} {f : Filter} {r : RemoteFilter}

/-! ### Names and ids of labels -/

namespace LabelMap

variable {ls : List Label} {i n : String}

theorem entries_ofLabels (ls : List Label) :
    (ofLabels ls).entries = (ls.map fun l => (l.id, l.name)).reverse := by
  have hfold : ∀ (ls : List Label) (m : LabelMap),
      (ls.foldl (fun m l => m.add l.id l.name) m).entries =
        (ls.map fun l => (l.id, l.name)).reverse ++ m.entries := by
    intro ls
    induction ls with
    | nil => intro m; rfl
    | cons l ls ih =>
      intro m
      rw [List.foldl_cons, ih]
      simp [add]
  have hnil := hfold ls {}
  rwa [List.append_nil] at hnil

theorem mem_entries_ofLabels {p : String × String} :
    p ∈ (ofLabels ls).entries ↔ ∃ l ∈ ls, (l.id, l.name) = p := by
  rw [entries_ofLabels, List.mem_reverse, List.mem_map]

theorem of_name?_ofLabels (h : (ofLabels ls).name? i = some n) :
    ∃ l ∈ ls, l.id = i ∧ l.name = n := by
  obtain ⟨p, hp, rfl⟩ := Option.map_eq_some_iff.1 h
  obtain ⟨l, hl, rfl⟩ := mem_entries_ofLabels.1 (List.mem_of_find?_eq_some hp)
  exact ⟨l, hl, by simpa using List.find?_some hp, rfl⟩

theorem of_id?_ofLabels (h : (ofLabels ls).id? n = some i) : ∃ l ∈ ls, l.id = i ∧ l.name = n := by
  obtain ⟨p, hp, rfl⟩ := Option.map_eq_some_iff.1 h
  obtain ⟨l, hl, rfl⟩ := mem_entries_ofLabels.1 (List.mem_of_find?_eq_some hp)
  exact ⟨l, hl, rfl, by simpa using List.find?_some hp⟩

/-- Where no two labels have the same id, an id has the name of its label. -/
theorem name?_ofLabels {l : Label} (hd : (ls.map (·.id)).Nodup) (hl : l ∈ ls) :
    (ofLabels ls).name? l.id = some l.name := by
  have hex : ∃ n, (ofLabels ls).name? l.id = some n := by
    refine Option.isSome_iff_exists.1 ?_
    rw [name?, Option.isSome_map, List.find?_isSome]
    exact ⟨_, mem_entries_ofLabels.2 ⟨l, hl, rfl⟩, by simp⟩
  obtain ⟨n, hn⟩ := hex
  obtain ⟨l', hl', hid, rfl⟩ := of_name?_ofLabels hn
  rw [hn, List.inj_on_of_nodup_map hd hl' hl hid]

/-- The names that have an id are those of the labels. -/
theorem exists_id?_ofLabels : (∃ i, (ofLabels ls).id? n = some i) ↔ ∃ l ∈ ls, l.name = n := by
  rw [← Option.isSome_iff_exists, id?, Option.isSome_map, List.find?_isSome]
  constructor
  · rintro ⟨p, hp, hn⟩
    obtain ⟨l, hl, rfl⟩ := mem_entries_ofLabels.1 hp
    exact ⟨l, hl, by simpa using hn⟩
  · rintro ⟨l, hl, rfl⟩
    exact ⟨_, mem_entries_ofLabels.2 ⟨l, hl, rfl⟩, by simp⟩

end LabelMap

/-! ### Importing -/

theorem mem_importable {rs : List RemoteFilter} :
    f ∈ importable m rs ↔ ∃ r ∈ rs, r.imported m = .ok f := by
  unfold importable
  rw [List.mem_filterMap]
  refine exists_congr fun r => and_congr_right fun _ => ?_
  cases r.imported m <;> simp [Except.toOption]

/-! ### What an import depends on -/

section

variable {m' : LabelMap} {a b : Action} {ids : List String}

/-- An id that is added stands for a flag, whatever the labels, or for a label by its name. -/
theorem of_adding {i : String} (h : a.adding m i = .ok b) :
    (SystemLabel.ofId? i ≠ none ∧ b.addLabel = a.addLabel ∧ ∀ m', a.adding m' i = .ok b) ∨
      ∃ n, m.name? i = some n ∧ b = { a with addLabel := n } ∧
        ∀ m' n', m'.name? i = some n' → a.adding m' i = .ok { a with addLabel := n' } := by
  -- whatever is no flag has to be a label that has a name
  have hlabel : (∀ m' : LabelMap, m'.name? i = none → a.adding m' i = .error (.unknownLabel i)) →
      (∀ m' n, m'.name? i = some n → a.adding m' i = .ok { a with addLabel := n }) →
      ∃ n, m.name? i = some n ∧ b = { a with addLabel := n } ∧
        ∀ m' n', m'.name? i = some n' → a.adding m' i = .ok { a with addLabel := n' } := by
    intro hnone hsome
    cases hn : m.name? i with
    | none =>
      rw [hnone m hn] at h
      cases h
    | some n =>
      rw [hsome m n hn] at h
      cases h
      exact ⟨n, rfl, rfl, hsome⟩
  cases ho : SystemLabel.ofId? i with
  | none =>
    exact .inr (hlabel (fun m' hn => by simp only [Action.adding, ho, hn])
      fun m' n hn => by simp only [Action.adding, ho, hn])
  | some l =>
    cases l with
    | inbox | spam | unread =>
      exact .inr (hlabel (fun m' hn => by simp only [Action.adding, ho, hn])
        fun m' n hn => by simp only [Action.adding, ho, hn])
    | trash | starred | important =>
      unfold Action.adding at h ⊢
      rw [ho] at h ⊢
      cases h
      exact .inl ⟨by simp, rfl, fun _ => rfl⟩
    | category c =>
      unfold Action.adding at h ⊢
      rw [ho] at h ⊢
      refine .inl ⟨by simp, ?_, fun _ => h⟩
      cases hc : a.category with
      | none =>
        simp only [hc] at h
        cases h
        rfl
      | some old =>
        simp only [hc] at h
        cases h

theorem foldlM_adding_mono (h : ids.foldlM (Action.adding m) a = .ok b)
    (hm : ∀ i ∈ ids, ∀ n, m.name? i = some n → m'.name? i = some n) :
    ids.foldlM (Action.adding m') a = .ok b := by
  induction ids generalizing a with
  | nil => exact h
  | cons i ids ih =>
    rw [List.foldlM_cons] at h ⊢
    obtain ⟨c, hc, h⟩ := bind_eq_ok_iff.1 h
    refine bind_eq_ok_iff.2 ⟨c, ?_, ih h fun j hj => hm j (List.mem_cons_of_mem _ hj)⟩
    rcases of_adding hc with ⟨-, -, hall⟩ | ⟨n, hn, rfl, hall⟩
    · exact hall m'
    · exact hall m' n (hm i List.mem_cons_self n hn)

/-- The only label among the ids that are added is the one whose name is applied. -/
theorem name?_of_foldlM_adding {i : String} (h : ids.foldlM (Action.adding m) a = .ok b)
    (hone : ∀ j ∈ ids, ∀ n, m.name? j = some n → j = i) (hsys : SystemLabel.ofId? i = none)
    (ha : i ∈ ids ∨ m.name? i = some a.addLabel) : m.name? i = some b.addLabel := by
  induction ids generalizing a with
  | nil =>
    cases h
    exact ha.resolve_left (by simp)
  | cons j ids ih =>
    rw [List.foldlM_cons] at h
    obtain ⟨c, hc, h⟩ := bind_eq_ok_iff.1 h
    refine ih h (fun k hk => hone k (List.mem_cons_of_mem _ hk)) ?_
    rcases of_adding hc with ⟨hj, hca, -⟩ | ⟨n, hn, rfl, -⟩
    · rw [hca]
      refine ha.imp_left fun hi => ?_
      rcases List.mem_cons.1 hi with rfl | hi
      · exact absurd hsys hj
      · exact hi
    · rw [hone j List.mem_cons_self n hn] at hn
      exact .inr hn

theorem addLabel_of_foldlM_removing (h : ids.foldlM Action.removing a = .ok b) :
    b.addLabel = a.addLabel := by
  induction ids generalizing a with
  | nil =>
    cases h
    rfl
  | cons j ids ih =>
    rw [List.foldlM_cons] at h
    obtain ⟨c, hc, h⟩ := bind_eq_ok_iff.1 h
    rw [ih h]
    unfold Action.removing at hc
    split at hc <;> cases hc <;> rfl

/-- The parts of an import of an action. -/
theorem action_imported_eq_ok_iff {r : RemoteAction} : r.imported m = .ok a ↔ ∃ b c,
    r.addLabelIds.foldlM (Action.adding m) {} = .ok b ∧
      r.removeLabelIds.foldlM Action.removing b = .ok c ∧
      a = { c with forward := r.forward.getD "" } ∧ a.isEmpty = false := by
  unfold RemoteAction.imported
  simp only [bind_eq_ok_iff]
  constructor
  · rintro ⟨b, hb, c, hc, h⟩
    split_ifs at h with he
    cases h
    exact ⟨b, c, hb, hc, rfl, by simpa using he⟩
  · rintro ⟨b, c, hb, hc, rfl, he⟩
    refine ⟨b, hb, c, hc, ?_⟩
    rw [if_neg (by simpa using he)]

/-- The parts of an import. -/
theorem imported_eq_ok_iff : r.imported m = .ok f ↔
    r.action.imported m = .ok f.action ∧ r.criteria.unsupported? = none ∧
      f.criteria = r.criteria.imported ∧ f.id = r.id.getD "" := by
  unfold RemoteFilter.imported
  cases ha : r.action.imported m with
  | error e => simp
  | ok action =>
    cases hu : r.criteria.unsupported? with
    | some p => simp
    | none =>
      simp only [Except.ok.injEq, true_and]
      constructor
      · rintro rfl
        exact ⟨rfl, rfl, rfl⟩
      · rintro ⟨rfl, hc, hi⟩
        rw [← hc, ← hi]

/-- An imported filter has the id of the stored filter. -/
theorem id_of_imported (h : r.imported m = .ok f) : f.id = r.id.getD "" :=
  (imported_eq_ok_iff.1 h).2.2.2

theorem imported_mono (h : r.imported m = .ok f)
    (hm : ∀ i ∈ r.action.addLabelIds, ∀ n, m.name? i = some n → m'.name? i = some n) :
    r.imported m' = .ok f := by
  obtain ⟨ha, hrest⟩ := imported_eq_ok_iff.1 h
  obtain ⟨b, c, hb, hc⟩ := action_imported_eq_ok_iff.1 ha
  exact imported_eq_ok_iff.2
    ⟨action_imported_eq_ok_iff.2 ⟨b, c, foldlM_adding_mono hb hm, hc⟩, hrest⟩

/-- The only label that a stored filter adds is the one whose name the filter applies. -/
theorem name?_of_imported {i : String} (h : r.imported m = .ok f)
    (hone : ∀ j ∈ r.action.addLabelIds, ∀ n, m.name? j = some n → j = i)
    (hsys : SystemLabel.ofId? i = none) (hi : i ∈ r.action.addLabelIds) :
    m.name? i = some f.action.addLabel := by
  obtain ⟨ha, -⟩ := imported_eq_ok_iff.1 h
  obtain ⟨b, c, hb, hc, hfa, -⟩ := action_imported_eq_ok_iff.1 ha
  rw [hfa, name?_of_foldlM_adding hb hone hsys (.inl hi), addLabel_of_foldlM_removing hc]

end

/-! ### Entries of an account -/

/-- An entry is a filter, by the names of the given labels. -/
def Entry.ImportsAs (m : LabelMap) (e : FilterEntry) (f : Filter) : Prop :=
  ∃ r, e.read readRemoteFilter = .ok r ∧ r.imported m = .ok f

namespace Entry.ImportsAs

theorem eq {e : FilterEntry} {g : Filter} (h : e.ImportsAs m f) (h' : e.ImportsAs m g) :
    f = g := by
  obtain ⟨r, hr, hf⟩ := h
  obtain ⟨r', hr', hg⟩ := h'
  rw [hr] at hr'
  cases hr'
  rw [hf] at hg
  exact Except.ok.inj hg

end Entry.ImportsAs

/-! ### Exporting -/

theorem exportFrom_eq_ok_iff {i : Nat} {fs : List Filter} {rs : List RemoteFilter} :
    exportFrom m i fs = .ok rs ↔ List.Forall₂ (fun f r => f.exported m = .ok r) fs rs := by
  induction fs generalizing i rs with
  | nil => simp [exportFrom, eq_comm]
  | cons f fs ih =>
    rw [List.forall₂_cons_left_iff]
    unfold exportFrom
    cases hf : f.exported m with
    | error e => simp
    | ok r =>
      simp only [Except.ok.injEq]
      cases hfs : exportFrom m (i + 1) fs with
      | error e =>
        simp only [reduceCtorEq, false_iff]
        rintro ⟨r', rs', rfl, h, rfl⟩
        rw [ih.2 h] at hfs
        cases hfs
      | ok rs' =>
        simp only [Except.ok.injEq]
        constructor
        · rintro rfl
          exact ⟨r, rs', rfl, ih.1 hfs, rfl⟩
        · rintro ⟨r', rs'', rfl, h, rfl⟩
          rw [ih.2 h] at hfs
          rw [Except.ok.inj hfs]

/-- Filters are exported one by one. -/
theorem exportAll_eq_ok_iff {fs : List Filter} {rs : List RemoteFilter} :
    exportAll m fs = .ok rs ↔ List.Forall₂ (fun f r => f.exported m = .ok r) fs rs :=
  exportFrom_eq_ok_iff

/-! ### The round trip -/

theorem SystemLabel.ofId?_id (l : SystemLabel) : SystemLabel.ofId? l.id = some l := by
  cases l with
  | category c => cases c <;> decide
  | _ => decide

theorem SystemLabel.ofId?_eq_none_iff {i : String} :
    SystemLabel.ofId? i = none ↔ ∀ s : SystemLabel, s.id ≠ i := by
  constructor
  · rintro h s rfl
    rw [SystemLabel.ofId?_id] at h
    cases h
  · exact fun h => List.find?_eq_none.2 fun s _ => by simpa using h s

/-- The flags of an action that are labels to be added. -/
theorem foldlM_adding_flags (m : LabelMap) (a : Action) :
    (a.addedSystemLabels.map SystemLabel.id).foldlM (Action.adding m) {} =
      .ok { category := a.category, delete := a.delete, markImportant := a.markImportant,
            star := a.star } := by
  obtain ⟨_, category, _, delete, important, _, _, _, star, _⟩ := a
  cases delete <;> cases important <;> cases star <;> cases category <;>
    simp [Action.addedSystemLabels, Action.adding, SystemLabel.ofId?_id, pure, Except.pure, bind,
      Except.bind]

/-- The flags of an action that are labels to be removed. -/
theorem foldlM_removing_flags (a b : Action) :
    (a.removedSystemLabels.map SystemLabel.id).foldlM Action.removing b =
      .ok { b with
        archive := b.archive || a.archive
        markNotImportant := b.markNotImportant || a.markNotImportant
        markRead := b.markRead || a.markRead
        markNotSpam := b.markNotSpam || a.markNotSpam } := by
  obtain ⟨_, _, archive, _, _, notImportant, read, notSpam, _, _⟩ := a
  cases archive <;> cases notImportant <;> cases read <;> cases notSpam <;>
    simp [Action.removedSystemLabels, Action.removing, SystemLabel.ofId?_id, pure, Except.pure,
      bind, Except.bind]

theorem getD_nonEmpty? (s : String) : (nonEmpty? s).getD "" = s := by
  unfold nonEmpty?
  split_ifs with h
  · exact h.symm
  · rfl

theorem imported_exported_criteria (c : Criteria) :
    c.exported.imported = c ∧ c.exported.unsupported? = none := by
  refine ⟨?_, by simp [Criteria.exported, RemoteCriteria.unsupported?]⟩
  obtain ⟨sender, recipient, subject, query⟩ := c
  simp only [Criteria.exported, RemoteCriteria.imported, getD_nonEmpty?]
  by_cases hq : query = "" <;> simp [hq]

/-- An action has a stored form unless it applies a label that is not known. -/
theorem exists_action_exported_iff {a : Action} : (∃ r, a.exported m = .ok r) ↔
    a.addLabel = "" ∨ ∃ i, m.id? a.addLabel = some i := by
  unfold Action.exported
  by_cases he : a.addLabel = ""
  · simp [he]
  · cases hi : m.id? a.addLabel <;> simp [he]

/-- A filter has a stored form if it does something, matches something and its action has one. -/
theorem exists_exported_iff : (∃ r, f.exported m = .ok r) ↔
    f.action.isEmpty = false ∧ f.criteria.isEmpty = false ∧
      (f.action.addLabel = "" ∨ ∃ i, m.id? f.action.addLabel = some i) := by
  rw [← exists_action_exported_iff]
  unfold Filter.exported
  by_cases ha : f.action.isEmpty
  · simp [ha]
  by_cases hc : f.criteria.isEmpty
  · simp [ha, hc]
  cases hact : f.action.exported m <;> simp [ha, hc]

/-- The parts of an export. -/
theorem of_exported (h : f.exported m = .ok r) : f.action.isEmpty = false ∧
    ∃ action, f.action.exported m = .ok action ∧ r = { criteria := f.criteria.exported, action } := by
  unfold Filter.exported at h
  split_ifs at h with ha hc
  cases hact : f.action.exported m with
  | error e =>
    rw [hact] at h
    cases h
  | ok action =>
    rw [hact] at h
    exact ⟨by simpa using ha, action, rfl, (Except.ok.inj h).symm⟩

/-- The parts of an export of an action: the id of a label stands behind those of the flags. -/
theorem action_exported_eq_ok_iff {a : Action} {r : RemoteAction} : a.exported m = .ok r ↔
    ∃ own : List String, r = {
        addLabelIds := a.addedSystemLabels.map SystemLabel.id ++ own
        removeLabelIds := a.removedSystemLabels.map SystemLabel.id
        forward := nonEmpty? a.forward } ∧
      (a.addLabel = "" ∧ own = [] ∨
        a.addLabel ≠ "" ∧ ∃ i, m.id? a.addLabel = some i ∧ own = [i]) := by
  unfold Action.exported
  by_cases he : a.addLabel = ""
  · simp [he, eq_comm]
  · cases hi : m.id? a.addLabel with
    | none => simp [he]
    | some i => simp [he, eq_comm]

theorem action_imported_of_exported {m' : LabelMap} {a : Action} {r : RemoteAction}
    (h : a.exported m = .ok r) (hne : a.isEmpty = false)
    (hl : ∀ i, m.id? a.addLabel = some i →
      SystemLabel.ofId? i = none ∧ m'.name? i = some a.addLabel) :
    r.imported m' = .ok a := by
  obtain ⟨own, rfl, hown⟩ := action_exported_eq_ok_iff.1 h
  -- the flags come first, and leave the name of the label as it is at the start
  have hlabel : ∀ b : Action, b.addLabel = "" →
      own.foldlM (Action.adding m') b = .ok { b with addLabel := a.addLabel } := by
    intro b hb
    rcases hown with ⟨he, rfl⟩ | ⟨-, i, hi, rfl⟩
    · rw [he, ← hb]
      rfl
    · obtain ⟨ho, hn⟩ := hl i hi
      simp only [List.foldlM_cons, List.foldlM_nil, Action.adding, ho, hn]
      rfl
  have hadd : (a.addedSystemLabels.map SystemLabel.id ++ own).foldlM (Action.adding m') {} =
      .ok { addLabel := a.addLabel, category := a.category, delete := a.delete,
            markImportant := a.markImportant, star := a.star } := by
    rw [List.foldlM_append, foldlM_adding_flags]
    exact hlabel _ rfl
  refine action_imported_eq_ok_iff.2 ⟨_, _, hadd, foldlM_removing_flags a _, ?_, hne⟩
  simp only [getD_nonEmpty?, Bool.false_or]

/-- **What is exported is imported as it was**, under whatever id it is stored, if the label that
it applies still has its name. -/
theorem imported_of_exported {m' : LabelMap} (h : f.exported m = .ok r) (id : Option String)
    (hl : ∀ i, m.id? f.action.addLabel = some i →
      SystemLabel.ofId? i = none ∧ m'.name? i = some f.action.addLabel) :
    ({ r with id } : RemoteFilter).imported m' = .ok { f with id := id.getD "" } := by
  obtain ⟨hne, action, hact, rfl⟩ := of_exported h
  obtain ⟨hcrit, hu⟩ := imported_exported_criteria f.criteria
  exact imported_eq_ok_iff.2
    ⟨action_imported_of_exported hact hne hl, hu, hcrit.symm, rfl⟩

/-- **Import undoes export.**  By the labels of a list, whose ids are their own, a filter has a
stored form exactly if it does something, matches something and applies no label that is not
there; and every stored form that is made is imported as the filter it was made of. -/
theorem export_import_roundTrip {ls : List Label} (f : Filter) (hd : (ls.map (·.id)).Nodup)
    (hs : ∀ l ∈ ls, ∀ s : SystemLabel, s.id ≠ l.id) :
    ((∃ r, f.exported (.ofLabels ls) = .ok r) ↔
      f.action.isEmpty = false ∧ f.criteria.isEmpty = false ∧
        (f.action.addLabel = "" ∨ ∃ l ∈ ls, l.name = f.action.addLabel)) ∧
    ∀ r, f.exported (.ofLabels ls) = .ok r →
      r.imported (.ofLabels ls) = .ok { f with id := "" } := by
  constructor
  · rw [exists_exported_iff, LabelMap.exists_id?_ofLabels]
  · intro r hr
    have hlabel : ∀ i, (LabelMap.ofLabels ls).id? f.action.addLabel = some i →
        SystemLabel.ofId? i = none ∧
          (LabelMap.ofLabels ls).name? i = some f.action.addLabel := by
      intro i hi
      obtain ⟨l, hl, rfl, hn⟩ := LabelMap.of_id?_ofLabels hi
      exact ⟨SystemLabel.ofId?_eq_none_iff.2 (hs l hl), by rw [LabelMap.name?_ofLabels hd hl, hn]⟩
    obtain ⟨-, action, -, rfl⟩ := of_exported hr
    exact imported_of_exported hr none hlabel

/-- A filter with flags on both sides, a category and a label, by the labels of an account that
has two. -/
theorem export_import_roundTrip_twoLabels :
    let ls : List Label := [{ name := "lists", id := "Label_1" }, { name := "work", id := "Label_2" }]
    let f : Filter := {
      criteria := { sender := "ann", query := "has:attachment" }
      action := { addLabel := "work", category := some .forums, archive := true,
                  markImportant := true, markNotImportant := true, forward := "bo@example.org" } }
    ∃ r, f.exported (.ofLabels ls) = .ok r ∧
      r.action.addLabelIds = ["IMPORTANT", "CATEGORY_FORUMS", "Label_2"] ∧
      r.imported (.ofLabels ls) = .ok f := by
  intro ls f
  have hs : ∀ l ∈ ls, SystemLabel.ofId? l.id = none := by decide
  obtain ⟨hiff, himp⟩ := export_import_roundTrip f (by decide : (ls.map (·.id)).Nodup)
    fun l hl => SystemLabel.ofId?_eq_none_iff.1 (hs l hl)
  obtain ⟨r, hr⟩ := hiff.2 (by decide)
  refine ⟨r, hr, ?_, himp r hr⟩
  have hx : f.exported (.ofLabels ls) = .ok r := hr
  cases hx
  rfl

end MailRules
