import MailRules.Proofs.Account.Exchange
import Mathlib.Data.List.Induction

/-!
# Imported actions, exported again

What is left of a stored action when it is imported and exported by the same labels.

* `adding_of_flag` and `adding_of_not_flag` are what one more added id does: it sets a flag of the
  action, or stands for a label.  Flags are collected (`systemLabels_of_foldlM_adding`), but an
  action has room for one label only, and every label takes the place of the one before it
  (`addLabel_of_foldlM_adding`).
* `of_removing` is what one more removed id does: it is a flag, and all of them are collected
  (`systemLabels_of_foldlM_removing`).
* `of_action_imported` puts the two together; `exported_of_imported` says what an export of an
  imported action has.
-/

namespace MailRules

/-! ### Flags and labels -/

/-- Whether a system label is a flag of the actions that add it. -/
def SystemLabel.isFlag : SystemLabel → Bool
  | .trash | .important | .starred | .category _ => true
  | .inbox | .spam | .unread => false

/-- Whether adding an id sets a flag.  Every other id is that of a label. -/
def isFlagId (i : String) : Bool :=
  (SystemLabel.ofId? i).any SystemLabel.isFlag

/-- The ids of labels among ids that are added. -/
def labelIds (ids : List String) : List String :=
  ids.filter fun i => !isFlagId i

theorem mem_labelIds {ids : List String} {i : String} :
    i ∈ labelIds ids ↔ i ∈ ids ∧ isFlagId i = false := by
  rw [labelIds, List.mem_filter, Bool.not_eq_true']

theorem isFlagId_iff {i : String} : isFlagId i = true ↔ ∃ s : SystemLabel, s.isFlag ∧ s.id = i := by
  unfold isFlagId
  rw [Option.any_eq_true]
  constructor
  · rintro ⟨s, hs, hf⟩
    exact ⟨s, hf, by simpa using List.find?_some hs⟩
  · rintro ⟨s, hf, rfl⟩
    exact ⟨s, SystemLabel.ofId?_id s, hf⟩

/-- The ids of system labels, after one has joined. -/
theorem mem_map_id_of_joined {xs ys : List SystemLabel} {s : SystemLabel}
    (h : ∀ t, t ∈ xs ↔ t ∈ ys ∨ t = s) (i : String) :
    i ∈ xs.map SystemLabel.id ↔ i ∈ ys.map SystemLabel.id ∨ i = s.id := by
  simp only [List.mem_map, h, or_and_right, exists_or, exists_eq_left, @eq_comm _ i]

/-- Where names are their own, the id of a label's name is the id of the label. -/
theorem LabelMap.id?_of_name? {m : LabelMap} {i n : String} (hn : (m.entries.map (·.2)).Nodup)
    (h : m.name? i = some n) : m.id? n = some i := by
  obtain ⟨p, hp, rfl⟩ := Option.map_eq_some_iff.1 h
  have hpi : p.1 = i := by simpa using List.find?_some hp
  have hex : (m.entries.find? (·.2 = p.2)).isSome := by
    rw [List.find?_isSome]
    exact ⟨p, List.mem_of_find?_eq_some hp, by simp⟩
  obtain ⟨q, hq⟩ := Option.isSome_iff_exists.1 hex
  have hqp : q = p := List.inj_on_of_nodup_map hn (List.mem_of_find?_eq_some hq)
    (List.mem_of_find?_eq_some hp) (by simpa using List.find?_some hq)
  rw [id?, hq, hqp, Option.map_some, hpi]

/-! ### Adding -/

section

variable {m : LabelMap} {a b : Action} {s t : SystemLabel} {i : String} {ids : List String}

theorem mem_addedSystemLabels : s ∈ a.addedSystemLabels ↔
    s = .trash ∧ a.delete = true ∨ s = .important ∧ a.markImportant = true ∨
      s = .starred ∧ a.star = true ∨ ∃ c, s = .category c ∧ a.category = some c := by
  simp only [Action.addedSystemLabels, List.mem_append, List.mem_ite_nil_right, List.mem_singleton,
    Option.mem_toList, Option.map_eq_some_iff]
  grind

/-- A flag that is added joins the others, and leaves the rest as it is. -/
theorem adding_of_flag (hs : s.isFlag = true) (h : a.adding m s.id = .ok b) :
    b.addLabel = a.addLabel ∧ b.removedSystemLabels = a.removedSystemLabels ∧
      ∀ t, t ∈ b.addedSystemLabels ↔ t ∈ a.addedSystemLabels ∨ t = s := by
  unfold Action.adding at h
  rw [SystemLabel.ofId?_id] at h
  simp only [mem_addedSystemLabels]
  cases s with
  | inbox | spam | unread => cases hs
  | trash | important | starred =>
    cases h
    exact ⟨rfl, rfl, fun t => by grind⟩
  | category c =>
    cases hc : a.category with
    | some old =>
      simp only [hc] at h
      cases h
    | none =>
      simp only [hc] at h
      cases h
      exact ⟨rfl, rfl, fun t => by grind⟩

/-- A label that is added takes the place of the label that was there. -/
theorem adding_of_not_flag (hi : isFlagId i = false) (h : a.adding m i = .ok b) :
    ∃ n, m.name? i = some n ∧ b = { a with addLabel := n } := by
  rcases of_adding h with ⟨-, -, hall⟩ | ⟨n, hn, hb, -⟩
  · -- what is no flag is refused where no labels are known
    have hrefused : a.adding {} i = .error (.unknownLabel i) := by
      unfold Action.adding
      cases ho : SystemLabel.ofId? i with
      | none => rfl
      | some s =>
        have hs : s.isFlag = false := by rwa [isFlagId, ho, Option.any_some] at hi
        cases s with
        | inbox | spam | unread => rfl
        | trash | important | starred | category c => cases hs
    rw [hall {}] at hrefused
    cases hrefused
  · exact ⟨n, hn, hb⟩

/-- Adding leaves what is removed, and collects the flags. -/
theorem systemLabels_of_foldlM_adding (h : ids.foldlM (Action.adding m) a = .ok b) :
    b.removedSystemLabels = a.removedSystemLabels ∧
      ∀ i, i ∈ b.addedSystemLabels.map SystemLabel.id ↔
        i ∈ a.addedSystemLabels.map SystemLabel.id ∨ isFlagId i = true ∧ i ∈ ids := by
  induction ids generalizing a with
  | nil =>
    cases h
    simp
  | cons i ids ih =>
    rw [List.foldlM_cons] at h
    obtain ⟨c, hc, h⟩ := bind_eq_ok_iff.1 h
    obtain ⟨hrem, hadd⟩ := ih h
    cases hi : isFlagId i with
    | true =>
      obtain ⟨s, hs, rfl⟩ := isFlagId_iff.1 hi
      obtain ⟨-, hcrem, hcadd⟩ := adding_of_flag hs hc
      refine ⟨hrem.trans hcrem, fun j => ?_⟩
      have hj : isFlagId j = true ∧ j = s.id ↔ j = s.id :=
        and_iff_right_of_imp fun h => h ▸ hi
      rw [hadd, mem_map_id_of_joined hcadd, List.mem_cons, and_or_left, hj, or_assoc]
    | false =>
      obtain ⟨n, -, rfl⟩ := adding_of_not_flag hi hc
      refine ⟨hrem, fun j => ?_⟩
      have hj : ¬(isFlagId j = true ∧ j = i) := by
        rintro ⟨hf, rfl⟩
        rw [hi] at hf
        cases hf
      rw [hadd, List.mem_cons, and_or_left, or_iff_right hj]
      rfl

/-- **The last label is the one that is kept.** -/
theorem addLabel_of_foldlM_adding (h : ids.foldlM (Action.adding m) a = .ok b) :
    labelIds ids = [] ∧ b.addLabel = a.addLabel ∨
      ∃ i, (labelIds ids).getLast? = some i ∧ m.name? i = some b.addLabel := by
  -- from the end, since nothing after the last label changes what it left
  induction ids using List.reverseRecOn generalizing b with
  | nil =>
    cases h
    exact .inl ⟨rfl, rfl⟩
  | append_singleton ids i ih =>
    rw [List.foldlM_append] at h
    obtain ⟨c, hc, h⟩ := bind_eq_ok_iff.1 h
    rw [List.foldlM_cons] at h
    obtain ⟨d, hd, h⟩ := bind_eq_ok_iff.1 h
    obtain rfl := Except.ok.inj h
    cases hi : isFlagId i with
    | true =>
      obtain ⟨s, hs, rfl⟩ := isFlagId_iff.1 hi
      have hlabels : labelIds (ids ++ [s.id]) = labelIds ids := by simp [labelIds, hi]
      rw [hlabels, (adding_of_flag hs hd).1]
      exact ih hc
    | false =>
      obtain ⟨n, hn, rfl⟩ := adding_of_not_flag hi hd
      have hlabels : labelIds (ids ++ [i]) = labelIds ids ++ [i] := by simp [labelIds, hi]
      exact .inr ⟨i, by rw [hlabels, List.getLast?_concat], hn⟩

/-! ### Removing -/

/-- An id that is removed is a flag, which joins the others and leaves the rest as it is. -/
theorem of_removing (h : a.removing i = .ok b) : ∃ s : SystemLabel, s.id = i ∧
    b.addedSystemLabels = a.addedSystemLabels ∧
      ∀ t, t ∈ b.removedSystemLabels ↔ t ∈ a.removedSystemLabels ∨ t = s := by
  unfold Action.removing at h
  cases ho : SystemLabel.ofId? i with
  | none =>
    rw [ho] at h
    cases h
  | some s =>
    have hs : s.id = i := by simpa using List.find?_some ho
    refine ⟨s, hs, ?_⟩
    rw [ho] at h
    cases s with
    | trash | starred | category c => cases h
    | inbox | important | unread | spam =>
      cases h
      refine ⟨rfl, fun t => ?_⟩
      simp only [Action.removedSystemLabels, List.mem_append, List.mem_ite_nil_right,
        List.mem_singleton]
      grind

/-- Removing leaves what is added, and collects the flags. -/
theorem systemLabels_of_foldlM_removing (h : ids.foldlM Action.removing a = .ok b) :
    b.addedSystemLabels = a.addedSystemLabels ∧
      ∀ i, i ∈ b.removedSystemLabels.map SystemLabel.id ↔
        i ∈ a.removedSystemLabels.map SystemLabel.id ∨ i ∈ ids := by
  induction ids generalizing a with
  | nil =>
    cases h
    simp
  | cons i ids ih =>
    rw [List.foldlM_cons] at h
    obtain ⟨c, hc, h⟩ := bind_eq_ok_iff.1 h
    obtain ⟨hadd, hrem⟩ := ih h
    obtain ⟨s, rfl, hcadd, hcrem⟩ := of_removing hc
    refine ⟨hadd.trans hcadd, fun j => ?_⟩
    rw [hrem, mem_map_id_of_joined hcrem, List.mem_cons, or_assoc]

end

/-! ### Export after import -/

section

variable {m : LabelMap} {r : RemoteAction} {a : Action} {i : String}

/-- The parts of an imported action: every flag, and the last label. -/
theorem of_action_imported (h : r.imported m = .ok a) :
    (∀ i, i ∈ a.addedSystemLabels.map SystemLabel.id ↔
      isFlagId i = true ∧ i ∈ r.addLabelIds) ∧
    (∀ i, i ∈ a.removedSystemLabels.map SystemLabel.id ↔ i ∈ r.removeLabelIds) ∧
    a.forward = r.forward.getD "" ∧
    (labelIds r.addLabelIds = [] ∧ a.addLabel = "" ∨
      ∃ i, (labelIds r.addLabelIds).getLast? = some i ∧ m.name? i = some a.addLabel) := by
  obtain ⟨b, c, hb, hc, rfl, -⟩ := action_imported_eq_ok_iff.1 h
  obtain ⟨hbrem, hbadd⟩ := systemLabels_of_foldlM_adding hb
  obtain ⟨hcadd, hcrem⟩ := systemLabels_of_foldlM_removing hc
  refine ⟨fun i => ?_, fun i => ?_, rfl, ?_⟩
  · change i ∈ c.addedSystemLabels.map SystemLabel.id ↔ _
    rw [hcadd, hbadd]
    exact or_iff_right List.not_mem_nil
  · change i ∈ c.removedSystemLabels.map SystemLabel.id ↔ _
    rw [hcrem, hbrem]
    exact or_iff_right List.not_mem_nil
  · change labelIds r.addLabelIds = [] ∧ c.addLabel = "" ∨
      ∃ i, (labelIds r.addLabelIds).getLast? = some i ∧ m.name? i = some c.addLabel
    rw [addLabel_of_foldlM_removing hc]
    exact addLabel_of_foldlM_adding hb

/-- The label of an imported action, exported by labels whose names are their own. -/
theorem mem_own_iff {n : String} {ids own : List String} (hn : (m.entries.map (·.2)).Nodup)
    (hlabel : labelIds ids = [] ∧ n = "" ∨
      ∃ i, (labelIds ids).getLast? = some i ∧ m.name? i = some n)
    (hown : n = "" ∧ own = [] ∨ n ≠ "" ∧ ∃ i, m.id? n = some i ∧ own = [i]) (i : String) :
    i ∈ own ↔ (labelIds ids).getLast? = some i ∧ m.name? i ≠ some "" := by
  rcases hlabel with ⟨hnil, rfl⟩ | ⟨k, hk, hname⟩
  · have hnone : own = [] := by simpa using hown
    simp [hnone, hnil]
  · rcases hown with ⟨rfl, rfl⟩ | ⟨hne, j, hj, rfl⟩
    · simp only [List.not_mem_nil, false_iff, hk, Option.some.injEq]
      rintro ⟨rfl, hi⟩
      exact hi hname
    · rw [LabelMap.id?_of_name? hn hname] at hj
      obtain rfl := Option.some.inj hj
      rw [List.mem_singleton, hk, Option.some.injEq, eq_comm]
      refine (and_iff_left_of_imp ?_).symm
      rintro rfl
      rw [hname]
      exact fun he => hne (Option.some.inj he)

/-- **What is left of an imported action.**  It can be exported, by labels whose names are their
own.  The export removes what the stored action removes and forwards to the same address, and of
what the stored action adds it adds every flag but, of the labels, the last one only, and that one
only if it has a name.  So nothing is lost exactly if the stored action adds no second label and
none without a name. -/
theorem exported_of_imported {r : RemoteFilter} {f : Filter} (hn : (m.entries.map (·.2)).Nodup)
    (h : r.imported m = .ok f) :
    ∃ stored, f.action.exported m = .ok stored ∧
      (∀ i, i ∈ stored.removeLabelIds ↔ i ∈ r.action.removeLabelIds) ∧
      stored.forward.getD "" = r.action.forward.getD "" ∧
      (∀ i, i ∈ stored.addLabelIds ↔ i ∈ r.action.addLabelIds ∧
        (isFlagId i = true ∨
          (labelIds r.action.addLabelIds).getLast? = some i ∧ m.name? i ≠ some "")) ∧
      ((∀ i, i ∈ stored.addLabelIds ↔ i ∈ r.action.addLabelIds) ↔
        ∀ i ∈ labelIds r.action.addLabelIds,
          (labelIds r.action.addLabelIds).getLast? = some i ∧ m.name? i ≠ some "") := by
  obtain ⟨hadd, hrem, hforward, hlabel⟩ := of_action_imported (imported_eq_ok_iff.1 h).1
  have hknown : f.action.addLabel = "" ∨ ∃ i, m.id? f.action.addLabel = some i := by
    rcases hlabel with ⟨-, he⟩ | ⟨i, -, hi⟩
    · exact .inl he
    · exact .inr ⟨i, LabelMap.id?_of_name? hn hi⟩
  obtain ⟨stored, hstored⟩ := exists_action_exported_iff.2 hknown
  obtain ⟨own, hparts, hown⟩ := action_exported_eq_ok_iff.1 hstored
  have hlast := mem_own_iff hn hlabel hown
  have hmem : ∀ i, i ∈ stored.addLabelIds ↔ i ∈ r.action.addLabelIds ∧
      (isFlagId i = true ∨
        (labelIds r.action.addLabelIds).getLast? = some i ∧ m.name? i ≠ some "") := by
    intro i
    have hsub : (labelIds r.action.addLabelIds).getLast? = some i → i ∈ r.action.addLabelIds :=
      fun hi => (mem_labelIds.1 (List.mem_of_getLast? hi)).1
    rw [hparts]
    change i ∈ f.action.addedSystemLabels.map SystemLabel.id ++ own ↔ _
    rw [List.mem_append, hadd, hlast, and_or_left, and_comm]
    exact or_congr_right (and_iff_right_of_imp fun hi => hsub hi.1).symm
  refine ⟨stored, hstored, ?_, ?_, hmem, ?_⟩
  · rw [hparts]
    exact hrem
  · rw [hparts, getD_nonEmpty?, hforward]
  · constructor
    · intro hall i hi
      obtain ⟨hi, hf⟩ := mem_labelIds.1 hi
      exact ((hmem i).1 ((hall i).2 hi)).2.resolve_left (by simp [hf])
    · intro hall i
      refine (hmem i).trans (and_iff_left_of_imp fun hi => ?_)
      cases hf : isFlagId i with
      | true => exact .inl rfl
      | false => exact .inr (hall i (mem_labelIds.2 ⟨hi, hf⟩))

/-- Two flags on either side, and two labels of which the second is left. -/
theorem exported_of_imported_flaggedLabels :
    let m : LabelMap := .ofLabels [{ name := "lists", id := "Label_1" },
      { name := "work", id := "Label_2" }]
    let r : RemoteFilter := {
      criteria := { sender := some "ann" }
      action := { addLabelIds := ["STARRED", "Label_2", "CATEGORY_FORUMS", "Label_1"],
                  removeLabelIds := ["UNREAD", "INBOX"], forward := some "bo@example.org" } }
    ∃ f stored, r.imported m = .ok f ∧ f.action.exported m = .ok stored ∧
      "INBOX" ∈ stored.removeLabelIds ∧ "STARRED" ∈ stored.addLabelIds ∧
      "Label_1" ∈ stored.addLabelIds ∧ "Label_2" ∉ stored.addLabelIds := by
  intro m r
  have himp : ∃ f, r.imported m = .ok f := ⟨_, rfl⟩
  obtain ⟨f, hf⟩ := himp
  obtain ⟨stored, hstored, hrem, -, hadd, -⟩ :=
    exported_of_imported (by decide : (m.entries.map (·.2)).Nodup) hf
  exact ⟨f, stored, hf, hstored, (hrem _).2 (by decide), (hadd _).2 (by decide),
    (hadd _).2 (by decide), fun h => absurd ((hadd _).1 h) (by decide)⟩

/-- A stored filter that adds two labels is imported without an error, and is left with the second
of them. -/
theorem overwrittenLabel_lost :
    let m : LabelMap := .ofLabels [{ name := "a", id := "L1" }, { name := "b", id := "L2" }]
    let r : RemoteFilter := {
      id := some "f1"
      criteria := { sender := some "a" }
      action := { addLabelIds := ["L1", "L2"] } }
    (m.entries.map (·.1)).Nodup ∧ (m.entries.map (·.2)).Nodup ∧
      ∃ f stored, r.imported m = .ok f ∧ f.action.exported m = .ok stored ∧
        stored.addLabelIds = ["L2"] ∧
        ¬∀ i, i ∈ stored.addLabelIds ↔ i ∈ r.action.addLabelIds := by
  intro m r
  refine ⟨by decide, by decide, _, _, rfl, rfl, rfl, fun h => ?_⟩
  exact absurd ((h "L1").2 (by decide)) (by decide)

end

end MailRules
