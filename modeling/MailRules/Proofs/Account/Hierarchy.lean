import MailRules.Proofs.Account.Apply
import MailRules.Proofs.Sorting
import Mathlib.Data.Nat.Basic
import Mathlib.Order.OrderDual

/-!
# Labels below others

A label whose name goes on behind a slash stands below another.  A label is created only after the
labels above it, and deleted only after those below it, however far a plan comes.

* `Label.IsBelow` is the hierarchy.  A name below another is longer, so the order of lengths is one
  of the hierarchy (`lt_of_isBelow_creationOrder`, `lt_of_isBelow_deletionOrder`).
* `Plan.filter_createLabel_requests` and `Plan.filter_deleteLabel_requests` find the labels among
  the requests of a plan.
* `KeepsHierarchy` says that some requests create and delete labels in order.
  `Plan.keepsHierarchy_of_prefix` says it of all points of a run, and `apply_keeps_hierarchy` for
  every plan, session and sequence of failures.
-/

namespace MailRules

/-- Whether a label stands below another: its name is that of the other, with more behind a
slash. -/
def Label.IsBelow (l m : Label) : Prop := ∃ rest, l.name = m.name ++ "/" ++ rest

theorem Label.IsBelow.length_lt {l m : Label} (h : l.IsBelow m) :
    m.name.length < l.name.length := by
  obtain ⟨rest, hrest⟩ := h
  have hslash : "/".length = 1 := rfl
  rw [hrest, String.length_append, String.length_append, hslash]
  omega

/-! ### Batches in order -/

section

variable {ls : List Label} {l m : Label} {i j : Nat}

theorem lt_of_isBelow_creationOrder (hi : (creationOrder ls)[i]? = some m)
    (hj : (creationOrder ls)[j]? = some l) (h : l.IsBelow m) : i < j :=
  lt_of_key_lt _ (pairwise_mergeSort_key (fun l : Label => l.name.length) ls) hi hj h.length_lt

theorem lt_of_isBelow_deletionOrder (hi : (deletionOrder ls)[i]? = some m)
    (hj : (deletionOrder ls)[j]? = some l) (h : l.IsBelow m) : j < i :=
  lt_of_key_lt (fun l : Label => OrderDual.toDual l.name.length) (pairwise_mergeSort_key _ ls) hj hi
    h.length_lt

end

/-- The request that deletes a label. -/
def Label.deletion (l : Label) : Request := .deleteLabel l.id

/-- Of two batches of labels, requests create labels of the first and delete labels of the second,
each from the beginning of its batch on and in the order of the hierarchy. -/
structure KeepsHierarchy (creates deletes : List Label) (sent : List Request) : Prop where
  /-- So many labels are created; with a label, so is every label that it stands below. -/
  created : ∃ n, sent.filter (·.method = .createLabel) = (creates.take n).map Label.creation ∧
    ∀ i j l m, creates[i]? = some m → creates[j]? = some l → l.IsBelow m → j < n → i < n
  /-- So many labels are deleted; with a label, so is every label below it. -/
  deleted : ∃ n, sent.filter (·.method = .deleteLabel) = (deletes.take n).map Label.deletion ∧
    ∀ i j l m, deletes[i]? = some m → deletes[j]? = some l → l.IsBelow m → i < n → j < n

/-! ### Labels among the steps of a plan -/

/-- The labels that a step creates. -/
def Step.createdLabels : Step → List Label
  | .addLabels ls => ls
  | _ => []

/-- The ids of the labels that a step deletes. -/
def Step.deletedLabels : Step → List String
  | .deleteLabels ids => ids
  | _ => []

/-- What is left out for being about nothing contributes nothing. -/
theorem flatMap_filter_of_nil {α β : Type} {q : α → Bool} {f : α → List β} {xs : List α}
    (h : ∀ x ∈ xs, q x = false → f x = []) : (xs.filter q).flatMap f = xs.flatMap f := by
  induction xs with
  | nil => rfl
  | cons x xs ih =>
    obtain ⟨hx, hxs⟩ := List.forall_mem_cons.1 h
    rw [List.filter_cons]
    split_ifs with hq
    · rw [List.flatMap_cons, List.flatMap_cons, ih hxs]
    · rw [List.flatMap_cons, hx (Bool.eq_false_iff.2 hq), List.nil_append, ih hxs]

namespace Plan

variable {p : Plan} {removeLabels : Bool}

/-- **The labels that a plan creates**, step by step. -/
theorem createdLabels_steps :
    (p.steps removeLabels).flatMap Step.createdLabels = creationOrder p.labels.added := by
  unfold steps
  rw [flatMap_filter_of_nil]
  · cases removeLabels <;> simp [Step.createdLabels]
  · intro st _ hst
    cases st <;> simp_all [Step.createdLabels, Step.count]

theorem deletedLabels_steps :
    (p.steps removeLabels).flatMap Step.deletedLabels = p.labels.deletions removeLabels := by
  unfold steps
  rw [flatMap_filter_of_nil]
  · cases removeLabels <;> simp [Step.deletedLabels, LabelDiff.deletions]
  · intro st _ hst
    cases st <;> simp_all [Step.deletedLabels, Step.count]

end Plan

/-! ### Labels among the requests of a plan -/

namespace Plan

variable {p : Plan} {removeLabels : Bool} {a : Account} {done : List Request}

theorem labelDeletions_eq : p.labelDeletions removeLabels =
    (if removeLabels then deletionOrder p.labels.removed else []).map Label.deletion := by
  unfold labelDeletions LabelDiff.deletions
  split_ifs
  · rw [List.map_map]
    rfl
  · rfl

/-- Labels are created whatever comes after. -/
theorem filter_createLabel_requests :
    (p.requests removeLabels a).filter (·.method = .createLabel) = p.labelCreations := by
  rw [filter_requests]
  cases p.exportsIn a <;> simp

/-- Labels are deleted only if all filters can be exported. -/
theorem filter_deleteLabel_requests :
    (p.requests removeLabels a).filter (·.method = .deleteLabel) =
      if (p.exportsIn a).isSome then p.labelDeletions removeLabels else [] := by
  rw [filter_requests]
  cases p.exportsIn a <;> simp

/-- A part of a batch is as many of its labels as it has requests. -/
theorem exists_take_of_prefix {α : Type} {f : α → Request} {xs : List α} {rs : List Request}
    (h : rs <+: xs.map f) : ∃ n, rs = (xs.take n).map f :=
  ⟨rs.length, by rw [List.map_take]; exact List.prefix_iff_eq_take.1 h⟩

/-- **At every point of a run the hierarchy is kept.** -/
theorem keepsHierarchy_of_prefix (h : done <+: p.requests removeLabels a) :
    KeepsHierarchy (creationOrder p.labels.added) (deletionOrder p.labels.removed) done where
  created := by
    have hp := h.filter (fun r : Request => decide (r.method = .createLabel))
    rw [filter_createLabel_requests] at hp
    obtain ⟨n, hn⟩ := exists_take_of_prefix hp
    exact ⟨n, hn, fun i j l m hi hj hbelow hjn =>
      (lt_of_isBelow_creationOrder hi hj hbelow).trans hjn⟩
  deleted := by
    have hp := h.filter (fun r : Request => decide (r.method = .deleteLabel))
    have hall : done.filter (·.method = .deleteLabel) <+:
        (deletionOrder p.labels.removed).map Label.deletion := by
      rw [filter_deleteLabel_requests, labelDeletions_eq] at hp
      refine hp.trans ?_
      split_ifs <;> simp
    obtain ⟨n, hn⟩ := exists_take_of_prefix hall
    exact ⟨n, hn, fun i j l m hi hj hbelow hin =>
      (lt_of_isBelow_deletionOrder hi hj hbelow).trans hin⟩

end Plan

/-- **Labels are created and deleted in the order of their hierarchy.**  The labels that a plan
creates are those to be added in some order, and those it deletes, if it may, are those to be
removed in some order.  Whatever failures lie ahead, the account has taken a part of the requests,
all of them if the plan is carried out to the end, and at every point of the run no label had been
created without those above it or deleted without those below it. -/
theorem apply_keeps_hierarchy {p : Plan} (hv : p.validate = .ok ()) (removeLabels : Bool)
    (s : Session) :
    ∃ creates deletes : List Label,
      creates.Perm p.labels.added ∧ deletes.Perm p.labels.removed ∧
      (p.steps removeLabels).flatMap Step.createdLabels = creates ∧
      (p.steps removeLabels).flatMap Step.deletedLabels =
        (if removeLabels then deletes.map Label.id else []) ∧
      ∃ done refused, s.Took done refused ((p.apply removeLabels).outcome s).2 ∧
        (((p.apply removeLabels).outcome s).1 = .ok () →
          done.filter (·.method = .createLabel) = creates.map Label.creation ∧
          done.filter (·.method = .deleteLabel) =
            (if removeLabels then deletes else []).map Label.deletion) ∧
        ∀ point, point <+: done → KeepsHierarchy creates deletes point := by
  obtain ⟨done, refused, ht, hp, hok⟩ := Plan.follows_apply removeLabels s hv
  refine ⟨creationOrder p.labels.added, deletionOrder p.labels.removed, List.mergeSort_perm _ _,
    List.mergeSort_perm _ _, Plan.createdLabels_steps, Plan.deletedLabels_steps, done, refused, ht,
    fun hdone => ?_, fun point hpoint => ?_⟩
  · obtain ⟨rfl, -⟩ := hok () hdone
    obtain ⟨-, ⟨rs, hrs⟩, -⟩ := Plan.of_apply (Prod.ext hdone rfl)
    rw [Plan.filter_createLabel_requests, Plan.filter_deleteLabel_requests, hrs,
      ← Plan.labelDeletions_eq]
    exact ⟨rfl, rfl⟩
  · exact Plan.keepsHierarchy_of_prefix (hpoint.trans ((List.prefix_append _ _).trans hp))

/-! ### A hierarchy that is taken down in part -/

/-- A plan that creates labels below each other, and deletes others. -/
def nestedPlan : Plan where
  filters := {}
  labels := {
    added := [{ name := "a/b" }, { name := "x" }, { name := "a" }]
    removed := [{ name := "old", id := "1" }, { name := "old/er", id := "2" }] }
  declared := { labels := [{ name := "a/b" }, { name := "x" }, { name := "a" }] }

/-- An account that holds the labels to be deleted, in which only one label can be deleted. -/
def nestedSession : Session where
  account := { labels := [.stored { id := "1", name := "old" },
    .stored { id := "2", name := "old/er" }] }
  failures := [{ method := .deleteLabel, failure := ⟨500, "Server Error"⟩, after := 1 }]

/-- The new labels are created from the top, and the one label that is deleted stands below the
other. -/
theorem apply_keeps_hierarchy_nested :
    nestedPlan.validate = .ok () ∧ ∃ creates deletes done refused,
      creates.Perm nestedPlan.labels.added ∧ deletes.Perm nestedPlan.labels.removed ∧
      nestedSession.Took done refused ((nestedPlan.apply true).outcome nestedSession).2 ∧
      done ++ refused = [.createLabel "x" none, .createLabel "a" none, .createLabel "a/b" none,
        .deleteLabel "2"] ∧ KeepsHierarchy creates deletes done := by
  have hv : nestedPlan.validate = .ok () := rfl
  have hcreate : creationOrder nestedPlan.labels.added =
      [{ name := "x" }, { name := "a" }, { name := "a/b" }] :=
    (mergeSort_key_eq_insertionSort (fun l : Label => l.name.length) _).trans rfl
  have hdelete : deletionOrder nestedPlan.labels.removed =
      [{ name := "old/er", id := "2" }, { name := "old", id := "1" }] :=
    (mergeSort_key_eq_insertionSort (fun l : Label => OrderDual.toDual l.name.length) _).trans rfl
  have hsent : ((nestedPlan.apply true).outcome nestedSession).2.requests =
      [.createLabel "x" none, .createLabel "a" none, .createLabel "a/b" none,
        .deleteLabel "2"] := by
    simp only [Plan.apply, hv, Plan.steps, hcreate, hdelete]
    decide +kernel
  obtain ⟨creates, deletes, hc, hd, -, -, done, refused, ht, -, hpoint⟩ :=
    apply_keeps_hierarchy hv true nestedSession
  refine ⟨hv, creates, deletes, done, refused, hc, hd, ht, ?_, hpoint done List.prefix_rfl⟩
  have hrequests := ht.requests
  rw [hsent] at hrequests
  simpa [nestedSession] using hrequests.symm

end MailRules
