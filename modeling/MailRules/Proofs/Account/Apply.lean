import MailRules.Account.Apply
import MailRules.Proofs.Account.Exchange
import MailRules.Proofs.Account.Work

/-!
# Carrying out a plan, however far it comes

Carrying out a plan may stop at any request, because a request fails, an id is missing, a filter
applies a label that is not there, or something stored cannot be read.

* `Plan.requests` are the requests of a plan in an account, in order; `Plan.follows_apply` says
  that they are sent in that order up to the first failure, and `Plan.of_apply` what it takes to
  come to the end.
* `Plan.of_mem_deletions` and the like say what has been done by the time that a request of some
  kind is sent.
-/

namespace MailRules

/-! ### The requests of a plan -/

namespace LabelDiff

/-- The changes of a difference, as they are sent. -/
def updates (d : LabelDiff) : List Label := d.modified.map LabelChange.update

/-- The ids that are deleted, in order. -/
def deletions (removeLabels : Bool) (d : LabelDiff) : List String :=
  if removeLabels then (deletionOrder d.removed).map (·.id) else []

end LabelDiff

/-- Requests of one kind. -/
theorem filter_method_map {α : Type} {m : Method} {f : α → Request} (hf : ∀ x, (f x).method = m)
    (k : Method) (xs : List α) :
    (xs.map f).filter (·.method = k) = if m = k then xs.map f else [] := by
  split_ifs with h
  · refine List.filter_eq_self.2 fun r hr => ?_
    obtain ⟨x, -, rfl⟩ := List.mem_map.1 hr
    simpa [hf] using h
  · refine List.filter_eq_nil_iff.2 fun r hr => ?_
    obtain ⟨x, -, rfl⟩ := List.mem_map.1 hr
    simpa [hf] using h

namespace Plan

/-- The requests that create the new labels of a plan. -/
def labelCreations (p : Plan) : List Request :=
  (creationOrder p.labels.added).map Label.creation

/-- The requests that change labels. -/
def labelChanges (p : Plan) : List Request :=
  p.labels.updates.map Label.change

/-- The requests that delete filters. -/
def filterDeletions (p : Plan) : List Request :=
  (p.filters.removed.map (·.id)).map .deleteFilter

/-- The requests that delete labels. -/
def labelDeletions (removeLabels : Bool) (p : Plan) : List Request :=
  (p.labels.deletions removeLabels).map .deleteLabel

/-- The stored forms of the new filters once the new labels are there, if nothing stands in the
way. -/
def exportsIn (a : Account) (p : Plan) : Option (List RemoteFilter) :=
  match a.performAll p.labelCreations with
  | .ok b => b.exports p.filters.added
  | .error _ => none

/-- The requests of a plan in an account, in order. -/
def requests (removeLabels : Bool) (a : Account) (p : Plan) : List Request :=
  p.labelCreations ++ match p.exportsIn a with
    | some rs => rs.map RemoteFilter.creation ++
        (p.labelChanges ++ (p.filterDeletions ++ p.labelDeletions removeLabels))
    | none => []

end Plan

/-! ### Steps -/

theorem forM_filter {m : Type → Type} [Monad m] [LawfulMonad m] {α : Type} (q : α → Bool)
    (f : α → m PUnit) (xs : List α) :
    (xs.filter q).forM f = xs.forM fun x => if q x = true then f x else pure ⟨⟩ := by
  induction xs with
  | nil => rfl
  | cons x xs ih =>
    change forM ((x :: xs).filter q) f = forM (x :: xs) _
    rw [List.forM_cons, List.filter_cons]
    split
    · rw [List.forM_cons]
      exact congrArg _ (funext fun _ => ih)
    · rw [pure_bind]
      exact ih

/-- A step with its notice, unless it is about nothing. -/
def Step.run (st : Step) : Client Unit :=
  if decide (st.count ≠ 0) = true then do
    Client.notify st.notice
    st.perform
  else pure ()

namespace Step

open Client

variable {s s' : Session} {st : Step} {rs : List Request}

theorem follows_run (h0 : st.count = 0 → rs = [])
    (h : ∀ t : Session, t.account = s.account → st.perform.Follows t rs) :
    st.run.Follows s rs := by
  unfold run
  by_cases hc : st.count = 0
  · simp only [hc, ne_eq, not_true_eq_false, decide_false, Bool.false_eq_true, if_false]
    rw [h0 hc]
    exact .pure _
  · simp only [hc, ne_eq, not_false_eq_true, decide_true, if_true]
    exact (follows_notify _ _).bind_nil fun _ t _ ht => h t ht

end Step

namespace Plan

open Client

variable {p : Plan} {s s' : Session} {removeLabels : Bool}

theorem apply_of_invalid {e : PlanError} (h : p.validate = .error e) :
    (p.apply removeLabels).outcome s = (.error (.plan e), s) := by
  unfold apply
  rw [h]
  rfl

theorem apply_of_valid (h : p.validate = .ok ()) :
    p.apply removeLabels = (do
      (Step.addLabels (creationOrder p.labels.added)).run
      (Step.addFilters p.filters.added).run
      (Step.updateLabels (p.labels.modified.map LabelChange.update)).run
      (Step.deleteFilters (p.filters.removed.map (·.id))).run
      (if removeLabels then Step.deleteLabels ((deletionOrder p.labels.removed).map (·.id))
        else Step.keepLabels p.labels.removed.length).run) := by
  unfold apply steps
  rw [h, forM_filter]
  simp only [List.forM, bind_pure_unit]
  rfl

/-- A step that adds filters goes on only if all of them can be exported. -/
theorem exports_of_run {fs : List Filter}
    (h : (Step.addFilters fs).run.outcome s = (.ok (), s')) :
    ∃ rs, s.account.exports fs = some rs := by
  by_cases hc : (Step.addFilters fs).count = 0
  · rw [List.length_eq_zero_iff.1 hc]
    exact ⟨[], rfl⟩
  · unfold Step.run at h
    simp only [hc, ne_eq, not_false_eq_true, decide_true, if_true] at h
    obtain ⟨_, t, ht, h⟩ := outcome_bind_eq_ok h
    rw [outcome_notify] at ht
    cases ht
    have hrs := exports_of_addFilters h
    exact hrs

theorem follows_addFilters_run (fs : List Filter) (s : Session) :
    (Step.addFilters fs).run.Follows s
      (((s.account.exports fs).getD []).map RemoteFilter.creation) := by
  refine Step.follows_run (fun h0 => ?_) fun t ht => ?_
  · rw [List.length_eq_zero_iff.1 h0]
    rfl
  · rw [← ht]
    exact follows_addFilters _ _

/-- **A plan is carried out in order, up to the first request that fails.** -/
theorem follows_apply (removeLabels : Bool) (s : Session) (h : p.validate = .ok ()) :
    (p.apply removeLabels).Follows s (p.requests removeLabels s.account) := by
  have hnil : ∀ {α : Type} {xs : List α} {f : α → Request}, xs.length = 0 → xs.map f = [] :=
    fun h => by rw [List.length_eq_zero_iff.1 h, List.map_nil]
  rw [apply_of_valid h]
  unfold requests
  refine Follows.bind (Step.follows_run hnil fun t _ => follows_addLabels _ _) fun _ s₁ _ h₁ => ?_
  have hexp : p.exportsIn s.account = s₁.account.exports p.filters.added := by
    unfold exportsIn
    rw [h₁.account]
  rw [hexp]
  cases he : s₁.account.exports p.filters.added with
  | none =>
    have hstop := follows_addFilters_run p.filters.added s₁
    rw [he] at hstop
    -- the work goes no further
    refine hstop.bind fun _ s₂ h₂ _ => ?_
    obtain ⟨rs, hrs⟩ := exports_of_run h₂
    rw [he] at hrs
    cases hrs
  | some rs =>
    have hadd := follows_addFilters_run p.filters.added s₁
    rw [he] at hadd
    refine hadd.bind fun _ s₂ _ _ => ?_
    refine Follows.bind (Step.follows_run hnil fun t _ => follows_updateLabels _ _)
      fun _ s₃ _ _ => ?_
    refine Follows.bind (Step.follows_run hnil fun t _ => follows_deleteFilters _ _)
      fun _ s₄ _ _ => ?_
    unfold labelDeletions LabelDiff.deletions
    split_ifs with hr
    · exact Step.follows_run hnil fun t _ => follows_deleteLabels _ _
    · exact Step.follows_run (fun _ => rfl) fun t _ => .pure _

/-- A plan that is carried out to the end is valid, its filters can be exported, and the account
has taken all its requests. -/
theorem of_apply (h : (p.apply removeLabels).outcome s = (.ok (), s')) :
    p.validate = .ok () ∧ (∃ rs, p.exportsIn s.account = some rs) ∧
      s.account.performAll (p.requests removeLabels s.account) = .ok s'.account := by
  have hv : p.validate = .ok () := by
    cases hv : p.validate with
    | error e =>
      rw [apply_of_invalid hv] at h
      cases h
    | ok _ => rfl
  refine ⟨hv, ?_, ((follows_apply removeLabels s hv).took h).account⟩
  rw [apply_of_valid hv] at h
  obtain ⟨_, s₁, h₁, h⟩ := outcome_bind_eq_ok h
  obtain ⟨_, s₂, h₂, -⟩ := outcome_bind_eq_ok h
  obtain ⟨rs, hrs⟩ := exports_of_run h₂
  have hlabels : (Step.addLabels (creationOrder p.labels.added)).run.Follows s p.labelCreations :=
    Step.follows_run (fun h0 => congrArg (List.map _) (List.length_eq_zero_iff.1 h0))
      fun t _ => follows_addLabels _ _
  refine ⟨rs, ?_⟩
  unfold exportsIn
  rw [(hlabels.took h₁).account]
  exact hrs

/-! ### How far a plan has come -/

/-- A list that starts like two others in a row and has a member that the first has not holds all
of the first. -/
theorem eq_append_of_mem {α : Type} {xs ys zs : List α} {x : α} (h : zs <+: xs ++ ys) (hx : x ∈ zs)
    (hn : x ∉ xs) : ∃ ts, zs = xs ++ ts ∧ ts <+: ys ∧ x ∈ ts := by
  rcases List.prefix_or_prefix_of_prefix h (List.prefix_append xs ys) with hz | ⟨ts, rfl⟩
  · exact absurd (hz.subset hx) hn
  · refine ⟨ts, rfl, (List.prefix_append_right_inj xs).1 h, ?_⟩
    exact (List.mem_append.1 hx).resolve_left hn

variable {a : Account} {done : List Request}

/-- **The requests of a plan, by their kind.** -/
theorem filter_requests (k : Method) :
    (p.requests removeLabels a).filter (·.method = k) =
      (if .createLabel = k then p.labelCreations else []) ++ match p.exportsIn a with
        | some rs => (if .createFilter = k then rs.map RemoteFilter.creation else []) ++
            ((if .patchLabel = k then p.labelChanges else []) ++
              ((if .deleteFilter = k then p.filterDeletions else []) ++
                if .deleteLabel = k then p.labelDeletions removeLabels else []))
        | none => [] := by
  unfold requests labelCreations
  rw [List.filter_append, filter_method_map (f := Label.creation) fun _ => rfl]
  cases p.exportsIn a with
  | none => rfl
  | some rs =>
    simp only [List.filter_append, labelChanges, filterDeletions, labelDeletions,
      filter_method_map (f := RemoteFilter.creation) fun _ => rfl,
      filter_method_map (f := Label.change) fun _ => rfl,
      filter_method_map (f := Request.deleteFilter) fun _ => rfl,
      filter_method_map (f := Request.deleteLabel) fun _ => rfl]

/-- A request that creates no label is sent after all labels are created, and then all filters to
be added can be exported. -/
theorem exported_of_mem {r : Request} (h : done <+: p.requests removeLabels a) (hr : r ∈ done)
    (hn : r ∉ p.labelCreations) :
    ∃ rs ts, p.exportsIn a = some rs ∧ done = p.labelCreations ++ ts ∧ r ∈ ts ∧
      ts <+: rs.map RemoteFilter.creation ++
        (p.labelChanges ++ (p.filterDeletions ++ p.labelDeletions removeLabels)) := by
  obtain ⟨ts, rfl, hts, hrt⟩ := eq_append_of_mem h hr hn
  cases he : p.exportsIn a with
  | none =>
    rw [he] at hts
    rw [List.prefix_nil.1 hts] at hrt
    cases hrt
  | some rs =>
    rw [he] at hts
    exact ⟨rs, ts, rfl, rfl, hrt, hts⟩

/-- Requests of one kind are not of another. -/
theorem not_mem_of_method {α : Type} {m : Method} {f : α → Request} {xs : List α} {r : Request}
    (hf : ∀ x, (f x).method = m) (h : r.method ≠ m) : r ∉ xs.map f := by
  intro hr
  obtain ⟨x, -, rfl⟩ := List.mem_map.1 hr
  exact h (hf x)

/-- What is deleted is deleted after everything else is done. -/
theorem of_mem_deletions {r : Request} (h : done <+: p.requests removeLabels a) (hr : r ∈ done)
    (hm : r.method = .deleteFilter ∨ r.method = .deleteLabel) :
    ∃ rs ts, p.exportsIn a = some rs ∧ r ∈ ts ∧
      done = p.labelCreations ++ (rs.map RemoteFilter.creation ++ (p.labelChanges ++ ts)) ∧
      ts <+: p.filterDeletions ++ p.labelDeletions removeLabels := by
  have hne : r.method ≠ .createLabel ∧ r.method ≠ .createFilter ∧ r.method ≠ .patchLabel := by
    rcases hm with hm | hm <;> rw [hm] <;> decide
  -- it is in none of the batches before, so these are complete
  obtain ⟨rs, ts₁, hrs, rfl, hr₁, h₁⟩ :=
    exported_of_mem h hr (not_mem_of_method (fun _ => rfl) hne.1)
  obtain ⟨ts₂, rfl, h₂, hr₂⟩ :=
    eq_append_of_mem h₁ hr₁ (not_mem_of_method (fun _ => rfl) hne.2.1)
  obtain ⟨ts₃, rfl, h₃, hr₃⟩ :=
    eq_append_of_mem h₂ hr₂ (not_mem_of_method (fun _ => rfl) hne.2.2)
  exact ⟨rs, ts₃, hrs, hr₃, rfl, h₃⟩

/-- What can be exported is exported filter by filter. -/
theorem of_exportsIn {rs : List RemoteFilter} (h : p.exportsIn a = some rs) :
    ∃ m, List.Forall₂ (fun f r => f.exported m = .ok r) p.filters.added rs ∧
      (p.filters.added ≠ [] → ∃ b ls, a.performAll p.labelCreations = .ok b ∧
        b.userLabels = some ls ∧ m = .ofLabels ls) := by
  unfold exportsIn at h
  split at h
  · rename_i b hb
    unfold Account.exports at h
    split_ifs at h with hadd
    · rw [List.isEmpty_iff] at hadd
      cases h
      rw [hadd]
      exact ⟨{}, .nil, fun hne => absurd rfl hne⟩
    · obtain ⟨ls, hls, h⟩ := Option.bind_eq_some_iff.1 h
      cases he : exportAll (.ofLabels ls) p.filters.added with
      | error e =>
        rw [he] at h
        cases h
      | ok rs' =>
        rw [he] at h
        cases h
        exact ⟨_, exportAll_eq_ok_iff.1 he, fun _ => ⟨b, ls, hb, hls, rfl⟩⟩
  · cases h

end Plan

end MailRules
