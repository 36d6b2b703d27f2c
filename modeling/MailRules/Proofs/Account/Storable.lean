import MailRules.Proofs.Account.Exchange
import MailRules.Proofs.Compile.Faults
import Mathlib.Data.Fintype.Option

/-!
# Compiled filters can be stored

The compiler makes filters that an account can hold, unless a rule lists a label without a name.

* Criteria of compiled filters are never empty (`criteria_of_yields`), and the labels that they
  apply are listed by their rules (`addLabel_of_mem`).
* A rule asks for something, but that need not be so for each of its actions: a label without a name
  counts as something the rule asks for, and applying it is doing nothing.  `Actions.HasIdle` says
  when that happens (`exists_idle_iff`).
* `exportAll_compiled_iff` puts this together.
-/

namespace MailRules

/-! ### Actions that do nothing -/

/-- A label without a name is all that one of the actions is about: it comes after the first label,
or there is nothing else that the first action is to do. -/
def Actions.HasIdle (a : Actions) : Prop :=
  "" ∈ a.labels.drop 1 ∨
    a.labels.head? = some "" ∧ ({ a with labels := [] } : Actions).isEmpty = true

section

variable {a : Actions} {acts : List Action} {x : Action}

theorem mem_filterActions (h : a.filterActions = .ok acts) :
    x ∈ acts ↔ x = a.mainAction ∨ ∃ l ∈ a.labels.drop 1, x = { addLabel := l } := by
  unfold Actions.filterActions at h
  split_ifs at h
  obtain rfl := Except.ok.inj h
  rw [List.mem_cons, List.mem_map]
  exact or_congr_right (exists_congr fun l => and_congr_right fun _ => eq_comm)

/-- Where all labels have a name, every action does something. -/
theorem not_hasIdle_of_named (h : "" ∉ a.labels) : ¬a.HasIdle := by
  rintro (hrest | ⟨hhead, -⟩)
  · exact h (List.mem_of_mem_drop hrest)
  · exact h (List.mem_of_mem_head? hhead)

/-- The first action does nothing if its label has no name, and nothing else is asked for. -/
theorem mainAction_isEmpty_iff (hne : a.isEmpty = false) (hspam : a.markSpam ≠ some true) :
    a.mainAction.isEmpty = true ↔
      a.labels.head? = some "" ∧ ({ a with labels := [] } : Actions).isEmpty = true := by
  have hunset : ∀ mark : Option Bool, mark ≠ some true → mark ≠ some false → mark = none := by
    decide
  have hmain : a.mainAction.isEmpty = true ↔ a.labels.headD "" = "" ∧ a.category = none ∧
      a.archive = false ∧ a.delete = false ∧ a.markImportant ≠ some true ∧
      a.markImportant ≠ some false ∧ a.markRead = false ∧ a.markSpam ≠ some false ∧
      a.star = false ∧ a.forward.getD "" = "" := by
    simp [Action.isEmpty, Actions.mainAction]
  rw [hmain, Actions.isEmpty_iff]
  constructor
  · rintro ⟨hhead, hcategory, har, hdel, himp, hnimp, hread, hnspam, hstar, hforward⟩
    have hmark := hunset _ himp hnimp
    have hspam := hunset _ hspam hnspam
    refine ⟨?_, har, hdel, hread, hstar, hspam, hmark, hcategory, rfl, hforward⟩
    cases hlabels : a.labels with
    | cons l ls => simpa [hlabels] using hhead
    | nil =>
      -- without a label there is nothing that the rule asks for
      have hempty := Actions.isEmpty_iff.2
        ⟨har, hdel, hread, hstar, hspam, hmark, hcategory, hlabels, hforward⟩
      rw [hne] at hempty
      cases hempty
  · rintro ⟨hhead, har, hdel, hread, hstar, hspam, hmark, hcategory, -, hforward⟩
    have hlabel : a.labels.headD "" = "" := by rw [List.headD_eq_head?_getD, hhead]; rfl
    have hset : ∀ {mark : Option Bool} (b : Bool), mark = none → mark ≠ some b := by
      rintro _ b rfl h
      cases h
    exact ⟨hlabel, hcategory, har, hdel, hset true hmark, hset false hmark, hread,
      hset false hspam, hstar, hforward⟩

/-- **Some action of a rule does nothing** exactly if it is about a label without a name. -/
theorem exists_idle_iff (hne : a.isEmpty = false) (h : a.filterActions = .ok acts) :
    (∃ x ∈ acts, x.isEmpty = true) ↔ a.HasIdle := by
  have hspam := exists_filterActions_iff.1 ⟨acts, h⟩
  have hlabel : ∀ l : String, ({ addLabel := l } : Action).isEmpty = true ↔ l = "" := by
    simp [Action.isEmpty]
  unfold Actions.HasIdle
  rw [← mainAction_isEmpty_iff hne hspam]
  constructor
  · rintro ⟨x, hx, hidle⟩
    rcases (mem_filterActions h).1 hx with rfl | ⟨l, hl, rfl⟩
    · exact .inr hidle
    · exact .inl ((hlabel l).1 hidle ▸ hl)
  · rintro (hl | hidle)
    · exact ⟨_, (mem_filterActions h).2 (.inr ⟨"", hl, rfl⟩), (hlabel "").2 rfl⟩
    · exact ⟨_, (mem_filterActions h).2 (.inl rfl), hidle⟩

/-- The label that an action applies is one that the rule lists. -/
theorem addLabel_of_mem (h : a.filterActions = .ok acts) (hx : x ∈ acts) :
    x.addLabel = "" ∨ x.addLabel ∈ a.labels := by
  rcases (mem_filterActions h).1 hx with rfl | ⟨l, hl, rfl⟩
  · unfold Actions.mainAction
    cases a.labels with
    | nil => exact .inl rfl
    | cons l ls => exact .inr List.mem_cons_self
  · exact .inr (List.mem_of_mem_drop hl)

end

/-! ### Filters of a rule -/

section

variable {limit : Int} {r : RuleDecl} {f : Filter}

theorem criteria_of_yields (h : r.Yields limit f) : f.criteria.isEmpty = false := by
  obtain ⟨c, -, hc, -, ⟨p, hp, hcrit⟩, -⟩ := h
  have hexp := Condition.everywhere_pieces Condition.divisible_expressible
    (FilterNode.expressible_simplify hc) p hp
  obtain ⟨k, hk, hne⟩ := Condition.criteria_ok hexp
  obtain rfl := Except.ok.inj (hk.symm.trans hcrit)
  exact hne

theorem isEmpty_of_readable (h : ¬r.Unreadable) : r.actions.isEmpty = false :=
  Bool.eq_false_iff.2 fun hempty => h (.inr hempty)

/-- Every action of a rule that can be read is the action of a filter. -/
theorem exists_yields (hl : 1 ≤ limit) (hr : ¬r.Unreadable) {acts : List Action}
    (ha : r.actions.filterActions = .ok acts) {x : Action} (hx : x ∈ acts) :
    ∃ f, r.Yields limit f ∧ f.action = x := by
  obtain ⟨rule, hr⟩ := RuleDecl.exists_read_iff.2 hr
  obtain ⟨c, crits, hc, hcrits, hne, -⟩ := filters_of_read hl hr
  obtain ⟨k, hk⟩ := List.exists_mem_of_ne_nil crits hne
  obtain ⟨p, hp, hpk⟩ := (exists_mem_of_forall₂ hcrits).2 k hk
  exact ⟨{ criteria := k, action := x }, ⟨c, acts, hc, ha, ⟨p, hp, hpk⟩, hx, rfl⟩, rfl⟩

end

/-! ### Exporting compiled filters -/

/-- All compiled filters do something if no rule has an action that does nothing. -/
theorem actions_compiled_iff {limit : Int} (hl : 1 ≤ limit) {c : Config} {m : MailConfig}
    (h : c.compile limit = .ok m) :
    (∀ f ∈ m.filters, f.action.isEmpty = false) ↔ ∀ r ∈ c.rules, ¬r.actions.HasIdle := by
  constructor
  · intro hne r hr hidle
    obtain ⟨hread, hspam⟩ := accepted_of_compile hl h r hr
    obtain ⟨acts, ha⟩ := exists_filterActions_iff.2 hspam
    obtain ⟨x, hx, hempty⟩ := (exists_idle_iff (isEmpty_of_readable hread) ha).2 hidle
    obtain ⟨f, hf, rfl⟩ := exists_yields hl hread ha hx
    rw [hne f ((mem_compiled_iff hl h).2 ⟨r, hr, hf⟩)] at hempty
    cases hempty
  · intro hidle f hf
    obtain ⟨r, hr, -, acts, -, ha, -, hx, -⟩ := (mem_compiled_iff hl h).1 hf
    have hne := isEmpty_of_readable (accepted_of_compile hl h r hr).1
    refine Bool.eq_false_iff.2 fun hempty => hidle r hr ?_
    exact (exists_idle_iff hne ha).1 ⟨f.action, hx, hempty⟩

theorem of_exportFrom_error {m : LabelMap} {i : Nat} {fs : List Filter} {e : ExportError}
    (h : exportFrom m i fs = .error e) : ∃ f ∈ fs, f.exported m = .error e.fault := by
  induction fs generalizing i with
  | nil => cases h
  | cons f fs ih =>
    simp only [exportFrom] at h
    split at h
    · rename_i fault hf
      obtain rfl := Except.error.inj h
      exact ⟨f, List.mem_cons_self, hf⟩
    · split at h
      · rename_i hfs
        obtain rfl := Except.error.inj h
        obtain ⟨g, hg, hgf⟩ := ih hfs
        exact ⟨g, List.mem_cons_of_mem f hg, hgf⟩
      · cases h

/-- **What compiles can be stored**, if the account knows the labels that rules list and no rule has
an action that does nothing.  Such actions are the only obstacle; they come from labels without a
name, and compiling does not notice them. -/
theorem exportAll_compiled_iff {limit : Int} (hl : 1 ≤ limit) {c : Config} {m : MailConfig}
    (h : c.compile limit = .ok m) {map : LabelMap}
    (hmap : ∀ r ∈ c.rules, ∀ name ∈ r.actions.labels, ∃ i, map.id? name = some i) :
    (∀ f ∈ m.filters, f.criteria.isEmpty = false) ∧
    ((∃ rs, exportAll map m.filters = .ok rs) ↔ ∀ r ∈ c.rules, ¬r.actions.HasIdle) ∧
    ∀ e, exportAll map m.filters = .error e → e.fault = .noAction := by
  have hcriteria : ∀ f ∈ m.filters, f.criteria.isEmpty = false := by
    intro f hf
    obtain ⟨r, -, hr⟩ := (mem_compiled_iff hl h).1 hf
    exact criteria_of_yields hr
  have hknown : ∀ f ∈ m.filters,
      f.action.addLabel = "" ∨ ∃ i, map.id? f.action.addLabel = some i := by
    intro f hf
    obtain ⟨r, hr, -, acts, -, ha, -, hx, -⟩ := (mem_compiled_iff hl h).1 hf
    exact (addLabel_of_mem ha hx).imp_right (hmap r hr _)
  have hstored : ∀ f ∈ m.filters, (∃ x, f.exported map = .ok x) ↔ f.action.isEmpty = false := by
    intro f hf
    rw [exists_exported_iff]
    exact ⟨fun hx => hx.1, fun hx => ⟨hx, hcriteria f hf, hknown f hf⟩⟩
  refine ⟨hcriteria, ?_, fun e he => ?_⟩
  · rw [← actions_compiled_iff hl h]
    simp only [exportAll_eq_ok_iff, exists_forall₂_iff]
    exact forall₂_congr hstored
  · obtain ⟨f, hf, hfe⟩ := of_exportFrom_error he
    have hempty : f.action.isEmpty = true := by
      refine by_contra fun hne => ?_
      obtain ⟨x, hx⟩ := (hstored f hf).2 (Bool.eq_false_iff.2 hne)
      rw [hfe] at hx
      cases hx
    rw [Filter.exported, if_pos hempty] at hfe
    exact (Except.error.inj hfe).symm

/-- The filters of `threeSenders`, by the labels of an account that has both. -/
theorem exportAll_compiled_threeSenders :
    let labels : List Label :=
      [{ name := "work", id := "Label_1" }, { name := "home", id := "Label_2" }]
    ∃ m rs, threeSenders.compile 5 = .ok m ∧ exportAll (.ofLabels labels) m.filters = .ok rs := by
  intro labels
  have hmap : ∀ r ∈ threeSenders.rules, ∀ name ∈ r.actions.labels,
      ∃ i, (LabelMap.ofLabels labels).id? name = some i := by
    intro r hr name hname
    obtain rfl := List.mem_singleton.1 hr
    have hlisted : ∃ l ∈ labels, l.name = name := by
      simpa [labels, eq_comm] using hname
    exact LabelMap.exists_id?_ofLabels.2 hlisted
  have hnamed : ∀ r ∈ threeSenders.rules, ¬r.actions.HasIdle := by
    intro r hr
    obtain rfl := List.mem_singleton.1 hr
    exact not_hasIdle_of_named (by decide)
  obtain ⟨-, hexport, -⟩ := exportAll_compiled_iff (by decide) compile_threeSenders hmap
  obtain ⟨rs, hrs⟩ := hexport.2 hnamed
  exact ⟨_, rs, compile_threeSenders, hrs⟩

/-- A rule whose only label has no name. -/
def unnamedLabel : Config where
  rules := [{ filter := { fields := { sender := some "a" } }, actions := { labels := [""] } }]

theorem compile_unnamedLabel : unnamedLabel.compile defaultSizeLimit =
    .ok { filters := [{ criteria := { sender := "a" } }] } := by
  rfl

/-- Compiling need not lead to what can be stored: a label without a name is something to ask for,
but nothing to do. -/
theorem unnamedLabel_not_stored :
    ¬∀ (c : Config) (limit : Int) (m : MailConfig) (map : LabelMap), 1 ≤ limit →
      c.compile limit = .ok m →
      (∀ r ∈ c.rules, ∀ name ∈ r.actions.labels, ∃ i, map.id? name = some i) →
      ∃ rs, exportAll map m.filters = .ok rs := by
  intro h
  have hmap : ∀ r ∈ unnamedLabel.rules, ∀ name ∈ r.actions.labels,
      ∃ i, (LabelMap.ofLabels [{ name := "", id := "Label_1" }]).id? name = some i := by
    intro r hr name hname
    obtain rfl := List.mem_singleton.1 hr
    obtain rfl := List.mem_singleton.1 hname
    exact ⟨"Label_1", by decide⟩
  obtain ⟨rs, hrs⟩ := h _ _ _ _ (by decide) compile_unnamedLabel hmap
  cases hrs

end MailRules
