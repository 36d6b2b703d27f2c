import MailRules.Config.Describe
import MailRules.Proofs.Account.Exchange
import MailRules.Proofs.Compile
import MailRules.Proofs.Condition.Distinct
import MailRules.Proofs.Diff.Filters
import MailRules.Proofs.Diff.Labels

/-!
# Compiling the config of an account

The config that describes an account compiles to the labels and filters of the account, but for
texts that are quoted on the way.

* `requoted` is what becomes of a text in a slot.  Describing and compiling judge by different
  characters whether it may be quoted, and `requoted_eq_iff` says where they agree.
* `Criteria.row` is the condition that criteria are described by, once simplified
  (`simplify_of_node?`); `criteria_row` says what its criteria are.
* `filters_of_rule` puts a rule together, `describe_compile` all of them, and
  `describe_compile_requoted` compares the result with the account.
-/

namespace MailRules

/-! ### Texts that are quoted on the way -/

/-- A text in a slot after it was described and compiled. -/
def requoted (v : String) : String := if isSpacedOut v then v else quoteArg v

theorem quoteArg_eq_iff {v : String} : quoteArg v = v ↔ needsQuotes v.toList = false := by
  unfold quoteArg
  split_ifs with hq
  · refine ⟨fun h => ?_, fun h => absurd hq (by simp [h])⟩
    have hlen := congrArg (fun s : String => s.toList.length) h
    simp at hlen
    omega
  · exact ⟨fun _ => Bool.eq_false_iff.2 hq, fun _ => rfl⟩

/-- A text stays as it is if describing notices that it was quoted or spaced out, or compiling finds
nothing to quote. -/
theorem requoted_eq_iff {v : String} :
    requoted v = v ↔ isSpacedOut v = true ∨ needsQuotes v.toList = false := by
  unfold requoted
  split_ifs with hs
  · simp [hs]
  · simp [hs, quoteArg_eq_iff]

theorem requoted_empty : requoted "" = "" := requoted_eq_iff.2 (.inr rfl)

/-- Criteria after they were described and compiled.  A query is left alone. -/
def Criteria.requoted (k : Criteria) : Criteria where
  sender := MailRules.requoted k.sender
  recipient := MailRules.requoted k.recipient
  subject := MailRules.requoted k.subject
  query := k.query

/-- A filter after it was described and compiled. -/
def Filter.requoted (f : Filter) : Filter where
  criteria := f.criteria.requoted
  action := f.action

/-- Whether describing and compiling agree on all texts of some criteria. -/
def Criteria.Survives (k : Criteria) : Prop :=
  ∀ v ∈ [k.sender, k.recipient, k.subject], isSpacedOut v = true ∨ needsQuotes v.toList = false

theorem Criteria.requoted_eq_self_iff {k : Criteria} : k.requoted = k ↔ k.Survives := by
  obtain ⟨s, r, j, q⟩ := k
  simp [requoted, Survives, requoted_eq_iff]

theorem Filter.requoted_same_iff {f : Filter} :
    f.requoted.same f = true ↔ f.criteria.Survives := by
  rw [same_iff, ← Criteria.requoted_eq_self_iff]
  simp [content, requoted]

/-! ### Criteria as conditions -/

/-- The field that matches of a slot are described by. -/
def Slot.field : Slot → Field
  | .sender => .sender
  | .recipient => .recipient
  | .subject => .subject
  | .query => .query

theorem Slot.slot_field (s : Slot) : s.field.slot = s := by
  cases s <;> rfl

namespace Criteria

variable {k : Criteria} {s : Slot} {n : FilterNode}

/-- Criteria with the same text in every slot are the same. -/
theorem ext_slot {k k' : Criteria} (h : ∀ s, k.slot s = k'.slot s) : k = k' := by
  obtain ⟨s, r, j, q⟩ := k
  obtain ⟨s', r', j', q'⟩ := k'
  obtain rfl : s = s' := h .sender
  obtain rfl : r = r' := h .recipient
  obtain rfl : j = j' := h .subject
  obtain rfl : q = q' := h .query
  rfl

/-- The slots that are not empty. -/
def filled (k : Criteria) : List Slot :=
  [Slot.sender, .recipient, .subject, .query].filter fun s => k.slot s ≠ ""

theorem mem_filled : s ∈ k.filled ↔ k.slot s ≠ "" := by
  cases s <;> simp [filled]

/-- The node for a slot. -/
def slotNode (k : Criteria) : Slot → FilterNode
  | .sender => { fields := { sender := some k.sender }, raw := isSpacedOut k.sender }
  | .recipient => { fields := { recipient := some k.recipient }, raw := isSpacedOut k.recipient }
  | .subject => { fields := { subject := some k.subject }, raw := isSpacedOut k.subject }
  | .query => { fields := { query := some k.query } }

/-- The leaf for a slot. -/
def slotLeaf (k : Criteria) (s : Slot) : Leaf where
  field := s.field
  args := [k.slot s]
  raw := s ≠ .query && isSpacedOut (k.slot s)

theorem node?_eq (k : Criteria) : k.node? = match k.filled.map k.slotNode with
    | [] => none
    | [n] => some n
    | ns => some { all := some ns } := by
  unfold node? filled MailRules.slotNode
  split_ifs <;> simp [slotNode, slot, *]

theorem condition_slotNode (h : k.slot s ≠ "") :
    (k.slotNode s).condition = .ok (.leaf (k.slotLeaf s)) := by
  have hone : (k.slotNode s).fields.stated = [(s.field, k.slot s)] := by
    cases s <;>
      simp_all [slotNode, slot, FieldMatches.stated, FieldMatches.entries, Slot.field]
  have hraw : (k.slotNode s).raw = true → s.field.name ∈ rawFields := by
    cases s <;> simp [slotNode, Slot.field, Field.name, rawFields]
  cases s <;> exact FilterNode.condition_of_stated hone hraw

/-- The condition that criteria are described by, once simplified. -/
def row (k : Criteria) : Condition :=
  match k.filled with
  | [s] => .leaf (k.slotLeaf s)
  | ss => .node .and (((ss.map k.slotLeaf).map fun l => { l with grouping := .and }).map .leaf)

/-- The node that states criteria has a condition, which is a row once it is simplified: its leaves
are of different fields and in their order. -/
theorem simplify_of_node? (h : k.node? = some n) :
    ∃ c, n.condition = .ok c ∧ c.simplify = k.row := by
  have hslots : ∀ s ∈ k.filled, (k.slotNode s).condition = .ok (.leaf (k.slotLeaf s)) :=
    fun s hs => condition_slotNode (mem_filled.1 hs)
  have hrank : k.filled.Pairwise fun s t => s.field.rank < t.field.rank := by
    refine List.Pairwise.filter _ ?_
    decide
  rw [node?_eq] at h
  unfold row
  generalize k.filled = ss at h hslots hrank
  match ss, h with
  | [s], h =>
    obtain rfl := Option.some.inj h
    exact ⟨_, hslots s List.mem_cons_self, Condition.simplify_leaf _⟩
  | s :: t :: ss, h =>
    obtain rfl := Option.some.inj h
    have hconds : FilterNode.conditions ((s :: t :: ss).map k.slotNode) =
        .ok (((s :: t :: ss).map k.slotLeaf).map .leaf) := by
      rw [FilterNode.conditions_eq_ok, List.map_map, List.forall₂_map_left_iff,
        List.forall₂_map_right_iff]
      exact List.forall₂_same.2 hslots
    refine ⟨_, FilterNode.condition_all (by simp) hconds, ?_⟩
    exact Condition.simplify_leaves (by decide) (by simp) (by simp [slotLeaf])
      (List.pairwise_map.2 hrank)

/-! ### Criteria of the conditions -/

/-- What becomes of the leaf for a slot, however it is grouped. -/
theorem criteria_slotLeaf (k : Criteria) (s : Slot) (op : Operation) :
    (Condition.leaf { k.slotLeaf s with grouping := op }).criteria =
      .ok (.only (k.requoted.slot s) s) := by
  obtain ⟨l, hl⟩ : ∃ l : Leaf, l = { k.slotLeaf s with grouping := op } := ⟨_, rfl⟩
  have hfield : l.field = s.field := by rw [hl]; rfl
  have hterms : l.terms = [k.requoted.slot s] := by
    rw [hl]
    cases s <;> simp only [Leaf.terms, slotLeaf, Slot.field, slot, requoted, MailRules.requoted] <;>
      split_ifs <;> simp_all
  have htext : l.argText = .ok (k.requoted.slot s) := by
    have hlen : l.args.length = 1 := by rw [hl]; rfl
    simp [Leaf.argText, hlen, hterms]
  have hquery : s = .query → l.query = .ok (k.requoted.slot s) := by
    rintro rfl
    exact bind_eq_ok_iff.2 ⟨_, htext, by rw [hfield]; rfl⟩
  rw [← hl, Condition.criteria, Leaf.criteria_of_ok (t := k.requoted.slot s), hfield,
    Slot.slot_field]
  rw [hfield, Slot.slot_field]
  split_ifs with hs
  · exact hquery hs
  · exact htext

theorem joinTwo_empty (a : String) : joinTwo a "" = a := by
  by_cases ha : a = "" <;> simp [joinTwo, ha]

theorem empty_joinTwo (a : String) : joinTwo "" a = a := if_pos rfl

/-- Criteria of different slots do not get into each other's way. -/
theorem slot_foldl_only {ss : List Slot} (h : ss.Nodup) (t : Slot → String) (k : Criteria)
    (s : Slot) : ((ss.map fun s => only (t s) s).foldl join k).slot s =
      if s ∈ ss then joinTwo (k.slot s) (t s) else k.slot s := by
  induction ss generalizing k with
  | nil => simp
  | cons r ss ih =>
    obtain ⟨hr, hss⟩ := List.nodup_cons.1 h
    rw [List.map_cons, List.foldl_cons, ih hss, slot_join, slot_only]
    by_cases hrs : r = s
    · subst hrs
      simp [hr]
    · have hsr : ¬s = r := fun h => hrs h.symm
      simp [hrs, hsr, joinTwo_empty]

/-- The slots of criteria make up the criteria, and an empty one stays empty. -/
theorem foldl_filled (k : Criteria) :
    (k.filled.map fun s => only (k.requoted.slot s) s).foldl join {} = k.requoted := by
  have hnodup : k.filled.Nodup := List.Nodup.filter _ (by decide)
  refine ext_slot fun s => ?_
  have hnone : ({} : Criteria).slot s = "" := by cases s <;> rfl
  rw [slot_foldl_only hnodup, hnone, empty_joinTwo]
  split_ifs with hs
  · rfl
  · have hempty : k.slot s = "" := by simpa [mem_filled] using hs
    cases s <;> simp_all [slot, requoted, requoted_empty]

/-- **The criteria of the condition that describes criteria** are these, requoted. -/
theorem criteria_row (k : Criteria) : k.row.criteria = .ok k.requoted := by
  rw [← foldl_filled]
  unfold row
  split
  · rename_i s hs
    have hjoin : ({} : Criteria).join (only (k.requoted.slot s) s) = only (k.requoted.slot s) s :=
      ext_slot fun r => by
        rw [slot_join, show ({} : Criteria).slot r = "" by cases r <;> rfl, empty_joinTwo]
    rw [hs, List.map_singleton, List.foldl_cons, hjoin]
    exact criteria_slotLeaf k s .unset
  · have hall : ∀ ss : List Slot, Condition.criteriaAll
        (((ss.map k.slotLeaf).map fun l => { l with grouping := .and }).map .leaf) =
          .ok (ss.map fun s => only (k.requoted.slot s) s) := by
      intro ss
      induction ss with
      | nil => rfl
      | cons s ss ih =>
        simp only [List.map_cons, Condition.criteriaAll, ih, criteria_slotLeaf]
        rfl
    rw [Condition.criteria, hall]
    rfl

theorem split_row (k : Criteria) (limit : Int) : k.row.split limit = .ok [k.row] := by
  unfold row
  split
  · exact Condition.split_of_no_or limit (by simp [Condition.rootOperation, slotLeaf])
      (by simp)
  · refine Condition.split_of_no_or limit (by simp [Condition.rootOperation]) ?_
    rintro op cs ⟨⟩ d hd
    simp only [List.mem_map] at hd
    obtain ⟨l, ⟨k, -, rfl⟩, rfl⟩ := hd
    simp [Condition.rootOperation]

end Criteria

/-! ### Rules -/

section

variable {f : Filter} {r : RuleDecl}

theorem mainAction_of_isEmpty {as : Actions} (h : as.isEmpty = true) : as.mainAction = {} := by
  simp [Actions.mainAction, Actions.isEmpty_iff.1 h]

/-- The actions that ask for an action have it as their only one, and ask for nothing only if it
does nothing. -/
theorem of_actions? {a : Action} {as : Actions} (h : a.actions? = some as) :
    as.filterActions = .ok [a] ∧ (a.isEmpty = false → as.isEmpty = false) := by
  have hmarks : ¬(a.markImportant && a.markNotImportant) = true := by
    intro hmarks
    simp [Action.actions?, hmarks] at h
  have has := Option.some.inj ((if_neg hmarks).symm.trans h)
  have hmain : as.mainAction = a := by
    obtain ⟨label, category, ar, del, mi, mni, rd, ns, st, fw⟩ := a
    rw [← has]
    have hlabel : (if label = "" then [] else [label]).headD "" = label := by
      split_ifs with hl <;> simp [hl]
    have hfw : (if fw = "" then none else some fw).getD "" = fw := by
      split_ifs with hf <;> simp [hf]
    cases mi <;> cases mni <;> cases ns <;>
      simp_all [Actions.mainAction, -List.headD_eq_head?_getD]
  have hspam : as.markSpam ≠ some true := by
    rw [← has]
    cases a.markNotSpam <;> simp
  have hrest : as.labels.drop 1 = [] := by
    rw [← has]
    split_ifs <;> rfl
  refine ⟨by rw [Actions.filterActions, if_neg hspam, hmain, hrest]; rfl, fun hne => ?_⟩
  refine Bool.eq_false_iff.2 fun hempty => ?_
  rw [← hmain, mainAction_of_isEmpty hempty] at hne
  cases hne

theorem of_rule (h : f.rule = .ok r) :
    f.criteria.node? = some r.filter ∧ f.action.actions? = some r.actions := by
  unfold Filter.rule at h
  split at h
  · cases h
  · split at h
    · cases h
    · obtain rfl := Except.ok.inj h
      exact ⟨‹_›, ‹_›⟩

/-- **The rule that describes a filter compiles to the filter**, requoted, whatever the limit. -/
theorem filters_of_rule (h : f.rule = .ok r) (ha : f.action.isEmpty = false) :
    ∃ rule : Rule, r.read = .ok rule ∧ ∀ limit, rule.filters limit = .ok [f.requoted] := by
  obtain ⟨hnode, hactions⟩ := of_rule h
  obtain ⟨c, hc, hrow⟩ := Criteria.simplify_of_node? hnode
  obtain ⟨hacts, hne⟩ := of_actions? hactions
  refine ⟨⟨c.simplify, r.actions⟩, ?_, fun limit => ?_⟩
  · simp [RuleDecl.read, hc, hne ha]
  · have hcrit : Condition.criteriaAll [f.criteria.row] = .ok [f.criteria.requoted] := by
      simp only [Condition.criteriaAll, Criteria.criteria_row]
      rfl
    simp only [Rule.filters, hrow, Criteria.split_row, hcrit, hacts]
    rfl

theorem of_rulesFrom {i : Nat} {fs : List Filter} {rs : List RuleDecl}
    (h : rulesFrom i fs = .ok rs) : List.Forall₂ (fun (f : Filter) r => f.rule = .ok r) fs rs := by
  induction fs generalizing i rs with
  | nil => obtain rfl := Except.ok.inj h; exact .nil
  | cons f fs ih =>
    simp only [rulesFrom] at h
    split at h
    · cases h
    · split at h
      · cases h
      · obtain rfl := Except.ok.inj h
        exact .cons ‹_› (ih ‹_›)

end

/-! ### Configs -/

/-- A label as it is declared. -/
def Label.withoutId (l : Label) : Label := { l with id := "" }

theorem exists_rules {fs : List Filter} {rs : List RuleDecl}
    (h : List.Forall₂ (fun (f : Filter) r => f.rule = .ok r) fs rs)
    (hne : ∀ f ∈ fs, f.action.isEmpty = false) :
    ∃ rules : List Rule, List.Forall₂ (fun r rule => r.read = .ok rule) rs rules ∧
      ∀ limit, List.Forall₂ (fun (r : Rule) b => r.filters limit = .ok b) rules
        (fs.map fun f => [f.requoted]) := by
  induction h with
  | nil => exact ⟨[], .nil, fun _ => .nil⟩
  | cons hr _ ih =>
    obtain ⟨rule, hread, hfilters⟩ := filters_of_rule hr (hne _ List.mem_cons_self)
    obtain ⟨rules, hreads, hblocks⟩ := ih fun f hf => hne f (List.mem_cons_of_mem _ hf)
    exact ⟨rule :: rules, .cons hread hreads, fun limit => .cons (hfilters limit) (hblocks limit)⟩

/-- **A described account compiles** to its labels without their ids and its filters, requoted. -/
theorem describe_compile {labels : List Label} {fs : List Filter} {c : Config}
    (hne : ∀ f ∈ fs, f.action.isEmpty = false)
    (h : MailConfig.describe { labels, filters := fs } = .ok c) (limit : Int) :
    c.compile limit =
      .ok { labels := labels.map Label.withoutId, filters := fs.map Filter.requoted } := by
  unfold MailConfig.describe at h
  split at h
  · cases h
  · obtain rfl := Except.ok.inj h
    obtain ⟨rules, hread, hfilters⟩ := exists_rules (of_rulesFrom ‹_›) hne
    have hflat : (fs.map fun f => [f.requoted]).flatten = fs.map Filter.requoted := by
      rw [← List.flatMap_def, ← List.map_eq_flatMap]
    have hlabels : (labels.map Label.declaration).map Label.ofDecl = labels.map Label.withoutId := by
      rw [List.map_map]
      rfl
    simp only [Config.compile, readRules, readRulesFrom_eq_ok hread, filtersOfRules,
      filtersOfRulesFrom_eq_ok (hfilters limit), hflat, hlabels]

/-! ### The difference after a download -/

theorem byName_map_withoutId (ls : List Label) :
    byName (ls.map Label.withoutId) = (byName ls).map Label.withoutId := by
  unfold byName
  refine (List.map_mergeSort ?_).symm
  exact fun l _ m _ => rfl

/-- Labels are as they are declared when they are declared as they are. -/
theorem mergeLabels_withoutId (ls : List Label) :
    mergeLabels ls (ls.map Label.withoutId) = {} := by
  induction ls with
  | nil => rw [List.map_nil, mergeLabels]
  | cons l ls ih =>
    have hsat : l.satisfies l.withoutId = true := by simp [Label.satisfies, Label.withoutId]
    have hlt : ¬l.name < l.withoutId.name ∧ ¬l.withoutId.name < l.name :=
      ⟨lt_irrefl l.name, lt_irrefl l.name⟩
    rw [List.map_cons, mergeLabels, if_neg hlt.1, if_neg hlt.2, ih, if_pos hsat]

theorem sameAll_map {g : Filter → Filter} {fs : List Filter} :
    Filter.sameAll (fs.map g) fs = true ↔ ∀ f ∈ fs, (g f).same f = true := by
  induction fs with
  | nil => simp [Filter.sameAll]
  | cons f fs ih => simp [Filter.sameAll, ih]

/-- Where all texts survive, nothing is to be done for a described account. -/
theorem diff_described {labels : List Label} {fs : List Filter}
    (h : ∀ f ∈ fs, f.criteria.Survives) :
    (diff { labels := labels.map Label.withoutId, filters := fs.map Filter.requoted }
      { labels, filters := fs }).isEmpty = true := by
  have hfilters : (diffFilters fs (fs.map Filter.requoted)).isEmpty = true := by
    refine diffFilters_isEmpty (fun g hg => ?_) fun f hf => ?_
    · obtain ⟨f, hf, rfl⟩ := List.mem_map.1 hg
      exact ⟨f, hf, Filter.requoted_same_iff.2 (h f hf)⟩
    · exact ⟨_, List.mem_map_of_mem hf,
        Filter.same_symm (Filter.requoted_same_iff.2 (h f hf))⟩
  have hlabels : diffLabels labels (labels.map Label.withoutId) = {} := by
    rw [diffLabels, byName_map_withoutId, mergeLabels_withoutId]
  simp only [Plan.isEmpty, diff, hfilters, hlabels, ite_self, Bool.true_and]
  rfl

/-- Imported filters do something. -/
theorem action_of_importAll {m : LabelMap} {rs : List RemoteFilter} {fs : List Filter}
    (h : importAll m rs = .ok fs) : ∀ f ∈ fs, f.action.isEmpty = false := by
  simp only [importAll] at h
  split_ifs at h
  obtain rfl := Except.ok.inj h
  intro f hf
  obtain ⟨r, -, hr⟩ := mem_importable.1 hf
  obtain ⟨-, -, -, -, -, hne⟩ := action_imported_eq_ok_iff.1 (imported_eq_ok_iff.1 hr).1
  exact hne

/-- **What a download comes to.**  The config that describes an account compiles, for any limit, to
the labels without their ids and the imported filters in their order, except that the texts are
quoted that describing does not notice and compiling wants quoted.  The filters are the same exactly
if there are no such texts, and then nothing is to be done for the account. -/
theorem describe_compile_requoted {m : LabelMap} {rs : List RemoteFilter} {labels : List Label}
    {fs : List Filter} {c : Config} (himport : importAll m rs = .ok fs)
    (h : MailConfig.describe { labels, filters := fs } = .ok c) (limit : Int) :
    c.compile limit =
        .ok { labels := labels.map Label.withoutId, filters := fs.map Filter.requoted } ∧
      (Filter.sameAll (fs.map Filter.requoted) fs = true ↔ ∀ f ∈ fs, f.criteria.Survives) ∧
      ((∀ f ∈ fs, f.criteria.Survives) →
        (diff { labels := labels.map Label.withoutId, filters := fs.map Filter.requoted }
          { labels, filters := fs }).isEmpty = true) := by
  refine ⟨describe_compile (action_of_importAll himport) h limit, ?_, diff_described⟩
  rw [sameAll_map]
  exact forall₂_congr fun f _ => Filter.requoted_same_iff

/-- A stored filter whose sender is given in braces, as a filter on any of several terms has it. -/
def bracedSender : RemoteFilter where
  id := some "1"
  criteria := { sender := some "\x7ba\x7d" }
  action := { removeLabelIds := ["INBOX"] }

theorem importAll_bracedSender : importAll (.ofLabels []) [bracedSender] = .ok [{
    criteria := { sender := "\x7ba\x7d" }, action := { archive := true }, id := "1" }] := rfl

/-- The braces are quoted on the way, which makes them part of a term. -/
theorem describe_compile_requoted_braced :
    ∃ fs c, importAll (.ofLabels []) [bracedSender] = .ok fs ∧
      MailConfig.describe { filters := fs } = .ok c ∧
      c.compile defaultSizeLimit = .ok { filters := fs.map Filter.requoted } ∧
      fs.map (fun f => f.requoted.criteria.sender) = ["\"\x7ba\x7d\""] :=
  ⟨_, _, importAll_bracedSender, rfl,
    (describe_compile_requoted importAll_bracedSender rfl defaultSizeLimit).1, rfl⟩

/-- A download need not be faithful: braces around a sender that is otherwise plain are quoted. -/
theorem bracedSender_not_kept :
    ¬∀ (m : LabelMap) (rs : List RemoteFilter) (labels : List Label) (fs : List Filter) (c : Config)
      (limit : Int), importAll m rs = .ok fs →
      MailConfig.describe { labels, filters := fs } = .ok c →
      ∃ d, c.compile limit = .ok d ∧ Filter.sameAll d.filters fs = true ∧
        d.labels = labels.map Label.withoutId := by
  intro h
  obtain ⟨d, hd, hsame, -⟩ := h _ _ [] _ _ defaultSizeLimit importAll_bracedSender rfl
  rw [describe_compile (action_of_importAll importAll_bracedSender) rfl] at hd
  obtain rfl := Except.ok.inj hd
  rw [sameAll_map] at hsame
  have hsurvives := Filter.requoted_same_iff.1 (hsame _ List.mem_cons_self)
  exact absurd (hsurvives "\x7ba\x7d" List.mem_cons_self) (by decide)

end MailRules
