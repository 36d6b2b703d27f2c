import MailRules.Compile
import MailRules.Proofs.Condition.OfNode
import MailRules.Proofs.Condition.Ranked
import MailRules.Proofs.Condition.Simplify
import MailRules.Proofs.Condition.Split

/-!
# Compiled filters do what the rules say

A compiled config is, rule by rule, the product of criteria and actions.  The criteria are those of
pieces one of which holds exactly when the written filter node does, and the actions together have
exactly the effects that the rule declares.

* `Effect` is one thing that is done with a message; `Action.Does` and `Actions.Declares` say who
  asks for it, and `does_filterActions` that nothing is lost or added in between.
* `of_read`, `of_filters`, `of_readRulesFrom` and `of_filtersOfRulesFrom` take a successful
  compilation apart.
* `compile_implements` is compiler correctness.
-/

namespace MailRules

/-! ### Effects -/

/-- One thing that is done with a message. -/
inductive Effect where
  /-- It is given a label. -/
  | label (name : String)
  /-- It goes to an inbox tab. -/
  | category (c : Category)
  /-- It is forwarded. -/
  | forward (address : String)
  /-- A flag of it is set or taken away. -/
  | archive | delete | important | notImportant | read | notSpam | star
  deriving DecidableEq

/-- What the action of a filter does. -/
def Action.Does (a : Action) : Effect → Prop
  | .label name => a.addLabel = name ∧ name ≠ ""
  | .category c => a.category = some c
  | .forward address => a.forward = address ∧ address ≠ ""
  | .archive => a.archive
  | .delete => a.delete
  | .important => a.markImportant
  | .notImportant => a.markNotImportant
  | .read => a.markRead
  | .notSpam => a.markNotSpam
  | .star => a.star

/-- What a rule asks for. -/
def Actions.Declares (a : Actions) : Effect → Prop
  | .label name => name ∈ a.labels ∧ name ≠ ""
  | .category c => a.category = some c
  | .forward address => a.forward = some address ∧ address ≠ ""
  | .archive => a.archive
  | .delete => a.delete
  | .important => a.markImportant = some true
  | .notImportant => a.markImportant = some false
  | .read => a.markRead
  | .notSpam => a.markSpam = some false
  | .star => a.star

/-- An action that applies a label and does nothing else. -/
theorem does_addLabel {name : String} {e : Effect} :
    ({ addLabel := name } : Action).Does e ↔ e = .label name ∧ name ≠ "" := by
  cases e with
  | label n =>
    simp only [Action.Does, Effect.label.injEq]
    constructor
    · rintro ⟨rfl, h⟩; exact ⟨rfl, h⟩
    · rintro ⟨rfl, h⟩; exact ⟨rfl, h⟩
  | forward s => simp [Action.Does, eq_comm]
  | _ => simp [Action.Does]

/-- **The actions of a rule together do what the rule declares**, and nothing else. -/
theorem does_filterActions {a : Actions} {acts : List Action} (h : a.filterActions = .ok acts)
    (e : Effect) : (∃ x ∈ acts, x.Does e) ↔ a.Declares e := by
  unfold Actions.filterActions at h
  split_ifs at h
  obtain rfl := Except.ok.inj h
  have hrest : (∃ x ∈ (a.labels.drop 1).map fun l => ({ addLabel := l } : Action), x.Does e) ↔
      ∃ l ∈ a.labels.drop 1, e = .label l ∧ l ≠ "" := by
    simp only [List.mem_map, exists_exists_and_eq_and, does_addLabel]
  rw [List.exists_mem_cons_iff, hrest]
  cases e with
  | label name =>
    simp only [Action.Does, Actions.Declares, Actions.mainAction, Effect.label.injEq]
    cases a.labels with
    | nil =>
      constructor
      · rintro (⟨rfl, h⟩ | ⟨l, hl, -⟩)
        · exact absurd rfl h
        · cases hl
      · rintro ⟨hl, -⟩
        cases hl
    | cons l ls =>
      simp only [List.headD_cons, List.drop_one, List.tail_cons, List.mem_cons]
      constructor
      · rintro (⟨rfl, h⟩ | ⟨l', hl', rfl, h⟩)
        · exact ⟨.inl rfl, h⟩
        · exact ⟨.inr hl', h⟩
      · rintro ⟨rfl | hname, h⟩
        · exact .inl ⟨rfl, h⟩
        · exact .inr ⟨name, hname, rfl, h⟩
  | forward s =>
    cases hf : a.forward with
    | none => simp +contextual [Action.Does, Actions.Declares, Actions.mainAction, hf, eq_comm]
    | some t => simp [Action.Does, Actions.Declares, Actions.mainAction, hf]
  | _ => simp [Action.Does, Actions.Declares, Actions.mainAction]

/-- A rule asks for nothing if nothing is set. -/
theorem Actions.isEmpty_iff {a : Actions} : a.isEmpty = true ↔ a.archive = false ∧
    a.delete = false ∧ a.markRead = false ∧ a.star = false ∧ a.markSpam = none ∧
    a.markImportant = none ∧ a.category = none ∧ a.labels = [] ∧ a.forward.getD "" = "" := by
  simp [Actions.isEmpty, and_assoc]

/-! ### Successful compilations -/

theorem of_read {r : RuleDecl} {rule : Rule} (h : r.read = .ok rule) :
    ∃ c, r.filter.condition = .ok c ∧ rule = ⟨c.simplify, r.actions⟩ := by
  unfold RuleDecl.read at h
  split at h
  · cases h
  · split_ifs at h
    exact ⟨_, ‹_›, (Except.ok.inj h).symm⟩

theorem of_readRulesFrom {i : Nat} {rs : List RuleDecl} {rules : List Rule}
    (h : readRulesFrom i rs = .ok rules) :
    List.Forall₂ (fun r rule => r.read = .ok rule) rs rules := by
  induction rs generalizing i rules with
  | nil => obtain rfl := Except.ok.inj h; exact .nil
  | cons r rs ih =>
    simp only [readRulesFrom] at h
    split at h
    · cases h
    · split at h
      · cases h
      · obtain rfl := Except.ok.inj h
        exact .cons ‹_› (ih ‹_›)

/-- Rules that can be read one by one can be read together. -/
theorem readRulesFrom_eq_ok {i : Nat} {rs : List RuleDecl} {rules : List Rule}
    (h : List.Forall₂ (fun r rule => r.read = .ok rule) rs rules) :
    readRulesFrom i rs = .ok rules := by
  induction h generalizing i with
  | nil => rfl
  | cons hr _ ih => simp only [readRulesFrom, hr, ih]

theorem of_filtersOfRulesFrom {limit : Int} {i : Nat} {rules : List Rule} {fs : List Filter}
    (h : filtersOfRulesFrom limit i rules = .ok fs) :
    ∃ blocks, List.Forall₂ (fun (r : Rule) b => r.filters limit = .ok b) rules blocks ∧
      fs = blocks.flatten := by
  induction rules generalizing i fs with
  | nil => obtain rfl := Except.ok.inj h; exact ⟨[], .nil, rfl⟩
  | cons r rules ih =>
    simp only [filtersOfRulesFrom] at h
    split at h
    · cases h
    · cases h
    · split at h
      · cases h
      · obtain rfl := Except.ok.inj h
        obtain ⟨blocks, hblocks, rfl⟩ := ih ‹_›
        exact ⟨_ :: blocks, .cons ‹_› hblocks, rfl⟩

/-- Rules that have filters one by one have these together, one block after the other. -/
theorem filtersOfRulesFrom_eq_ok {limit : Int} {i : Nat} {rules : List Rule}
    {blocks : List (List Filter)}
    (h : List.Forall₂ (fun (r : Rule) b => r.filters limit = .ok b) rules blocks) :
    filtersOfRulesFrom limit i rules = .ok blocks.flatten := by
  induction h generalizing i with
  | nil => rfl
  | cons hr _ ih => simp only [filtersOfRulesFrom, hr, ih, List.flatten_cons]

theorem Condition.criteriaAll_eq_ok {cs : List Condition} {crits : List Criteria} :
    criteriaAll cs = .ok crits ↔ List.Forall₂ (fun c k => c.criteria = .ok k) cs crits := by
  induction cs generalizing crits with
  | nil => simp [criteriaAll, eq_comm]
  | cons c cs ih =>
    simp only [criteriaAll, bind_eq_ok_iff, pure_eq_ok_iff, ih, List.forall₂_cons_left_iff]
    constructor
    · rintro ⟨k, hk, ks, hks, rfl⟩; exact ⟨k, ks, hk, hks, rfl⟩
    · rintro ⟨k, ks, hk, hks, rfl⟩; exact ⟨k, hk, ks, hks, rfl⟩

/-- Every one of some criteria with every one of some actions. -/
def combinations (crits : List Criteria) (acts : List Action) : List Filter :=
  crits.flatMap fun c => acts.map fun a => { criteria := c, action := a }

theorem of_filters {limit : Int} {r : Rule} {fs : List Filter} (h : r.filters limit = .ok fs) :
    ∃ pieces crits acts, r.condition.split limit = .ok pieces ∧
      List.Forall₂ (fun c k => c.criteria = .ok k) pieces crits ∧
      r.actions.filterActions = .ok acts ∧ fs = combinations crits acts := by
  unfold Rule.filters at h
  split at h
  · cases h
  · split at h
    · cases h
    · split at h
      · cases h
      · exact ⟨_, _, _, ‹_›, Condition.criteriaAll_eq_ok.1 ‹_›, ‹_›, (Except.ok.inj h).symm⟩

/-! ### Compiler correctness -/

/-- Some filters do what a rule says.  They are the combinations of the criteria of some pieces
with some actions; one of the pieces holds exactly when the written node does, and the actions
together do exactly what is declared. -/
def RuleDecl.ImplementedBy (limit : Int) (r : RuleDecl) (fs : List Filter) : Prop :=
  ∃ condition pieces crits acts,
    r.filter.condition = .ok condition ∧ condition.simplify.split limit = .ok pieces ∧
    (∀ v, r.filter.holds v = true ↔ ∃ p ∈ pieces, p.holds v = true) ∧
    List.Forall₂ (fun p k => p.criteria = .ok k) pieces crits ∧
    r.actions.filterActions = .ok acts ∧ (∀ e, (∃ a ∈ acts, a.Does e) ↔ r.actions.Declares e) ∧
    fs = combinations crits acts

theorem implementedBy_of_filters {limit : Int} (hl : 1 ≤ limit) {r : RuleDecl} {rule : Rule}
    {fs : List Filter} (hr : r.read = .ok rule) (hf : rule.filters limit = .ok fs) :
    r.ImplementedBy limit fs := by
  obtain ⟨c, hc, rfl⟩ := of_read hr
  obtain ⟨pieces, crits, acts, hp, hk, ha, rfl⟩ := of_filters hf
  refine ⟨c, pieces, crits, acts, hc, hp, fun v => ?_, hk, ha, does_filterActions ha, rfl⟩
  rw [Condition.split_eq_ok hl] at hp
  obtain rfl := Except.ok.inj hp
  rw [← List.any_eq_true, Condition.any_pieces hl,
    Condition.holds_simplified (FilterNode.meaningful_of_condition hc),
    FilterNode.holds_of_condition v hc]

theorem implementedBy_of_rules {limit : Int} (hl : 1 ≤ limit) {rs : List RuleDecl}
    {rules : List Rule} {blocks : List (List Filter)}
    (hr : List.Forall₂ (fun r rule => r.read = .ok rule) rs rules)
    (hf : List.Forall₂ (fun (r : Rule) b => r.filters limit = .ok b) rules blocks) :
    List.Forall₂ (RuleDecl.ImplementedBy limit) rs blocks :=
  (forall₂_trans hr hf).imp fun _ _ ⟨_, hread, hfs⟩ => implementedBy_of_filters hl hread hfs

/-- **Compiler correctness.**  The filters of a compiled config are those of its rules one after
the other, and the filters of each rule do what the rule says. -/
theorem compile_implements {c : Config} {limit : Int} {m : MailConfig} (hl : 1 ≤ limit)
    (h : c.compile limit = .ok m) :
    ∃ blocks, List.Forall₂ (RuleDecl.ImplementedBy limit) c.rules blocks ∧
      m.filters = blocks.flatten := by
  unfold Config.compile at h
  split at h
  · cases h
  · split at h
    · cases h
    · obtain rfl := Except.ok.inj h
      obtain ⟨blocks, hb, hfs⟩ := of_filtersOfRulesFrom ‹filtersOfRules limit _ = _›
      exact ⟨blocks, implementedBy_of_rules hl (of_readRulesFrom ‹readRules c = _›) hb, hfs⟩

/-- A rule on three senders and against a subject, with two labels. -/
def threeSenders : Config where
  rules := [{
    filter := { all := some [
      { any := some [{ fields := { sender := some "a" } }, { fields := { sender := some "b" } },
        { fields := { sender := some "c" } }] },
      { negated := some { fields := { subject := some "x y" } } }] }
    actions := { star := true, labels := ["work", "home"] } }]

/-- The senders become one leaf, which stands before the negation. -/
theorem readRules_threeSenders : readRules threeSenders = .ok [{
    condition := .node .and [
      .leaf { field := .sender, grouping := .or, args := ["a", "b", "c"] },
      .node .not [.leaf { field := .subject, args := ["x y"] }]]
    actions := { star := true, labels := ["work", "home"] } }] := by
  change Except.ok [Rule.mk (Condition.arrange (.node .and [
    .leaf { field := .sender, grouping := .or, args := ["a", "b", "c"] },
    .node .not [.leaf { field := .subject, args := ["x y"] }]])) _] = _
  simp only [Condition.arrange_eq_insertionSort, List.map_cons, List.map_nil]
  rfl

/-- For filters of at most five arguments and nodes, the rule takes two pieces and two actions. -/
theorem compile_threeSenders :
    threeSenders.compile 5 = .ok { filters := [
      { criteria := { sender := "\x7ba b\x7d", query := "-subject:\"x y\"" },
        action := { addLabel := "work", star := true } },
      { criteria := { sender := "\x7ba b\x7d", query := "-subject:\"x y\"" },
        action := { addLabel := "home" } },
      { criteria := { sender := "c", query := "-subject:\"x y\"" },
        action := { addLabel := "work", star := true } },
      { criteria := { sender := "c", query := "-subject:\"x y\"" },
        action := { addLabel := "home" } }] } := by
  rw [Config.compile, readRules_threeSenders]
  with_unfolding_all rfl

theorem threeSenders_implemented :
    1 ≤ (5 : Int) ∧ ∃ m, threeSenders.compile 5 = .ok m ∧
      ∃ blocks, List.Forall₂ (RuleDecl.ImplementedBy 5) threeSenders.rules blocks ∧
        m.filters = blocks.flatten :=
  ⟨by decide, _, compile_threeSenders, compile_implements (by decide) compile_threeSenders⟩

end MailRules
