import MailRules.Dump
import MailRules.Proofs.Compile
import MailRules.Proofs.Condition.Expressible

/-!
# Why configs do not compile

A config does not compile for two reasons only.  Rules that cannot be read are reported first, and
then rules that send messages to spam; in both cases it is the first such rule.

* A node has a condition exactly if all nodes that it is made of are well-formed
  (`FilterNode.exists_condition_iff`).
* `RuleDecl.read_cases` and `filters_of_read` say what becomes of a rule in the two steps of the
  compiler.  A rule that was read always has criteria, so that nothing but its actions is refused in
  the second step.
* `Config.RefusedFor` are the errors of a config, and `compile_refuses` says that these are the
  errors of the compiler.  `of_compile` and `mem_compiled_iff` are about configs without errors.
-/

namespace MailRules

/-! ### Malformed nodes -/

namespace FilterNode

theorem exists_conditions {ns : List FilterNode} (h : ∀ n ∈ ns, ∃ c, n.condition = .ok c) :
    ∃ cs, conditions ns = .ok cs := by
  obtain ⟨cs, hcs⟩ := exists_forall₂_iff.2 h
  exact ⟨cs, conditions_eq_ok.2 hcs⟩

/-- All nodes that a node with a condition is made of are well-formed. -/
theorem every_of_condition {n : FilterNode} {c : Condition} (h : n.condition = .ok c) :
    n.Every WellFormed := by
  induction n using induct generalizing c with
  | node n ihall ihany ihneg =>
    have hroot : n.WellFormed := check_eq_ok_iff.1 (check_of_condition h)
    have hmembers : ∀ {ns cs}, conditions ns = .ok cs →
        (∀ m ∈ ns, ∀ {d}, m.condition = .ok d → m.Every WellFormed) →
        ∀ m ∈ ns, m.Every WellFormed := by
      intro ns cs hcs ih m hm
      obtain ⟨d, -, hd⟩ := (exists_mem_of_forall₂ (conditions_eq_ok.1 hcs)).1 m hm
      exact ih m hm hd
    rcases of_condition h with ⟨cs, hcs, hb, hneg, -, -⟩ | ⟨cs, ha, -, hcs, hneg, -, -⟩ |
      ⟨m, d, ha, hb, hm, hd, -, -⟩ | ⟨p, ha, hb, hneg, -, -⟩
    · exact .mk hroot (hmembers hcs ihall) (by simp [hb]) (by simp [hneg])
    · exact .mk hroot (by simp [ha]) (hmembers hcs ihany) (by simp [hneg])
    · refine .mk hroot (by simp [ha]) (by simp [hb]) fun m' hm' => ?_
      obtain rfl := Option.some.inj (hm.symm.trans hm')
      exact ihneg m hm hd
    · exact .mk hroot (by simp [ha]) (by simp [hb]) (by simp [hneg])

theorem exists_condition_of_every {n : FilterNode} (h : n.Every WellFormed) :
    ∃ c, n.condition = .ok c := by
  induction h with
  | @mk n hroot _ _ _ ihall ihany ihneg =>
    obtain ⟨cs, hcs⟩ := exists_conditions ihall
    obtain ⟨ds, hds⟩ := exists_conditions ihany
    rw [condition_eq, check_eq_ok_iff.2 hroot]
    simp only [bind, Except.bind]
    split_ifs
    · exact ⟨.node .and cs, by rw [hcs]; rfl⟩
    · exact ⟨.node .or ds, by rw [hds]; rfl⟩
    · cases hneg : n.negated with
      | none => exact ⟨n.leaf, rfl⟩
      | some m =>
        obtain ⟨d, hd⟩ := ihneg m hneg
        exact ⟨.node .not [d], by simp only [hd]; rfl⟩

/-- **A node has a condition if all nodes that it is made of are well-formed**, and only then. -/
theorem exists_condition_iff {n : FilterNode} :
    (∃ c, n.condition = .ok c) ↔ n.Every WellFormed :=
  ⟨fun ⟨_, h⟩ => every_of_condition h, exists_condition_of_every⟩

end FilterNode

/-! ### Reading rules -/

/-- A rule that cannot be read: a node of its filter is malformed, or it asks for nothing. -/
def RuleDecl.Unreadable (r : RuleDecl) : Prop :=
  ¬r.filter.Every FilterNode.WellFormed ∨ r.actions.isEmpty = true

/-- What becomes of a rule that is read.  Malformed filters come before empty actions. -/
theorem RuleDecl.read_cases (r : RuleDecl) :
    (∃ rule, r.read = .ok rule ∧ ¬r.Unreadable) ∨
    (∃ e, r.filter.condition = .error e ∧ ¬r.filter.Every FilterNode.WellFormed ∧
      r.read = .error (.malformed e)) ∨
    (r.filter.Every FilterNode.WellFormed ∧ r.actions.isEmpty = true ∧
      r.read = .error .emptyActions) := by
  unfold RuleDecl.read Unreadable
  rw [← FilterNode.exists_condition_iff]
  cases hc : r.filter.condition with
  | error e => exact .inr (.inl ⟨e, rfl, by simp, rfl⟩)
  | ok c =>
    cases he : r.actions.isEmpty with
    | true => exact .inr (.inr ⟨⟨c, rfl⟩, rfl, rfl⟩)
    | false => exact .inl ⟨_, rfl, by simp⟩

theorem RuleDecl.exists_read_iff {r : RuleDecl} : (∃ rule, r.read = .ok rule) ↔ ¬r.Unreadable := by
  rcases r.read_cases with ⟨rule, hok, hr⟩ | ⟨e, -, hnode, herr⟩ | ⟨-, hempty, herr⟩
  · exact ⟨fun _ => hr, fun _ => ⟨rule, hok⟩⟩
  · exact ⟨fun ⟨_, hok⟩ => (nomatch herr.symm.trans hok), fun h => absurd (.inl hnode) h⟩
  · exact ⟨fun ⟨_, hok⟩ => (nomatch herr.symm.trans hok), fun h => absurd (.inr hempty) h⟩

/-! ### Filters of rules that were read -/

theorem filterActions_error_iff {a : Actions} {f : RuleFault} :
    a.filterActions = .error f ↔ a.markSpam = some true ∧ f = .toSpam := by
  unfold Actions.filterActions
  split_ifs with hspam <;> simp [hspam, eq_comm]

theorem exists_filterActions_iff {a : Actions} :
    (∃ acts, a.filterActions = .ok acts) ↔ a.markSpam ≠ some true := by
  unfold Actions.filterActions
  split_ifs with hspam <;> simp [hspam]

/-- **A rule that was read has criteria for each of its pieces**, at least one and none of them
empty, so that its filters depend on its actions only. -/
theorem filters_of_read {limit : Int} (hl : 1 ≤ limit) {r : RuleDecl} {rule : Rule}
    (h : r.read = .ok rule) :
    ∃ c crits, r.filter.condition = .ok c ∧
      List.Forall₂ (fun p k => p.criteria = .ok k) (c.simplify.pieces limit) crits ∧
      crits ≠ [] ∧ (∀ k ∈ crits, k.isEmpty = false) ∧
      rule.filters limit =
        (r.actions.filterActions.map (combinations crits)).mapError FilterFault.rule := by
  obtain ⟨c, hc, rfl⟩ := of_read h
  have hexp := FilterNode.expressible_simplify hc
  have hpieces : ∀ p ∈ c.simplify.pieces limit, p.Everywhere Condition.Expressible :=
    Condition.everywhere_pieces Condition.divisible_expressible hexp
  obtain ⟨crits, hcrits, hlen, hne⟩ := Condition.criteriaAll_ok fun p hp =>
    Condition.criteria_ok (hpieces p hp)
  have hsome := Condition.pieces_ne_nil hl (hexp.imp fun _ hd => hd.filled)
  refine ⟨c, crits, hc, Condition.criteriaAll_eq_ok.1 hcrits, ?_, hne, ?_⟩
  · rintro rfl
    exact hsome (List.length_eq_zero_iff.1 hlen.symm)
  · simp only [Rule.filters, Condition.split_eq_ok hl, hcrits]
    cases r.actions.filterActions <;> rfl

/-- Only messages to spam are refused once a rule was read. -/
theorem filters_error_iff {limit : Int} (hl : 1 ≤ limit) {r : RuleDecl} {rule : Rule}
    (h : r.read = .ok rule) {f : FilterFault} :
    rule.filters limit = .error f ↔ r.actions.markSpam = some true ∧ f = .rule .toSpam := by
  obtain ⟨c, crits, -, -, -, -, hf⟩ := filters_of_read hl h
  rw [hf]
  cases ha : r.actions.filterActions with
  | error g =>
    obtain ⟨hspam, rfl⟩ := filterActions_error_iff.1 ha
    simp [Except.map, Except.mapError, hspam, eq_comm]
  | ok acts =>
    have hspam := exists_filterActions_iff.1 ⟨acts, ha⟩
    simp [Except.map, Except.mapError, hspam]

/-! ### The first of some rules -/

/-- The first element with a property, and its position. -/
def FirstAt {α : Type} (p : α → Prop) (xs : List α) (i : Nat) (x : α) : Prop :=
  xs[i]? = some x ∧ p x ∧ ∀ y ∈ xs.take i, ¬p y

namespace FirstAt

variable {α : Type} {p : α → Prop} {xs : List α} {i j : Nat} {x y : α}

theorem head (h : p x) : FirstAt p (x :: xs) 0 x := ⟨rfl, h, by simp⟩

theorem tail (hy : ¬p y) (h : FirstAt p xs i x) : FirstAt p (y :: xs) (i + 1) x :=
  ⟨by simpa using h.1, h.2.1, by simpa using ⟨hy, h.2.2⟩⟩

theorem mem (h : FirstAt p xs i x) : x ∈ xs := List.mem_of_getElem? h.1

/-- Nothing with the property comes before the first. -/
theorem le (h : FirstAt p xs i x) (hj : xs[j]? = some y) (hy : p y) : i ≤ j := by
  by_contra hlt
  refine h.2.2 y (List.mem_of_getElem? (i := j) ?_) hy
  rw [List.getElem?_take_of_lt (by omega), hj]

theorem unique (hx : FirstAt p xs i x) (hy : FirstAt p xs j y) : i = j ∧ x = y := by
  have hij : i = j := Nat.le_antisymm (hx.le hy.1 hy.2.1) (hy.le hx.1 hx.2.1)
  exact ⟨hij, Option.some.inj (hx.1.symm.trans (hij ▸ hy.1))⟩

end FirstAt

theorem of_readRulesFrom_error {i : Nat} {rs : List RuleDecl} {x : RuleError}
    (h : readRulesFrom i rs = .error x) :
    ∃ k r, FirstAt RuleDecl.Unreadable rs k r ∧ r.read = .error x.fault ∧ x.index = i + k ∧
      x.declaration = some r := by
  induction rs generalizing i with
  | nil => cases h
  | cons r rs ih =>
    simp only [readRulesFrom] at h
    split at h
    · rename_i fault hr
      obtain rfl := Except.error.inj h
      refine ⟨0, r, .head (by_contra fun hread => ?_), hr, rfl, rfl⟩
      obtain ⟨rule, hok⟩ := RuleDecl.exists_read_iff.2 hread
      rw [hr] at hok
      cases hok
    · rename_i rule hr
      split at h
      · rename_i e hrs
        obtain rfl := Except.error.inj h
        obtain ⟨k, s, hfirst, hs, hindex, hdecl⟩ := ih hrs
        exact ⟨k + 1, s, hfirst.tail (RuleDecl.exists_read_iff.1 ⟨rule, hr⟩), hs, by omega, hdecl⟩
      · cases h

theorem of_filtersOfRulesFrom_error {limit : Int} (hl : 1 ≤ limit) {i : Nat} {rs : List RuleDecl}
    {rules : List Rule} {e : CompileError}
    (hr : List.Forall₂ (fun r rule => r.read = .ok rule) rs rules)
    (h : filtersOfRulesFrom limit i rules = .error e) :
    ∃ k r, FirstAt (fun r : RuleDecl => r.actions.markSpam = some true) rs k r ∧
      e = .rule { index := i + k, fault := .toSpam } := by
  induction hr generalizing i with
  | nil => cases h
  | @cons r rule rs rules hread _ ih =>
    simp only [filtersOfRulesFrom] at h
    split at h
    · rename_i fault hf
      obtain ⟨hspam, hfault⟩ := (filters_error_iff hl hread).1 hf
      cases hfault
      exact ⟨0, r, .head hspam, (Except.error.inj h).symm⟩
    · rename_i hf
      cases ((filters_error_iff hl hread).1 hf).2
    · rename_i hf
      have hspam : ¬r.actions.markSpam = some true := fun hspam => by
        rw [(filters_error_iff hl hread).2 ⟨hspam, rfl⟩] at hf
        cases hf
      split at h
      · rename_i hrest
        obtain rfl := Except.error.inj h
        obtain ⟨k, s, hfirst, rfl⟩ := ih hrest
        exact ⟨k + 1, s, hfirst.tail hspam, by rw [Nat.add_assoc, Nat.add_comm 1 k]⟩
      · cases h

/-! ### Configs that compile -/

theorem of_compile {limit : Int} {c : Config} {m : MailConfig} (h : c.compile limit = .ok m) :
    ∃ blocks, List.Forall₂ (fun (r : RuleDecl) b =>
        ∃ rule, r.read = .ok rule ∧ rule.filters limit = .ok b) c.rules blocks ∧
      m = { labels := c.labels.map Label.ofDecl, filters := blocks.flatten } := by
  unfold Config.compile at h
  split at h
  · cases h
  · rename_i rules hrules
    split at h
    · cases h
    · rename_i fs hfs
      obtain ⟨blocks, hblocks, rfl⟩ := of_filtersOfRulesFrom hfs
      exact ⟨blocks, forall₂_trans (of_readRulesFrom hrules) hblocks, (Except.ok.inj h).symm⟩

/-- The rules of a config that compiles can be read, and none of them sends messages to spam. -/
theorem accepted_of_compile {limit : Int} (hl : 1 ≤ limit) {c : Config} {m : MailConfig}
    (h : c.compile limit = .ok m) :
    ∀ r ∈ c.rules, ¬r.Unreadable ∧ r.actions.markSpam ≠ some true := by
  intro r hr
  obtain ⟨blocks, hblocks, -⟩ := of_compile h
  obtain ⟨b, -, rule, hread, hb⟩ := (exists_mem_of_forall₂ hblocks).1 r hr
  refine ⟨RuleDecl.exists_read_iff.1 ⟨rule, hread⟩, fun hspam => ?_⟩
  rw [(filters_error_iff hl hread).2 ⟨hspam, rfl⟩] at hb
  cases hb

/-- A filter that a rule is turned into: an action of the rule, for a piece of its condition. -/
def RuleDecl.Yields (limit : Int) (r : RuleDecl) (f : Filter) : Prop :=
  ∃ c acts, r.filter.condition = .ok c ∧ r.actions.filterActions = .ok acts ∧
    (∃ p ∈ c.simplify.pieces limit, p.criteria = .ok f.criteria) ∧ f.action ∈ acts ∧ f.id = ""

theorem mem_combinations {crits : List Criteria} {acts : List Action} {f : Filter} :
    f ∈ combinations crits acts ↔ f.criteria ∈ crits ∧ f.action ∈ acts ∧ f.id = "" := by
  unfold combinations
  constructor
  · intro hf
    obtain ⟨k, hk, hf⟩ := List.mem_flatMap.1 hf
    obtain ⟨a, ha, rfl⟩ := List.mem_map.1 hf
    exact ⟨hk, ha, rfl⟩
  · rintro ⟨hk, ha, hid⟩
    refine List.mem_flatMap.2 ⟨_, hk, List.mem_map.2 ⟨_, ha, ?_⟩⟩
    rw [← hid]

theorem mem_filters_iff {limit : Int} (hl : 1 ≤ limit) {r : RuleDecl} {rule : Rule}
    {b : List Filter} (hr : r.read = .ok rule) (hb : rule.filters limit = .ok b) {f : Filter} :
    f ∈ b ↔ r.Yields limit f := by
  obtain ⟨c, hc, rfl⟩ := of_read hr
  obtain ⟨pieces, crits, acts, hp, hk, ha, rfl⟩ := of_filters hb
  rw [Condition.split_eq_ok hl] at hp
  obtain rfl := Except.ok.inj hp
  obtain ⟨hleft, hright⟩ := exists_mem_of_forall₂ hk
  rw [mem_combinations]
  constructor
  · rintro ⟨hcrit, hact, hid⟩
    exact ⟨c, acts, hc, ha, hright _ hcrit, hact, hid⟩
  · rintro ⟨c', acts', hc', ha', ⟨p, hp, hcrit⟩, hact, hid⟩
    obtain rfl := Except.ok.inj (hc.symm.trans hc')
    obtain rfl := Except.ok.inj (ha.symm.trans ha')
    obtain ⟨k, hk, hpk⟩ := hleft p hp
    obtain rfl := Except.ok.inj (hpk.symm.trans hcrit)
    exact ⟨hk, hact, hid⟩

/-- The filters of a config that compiles are those that its rules yield. -/
theorem mem_compiled_iff {limit : Int} (hl : 1 ≤ limit) {c : Config} {m : MailConfig}
    (h : c.compile limit = .ok m) {f : Filter} :
    f ∈ m.filters ↔ ∃ r ∈ c.rules, r.Yields limit f := by
  obtain ⟨blocks, hblocks, rfl⟩ := of_compile h
  obtain ⟨hleft, hright⟩ := exists_mem_of_forall₂ hblocks
  rw [List.mem_flatten]
  constructor
  · rintro ⟨b, hb, hf⟩
    obtain ⟨r, hr, rule, hread, hfb⟩ := hright b hb
    exact ⟨r, hr, (mem_filters_iff hl hread hfb).1 hf⟩
  · rintro ⟨r, hr, hf⟩
    obtain ⟨b, hb, rule, hread, hfb⟩ := hleft r hr
    exact ⟨b, hb, (mem_filters_iff hl hread hfb).2 hf⟩

/-! ### Configs that do not compile -/

/-- What is wrong with a config.  Rules that cannot be read are reported with the rule as it is
written, and before any rule that sends messages to spam. -/
inductive Config.RefusedFor (c : Config) : RuleError → Prop
  /-- The first rule that cannot be read has a malformed node. -/
  | malformed {i : Nat} {r : RuleDecl} {e : SyntaxError}
      (first : FirstAt RuleDecl.Unreadable c.rules i r)
      (node : ¬r.filter.Every FilterNode.WellFormed) (error : r.filter.condition = .error e) :
      c.RefusedFor { index := i, fault := .malformed e, declaration := some r }
  /-- The first rule that cannot be read does nothing. -/
  | emptyActions {i : Nat} {r : RuleDecl} (first : FirstAt RuleDecl.Unreadable c.rules i r)
      (nodes : r.filter.Every FilterNode.WellFormed) (empty : r.actions.isEmpty = true) :
      c.RefusedFor { index := i, fault := .emptyActions, declaration := some r }
  /-- All rules can be read, and one sends messages to spam. -/
  | toSpam {i : Nat} {r : RuleDecl} (readable : ∀ s ∈ c.rules, ¬s.Unreadable)
      (first : FirstAt (fun s : RuleDecl => s.actions.markSpam = some true) c.rules i r) :
      c.RefusedFor { index := i, fault := .toSpam }

namespace Config.RefusedFor

variable {c : Config} {x y : RuleError}

theorem exists_rule (h : c.RefusedFor x) :
    ∃ r ∈ c.rules, r.Unreadable ∨ r.actions.markSpam = some true := by
  cases h with
  | malformed first _ _ => exact ⟨_, first.mem, .inl first.2.1⟩
  | emptyActions first _ _ => exact ⟨_, first.mem, .inl first.2.1⟩
  | toSpam _ first => exact ⟨_, first.mem, .inr first.2.1⟩

/-- There is one thing wrong with a config. -/
theorem unique (hx : c.RefusedFor x) (hy : c.RefusedFor y) : x = y := by
  cases hx with
  | malformed first node error =>
    cases hy with
    | malformed first' _ error' =>
      obtain ⟨rfl, rfl⟩ := first.unique first'
      obtain rfl := Except.error.inj (error.symm.trans error')
      rfl
    | emptyActions first' nodes _ =>
      obtain ⟨rfl, rfl⟩ := first.unique first'
      exact absurd nodes node
    | toSpam readable _ => exact absurd first.2.1 (readable _ first.mem)
  | emptyActions first nodes _ =>
    cases hy with
    | malformed first' node _ =>
      obtain ⟨rfl, rfl⟩ := first.unique first'
      exact absurd nodes node
    | emptyActions first' _ _ =>
      obtain ⟨rfl, rfl⟩ := first.unique first'
      rfl
    | toSpam readable _ => exact absurd first.2.1 (readable _ first.mem)
  | toSpam readable first =>
    cases hy with
    | malformed first' _ _ => exact absurd first'.2.1 (readable _ first'.mem)
    | emptyActions first' _ _ => exact absurd first'.2.1 (readable _ first'.mem)
    | toSpam _ first' =>
      obtain ⟨rfl, -⟩ := first.unique first'
      rfl

end Config.RefusedFor

theorem refusedFor_of_compile {limit : Int} (hl : 1 ≤ limit) {c : Config} {e : CompileError}
    (h : c.compile limit = .error e) : ∃ x, e = .rule x ∧ c.RefusedFor x := by
  unfold Config.compile at h
  split at h
  · rename_i x hx
    refine ⟨x, (Except.error.inj h).symm, ?_⟩
    obtain ⟨index, fault, declaration⟩ := x
    obtain ⟨k, r, hfirst, hread, hindex, hdecl⟩ := of_readRulesFrom_error hx
    simp only [Nat.zero_add] at hread hindex hdecl
    subst hindex hdecl
    rcases r.read_cases with ⟨rule, hok, -⟩ | ⟨e, herr, hnode, hmal⟩ | ⟨hnodes, hempty, hact⟩
    · rw [hread] at hok
      cases hok
    · obtain rfl := Except.error.inj (hread.symm.trans hmal)
      exact .malformed hfirst hnode herr
    · obtain rfl := Except.error.inj (hread.symm.trans hact)
      exact .emptyActions hfirst hnodes hempty
  · rename_i rules hrules
    have hread := of_readRulesFrom hrules
    split at h
    · rename_i e' he
      obtain rfl := Except.error.inj h
      obtain ⟨k, r, hfirst, rfl⟩ := of_filtersOfRulesFrom_error hl hread he
      refine ⟨_, rfl, ?_⟩
      rw [Nat.zero_add]
      refine .toSpam (fun s hs => ?_) hfirst
      obtain ⟨rule, -, hs⟩ := (exists_mem_of_forall₂ hread).1 s hs
      exact RuleDecl.exists_read_iff.1 ⟨rule, hs⟩
    · cases h

/-- **What the compiler refuses.**  A config does not compile if a rule has a malformed filter or
asks for nothing, or sends messages to spam, and only then.  The error is that of the first rule
that cannot be read, with the rule below it, or else that of the first rule that sends messages to
spam; nothing else can go wrong. -/
theorem compile_refuses {limit : Int} (hl : 1 ≤ limit) (c : Config) :
    ((∃ e, c.compile limit = .error e) ↔
      ∃ r ∈ c.rules, r.Unreadable ∨ r.actions.markSpam = some true) ∧
    (∀ e, c.compile limit = .error e ↔ ∃ x, e = .rule x ∧ c.RefusedFor x) ∧
    ∀ x, c.RefusedFor x →
      (x.details.isSome = true ↔ x.fault ≠ .toSpam) ∧ ∀ q, x.fault ≠ .unwritable q := by
  have hsome : (∃ e, c.compile limit = .error e) ↔
      ∃ r ∈ c.rules, r.Unreadable ∨ r.actions.markSpam = some true := by
    constructor
    · rintro ⟨e, he⟩
      obtain ⟨x, -, hx⟩ := refusedFor_of_compile hl he
      exact hx.exists_rule
    · rintro ⟨r, hr, hbad⟩
      cases hc : c.compile limit with
      | error e => exact ⟨e, rfl⟩
      | ok m =>
        obtain ⟨hread, hspam⟩ := accepted_of_compile hl hc r hr
        exact absurd hbad (not_or.2 ⟨hread, hspam⟩)
  refine ⟨hsome, fun e => ⟨refusedFor_of_compile hl, ?_⟩, fun x hx => ?_⟩
  · rintro ⟨x, rfl, hx⟩
    obtain ⟨e, he⟩ := hsome.2 hx.exists_rule
    obtain ⟨y, rfl, hy⟩ := refusedFor_of_compile hl he
    rw [he, hx.unique hy]
  · cases hx <;> simp [RuleError.details]

/-- A rule that sends messages to spam, and one that does nothing. -/
def spamThenNothing : Config where
  rules := [
    { filter := { fields := { sender := some "a" } }, actions := { markSpam := some true } },
    { filter := { fields := { sender := some "b" } }, actions := {} }]

/-- The second rule is reported, since it cannot even be read. -/
theorem compile_refuses_spamThenNothing :
    1 ≤ defaultSizeLimit ∧ spamThenNothing.compile defaultSizeLimit = .error (.rule
      { index := 1, fault := .emptyActions, declaration := spamThenNothing.rules[1]? }) := by
  have hwell : ∀ s : String, s ≠ "" →
      FilterNode.Every FilterNode.WellFormed { fields := { sender := some s } } := by
    intro s hs
    have hstated : ({ sender := some s } : FieldMatches).stated = [(.sender, s)] := by
      simp [FieldMatches.stated, FieldMatches.entries, hs]
    exact FilterNode.exists_condition_iff.1
      ⟨_, FilterNode.condition_of_stated hstated (by simp)⟩
  have hfirst : FirstAt RuleDecl.Unreadable spamThenNothing.rules 1 spamThenNothing.rules[1] := by
    refine ⟨rfl, .inr rfl, fun r hr => ?_⟩
    obtain rfl := List.mem_singleton.1 hr
    exact not_or.2 ⟨not_not_intro (hwell "a" (by decide)), by decide⟩
  refine ⟨by decide, ((compile_refuses (by decide) spamThenNothing).2.1 _).2 ⟨_, rfl, ?_⟩⟩
  exact .emptyActions hfirst (hwell "b" (by decide)) rfl

end MailRules
