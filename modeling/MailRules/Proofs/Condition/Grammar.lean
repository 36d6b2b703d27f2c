import MailRules.Proofs.Condition.Gathered

/-!
# The grammar of filter nodes

Which expressions have a condition, what the others are refused for, and what a condition looks
like that was read from an expression.

* `FilterNode.nodes` are all nodes of an expression, each before those that it is made of, and those
  from left to right.
* Reading an expression fails where testing its nodes one after the other does, and with the same
  error (`forM_check_nodes`).  `forM_eq_ok_iff` and `forM_eq_error_iff` say what such a run of tests
  comes to.
* `parsed_of_condition` is the form of a condition that was read, and `leaves_of_condition` are its
  leaves, one for each match that a node states.
-/

namespace MailRules

/-! ### Tests one after the other -/

section

variable {ε α : Type} {test : α → Except ε Unit} {xs : List α} {e : ε}

theorem forM_eq_ok_iff : forM xs test = .ok () ↔ ∀ x ∈ xs, test x = .ok () := by
  induction xs with
  | nil => simp [pure, Except.pure]
  | cons x xs ih =>
    rw [List.forM_cons, bind_eq_ok_iff, List.forall_mem_cons, ← ih]
    exact ⟨fun ⟨_, hx, hxs⟩ => ⟨hx, hxs⟩, fun ⟨hx, hxs⟩ => ⟨(), hx, hxs⟩⟩

/-- The error is that of the first item that does not pass. -/
theorem forM_eq_error_iff : forM xs test = .error e ↔ ∃ before x after,
    xs = before ++ x :: after ∧ (∀ y ∈ before, test y = .ok ()) ∧ test x = .error e := by
  induction xs with
  | nil => simp [pure, Except.pure]
  | cons x xs ih =>
    rw [List.forM_cons]
    cases hx : test x with
    | error d =>
      constructor
      · intro h
        exact ⟨[], x, xs, rfl, by simp, hx.trans h⟩
      · rintro ⟨_ | ⟨y, before⟩, z, after, hsplit, hbefore, hz⟩
        · obtain ⟨rfl, -⟩ := List.cons.inj hsplit
          exact hx.symm.trans hz
        · obtain ⟨rfl, -⟩ := List.cons.inj hsplit
          exact nomatch hx.symm.trans (hbefore x List.mem_cons_self)
    | ok =>
      refine ih.trans ⟨?_, ?_⟩
      · rintro ⟨before, y, after, rfl, hbefore, hy⟩
        exact ⟨x :: before, y, after, rfl, List.forall_mem_cons.2 ⟨hx, hbefore⟩, hy⟩
      · rintro ⟨_ | ⟨y, before⟩, z, after, hsplit, hbefore, hz⟩
        · obtain ⟨rfl, -⟩ := List.cons.inj hsplit
          exact nomatch hx.symm.trans hz
        · exact ⟨before, z, after, (List.cons.inj hsplit).2, (List.forall_mem_cons.1 hbefore).2, hz⟩

end

/-- A condition as reading leaves it: nothing is empty, a negation has one child, and a leaf has one
argument, which is not empty, and no grouping. -/
def Condition.Parsed : Condition → Prop
  | .node op cs => ((op = .and ∨ op = .or) ∧ cs ≠ []) ∨ (op = .not ∧ cs.length = 1)
  | .leaf l => l.grouping = .unset ∧ ∃ a, l.args = [a] ∧ a ≠ ""

namespace FilterNode

variable {n : FilterNode} {c : Condition} {ns : List FilterNode} {cs : List Condition}

/-! ### The nodes of an expression -/

mutual

/-- All nodes of an expression, each before those that it is made of. -/
def nodes : FilterNode → List FilterNode
  | ⟨all, any, negated, fields, raw⟩ =>
    ⟨all, any, negated, fields, raw⟩ :: (nodesIn all ++ nodesIn any ++ nodesUnder negated)
termination_by structural n => n

/-- All nodes of the expressions of a list that may be absent. -/
def nodesIn : Option (List FilterNode) → List FilterNode
  | none => []
  | some ns => nodesAll ns
termination_by structural ns => ns

/-- All nodes of an expression that may be absent. -/
def nodesUnder : Option FilterNode → List FilterNode
  | none => []
  | some n => n.nodes
termination_by structural n => n

/-- All nodes of the expressions of a list. -/
def nodesAll : List FilterNode → List FilterNode
  | [] => []
  | n :: ns => n.nodes ++ nodesAll ns
termination_by structural ns => ns

end

theorem nodesAll_eq_flatMap (ns : List FilterNode) : nodesAll ns = ns.flatMap nodes := by
  induction ns with
  | nil => rfl
  | cons n ns ih => rw [nodesAll, ih, List.flatMap_cons]

theorem nodes_eq (n : FilterNode) :
    n.nodes = n :: ((n.all.getD []).flatMap nodes ++ (n.any.getD []).flatMap nodes ++
      n.negated.toList.flatMap nodes) := by
  obtain ⟨all, any, negated, fields, raw⟩ := n
  have hin : ∀ o : Option (List FilterNode), nodesIn o = (o.getD []).flatMap nodes := by
    intro o
    cases o with
    | none => rfl
    | some ns => exact nodesAll_eq_flatMap ns
  have hunder : nodesUnder negated = negated.toList.flatMap nodes := by
    cases negated <;> simp [nodesUnder]
  rw [nodes, hin, hin, hunder]

/-! ### Reading and testing -/

theorem forM_check_conditions
    (ih : ∀ n ∈ ns, forM n.nodes check = n.condition.map fun _ => ()) :
    forM (ns.flatMap nodes) check = (conditions ns).map fun _ => () := by
  induction ns with
  | nil => rfl
  | cons n ns ihs =>
    obtain ⟨hn, hns⟩ := List.forall_mem_cons.1 ih
    rw [List.flatMap_cons, List.forM_append, hn, ihs hns, conditions]
    cases n.condition <;> cases conditions ns <;> rfl

/-- **Reading an expression fails where testing its nodes does**, and with the same error. -/
theorem forM_check_nodes (n : FilterNode) :
    forM n.nodes check = n.condition.map fun _ => () := by
  induction n using induct with
  | node n ihall ihany ihneg =>
    have hall := forM_check_conditions ihall
    have hany := forM_check_conditions ihany
    rw [nodes_eq, List.forM_cons, condition_eq]
    cases hc : n.check with
    | error e => rfl
    | ok =>
      -- a node that passes the test is made of nodes of one kind only
      rcases of_check hc with
        ⟨ha, hb, hn, -⟩ | ⟨ha, hb, hn, -⟩ | ⟨ha, hb, hn, -⟩ | ⟨ha, hb, hn, -⟩
      · rw [hb, hn, if_pos ha]
        simp only [List.flatMap_nil, List.append_nil, Option.toList_none]
        refine hall.trans ?_
        cases conditions (n.all.getD []) <;> rfl
      · rw [ha, hn, if_neg (not_not_intro rfl), if_pos hb]
        simp only [List.flatMap_nil, List.append_nil, List.nil_append, Option.toList_none]
        refine hany.trans ?_
        cases conditions (n.any.getD []) <;> rfl
      · obtain ⟨m, hm⟩ := Option.isSome_iff_exists.1 hn
        rw [ha, hb, hm, if_neg (not_not_intro rfl), if_neg (not_not_intro rfl)]
        simp only [List.flatMap_nil, List.nil_append, Option.toList_some, List.flatMap_singleton]
        refine (ihneg m hm).trans ?_
        cases m.condition <;> rfl
      · rw [ha, hb, hn, if_neg (not_not_intro rfl), if_neg (not_not_intro rfl)]
        rfl

/-! ### What is read -/

/-- The leaves for the matches that a node states itself. -/
def statedLeaves (n : FilterNode) : List Leaf :=
  n.fields.stated.map fun p => { field := p.1, args := [p.2], raw := n.raw }

theorem flatMap_leaves_conditions (h : conditions ns = .ok cs)
    (ih : ∀ n ∈ ns, ∀ {c}, n.condition = .ok c → c.leaves = n.nodes.flatMap statedLeaves) :
    cs.flatMap Condition.leaves = (ns.flatMap nodes).flatMap statedLeaves := by
  induction conditions_eq_ok.1 h with
  | nil => rfl
  | cons hc hcs ihs =>
    rw [List.flatMap_cons, List.flatMap_cons, List.flatMap_append, ih _ List.mem_cons_self hc,
      ihs (conditions_eq_ok.2 hcs) fun n hn => ih n (List.mem_cons_of_mem _ hn)]

/-- **The leaves of a condition are the matches that the nodes state**, each raw if its node is. -/
theorem leaves_of_condition (h : n.condition = .ok c) :
    c.leaves = n.nodes.flatMap statedLeaves := by
  induction n using induct generalizing c with
  | node n ihall ihany ihneg =>
    rw [nodes_eq]
    rcases of_condition h with ⟨cs, hcs, hb, hn, hs, rfl⟩ | ⟨cs, ha, -, hcs, hn, hs, rfl⟩ |
      ⟨m, d, ha, hb, hm, hd, hs, rfl⟩ | ⟨p, ha, hb, hn, hs, rfl⟩
    · simp [statedLeaves, hb, hn, hs, flatMap_leaves_conditions hcs ihall]
    · simp [statedLeaves, ha, hn, hs, flatMap_leaves_conditions hcs ihany]
    · simp [statedLeaves, ha, hb, hm, hs, ihneg m hm hd]
    · simp [statedLeaves, ha, hb, hn, hs]

theorem parsed_of_condition (h : n.condition = .ok c) : c.Everywhere Condition.Parsed := by
  refine everywhere_of_condition (N := fun _ => True) (every_of_forall (fun _ => trivial) n) h
    ?_ ?_ ?_
  · exact fun op cs hop hne _ => .inl ⟨hop, hne⟩
  · exact fun c _ => .inr ⟨rfl, rfl⟩
  · exact fun m p _ hp => ⟨rfl, p.2, rfl, (FieldMatches.ofName?_of_mem_stated hp).2⟩

/-! ### The grammar -/

/-- **What has a condition.**  An expression has a condition exactly if each of its nodes is
populated once and raw only where search notation can stand.  Otherwise the error is what the test
of a node says about the first that does not pass.  A condition that was read is nowhere empty and
negates one condition at a time, and its leaves are the matches that the nodes state, with one
argument each, not grouped, and raw where their nodes are. -/
theorem condition_grammar (n : FilterNode) :
    ((∃ c, n.condition = .ok c) ↔ ∀ m ∈ n.nodes, m.WellFormed) ∧
    (∀ e, n.condition = .error e ↔ ∃ before m after, n.nodes = before ++ m :: after ∧
      (∀ k ∈ before, k.WellFormed) ∧ m.check = .error e) ∧
    ∀ c, n.condition = .ok c →
      c.Everywhere Condition.Parsed ∧ c.leaves = n.nodes.flatMap statedLeaves := by
  have hsame := forM_check_nodes n
  refine ⟨?_, fun e => ?_, fun c hc => ⟨parsed_of_condition hc, leaves_of_condition hc⟩⟩
  · simp only [← check_eq_ok_iff, ← forM_eq_ok_iff, hsame]
    cases n.condition <;> simp [Except.map]
  · simp only [← check_eq_ok_iff, ← forM_eq_error_iff, hsame]
    cases n.condition <;> simp [Except.map]

/-- A raw match and a negated one. -/
def rawOrNegated : FilterNode where
  any := some [{ fields := { sender := some "a" }, raw := true },
    { negated := some { fields := { subject := some "b" } } }]

/-- A node that must not be raw, before one that states nothing. -/
def rawCopy : FilterNode where
  all := some [{ fields := { sender := some "a" } },
    { any := some [{ fields := { cc := some "b" }, raw := true }, {}] }]

theorem condition_grammar_rawCopy :
    (∃ c, rawOrNegated.condition = .ok c ∧ c.Everywhere Condition.Parsed ∧
      c.leaves = [{ field := .sender, args := ["a"], raw := true },
        { field := .subject, args := ["b"] }]) ∧
    rawCopy.condition = .error .misplacedRaw := by
  obtain ⟨c, hc⟩ : ∃ c, rawOrNegated.condition = .ok c := ⟨_, rfl⟩
  obtain ⟨hparsed, hleaves⟩ := (condition_grammar rawOrNegated).2.2 c hc
  refine ⟨⟨c, hc, hparsed, hleaves.trans rfl⟩, ((condition_grammar rawCopy).2.1 _).2 ?_⟩
  refine ⟨[rawCopy, { fields := { sender := some "a" } },
      { any := some [{ fields := { cc := some "b" }, raw := true }, {}] }],
    { fields := { cc := some "b" }, raw := true }, [{}], rfl, fun m hm => ?_, rfl⟩
  simp only [List.mem_cons, List.not_mem_nil, or_false] at hm
  rcases hm with rfl | rfl | rfl <;> exact check_eq_ok_iff.1 rfl

end FilterNode

end MailRules
