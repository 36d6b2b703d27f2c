import MailRules.Condition.OfNode
import MailRules.Proofs.Condition.Meaning
import MailRules.Proofs.Result
import Mathlib.Data.List.Forall2

/-!
# Filter nodes mean their conditions

A written filter node says that everything it states is the case.  The condition of a well-formed
node means the same.

* `FieldMatches.stated` are the matches that a node states, `FilterNode.holds` is the truth of a
  whole node, read off the node as it is written.
* `FilterNode.WellFormed` is what the test of a node asks for, and `of_check` says that a node that
  passes it states exactly one thing.  `condition_eq` is the condition of a node in one equation;
  `condition_of_stated` and `condition_all` are the conditions of two kinds of nodes.
* `meaningful_of_condition` and `holds_of_condition` are what the condition of a node has from the
  node.
-/

namespace MailRules

/-! ### What a node states -/

namespace FieldMatches

/-- The texts for all fields, each with its field. -/
def entries (m : FieldMatches) : List (Field × Option String) :=
  [(.sender, m.sender), (.recipient, m.recipient), (.cc, m.cc), (.bcc, m.bcc),
    (.replyTo, m.replyTo), (.subject, m.subject), (.list, m.list), (.has, m.has),
    (.query, m.query)]

/-- The matches that are stated, with their fields; an empty text states nothing. -/
def stated (m : FieldMatches) : List (Field × String) :=
  m.entries.filterMap fun p => match p.2 with
    | some s => if s = "" then none else some (p.1, s)
    | none => none

theorem ofName?_of_mem_stated {m : FieldMatches} {p : Field × String} (h : p ∈ m.stated) :
    Field.ofName? p.1.name = some p.1 ∧ p.2 ≠ "" := by
  obtain ⟨⟨f, t⟩, hf, hp⟩ := List.mem_filterMap.1 h
  cases t with
  | none => cases hp
  | some s =>
    simp only [Option.ite_none_left_eq_some, Option.some.injEq] at hp
    obtain ⟨hs, rfl⟩ := hp
    refine ⟨?_, hs⟩
    have : f ≠ .unset := by
      rintro rfl
      simp [entries] at hf
    cases f <;> first | exact absurd rfl this | rfl

end FieldMatches

namespace FilterNode

/-- Induction on filter nodes: a node may use what holds of the nodes it is made of. -/
@[elab_as_elim]
theorem induct {motive : FilterNode → Prop}
    (node : ∀ n : FilterNode, (∀ m ∈ n.all.getD [], motive m) → (∀ m ∈ n.any.getD [], motive m) →
      (∀ m, n.negated = some m → motive m) → motive n) : ∀ n, motive n
  | ⟨all, any, negated, fields, raw⟩ =>
    node _
      (fun m hm => match all with
        | some ms =>
          have : sizeOf m < sizeOf ms := List.sizeOf_lt_of_mem hm
          induct node m
        | none => absurd hm List.not_mem_nil)
      (fun m hm => match any with
        | some ms =>
          have : sizeOf m < sizeOf ms := List.sizeOf_lt_of_mem hm
          induct node m
        | none => absurd hm List.not_mem_nil)
      (fun m hm => match negated with
        | some m' => Option.some.inj hm ▸ induct node m'
        | none => nomatch hm)

variable (v : Field × String → Bool)

mutual

/-- Whether everything that a node states is the case. -/
def holds : FilterNode → Bool
  | ⟨all, any, negated, fields, _⟩ =>
    allHold all && anyHolds any && !deniedHolds negated && fields.stated.all v
termination_by structural n => n

/-- Whether each of some nodes holds. -/
def allHold : Option (List FilterNode) → Bool
  | none => true
  | some ns => (truths ns).all id
termination_by structural ns => ns

/-- Whether one of some nodes holds; no nodes ask for nothing. -/
def anyHolds : Option (List FilterNode) → Bool
  | none => true
  | some ns => (truths ns).isEmpty || (truths ns).any id
termination_by structural ns => ns

/-- Whether a node that must not hold does. -/
def deniedHolds : Option FilterNode → Bool
  | none => false
  | some n => n.holds
termination_by structural n => n

/-- The truth of each node of a list. -/
def truths : List FilterNode → List Bool
  | [] => []
  | n :: ns => n.holds :: truths ns
termination_by structural ns => ns

end

theorem truths_eq_map (ns : List FilterNode) : truths v ns = ns.map (holds v) := by
  induction ns with
  | nil => rfl
  | cons n ns ih => rw [truths, ih, List.map_cons]

/-- A node holds if all of its first nodes do, one of its second if there are any, its negated one
does not, and its matches do. -/
theorem holds_eq (n : FilterNode) :
    n.holds v = ((n.all.getD []).all (holds v) &&
      ((n.any.getD []).isEmpty || (n.any.getD []).any (holds v)) && !n.negated.any (holds v) &&
      n.fields.stated.all v) := by
  obtain ⟨all, any, negated, fields, raw⟩ := n
  have hall : allHold v all = (all.getD []).all (holds v) := by
    cases all <;> simp [allHold, truths_eq_map]
  have hany : anyHolds v any = ((any.getD []).isEmpty || (any.getD []).any (holds v)) := by
    cases any <;> simp [anyHolds, truths_eq_map]
  have hnegated : deniedHolds v negated = negated.any (holds v) := by
    cases negated <;> simp [deniedHolds]
  rw [holds, hall, hany, hnegated]

/-! ### Well-formed nodes -/

theorem textFields_eq_map (n : FilterNode) :
    n.textFields = n.fields.stated.map fun p => (p.1.name, p.2) := by
  have h : n.textFields = (n.fields.entries.map fun p => (p.1.name, p.2)).filterMap
      fun p => match p.2 with
        | some s => if s = "" then none else some (p.1, s)
        | none => none := rfl
  rw [h, List.filterMap_map, FieldMatches.stated, List.map_filterMap]
  congr 1
  funext p
  obtain ⟨f, t⟩ := p
  cases t with
  | none => rfl
  | some s => by_cases hs : s = "" <;> simp [hs]

/-- A node states one thing, and is raw only where search notation can stand. -/
def WellFormed (n : FilterNode) : Prop :=
  n.populated.length = 1 ∧ (n.raw = true → ∀ name ∈ n.populated, name ∈ rawFields)

theorem check_eq_ok_iff {n : FilterNode} : n.check = .ok () ↔ n.WellFormed := by
  unfold check WellFormed
  cases n.populated with
  | nil => simp
  | cons name names =>
    cases names with
    | nil => by_cases hraw : n.raw = true <;> simp [hraw]
    | cons name' names => simp

/-- A node states exactly one thing: all of some nodes, any of some nodes, not a node, or a
match. -/
theorem of_check {n : FilterNode} (h : n.check = .ok ()) :
    (n.all.getD [] ≠ [] ∧ n.any.getD [] = [] ∧ n.negated = none ∧ n.fields.stated = []) ∨
    (n.all.getD [] = [] ∧ n.any.getD [] ≠ [] ∧ n.negated = none ∧ n.fields.stated = []) ∨
    (n.all.getD [] = [] ∧ n.any.getD [] = [] ∧ n.negated.isSome ∧ n.fields.stated = []) ∨
    (n.all.getD [] = [] ∧ n.any.getD [] = [] ∧ n.negated = none ∧
      ∃ p, n.fields.stated = [p]) := by
  have hlen := (check_eq_ok_iff.1 h).1
  simp only [populated, List.length_append, textFields_eq_map, List.length_map] at hlen
  by_cases hall : n.all.getD [] = [] <;> by_cases hany : n.any.getD [] = [] <;>
    cases hneg : n.negated <;> simp [hall, hany, hneg] at hlen ⊢
  · simpa using List.length_eq_one_iff.1 hlen
  · exact hlen
  · exact hlen
  · omega
  · exact hlen
  all_goals omega

/-! ### Conditions of nodes -/

theorem conditions_eq_ok {ns : List FilterNode} {cs : List Condition} :
    conditions ns = .ok cs ↔ List.Forall₂ (fun n c => n.condition = .ok c) ns cs := by
  induction ns generalizing cs with
  | nil => simp [conditions, eq_comm]
  | cons n ns ih =>
    simp only [conditions, bind_eq_ok_iff, pure_eq_ok_iff, ih, List.forall₂_cons_left_iff]
    constructor
    · rintro ⟨c, hc, ds, hds, rfl⟩; exact ⟨c, ds, hc, hds, rfl⟩
    · rintro ⟨c, ds, hc, hds, rfl⟩; exact ⟨c, hc, ds, hds, rfl⟩

theorem leaf_eq {n : FilterNode} {p : Field × String} (h : n.fields.stated = [p]) :
    n.leaf = .leaf { field := p.1, args := [p.2], raw := n.raw } := by
  have hp := (FieldMatches.ofName?_of_mem_stated (m := n.fields) (p := p) (by simp [h])).1
  simp [leaf, textFields_eq_map, h, hp]

/-- A node is checked, and then the one thing that it states has a condition. -/
theorem condition_eq (n : FilterNode) : n.condition = do
    n.check
    if n.all.getD [] ≠ [] then return .node .and (← conditions (n.all.getD []))
    else if n.any.getD [] ≠ [] then return .node .or (← conditions (n.any.getD []))
    else match n.negated with
      | some m => return .node .not [← m.condition]
      | none => return n.leaf := by
  obtain ⟨all, any, negated, fields, raw⟩ := n
  conv_lhs => unfold condition
  rcases all with _ | _ | ⟨m, ms⟩ <;> rcases any with _ | _ | ⟨m', ms'⟩ <;> cases negated <;> rfl

theorem check_of_condition {n : FilterNode} {c : Condition} (h : n.condition = .ok c) :
    n.check = .ok () := by
  rw [condition_eq] at h
  obtain ⟨⟨⟩, hc, -⟩ := bind_eq_ok_iff.1 h
  exact hc

/-- The condition of a node is that of the one thing that the node states. -/
theorem of_condition {n : FilterNode} {c : Condition} (h : n.condition = .ok c) :
    (∃ cs, conditions (n.all.getD []) = .ok cs ∧ n.any.getD [] = [] ∧ n.negated = none ∧
      n.fields.stated = [] ∧ c = .node .and cs) ∨
    (∃ cs, n.all.getD [] = [] ∧ n.any.getD [] ≠ [] ∧ conditions (n.any.getD []) = .ok cs ∧
      n.negated = none ∧ n.fields.stated = [] ∧ c = .node .or cs) ∨
    (∃ m d, n.all.getD [] = [] ∧ n.any.getD [] = [] ∧ n.negated = some m ∧
      m.condition = .ok d ∧ n.fields.stated = [] ∧ c = .node .not [d]) ∨
    (∃ p, n.all.getD [] = [] ∧ n.any.getD [] = [] ∧ n.negated = none ∧
      n.fields.stated = [p] ∧ c = .leaf { field := p.1, args := [p.2], raw := n.raw }) := by
  rw [condition_eq] at h
  obtain ⟨⟨⟩, hc, h⟩ := bind_eq_ok_iff.1 h
  rcases of_check hc with
    ⟨ha, hb, hn, hs⟩ | ⟨ha, hb, hn, hs⟩ | ⟨ha, hb, hn, hs⟩ | ⟨ha, hb, hn, p, hs⟩
  · rw [if_pos ha] at h
    obtain ⟨cs, hcs, h⟩ := bind_eq_ok_iff.1 h
    exact .inl ⟨cs, hcs, hb, hn, hs, (pure_eq_ok_iff.1 h).symm⟩
  · rw [if_neg (not_not_intro ha), if_pos hb] at h
    obtain ⟨cs, hcs, h⟩ := bind_eq_ok_iff.1 h
    exact .inr (.inl ⟨cs, ha, hb, hcs, hn, hs, (pure_eq_ok_iff.1 h).symm⟩)
  · obtain ⟨m, hm⟩ := Option.isSome_iff_exists.1 hn
    rw [if_neg (not_not_intro ha), if_neg (not_not_intro hb), hm] at h
    obtain ⟨d, hd, h⟩ := bind_eq_ok_iff.1 h
    exact .inr (.inr (.inl ⟨m, d, ha, hb, hm, hd, hs, (pure_eq_ok_iff.1 h).symm⟩))
  · rw [if_neg (not_not_intro ha), if_neg (not_not_intro hb), hn, leaf_eq hs] at h
    exact .inr (.inr (.inr ⟨p, ha, hb, hn, hs, (pure_eq_ok_iff.1 h).symm⟩))

/-- A node that states one match has the condition of the match; a raw one has to be in a field
that search notation can stand in. -/
theorem condition_of_stated {fields : FieldMatches} {raw : Bool} {p : Field × String}
    (h : fields.stated = [p]) (hr : raw = true → p.1.name ∈ rawFields) :
    ({ fields, raw } : FilterNode).condition =
      .ok (.leaf { field := p.1, args := [p.2], raw }) := by
  have hcheck : ({ fields, raw } : FilterNode).check = .ok () := by
    have hpop : ({ fields, raw } : FilterNode).populated = [p.1.name] := by
      simp [populated, textFields_eq_map, h]
    exact check_eq_ok_iff.2 ⟨by rw [hpop]; rfl, by simpa [hpop] using hr⟩
  have hleaf : ({ fields, raw } : FilterNode).leaf = _ := leaf_eq h
  unfold condition
  rw [hcheck, ← hleaf]
  rfl

/-- A node that asks for all of some nodes has the condition that all of their conditions hold. -/
theorem condition_all {ns : List FilterNode} {cs : List Condition} (hne : ns ≠ [])
    (h : conditions ns = .ok cs) :
    ({ all := some ns } : FilterNode).condition = .ok (.node .and cs) := by
  obtain ⟨n, ns, rfl⟩ := List.exists_cons_of_ne_nil hne
  have hcheck : ({ all := some (n :: ns) } : FilterNode).check = .ok () := by rfl
  unfold condition
  rw [hcheck]
  exact bind_eq_ok_iff.2 ⟨(), rfl, bind_eq_ok_iff.2 ⟨cs, h, rfl⟩⟩

/-! ### Meaning of the condition -/

theorem meaningful_of_conditions {ns : List FilterNode} {cs : List Condition}
    (h : conditions ns = .ok cs)
    (ih : ∀ n ∈ ns, ∀ {c}, n.condition = .ok c → c.Meaningful) : ∀ c ∈ cs, c.Meaningful := by
  induction conditions_eq_ok.1 h with
  | nil => simp
  | cons hc hcs ihs =>
    refine List.forall_mem_cons.2 ⟨ih _ List.mem_cons_self hc, ?_⟩
    exact ihs (conditions_eq_ok.2 hcs) fun n hn => ih n (List.mem_cons_of_mem _ hn)

theorem meaningful_of_condition {n : FilterNode} {c : Condition} (h : n.condition = .ok c) :
    c.Meaningful := by
  induction n using induct generalizing c with
  | node n ihall ihany ihneg =>
    rcases of_condition h with ⟨cs, hcs, -, -, -, rfl⟩ | ⟨cs, -, -, hcs, -, -, rfl⟩ |
      ⟨m, d, -, -, hm, hd, -, rfl⟩ | ⟨p, -, -, -, -, rfl⟩
    · exact Condition.meaningful_node.2 ⟨trivial, meaningful_of_conditions hcs ihall⟩
    · exact Condition.meaningful_node.2 ⟨trivial, meaningful_of_conditions hcs ihany⟩
    · exact Condition.meaningful_node.2 ⟨rfl, by simpa using ihneg m hm hd⟩
    · exact Condition.meaningful_leaf.2 ⟨by simp, by simp⟩

theorem map_holds_conditions {ns : List FilterNode} {cs : List Condition}
    (h : conditions ns = .ok cs)
    (ih : ∀ n ∈ ns, ∀ {c}, n.condition = .ok c → c.holds v = n.holds v) :
    cs.map (Condition.holds v) = ns.map (holds v) := by
  induction conditions_eq_ok.1 h with
  | nil => rfl
  | cons hc hcs ihs =>
    rw [List.map_cons, List.map_cons, ih _ List.mem_cons_self hc,
      ihs (conditions_eq_ok.2 hcs) fun n hn => ih n (List.mem_cons_of_mem _ hn)]

/-- **A node means its condition.** -/
theorem holds_of_condition {n : FilterNode} {c : Condition} (h : n.condition = .ok c) :
    c.holds v = n.holds v := by
  induction n using induct generalizing c with
  | node n ihall ihany ihneg =>
    rw [holds_eq]
    rcases of_condition h with ⟨cs, hcs, hb, hn, hs, rfl⟩ | ⟨cs, ha, hb, hcs, hn, hs, rfl⟩ |
      ⟨m, d, ha, hb, hm, hd, hs, rfl⟩ | ⟨p, ha, hb, hn, hs, rfl⟩
    · have := map_holds_conditions v hcs ihall
      simp [Condition.holds_node, hb, hn, hs, this, Operation.joined]
    · have := map_holds_conditions v hcs ihany
      simp [Condition.holds_node, ha, hb, hn, hs, this, Operation.joined]
    · simp [ha, hb, hm, hs, ihneg m hm hd]
    · simp [ha, hb, hn, hs, Leaf.holds, Leaf.pairs]

end FilterNode

end MailRules
