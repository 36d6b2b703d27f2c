import MailRules.Proofs.Condition.OfNode
import MailRules.Proofs.Condition.Rounds

/-!
# The leaves of a simplified condition

What simplification does to leaves is to merge them and to group them anew.

* `Everywhere` with `OfLeaves` is a property of all leaves; `leaves_simplify` says that one which
  merging and grouping keep (`Leaf.Closed`) holds of the simplified form as well.
* A leaf with one argument needs no grouping, and takes one only with its siblings: `Lone` says that
  one without siblings has none, and `lone_simplify` that this stays so.
* Leaves of different fields that are in order already are only grouped (`simplify_leaves`).
* `FilterNode.everywhere_of_condition` carries a property of written nodes over to the leaves of
  their conditions.
-/

namespace MailRules

/-! ### Properties that merging keeps -/

/-- A property of leaves that grouping and merging keep. -/
structure Leaf.Closed (Q : Leaf → Prop) : Prop where
  group : ∀ l op, Q l → Q { l with grouping := op }
  merge : ∀ t l, t.field = l.field → Q t → Q l →
    Q { t with args := t.args ++ l.args, raw := t.raw || l.raw }

namespace Leaf.Closed

variable {Q : Leaf → Prop} {op : Operation} {ls ts : List Leaf} {l : Leaf}

theorem mergeInto (hQ : Closed Q) (hl : Q l) (hts : ∀ t ∈ ts, Q t) :
    ∀ t ∈ l.mergeInto op ts, Q t := by
  induction ts with
  | nil => simpa [Leaf.mergeInto] using hQ.group l op hl
  | cons t ts ih =>
    obtain ⟨ht, hrest⟩ := List.forall_mem_cons.1 hts
    unfold Leaf.mergeInto
    split_ifs with hf
    · exact List.forall_mem_cons.2 ⟨hQ.merge t l hf ht hl, hrest⟩
    · exact List.forall_mem_cons.2 ⟨ht, ih hrest⟩

theorem mergeAll (hQ : Closed Q) (hls : ∀ l ∈ ls, Q l) : ∀ t ∈ Leaf.mergeAll op ls, Q t := by
  have hfold : ∀ ts : List Leaf, (∀ t ∈ ts, Q t) →
      ∀ t ∈ ls.foldl (fun merged l => Leaf.mergeInto op l merged) ts, Q t := by
    induction ls with
    | nil => exact fun ts hts => hts
    | cons l ls ih =>
      obtain ⟨hl, hrest⟩ := List.forall_mem_cons.1 hls
      exact fun ts hts => ih hrest _ (hQ.mergeInto hl hts)
  exact hfold [] (by simp)

end Leaf.Closed

namespace Condition

/-- A property of a condition that is a leaf. -/
def OfLeaves (Q : Leaf → Prop) : Condition → Prop
  | .leaf l => Q l
  | .node _ _ => True

section

variable {Q : Leaf → Prop} {c d : Condition} {op : Operation} {cs : List Condition} {l : Leaf}

theorem leaves_flatten (h : Everywhere (OfLeaves Q) c) : Everywhere (OfLeaves Q) c.flatten := by
  induction h with
  | leaf h => simpa using h
  | node _ _ ih =>
    rw [flatten_node]
    exact .node trivial fun d hd => everywhere_of_mem_inlineAll (forall_mem_map_of ih) hd

theorem leaves_mergeLeaves (hQ : Leaf.Closed Q) (h : Everywhere (OfLeaves Q) c) :
    Everywhere (OfLeaves Q) c.mergeLeaves := by
  induction h with
  | leaf h => simpa using h
  | node _ _ ih =>
    have hmap := forall_mem_map_of ih
    rw [mergeLeaves_node]
    refine .node trivial fun d hd => everywhere_of_mem_mergeSiblings hmap ?_ hd
    refine hQ.mergeAll fun l hl => ?_
    obtain ⟨c, hc, hcl⟩ := List.mem_filterMap.1 hl
    obtain ⟨rfl, -⟩ := mergeableLeaf?_eq_some.1 hcl
    exact (hmap _ hc).root

theorem leaves_collapse (h : Everywhere (OfLeaves Q) c) : Everywhere (OfLeaves Q) c.collapse := by
  induction h with
  | leaf h => simpa using h
  | node _ _ ih =>
    rw [collapse_node]
    exact everywhere_reduced (forall_mem_map_of ih) fun _ => trivial

theorem leaves_arrange (h : Everywhere (OfLeaves Q) c) : Everywhere (OfLeaves Q) c.arrange := by
  induction h with
  | leaf h => simpa using h
  | node _ _ ih =>
    rw [arrange_node]
    refine .node trivial fun d hd => ?_
    obtain ⟨c, hc, rfl⟩ := mem_arrange.1 hd
    exact ih c hc

/-- **What merging and grouping keep, simplification keeps.** -/
theorem leaves_simplify (hQ : Leaf.Closed Q) (h : Everywhere (OfLeaves Q) c) :
    Everywhere (OfLeaves Q) c.simplify := by
  have hround : ∀ c, Everywhere (OfLeaves Q) c → Everywhere (OfLeaves Q) c.round := fun c h =>
    leaves_collapse (leaves_mergeLeaves hQ (leaves_flatten h))
  exact leaves_arrange (rounds_keep hround maxRounds h)

/-! ### Leaves without siblings -/

/-- A leaf with one argument has the given grouping. -/
def Grouped (o : Operation) : Condition → Prop
  | .leaf l => l.args.length = 1 → l.grouping = o
  | .node _ _ => True

/-- A leaf with one argument that has no siblings, or stands in a negation, has no grouping. -/
def Lone : Condition → Prop
  | .leaf _ => True
  | .node op cs => op = .not ∨ cs.length = 1 → ∀ c ∈ cs, c.Grouped .unset

theorem grouped_flatten {o : Operation} (h : c.Grouped o) : c.flatten.Grouped o := by
  cases c with
  | leaf l => simpa using h
  | node op cs => simp [Grouped]

theorem grouped_mergeLeaves {o : Operation} (h : c.Grouped o) : c.mergeLeaves.Grouped o := by
  cases c with
  | leaf l => simpa using h
  | node op cs => simp [Grouped]

theorem grouped_arrange {o : Operation} (h : c.Grouped o) : c.arrange.Grouped o := by
  cases c with
  | leaf l => simpa using h
  | node op cs => simp [Grouped]

theorem lone_flatten (hf : Everywhere Filled c) (h : Everywhere Lone c) :
    Everywhere Lone c.flatten := by
  induction h with
  | leaf => simp [Lone]
  | @node op cs h hcs ih =>
    have hfs := (everywhere_node.1 hf).2
    have hmap := forall_mem_map_of fun c hc => ih c hc (hfs c hc)
    rw [flatten_node]
    refine .node (fun hlone d hd => ?_) fun d hd => everywhere_of_mem_inlineAll hmap hd
    by_cases ho : op = .not
    · obtain ⟨c, hc, rfl⟩ := List.mem_map.1 (by simpa [inlineAll, ho] using hd)
      exact grouped_flatten (h (.inl ho) c hc)
    · -- what is inlined to a single child was one
      have hlen := length_le_inlineAll op
        (forall_mem_map_of fun c hc => (filled_flatten (hfs c hc)).root)
      have hone := hlone.resolve_left ho
      have hpos := List.length_pos_iff.2 hf.root.2.1
      rw [hone, List.length_map] at hlen
      obtain ⟨c, rfl⟩ := List.length_eq_one_iff.1 (show cs.length = 1 by omega)
      have hinl : inlineAll op ([c].map flatten) = inlined op c.flatten := by
        simp [inlineAll, ho]
      rw [hinl] at hd hone
      cases hop : c.flatten.isNodeOf op with
      | false =>
        rw [inlined_of_isNodeOf_false hop] at hd
        rw [List.mem_singleton.1 hd]
        exact grouped_flatten (h (.inr rfl) c List.mem_cons_self)
      | true =>
        have hc := (hmap _ List.mem_cons_self).root
        cases hcf : c.flatten with
        | leaf l =>
          rw [hcf] at hop
          cases hop
        | node o es =>
          rw [hcf] at hop hd hone hc
          obtain rfl : o = op := by simpa [isNodeOf] using hop
          simp only [inlined, if_true] at hd hone
          exact hc (.inr hone) d hd

theorem lone_mergeLeaves (hf : Everywhere Filled c) (h : Everywhere Lone c) :
    Everywhere Lone c.mergeLeaves := by
  induction h with
  | leaf => simp [Lone]
  | @node op cs h hcs ih =>
    obtain ⟨hfill, hfs⟩ := everywhere_node.1 hf
    have hroot : ∀ d ∈ cs.map mergeLeaves, d.Filled :=
      forall_mem_map_of fun c hc => (filled_mergeLeaves (hfs c hc)).root
    rw [mergeLeaves_node]
    refine .node (fun hlone d hd => ?_) fun d hd =>
      everywhere_of_mem_mergeSiblings (forall_mem_map_of fun c hc => ih c hc (hfs c hc))
        (fun _ _ => trivial) hd
    by_cases hlen : 2 ≤ cs.length
    · have hne : op ≠ .not := by
        rintro rfl
        have hone := hfill.2.2 rfl
        omega
      have hone := hlone.resolve_left hne
      rcases length_mergeSiblings op hroot (by simpa using hlen) with h2 | ⟨l, hl, hargs, -⟩
      · omega
      · rw [hl] at hd
        rw [List.mem_singleton.1 hd]
        exact fun h1 => by omega
    · rw [mergeSiblings_of_length_le (by simp; omega)] at hd
      obtain ⟨c, hc, rfl⟩ := List.mem_map.1 hd
      have hpos := List.length_pos_iff.2 hfill.2.1
      exact grouped_mergeLeaves (h (.inr (by omega)) c hc)

theorem lone_collapse (h : Everywhere Lone c) :
    Everywhere Lone c.collapse ∧ (c.Grouped .unset → c.collapse.Grouped .unset) := by
  induction h with
  | leaf => simp [Lone]
  | @node op cs h hcs ih =>
    rw [collapse_node]
    refine ⟨everywhere_reduced (forall_mem_map_of fun c hc => (ih c hc).1) fun _ hlone => ?_,
      fun _ => ?_⟩
    · rw [List.length_map] at hlone
      exact forall_mem_map_of fun c hc => (ih c hc).2 (h hlone c hc)
    · unfold reduced
      cases hr : reduct? op (cs.map collapse) with
      | none => trivial
      | some d =>
        rcases reduct?_eq_some.1 hr with ⟨rfl, hd⟩ | ⟨-, hd⟩
        · obtain ⟨c, rfl, hc⟩ := List.map_eq_singleton_iff.1 hd
          have hlone := (ih c List.mem_cons_self).1.root
          rw [hc] at hlone
          exact hlone (.inl rfl) d List.mem_cons_self
        · obtain ⟨c, rfl, rfl⟩ := List.map_eq_singleton_iff.1 hd
          exact (ih c List.mem_cons_self).2 (h (.inr rfl) c List.mem_cons_self)

theorem lone_arrange (h : Everywhere Lone c) : Everywhere Lone c.arrange := by
  induction h with
  | leaf => simp [Lone]
  | @node op cs h _ ih =>
    rw [arrange_node]
    refine .node (fun hlone d hd => ?_) fun d hd => ?_ <;>
      obtain ⟨c, hc, rfl⟩ := mem_arrange.1 hd
    · rw [(List.mergeSort_perm _ _).length_eq, List.length_map] at hlone
      exact grouped_arrange (h hlone c hc)
    · exact ih c hc

/-- **A leaf with one argument that has no siblings gets no grouping.** -/
theorem lone_simplify (hf : Everywhere Filled c) (h : Everywhere Lone c) (ha : c.Grouped .unset) :
    Everywhere Lone c.simplify ∧ c.simplify.Grouped .unset := by
  have hround : ∀ {c}, Everywhere Filled c → Everywhere Lone c → c.Grouped .unset →
      Everywhere Lone c.round ∧ c.round.Grouped .unset := by
    intro c hf h ha
    have hmerged := lone_mergeLeaves (filled_flatten hf) (lone_flatten hf h)
    exact ⟨(lone_collapse hmerged).1,
      (lone_collapse hmerged).2 (grouped_mergeLeaves (grouped_flatten ha))⟩
  have hkeep : ∀ c, Everywhere Filled c ∧ Everywhere Lone c ∧ c.Grouped .unset →
      Everywhere Filled c.round ∧ Everywhere Lone c.round ∧ c.round.Grouped .unset :=
    fun c h => ⟨filled_round h.1, hround h.1 h.2.1 h.2.2⟩
  obtain ⟨-, h', ha'⟩ := rounds_keep hkeep maxRounds ⟨hf, h, ha⟩
  exact ⟨lone_arrange h', grouped_arrange ha'⟩

/-! ### Leaves of different fields -/

theorem simplify_leaf (l : Leaf) : (leaf l).simplify = leaf l := by
  have hround : ∀ c, c = leaf l → c.round = leaf l := by
    rintro _ rfl
    simp [round]
  rw [simplify, rounds_keep hround maxRounds rfl, arrange_leaf]

/-- Rounds end where a round leads to what no further round changes. -/
theorem rounds_of_round {n : Nat} (h : c.round = d) (hd : d.round = d) :
    c.rounds (n + 1) = d := by
  induction n generalizing c with
  | zero => rw [rounds, rounds, h, ite_self]
  | succ n ih => rw [rounds, h, ih hd, ite_self]

/-- A round gives leaves of different fields the operation of their node. -/
theorem round_leaves {ls : List Leaf} (ho : op ≠ .not) (hlen : 2 ≤ ls.length)
    (hone : ∀ l ∈ ls, l.args.length ≤ 1) (hf : (ls.map Leaf.field).Nodup) :
    (node op (ls.map leaf)).round =
      node op ((ls.map fun l => { l with grouping := op }).map leaf) := by
  have hpass : ∀ {f : Condition → Condition}, (∀ l, f (leaf l) = leaf l) →
      ∀ ks : List Leaf, (ks.map leaf).map f = ks.map leaf := by
    intro f hf ks
    simp [hf]
  have hinline : inlineAll op (ls.map leaf) = ls.map leaf := by
    rw [inlineAll, if_neg ho, List.flatMap_map]
    exact List.map_eq_flatMap.symm
  have hoffer : ∀ l ∈ ls, (leaf l).mergeableLeaf? op = some l := fun l hl =>
    mergeableLeaf?_eq_some.2 ⟨rfl, .inl (hone l hl)⟩
  have hmerge : mergeSiblings op (ls.map leaf) =
      (ls.map fun l => { l with grouping := op }).map leaf := by
    have hrest : (ls.map leaf).filter (fun c => (c.mergeableLeaf? op).isNone) = [] := by
      simpa [List.filter_eq_nil_iff] using fun l hl => by simp [hoffer l hl]
    have hall : (ls.map leaf).filterMap (mergeableLeaf? op) = ls := by
      rw [List.filterMap_map]
      exact (List.filterMap_congr hoffer).trans List.filterMap_some
    unfold mergeSiblings
    rw [if_neg (by simp; omega), hrest, hall, Leaf.mergeAll_of_nodup op hf, List.nil_append]
  have hnone : reduct? op ((ls.map fun l => { l with grouping := op }).map leaf) = none := by
    refine Option.eq_none_iff_forall_ne_some.2 fun d hd => ?_
    rcases reduct?_eq_some.1 hd with ⟨rfl, -⟩ | ⟨-, hd⟩
    · exact ho rfl
    · have hone := congrArg List.length hd
      rw [List.length_map, List.length_map, List.length_singleton] at hone
      omega
  rw [round, flatten_node, hpass (fun _ => flatten_leaf), hinline, mergeLeaves_node,
    hpass (fun _ => mergeLeaves_leaf), hmerge, collapse_node, hpass (fun _ => collapse_leaf),
    reduced, hnone]
  rfl

/-- **Leaves of different fields in their order are simplified** but for their grouping, if they
have one argument each. -/
theorem simplify_leaves {ls : List Leaf} (ho : op ≠ .not) (hlen : 2 ≤ ls.length)
    (hone : ∀ l ∈ ls, l.args.length ≤ 1)
    (hrank : ls.Pairwise fun l k => l.field.rank < k.field.rank) :
    (node op (ls.map leaf)).simplify =
      node op ((ls.map fun l => { l with grouping := op }).map leaf) := by
  have hf : (ls.map Leaf.field).Nodup :=
    List.pairwise_map.2 (hrank.imp fun h heq => absurd h (by rw [heq]; exact Nat.lt_irrefl _))
  have hround := round_leaves ho hlen hone hf
  generalize hks : (ls.map fun l => { l with grouping := op }) = ks at hround ⊢
  have hagain : (node op (ks.map leaf)).round = node op (ks.map leaf) := by
    have hgroup : (ks.map fun l => { l with grouping := op }) = ks := by
      rw [← hks, List.map_map]
      rfl
    refine (round_leaves ho ?_ ?_ ?_).trans (by rw [hgroup]) <;> rw [← hks]
    · simpa using hlen
    · simpa using hone
    · simpa [Function.comp_def] using hf
  have hrounds := rounds_of_round (n := 3) hround hagain
  have harr : ∀ ks : List Leaf, (ks.map leaf).map arrange = ks.map leaf := fun ks => by simp
  rw [simplify, show maxRounds = 3 + 1 from rfl, hrounds, arrange_node, harr,
    List.mergeSort_of_pairwise]
  subst hks
  refine List.pairwise_map.2 (List.pairwise_map.2 (hrank.imp fun {l k} h => ?_))
  simp [rank, isLeaf, rootOperation, rootField]
  omega

end

end Condition

/-! ### Leaves of written nodes -/

namespace FilterNode

/-- A property of a node and of all nodes that it is made of. -/
inductive Every (P : FilterNode → Prop) : FilterNode → Prop
  | mk {n : FilterNode} (root : P n) (all : ∀ m ∈ n.all.getD [], Every P m)
      (any : ∀ m ∈ n.any.getD [], Every P m) (negated : ∀ m, n.negated = some m → Every P m) :
      Every P n

theorem every_of_forall {P : FilterNode → Prop} (h : ∀ n, P n) (n : FilterNode) : n.Every P := by
  induction n using induct with
  | node n ihall ihany ihneg => exact .mk (h n) ihall ihany ihneg

/-- The conditions of nodes have a property that the condition of each node has. -/
theorem forall_mem_conditions {P : Condition → Prop} {ns : List FilterNode} {cs : List Condition}
    (h : conditions ns = .ok cs) (ih : ∀ n ∈ ns, ∀ {c}, n.condition = .ok c → P c) :
    ∀ c ∈ cs, P c := by
  induction conditions_eq_ok.1 h with
  | nil => simp
  | cons hc hcs ihs =>
    refine List.forall_mem_cons.2 ⟨ih _ List.mem_cons_self hc, ?_⟩
    exact ihs (conditions_eq_ok.2 hcs) fun n hn => ih n (List.mem_cons_of_mem _ hn)

theorem conditions_ne_nil {ns : List FilterNode} {cs : List Condition}
    (h : conditions ns = .ok cs) (hne : ns ≠ []) : cs ≠ [] := by
  rintro rfl
  exact hne (List.forall₂_nil_right_iff.1 (conditions_eq_ok.1 h))

/-- A node that states nothing else asks for all of some nodes. -/
theorem all_ne_nil {n : FilterNode} {c : Condition} (h : n.condition = .ok c)
    (hany : n.any.getD [] = []) (hneg : n.negated = none) (hs : n.fields.stated = []) :
    n.all.getD [] ≠ [] := by
  rcases of_check (check_of_condition h) with ⟨ha, -⟩ | ⟨-, hb, -⟩ | ⟨-, -, hn, -⟩ | ⟨-, -, -, p, hp⟩
  · exact ha
  · exact absurd hany hb
  · rw [hneg] at hn
    cases hn
  · rw [hs] at hp
    cases hp

/-- What holds of all nodes that a condition can have, and of the leaves for what the nodes state,
holds of all parts of the condition of a node. -/
theorem everywhere_of_condition {N : FilterNode → Prop} {P : Condition → Prop} {n : FilterNode}
    {c : Condition} (hn : n.Every N) (h : n.condition = .ok c)
    (hjoin : ∀ op cs, op = .and ∨ op = .or → cs ≠ [] → (∀ c ∈ cs, c.Everywhere P) →
      P (.node op cs))
    (hnot : ∀ c, c.Everywhere P → P (.node .not [c]))
    (hleaf : ∀ m p, N m → p ∈ m.fields.stated →
      P (.leaf { field := p.1, args := [p.2], raw := m.raw })) : c.Everywhere P := by
  induction hn generalizing c with
  | @mk n hN _ _ _ ihall ihany ihneg =>
    rcases of_condition h with ⟨cs, hcs, hb, hneg, hs, rfl⟩ | ⟨cs, -, hne, hcs, -, -, rfl⟩ |
      ⟨m, d, -, -, hm, hd, -, rfl⟩ | ⟨p, -, -, -, hp, rfl⟩
    · have hchildren := forall_mem_conditions hcs ihall
      have hne := conditions_ne_nil hcs (all_ne_nil h hb hneg hs)
      exact .node (hjoin _ _ (.inl rfl) hne hchildren) hchildren
    · have hchildren := forall_mem_conditions hcs ihany
      exact .node (hjoin _ _ (.inr rfl) (conditions_ne_nil hcs hne) hchildren) hchildren
    · have hd' := ihneg m hm hd
      exact .node (hnot d hd') (by simpa using hd')
    · exact .leaf (hleaf n p hN (by simp [hp]))

/-- The condition of a node is not empty anywhere, and its leaves have no grouping. -/
theorem filled_of_condition {n : FilterNode} {c : Condition} (h : n.condition = .ok c) :
    c.Everywhere Condition.Filled ∧ c.Everywhere Condition.Lone ∧ c.Grouped .unset := by
  have hn : n.Every fun _ => True := every_of_forall (fun _ => trivial) n
  have hunset : c.Everywhere (Condition.OfLeaves fun l => l.grouping = .unset) :=
    everywhere_of_condition hn h (fun _ _ _ _ _ => trivial) (fun _ _ => trivial)
      fun _ _ _ _ => rfl
  have halone : ∀ {d : Condition}, d.OfLeaves (fun l => l.grouping = .unset) →
      d.Grouped .unset := by
    intro d hd
    cases d with
    | leaf l => exact fun _ => hd
    | node op cs => trivial
  refine ⟨everywhere_of_condition hn h ?_ ?_ ?_, ?_, halone hunset.root⟩
  · rintro op cs hop hne -
    refine ⟨?_, hne, ?_⟩ <;> rintro rfl <;> simp at hop
  · exact fun d _ => ⟨by simp, by simp, fun _ => rfl⟩
  · exact fun m p _ _ => List.cons_ne_nil _ _
  · clear h
    induction hunset with
    | leaf => exact .leaf trivial
    | node _ hcs ih => exact .node (fun _ c hc => halone (hcs c hc).root) ih

end FilterNode

end MailRules
