import MailRules.Proofs.Condition.Leaves

/-!
# Simplified conditions stay as they are

A condition in normal form whose children are in order is its own simplified form, and no other
condition is.

* A round that counts nothing is no identity: it moves the leaves of a node behind its other
  children.  Arrangement moves them back, since a rank tells the leaves that were moved
  (`mergeSort_mergeSiblings`), so that both together change nothing (`arrange_mergeLeaves`).
* `simplify_eq_self_iff` are the fixed points.  `rounds_reach_normal_form` says that and how the
  rounds end, `simplify_idempotent` that a second simplification does nothing.
-/

namespace MailRules

namespace Condition

section

variable {c : Condition} {op : Operation} {cs : List Condition}

/-! ### Moved leaves -/

/-- A settled node takes further arguments by the leaves of its operation, and by no others. -/
theorem isSome_mergeableLeaf? (h : (node op cs).Settled) (ho : op ≠ .not) (hlen : 1 < cs.length)
    (hc : c ∈ cs) :
    (c.mergeableLeaf? op).isSome = (c.isLeaf && decide (c.rootOperation = op)) := by
  cases c with
  | node o es => rfl
  | leaf l =>
    have hgroup : (leaf l).mergeableLeaf? op = some l → l.grouping = op := fun hl =>
      (h ho hlen).1 l (List.mem_filterMap.2 ⟨_, hc, hl⟩)
    have hmerge : l.grouping = op → (leaf l).mergeableLeaf? op = some l := fun hl =>
      mergeableLeaf?_eq_some.2 ⟨rfl, .inr hl⟩
    have hself : ((leaf l).mergeableLeaf? op).isSome ↔ (leaf l).mergeableLeaf? op = some l := by
      rw [Option.isSome_iff_exists]
      refine ⟨fun ⟨k, hk⟩ => ?_, fun hl => ⟨l, hl⟩⟩
      rw [hk, leaf.inj (mergeableLeaf?_eq_some.1 hk).1]
    rw [Bool.eq_iff_iff, hself, isLeaf, rootOperation, Bool.true_and, decide_eq_true_iff]
    exact ⟨hgroup, hmerge⟩

/-- Arrangement undoes what merging does to the children of a settled node. -/
theorem mergeSort_mergeSiblings (hf : (node op cs).Filled) (hs : (node op cs).Settled)
    (ho : (node op cs).Ordered) :
    ((mergeSiblings op cs).mergeSort fun c d => c.rank ≤ d.rank) = cs := by
  by_cases hlen : cs.length ≤ 1
  · rw [mergeSiblings_of_length_le hlen]
    exact List.mergeSort_of_pairwise (ho.imp fun h => decide_eq_true h)
  · have hnot : op ≠ .not := fun hop => hlen (Nat.le_of_eq (hf.2.2 hop))
    have hkind : ∀ c ∈ cs, (c.mergeableLeaf? op).isSome =
        (c.isLeaf && decide (c.rootOperation = op)) :=
      fun c hc => isSome_mergeableLeaf? hs hnot (by omega) hc
    rw [mergeSiblings_of_settled hs hnot (by omega), List.filter_congr hkind,
      List.filter_congr fun c hc => congrArg not (hkind c hc)]
    refine mergeSort_parted (fun {c d} h => ?_) ho
    obtain ⟨hleaf, hop, -⟩ := of_rank_eq h
    rw [hleaf, hop]

/-- What is done to the children before they are merged can be undone afterwards, if it leaves alone
what they offer. -/
theorem map_mergeSiblings {f g : Condition → Condition}
    (hf : ∀ c ∈ cs, (f c).mergeableLeaf? op = c.mergeableLeaf? op) (hg : ∀ c ∈ cs, g (f c) = c)
    (hleaf : ∀ l, g (leaf l) = leaf l) :
    (mergeSiblings op (cs.map f)).map g = mergeSiblings op cs := by
  have hback : ∀ ds : List Condition, (∀ d ∈ ds, d ∈ cs) → (ds.map f).map g = ds := by
    intro ds hds
    rw [List.map_map]
    exact (List.map_congr_left fun d hd => hg d (hds d hd)).trans (List.map_id' ds)
  unfold mergeSiblings
  rw [List.length_map]
  split_ifs
  · exact hback cs fun _ hd => hd
  · have hrest : (cs.map f).filter (fun c => (c.mergeableLeaf? op).isNone) =
        (cs.filter fun c => (c.mergeableLeaf? op).isNone).map f := by
      rw [List.filter_map]
      exact congrArg _ (List.filter_congr fun c hc => congrArg Option.isNone (hf c hc))
    have hoffered :
        (cs.map f).filterMap (mergeableLeaf? op) = cs.filterMap (mergeableLeaf? op) := by
      rw [List.filterMap_map]
      exact List.filterMap_congr hf
    rw [hrest, hoffered, List.map_append, hback _ fun _ hd => (List.mem_filter.1 hd).1,
      List.map_map]
    simp [Function.comp_def, hleaf]

theorem arrange_mergeLeaves (hn : Everywhere Normal c) (ho : Everywhere Ordered c) :
    c.mergeLeaves.arrange = c := by
  induction hn with
  | leaf => simp
  | node h _ ih =>
    obtain ⟨hroot, hcs⟩ := everywhere_node.1 ho
    rw [mergeLeaves_node, arrange_node,
      map_mergeSiblings (fun _ _ => mergeableLeaf?_mergeLeaves _) (fun c hc => ih c hc (hcs c hc))
        fun _ => arrange_leaf,
      mergeSort_mergeSiblings h.filled h.settled hroot]

/-! ### Fixed points -/

theorem simplify_of_normal (hn : Everywhere Normal c) (ho : Everywhere Ordered c) :
    c.simplify = c := by
  have hcount : c.roundCount = 0 :=
    (roundCount_eq_zero_iff (hn.imp fun _ => Normal.filled)).2 hn
  rw [simplify, maxRounds, rounds, if_pos hcount, round_of_normal hn, arrange_mergeLeaves hn ho]

/-- **Simplification leaves alone what is normal and ordered**, and nothing else. -/
theorem simplify_eq_self_iff (h : Everywhere Filled c) :
    c.simplify = c ↔ Everywhere Normal c ∧ Everywhere Ordered c := by
  constructor
  · intro hc
    rw [← hc]
    exact normal_simplify h
  · rintro ⟨hn, ho⟩
    exact simplify_of_normal hn ho

end

/-- **The rounds end by themselves, in normal form.**  At most two rounds change something and the
next finds nothing to change, so that the bound on the rounds never cuts them off; what they lead to
is arranged in normal form.  The conditions of written nodes are among those that this is about. -/
theorem rounds_reach_normal_form :
    (∀ (n : FilterNode) (c : Condition), n.condition = .ok c → Everywhere Filled c) ∧
    ∀ c : Condition, Everywhere Filled c →
      (∃ k, k + 1 < maxRounds ∧ c.EndsAfter k ∧ c.rounds maxRounds = round^[k + 1] c) ∧
        Everywhere Normal c.simplify ∧ Everywhere Ordered c.simplify := by
  refine ⟨fun n c h => (FilterNode.filled_of_condition h).1, fun c h => ⟨?_, normal_simplify h⟩⟩
  obtain ⟨k, hk, hends⟩ := endsAfter_of_filled h
  exact ⟨k, Nat.lt_of_le_of_lt (Nat.succ_le_succ hk) (by decide),
    hends, rounds_of_endsAfter hends (by omega)⟩

/-- Two matches behind a double negation, beside a third. -/
def doublyNegated : Condition :=
  .node .and [
    .node .not [.node .not [.node .and [.leaf { field := .sender, args := ["a"] },
      .leaf { field := .subject, args := ["b"] }]]],
    .leaf { field := .sender, args := ["c"] }]

/-- How `doublyNegated` is written. -/
def doublyNegatedNode : FilterNode where
  all := some [
    { negated := some { negated := some { all := some [
        { fields := { sender := some "a" } }, { fields := { subject := some "b" } }] } } },
    { fields := { sender := some "c" } }]

/-- The first round uncovers an "and" in an "and", so that the second has something to do. -/
theorem rounds_reach_normal_form_doublyNegated :
    (doublyNegatedNode.condition = .ok doublyNegated ∧ Everywhere Filled doublyNegated) ∧
      (∃ k, k + 1 < maxRounds ∧ doublyNegated.EndsAfter k ∧
        doublyNegated.rounds maxRounds = round^[k + 1] doublyNegated) ∧
      Everywhere Normal doublyNegated.simplify ∧ Everywhere Ordered doublyNegated.simplify := by
  have hcond : doublyNegatedNode.condition = .ok doublyNegated := rfl
  have hfilled := rounds_reach_normal_form.1 _ _ hcond
  exact ⟨⟨hcond, hfilled⟩, rounds_reach_normal_form.2 _ hfilled⟩

example : doublyNegated.EndsAfter 2 := ⟨by decide, by decide⟩

/-- **Simplifying twice is simplifying once.** -/
theorem simplify_idempotent :
    (∀ c : Condition, Everywhere Filled c → c.simplify.simplify = c.simplify) ∧
    ∀ (n : FilterNode) (c : Condition), n.condition = .ok c →
      c.simplify.simplify = c.simplify := by
  have hfixed : ∀ c : Condition, Everywhere Filled c → c.simplify.simplify = c.simplify := by
    intro c h
    obtain ⟨hn, ho⟩ := normal_simplify h
    exact simplify_of_normal hn ho
  exact ⟨hfixed, fun n c h => hfixed c (FilterNode.filled_of_condition h).1⟩

/-- Leaves of one field, of which a node merges the first and the third and moves them behind the
second. -/
def sameField : Condition :=
  .node .and [.leaf { field := .sender, args := ["a"] },
    .leaf { field := .sender, grouping := .or, args := ["b", "c"] },
    .leaf { field := .sender, grouping := .and, args := ["d", "e"], raw := true }]

/-- Negations that rank equally, between leaves that are merged. -/
def negatedLists : FilterNode where
  any := some [
    { negated := some { fields := { list := some "a" } } }, { fields := { cc := some "b" } },
    { negated := some { fields := { list := some "c" } } }, { fields := { cc := some "d" } }]

theorem simplify_idempotent_sameField :
    (Everywhere Filled sameField ∧ sameField.simplify.simplify = sameField.simplify) ∧
      ∃ c, negatedLists.condition = .ok c ∧ c.simplify.simplify = c.simplify := by
  have hfilled : Everywhere Filled sameField := by
    simp [sameField, everywhere_node, Filled]
  obtain ⟨c, hc⟩ : ∃ c, negatedLists.condition = .ok c := ⟨_, rfl⟩
  exact ⟨⟨hfilled, simplify_idempotent.1 _ hfilled⟩, c, hc, simplify_idempotent.2 _ _ hc⟩

end Condition

end MailRules
