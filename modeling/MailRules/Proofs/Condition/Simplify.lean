import MailRules.Condition.Simplify
import MailRules.Proofs.Condition.Meaning
import Mathlib.Data.List.Flatten
import Mathlib.Data.List.Perm.Basic

/-!
# Simplification keeps the meaning

Each of the three steps of a round, and the arrangement at the end, keeps a meaningful condition
meaningful and leaves its truth as it is.

* `holds_flatten`, `holds_mergeLeaves`, `holds_collapse` and `holds_arrange` are the steps; the
  first two come down to `joined_flatten`, since inlining and merging only move children and
  arguments between lists that one operation joins.
* `pairs_mergeAll` is the reason why merging loses nothing: the pairs of the merged leaves are
  those of the leaves, in another order.
* `holds_simplified` is the whole simplification.
-/

namespace MailRules

namespace Condition

variable {v : Field × String → Bool}

/-! ### Inlining -/

theorem joined_inlined {op : Operation} (h : op ≠ .not) (c : Condition) :
    op.joined ((inlined op c).map (holds v)) = c.holds v := by
  cases c with
  | leaf l => simp [inlined]
  | node op' cs =>
    simp only [inlined]
    split_ifs with ho
    · rw [← ho, holds_node v (ho ▸ h)]
    · simp

theorem holds_inlineAll (op : Operation) (cs : List Condition) :
    (node op (inlineAll op cs)).holds v = (node op cs).holds v := by
  refine holds_node_congr v (fun h => ?_) (fun h => by simp [inlineAll, h])
  simp only [inlineAll, h, if_false, List.map_flatMap]
  rw [List.flatMap_def, Operation.joined_flatten, List.map_map]
  congr 1
  exact List.map_congr_left fun c _ => joined_inlined h c

theorem holds_flatten (c : Condition) : c.flatten.holds v = c.holds v := by
  induction c with
  | leaf l => simp [flatten]
  | node op cs ih =>
    rw [flatten, holds_inlineAll, flattenAll_eq_map]
    have hcs : (cs.map flatten).map (holds v) = cs.map (holds v) := by
      rw [List.map_map]; exact List.map_congr_left ih
    exact holds_node_perm v op (.of_eq hcs)

theorem meaningful_inlined {op : Operation} {c d : Condition} (hc : c.Meaningful)
    (hd : d ∈ inlined op c) : d.Meaningful := by
  cases c with
  | leaf l => simp only [inlined, List.mem_singleton] at hd; exact hd ▸ hc
  | node op' cs =>
    simp only [inlined] at hd
    split_ifs at hd
    · exact (meaningful_node.1 hc).2 d hd
    · simp only [List.mem_singleton] at hd; exact hd ▸ hc

theorem Meaningful.flatten {c : Condition} (h : c.Meaningful) : c.flatten.Meaningful := by
  induction c with
  | leaf l => simpa [Condition.flatten] using h
  | node op cs ih =>
    obtain ⟨ht, hcs⟩ := meaningful_node.1 h
    have hmap : ∀ d ∈ cs.map Condition.flatten, d.Meaningful := by
      intro d hd
      obtain ⟨c, hc, rfl⟩ := List.mem_map.1 hd
      exact ih c hc (hcs c hc)
    rw [Condition.flatten, flattenAll_eq_map, meaningful_node]
    by_cases ho : op = .not
    · subst ho
      exact ⟨by simpa [inlineAll] using ht, by simpa only [inlineAll, if_true] using hmap⟩
    · refine ⟨by cases op <;> simp_all [Operation.Takes], fun d hd => ?_⟩
      simp only [inlineAll, ho, if_false, List.mem_flatMap] at hd
      obtain ⟨c, hc, hd⟩ := hd
      exact meaningful_inlined (hmap c hc) hd

/-! ### Merging -/

theorem pairs_mergeInto (op : Operation) (l : Leaf) (ts : List Leaf) :
    ((l.mergeInto op ts).flatMap Leaf.pairs).Perm (ts.flatMap Leaf.pairs ++ l.pairs) := by
  induction ts with
  | nil => simp [Leaf.mergeInto, Leaf.pairs]
  | cons t ts ih =>
    simp only [Leaf.mergeInto]
    split_ifs with h
    · -- the arguments of `l` end up in the middle, before those of `ts`
      simp only [List.flatMap_cons, Leaf.pairs, List.map_append, h, List.append_assoc]
      exact List.perm_append_comm.append_left _
    · simpa [List.flatMap_cons] using ih.append_left t.pairs

/-- **Merging loses no argument and repeats none.** -/
theorem pairs_mergeAll (op : Operation) (ls : List Leaf) :
    ((Leaf.mergeAll op ls).flatMap Leaf.pairs).Perm (ls.flatMap Leaf.pairs) := by
  have h : ∀ ts : List Leaf, ((ls.foldl (fun merged l => Leaf.mergeInto op l merged) ts).flatMap
      Leaf.pairs).Perm (ts.flatMap Leaf.pairs ++ ls.flatMap Leaf.pairs) := by
    induction ls with
    | nil => intro ts; simp
    | cons l ls ih =>
      intro ts
      refine (ih _).trans ?_
      simpa [List.flatMap_cons] using (pairs_mergeInto op l ts).append_right (ls.flatMap Leaf.pairs)
  simpa [Leaf.mergeAll] using h []

/-- Leaves as merging leaves them: grouped by one operation, and with arguments. -/
def Merged (op : Operation) (ts : List Leaf) : Prop :=
  ∀ t ∈ ts, t.grouping = op ∧ t.args ≠ []

theorem Merged.mergeInto {op : Operation} {l : Leaf} {ts : List Leaf} (h : Merged op ts)
    (hl : l.args ≠ []) : Merged op (l.mergeInto op ts) := by
  induction ts with
  | nil => simpa [Merged, Leaf.mergeInto] using hl
  | cons t ts ih =>
    have ht := h t List.mem_cons_self
    have hts : Merged op ts := fun t' ht' => h t' (List.mem_cons_of_mem _ ht')
    simp only [Leaf.mergeInto]
    split_ifs with hf
    · intro t' ht'
      rcases List.mem_cons.1 ht' with rfl | ht'
      · exact ⟨ht.1, by simp [ht.2]⟩
      · exact hts t' ht'
    · intro t' ht'
      rcases List.mem_cons.1 ht' with rfl | ht'
      · exact ht
      · exact ih hts t' ht'

theorem merged_mergeAll {op : Operation} {ls : List Leaf} (h : ∀ l ∈ ls, l.args ≠ []) :
    Merged op (Leaf.mergeAll op ls) := by
  have hf : ∀ ts : List Leaf, Merged op ts →
      Merged op (ls.foldl (fun merged l => Leaf.mergeInto op l merged) ts) := by
    induction ls with
    | nil => exact fun ts hts => hts
    | cons l ls ih =>
      exact fun ts hts => ih (fun l' hl' => h l' (List.mem_cons_of_mem _ hl')) _
        (hts.mergeInto (h l List.mem_cons_self))
  exact hf [] (by simp [Merged])

/-- The leaf that a child offers for merging is that child. -/
theorem mergeableLeaf?_eq_some {op : Operation} {c : Condition} {l : Leaf} :
    c.mergeableLeaf? op = some l ↔ c = leaf l ∧ (l.args.length ≤ 1 ∨ l.grouping = op) := by
  cases c with
  | node op' cs => simp [mergeableLeaf?]
  | leaf l' =>
    simp only [mergeableLeaf?, Leaf.mergeable, Bool.or_eq_true, decide_eq_true_eq,
      Option.ite_none_right_eq_some, Option.some.injEq, leaf.injEq]
    constructor
    · rintro ⟨h, rfl⟩; exact ⟨rfl, h⟩
    · rintro ⟨rfl, h⟩; exact ⟨h, rfl⟩

/-- Joined by their operation, merged leaves mean their pairs. -/
theorem joined_leaves {op : Operation} {ls : List Leaf}
    (h : ∀ l ∈ ls, l.holds v = op.joined (l.pairs.map v)) :
    op.joined (ls.map (Leaf.holds v)) = op.joined ((ls.flatMap Leaf.pairs).map v) := by
  rw [List.map_flatMap, List.flatMap_def, Operation.joined_flatten, List.map_map]
  congr 1
  exact List.map_congr_left h

/-- Children split into those that cannot be merged and the leaves of the others. -/
theorem joined_mergeable (op : Operation) (cs : List Condition) :
    op.joined (cs.map (holds v)) = op.joined
      ((cs.filter fun c => (c.mergeableLeaf? op).isNone).map (holds v) ++
        (cs.filterMap (mergeableLeaf? op)).map (Leaf.holds v)) := by
  refine Operation.joined_perm ?_
  induction cs with
  | nil => simp
  | cons c cs ih =>
    cases hc : c.mergeableLeaf? op with
    | none => simpa [List.filter_cons, List.filterMap_cons, hc] using ih.cons (c.holds v)
    | some l =>
      obtain ⟨rfl, -⟩ := mergeableLeaf?_eq_some.1 hc
      simp only [List.filter_cons, hc, Option.isNone_some, Bool.false_eq_true, if_false,
        List.filterMap_cons, List.map_cons, holds_leaf]
      exact (ih.cons _).trans List.perm_middle.symm

/-- Merged by an operation, leaves that it can take mean what they mean apart. -/
theorem joined_mergeAll {op : Operation} {ls : List Leaf}
    (h : ∀ l ∈ ls, l.Meaningful ∧ (l.args.length ≤ 1 ∨ l.grouping = op)) :
    op.joined ((Leaf.mergeAll op ls).map (Leaf.holds v)) = op.joined (ls.map (Leaf.holds v)) := by
  have hm : Merged op (Leaf.mergeAll op ls) := merged_mergeAll fun l hl => (h l hl).1.1
  calc op.joined ((Leaf.mergeAll op ls).map (Leaf.holds v))
      = op.joined (((Leaf.mergeAll op ls).flatMap Leaf.pairs).map v) :=
        joined_leaves fun t ht => by rw [Leaf.holds, (hm t ht).1]
    _ = op.joined ((ls.flatMap Leaf.pairs).map v) :=
        Operation.joined_perm ((pairs_mergeAll op ls).map v)
    _ = op.joined (ls.map (Leaf.holds v)) :=
        (joined_leaves fun l hl => Leaf.holds_of_mergeable (h l hl).1 (h l hl).2).symm

/-- The leaves that meaningful children offer are meaningful, and their operation can take them. -/
theorem of_mem_mergeable {op : Operation} {cs : List Condition} {l : Leaf}
    (hcs : ∀ c ∈ cs, c.Meaningful) (hl : l ∈ cs.filterMap (mergeableLeaf? op)) :
    l.Meaningful ∧ (l.args.length ≤ 1 ∨ l.grouping = op) := by
  obtain ⟨c, hc, hcl⟩ := List.mem_filterMap.1 hl
  obtain ⟨rfl, hm⟩ := mergeableLeaf?_eq_some.1 hcl
  exact ⟨meaningful_leaf.1 (hcs _ hc), hm⟩

/-- A negation has nothing to merge, since it has one child. -/
theorem mergeSiblings_not {cs : List Condition} (h : Operation.not.Takes cs.length) :
    mergeSiblings .not cs = cs := by
  have hlen : cs.length = 1 := h
  simp [mergeSiblings, hlen]

theorem holds_mergeSiblings {op : Operation} {cs : List Condition}
    (h : (node op cs).Meaningful) :
    (node op (mergeSiblings op cs)).holds v = (node op cs).holds v := by
  obtain ⟨ht, hcs⟩ := meaningful_node.1 h
  refine holds_node_congr v (fun _ => ?_) (fun ho => by subst ho; exact mergeSiblings_not ht)
  by_cases hlen : cs.length ≤ 1
  · simp only [mergeSiblings, hlen, if_true]
  · have hmerge : op.joined ((Leaf.mergeAll op (cs.filterMap (mergeableLeaf? op))).map
        (Leaf.holds v)) = op.joined ((cs.filterMap (mergeableLeaf? op)).map (Leaf.holds v)) :=
      joined_mergeAll fun l hl => of_mem_mergeable hcs hl
    rw [joined_mergeable op cs, Operation.joined_append, ← hmerge, ← Operation.joined_append]
    simp only [mergeSiblings, hlen, if_false, List.map_append, List.map_map, Function.comp_def,
      holds_leaf]

theorem meaningful_mergeSiblings {op : Operation} {cs : List Condition}
    (h : (node op cs).Meaningful) : (node op (mergeSiblings op cs)).Meaningful := by
  obtain ⟨ht, hcs⟩ := meaningful_node.1 h
  by_cases ho : op = .not
  · subst ho; rwa [mergeSiblings_not ht]
  · refine meaningful_node.2 ⟨by cases op <;> simp_all [Operation.Takes], fun d hd => ?_⟩
    simp only [mergeSiblings] at hd
    split_ifs at hd
    · exact hcs d hd
    · rcases List.mem_append.1 hd with hd | hd
      · exact hcs d (List.mem_filter.1 hd).1
      · obtain ⟨t, htm, rfl⟩ := List.mem_map.1 hd
        have hm : t.grouping = op ∧ t.args ≠ [] :=
          merged_mergeAll (fun l hl => (of_mem_mergeable hcs hl).1.1) t htm
        -- a merged leaf is grouped by the operation of its node, which is "and" or "or"
        refine meaningful_leaf.2 ⟨hm.2, fun _ => ?_⟩
        rw [hm.1]
        cases op <;> simp_all [Operation.Takes]

theorem Meaningful.mergeLeaves {c : Condition} (h : c.Meaningful) : c.mergeLeaves.Meaningful := by
  induction c with
  | leaf l => simpa [Condition.mergeLeaves] using h
  | node op cs ih =>
    obtain ⟨ht, hcs⟩ := meaningful_node.1 h
    rw [Condition.mergeLeaves, mergeLeavesAll_eq_map]
    refine meaningful_mergeSiblings (meaningful_node.2 ⟨by simpa using ht, fun d hd => ?_⟩)
    obtain ⟨c, hc, rfl⟩ := List.mem_map.1 hd
    exact ih c hc (hcs c hc)

theorem holds_mergeLeaves {c : Condition} (h : c.Meaningful) :
    c.mergeLeaves.holds v = c.holds v := by
  induction c with
  | leaf l => simp [mergeLeaves]
  | node op cs ih =>
    obtain ⟨ht, hcs⟩ := meaningful_node.1 h
    have hmap : (cs.map mergeLeaves).map (holds v) = cs.map (holds v) := by
      rw [List.map_map]; exact List.map_congr_left fun c hc => ih c hc (hcs c hc)
    have hm : (node op (cs.map mergeLeaves)).Meaningful := by
      refine meaningful_node.2 ⟨by simpa using ht, fun d hd => ?_⟩
      obtain ⟨c, hc, rfl⟩ := List.mem_map.1 hd
      exact (hcs c hc).mergeLeaves
    rw [mergeLeaves, mergeLeavesAll_eq_map, holds_mergeSiblings hm]
    exact holds_node_perm v op (.of_eq hmap)

/-! ### Redundant nodes -/

/-- A node that reduces is a double negation, or no negation and has one child. -/
theorem reduct?_eq_some {op : Operation} {cs : List Condition} {d : Condition} :
    reduct? op cs = some d ↔
      (op = .not ∧ cs = [node .not [d]]) ∨ (op ≠ .not ∧ cs = [d]) := by
  unfold reduct?
  split <;> simp_all

theorem holds_reduced (op : Operation) (cs : List Condition) :
    (reduced op cs).holds v = (node op cs).holds v := by
  simp only [reduced]
  cases hr : reduct? op cs with
  | none => rfl
  | some d =>
    rcases reduct?_eq_some.1 hr with ⟨rfl, rfl⟩ | ⟨ho, rfl⟩
    · simp
    · simp [holds_node v ho]

theorem meaningful_reduced {op : Operation} {cs : List Condition} (h : (node op cs).Meaningful) :
    (reduced op cs).Meaningful := by
  simp only [reduced]
  cases hr : reduct? op cs with
  | none => exact h
  | some d =>
    rcases reduct?_eq_some.1 hr with ⟨rfl, rfl⟩ | ⟨-, rfl⟩
    · have := (meaningful_node.1 h).2 _ List.mem_cons_self
      exact (meaningful_node.1 this).2 d List.mem_cons_self
    · exact (meaningful_node.1 h).2 d List.mem_cons_self

theorem Meaningful.collapse {c : Condition} (h : c.Meaningful) : c.collapse.Meaningful := by
  induction c with
  | leaf l => simpa [Condition.collapse] using h
  | node op cs ih =>
    obtain ⟨ht, hcs⟩ := meaningful_node.1 h
    rw [Condition.collapse, collapseAll_eq_map]
    refine meaningful_reduced (meaningful_node.2 ⟨by simpa using ht, fun d hd => ?_⟩)
    obtain ⟨c, hc, rfl⟩ := List.mem_map.1 hd
    exact ih c hc (hcs c hc)

theorem holds_collapse (c : Condition) : c.collapse.holds v = c.holds v := by
  induction c with
  | leaf l => simp [collapse]
  | node op cs ih =>
    rw [collapse, collapseAll_eq_map, holds_reduced]
    have hcs : (cs.map collapse).map (holds v) = cs.map (holds v) := by
      rw [List.map_map]; exact List.map_congr_left ih
    exact holds_node_perm v op (.of_eq hcs)

/-! ### Arrangement -/

theorem holds_arrange (c : Condition) : c.arrange.holds v = c.holds v := by
  induction c with
  | leaf l => simp [arrange]
  | node op cs ih =>
    have hcs : (cs.map arrange).map (holds v) = cs.map (holds v) := by
      rw [List.map_map]; exact List.map_congr_left ih
    rw [arrange, arrangeAll_eq_map]
    exact holds_node_perm v op (hcs ▸ (List.mergeSort_perm _ _).map _)

theorem Meaningful.arrange {c : Condition} (h : c.Meaningful) : c.arrange.Meaningful := by
  induction c with
  | leaf l => simpa [Condition.arrange] using h
  | node op cs ih =>
    obtain ⟨ht, hcs⟩ := meaningful_node.1 h
    rw [Condition.arrange, arrangeAll_eq_map]
    refine meaningful_node.2 ⟨by simpa using ht, fun d hd => ?_⟩
    obtain ⟨c, hc, rfl⟩ := List.mem_map.1 (List.mem_mergeSort.1 hd)
    exact ih c hc (hcs c hc)

/-! ### The whole simplification -/

theorem Meaningful.round {c : Condition} (h : c.Meaningful) : c.round.Meaningful :=
  h.flatten.mergeLeaves.collapse

theorem holds_round {c : Condition} (h : c.Meaningful) : c.round.holds v = c.holds v := by
  rw [round, holds_collapse, holds_mergeLeaves h.flatten, holds_flatten]

/-- What a round keeps, any number of rounds keeps. -/
theorem rounds_keep {P : Condition → Prop} (hround : ∀ c, P c → P c.round) (n : Nat)
    {c : Condition} (h : P c) : P (c.rounds n) := by
  fun_induction rounds n c with
  | case1 => exact h
  | case2 => exact hround _ h
  | case3 n c _ ih => exact ih (hround c h)

theorem Meaningful.rounds {c : Condition} (h : c.Meaningful) (n : Nat) :
    (c.rounds n).Meaningful :=
  rounds_keep (P := Meaningful) (fun _ hc => hc.round) n h

theorem holds_rounds {c : Condition} (h : c.Meaningful) (n : Nat) :
    (c.rounds n).holds v = c.holds v := by
  have hkeep : ∀ d : Condition, d.Meaningful ∧ d.holds v = c.holds v →
      d.round.Meaningful ∧ d.round.holds v = c.holds v :=
    fun d hd => ⟨hd.1.round, (holds_round hd.1).trans hd.2⟩
  exact (rounds_keep hkeep n ⟨h, rfl⟩).2

theorem Meaningful.simplify {c : Condition} (h : c.Meaningful) : c.simplify.Meaningful :=
  (h.rounds maxRounds).arrange

/-- **Simplification keeps the meaning**, however many rounds it takes. -/
theorem holds_simplified {c : Condition} (h : c.Meaningful) :
    c.simplify.holds v = c.holds v := by
  rw [simplify, holds_arrange, holds_rounds h]

/-- **The simplified form says the same.**  It has a meaning if the condition has one, and then the
two are true of the same messages. -/
theorem simplify_equivalent {c : Condition} (h : c.Meaningful) :
    c.simplify.Meaningful ∧ ∀ v, c.simplify.holds v = c.holds v :=
  ⟨h.simplify, fun _ => holds_simplified h⟩

/-- Empty nodes, a leaf that its node must not merge, and one that a double negation keeps from its
siblings. -/
def emptyParts : Condition :=
  .node .or [
    .node .or [],
    .node .and [
      .leaf { field := .sender, grouping := .or, args := ["a", "b"] },
      .leaf { field := .sender, args := ["c"] },
      .node .not [.node .not [.leaf { field := .sender, args := ["d"] }]],
      .node .and []]]

theorem simplify_equivalent_emptyParts :
    emptyParts.Meaningful ∧ emptyParts.holds (fun p => p.2 ≠ "a") = true ∧
      emptyParts.simplify.Meaningful ∧
      emptyParts.simplify.holds (fun p => p.2 ≠ "a") = emptyParts.holds fun p => p.2 ≠ "a" := by
  have hmeans : emptyParts.Meaningful := by
    simp [emptyParts, Leaf.Meaningful, Operation.Takes]
  obtain ⟨hsimple, hsame⟩ := simplify_equivalent hmeans
  exact ⟨hmeans, by decide, hsimple, hsame _⟩

end Condition

end MailRules
