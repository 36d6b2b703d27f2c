import MailRules.Proofs.Condition.Simplify
import Mathlib.Data.List.Nodup
import Mathlib.Tactic.SplitIfs

/-!
# The normal form of a condition

What the three steps of a round make of a condition, and what they leave as it is.

* `Everywhere` is a property of the root of a condition and of all its parts.
* `Filled` is what is asked of a condition: no part is empty.  `Tight`, `Flat` and `Settled` are the
  normal form: no node is redundant, none stands in a node of its own operation, and the leaves of
  a node are merged.  `Ordered` is the arrangement of children.
* Inlining makes a condition flat (`flat_flatten`), merging settles it (`settled_mergeLeaves`), and
  collapsing makes it tight (`tight_collapse`).  Collapsing does not undo the other two, if the
  condition was tight before the round: merging leaves nodes redundant only in one way (`Loose`),
  and what remains of these takes part in nothing (`mergeableLeaf?_collapse`).
* `Normal` puts the properties of the normal form together.
-/

namespace MailRules

/-! ### Merged leaves -/

namespace Leaf

theorem fields_mergeInto (op : Operation) (l : Leaf) (ts : List Leaf) :
    (l.mergeInto op ts).map Leaf.field =
      if l.field ∈ ts.map Leaf.field then ts.map Leaf.field
      else ts.map Leaf.field ++ [l.field] := by
  induction ts with
  | nil => simp [mergeInto]
  | cons t ts ih =>
    unfold mergeInto
    by_cases h : t.field = l.field
    · simp [h]
    · rw [if_neg h, List.map_cons, ih]
      have h' : ¬l.field = t.field := fun heq => h heq.symm
      by_cases hm : l.field ∈ ts.map Leaf.field <;> simp [hm, h']

/-- Merged leaves are of different fields. -/
theorem fields_mergeAll_nodup (op : Operation) (ls : List Leaf) :
    ((mergeAll op ls).map Leaf.field).Nodup := by
  have hfold : ∀ ts : List Leaf, (ts.map Leaf.field).Nodup →
      ((ls.foldl (fun merged l => mergeInto op l merged) ts).map Leaf.field).Nodup := by
    induction ls with
    | nil => exact fun ts hts => hts
    | cons l ls ih =>
      intro ts hts
      refine ih _ ?_
      rw [fields_mergeInto]
      split_ifs with hl
      · exact hts
      · rw [← List.concat_eq_append]
        exact hts.concat hl
  exact hfold [] List.nodup_nil

theorem mergeInto_of_notMem {op : Operation} {l : Leaf} {ts : List Leaf}
    (h : l.field ∉ ts.map Leaf.field) :
    l.mergeInto op ts = ts ++ [{ l with grouping := op }] := by
  induction ts with
  | nil => rfl
  | cons t ts ih =>
    rw [List.map_cons, List.mem_cons, not_or] at h
    unfold mergeInto
    rw [if_neg fun heq => h.1 heq.symm, ih h.2, List.cons_append]

/-- Leaves of different fields are not merged, but they are grouped by the operation. -/
theorem mergeAll_of_nodup (op : Operation) {ls : List Leaf} (h : (ls.map Leaf.field).Nodup) :
    mergeAll op ls = ls.map fun l => { l with grouping := op } := by
  have hfold : ∀ ts : List Leaf, ((ts ++ ls).map Leaf.field).Nodup →
      ls.foldl (fun merged l => mergeInto op l merged) ts =
        ts ++ ls.map fun l => { l with grouping := op } := by
    induction ls with
    | nil => simp
    | cons l ls ih =>
      intro ts hts
      have hl : l.field ∉ ts.map Leaf.field := by
        rw [List.map_append, List.nodup_append] at hts
        exact fun hm => hts.2.2 _ hm _ (List.mem_map_of_mem List.mem_cons_self) rfl
      rw [List.foldl_cons, mergeInto_of_notMem hl, ih (List.nodup_cons.1 h).2]
      · simp
      · simpa using hts
  simpa [mergeAll] using hfold [] (by simpa using h)

theorem mergeInto_ne_nil (op : Operation) (l : Leaf) (ts : List Leaf) : l.mergeInto op ts ≠ [] := by
  intro h
  have hf := fields_mergeInto op l ts
  rw [h] at hf
  split_ifs at hf with hl
  · rw [← hf] at hl
    cases hl
  · simp at hf

theorem mergeAll_ne_nil (op : Operation) {ls : List Leaf} (h : ls ≠ []) : mergeAll op ls ≠ [] := by
  rcases List.eq_nil_or_concat' ls with rfl | ⟨ls, l, rfl⟩
  · exact absurd rfl h
  · rw [mergeAll, List.foldl_append]
    exact mergeInto_ne_nil op l _

/-- A leaf that several leaves were merged into has several arguments. -/
theorem length_args_of_mergeAll {op : Operation} {ls : List Leaf} {t : Leaf}
    (hne : ∀ l ∈ ls, l.args ≠ []) (hlen : 1 < ls.length) (h : mergeAll op ls = [t]) :
    1 < t.args.length := by
  have hpairs := (Condition.pairs_mergeAll op ls).length_eq
  have hone : ls.length ≤ (ls.flatMap pairs).length := by
    clear hlen h hpairs
    induction ls with
    | nil => simp
    | cons l ls ih =>
      have hl : 0 < l.pairs.length := by
        simpa [pairs, List.length_pos_iff] using hne l List.mem_cons_self
      have hls := ih fun k hk => hne k (List.mem_cons_of_mem _ hk)
      simp only [List.flatMap_cons, List.length_append, List.length_cons]
      omega
  have ht : (([t] : List Leaf).flatMap pairs).length = t.args.length := by simp [pairs]
  rw [h, ht] at hpairs
  omega

end Leaf

namespace Condition

/-! ### Properties of all parts -/

/-- A property of the root of a condition and of the roots of all its parts. -/
inductive Everywhere (P : Condition → Prop) : Condition → Prop
  | leaf {l : Leaf} (root : P (.leaf l)) : Everywhere P (.leaf l)
  | node {op : Operation} {cs : List Condition} (root : P (.node op cs))
      (children : ∀ c ∈ cs, Everywhere P c) : Everywhere P (.node op cs)

section

variable {P Q : Condition → Prop} {c d : Condition} {op : Operation} {cs ds : List Condition}
  {l : Leaf}

@[simp] theorem everywhere_leaf : Everywhere P (leaf l) ↔ P (leaf l) :=
  ⟨fun h => by cases h; assumption, .leaf⟩

theorem everywhere_node :
    Everywhere P (node op cs) ↔ P (node op cs) ∧ ∀ c ∈ cs, Everywhere P c :=
  ⟨fun h => by cases h; exact ⟨‹_›, ‹_›⟩, fun h => .node h.1 h.2⟩

namespace Everywhere

theorem root (h : Everywhere P c) : P c := by
  cases h <;> assumption

theorem imp (hPQ : ∀ c, P c → Q c) (h : Everywhere P c) : Everywhere Q c := by
  induction h with
  | leaf h => exact .leaf (hPQ _ h)
  | node h _ ih => exact .node (hPQ _ h) ih

theorem and (hP : Everywhere P c) (hQ : Everywhere Q c) : Everywhere (fun c => P c ∧ Q c) c := by
  induction hP with
  | leaf h => exact .leaf ⟨h, hQ.root⟩
  | node h _ ih =>
    obtain ⟨hq, hqs⟩ := everywhere_node.1 hQ
    exact .node ⟨h, hq⟩ fun c hc => ih c hc (hqs c hc)

end Everywhere

/-! ### Passes over a condition -/

@[simp] theorem flatten_leaf : (leaf l).flatten = leaf l := by
  rw [flatten]

@[simp] theorem flatten_node : (node op cs).flatten = node op (inlineAll op (cs.map flatten)) := by
  rw [flatten, flattenAll_eq_map]

@[simp] theorem mergeLeaves_leaf : (leaf l).mergeLeaves = leaf l := by
  rw [mergeLeaves]

@[simp] theorem mergeLeaves_node :
    (node op cs).mergeLeaves = node op (mergeSiblings op (cs.map mergeLeaves)) := by
  rw [mergeLeaves, mergeLeavesAll_eq_map]

@[simp] theorem collapse_leaf : (leaf l).collapse = leaf l := by
  rw [collapse]

@[simp] theorem collapse_node : (node op cs).collapse = reduced op (cs.map collapse) := by
  rw [collapse, collapseAll_eq_map]

@[simp] theorem arrange_leaf : (leaf l).arrange = leaf l := by
  rw [arrange]

@[simp] theorem arrange_node :
    (node op cs).arrange = node op ((cs.map arrange).mergeSort fun a b => a.rank ≤ b.rank) := by
  rw [arrange, arrangeAll_eq_map]

@[simp] theorem isNodeOf_flatten (o : Operation) : c.flatten.isNodeOf o = c.isNodeOf o := by
  cases c <;> simp [isNodeOf]

@[simp] theorem isNodeOf_mergeLeaves (o : Operation) :
    c.mergeLeaves.isNodeOf o = c.isNodeOf o := by
  cases c <;> simp [isNodeOf]

@[simp] theorem isNodeOf_arrange (o : Operation) : c.arrange.isNodeOf o = c.isNodeOf o := by
  cases c <;> simp [isNodeOf]

@[simp] theorem mergeableLeaf?_arrange (o : Operation) :
    c.arrange.mergeableLeaf? o = c.mergeableLeaf? o := by
  cases c <;> simp [mergeableLeaf?]

theorem inlined_of_isNodeOf_false (h : c.isNodeOf op = false) : inlined op c = [c] := by
  cases c with
  | leaf l => rfl
  | node o cs =>
    have ho : ¬o = op := by simpa [isNodeOf] using h
    simp [inlined, ho]

/-- What a pass inlines are children or their children. -/
theorem everywhere_of_mem_inlineAll (h : ∀ c ∈ cs, Everywhere P c) (hd : d ∈ inlineAll op cs) :
    Everywhere P d := by
  unfold inlineAll at hd
  split_ifs at hd
  · exact h d hd
  · obtain ⟨c, hc, hd⟩ := List.mem_flatMap.1 hd
    cases c with
    | leaf l => exact List.mem_singleton.1 hd ▸ h _ hc
    | node o es =>
      simp only [inlined] at hd
      split_ifs at hd
      · exact (everywhere_node.1 (h _ hc)).2 d hd
      · exact List.mem_singleton.1 hd ▸ h _ hc

/-- What a pass leaves of siblings are children or merged leaves. -/
theorem everywhere_of_mem_mergeSiblings (h : ∀ c ∈ cs, Everywhere P c)
    (hleaf : ∀ t ∈ Leaf.mergeAll op (cs.filterMap (mergeableLeaf? op)), P (leaf t))
    (hd : d ∈ mergeSiblings op cs) : Everywhere P d := by
  unfold mergeSiblings at hd
  split_ifs at hd
  · exact h d hd
  · rcases List.mem_append.1 hd with hd | hd
    · exact h d (List.mem_filter.1 hd).1
    · obtain ⟨t, ht, rfl⟩ := List.mem_map.1 hd
      exact .leaf (hleaf t ht)

/-- What a pass leaves of a node is the node, or a child or a child's child. -/
theorem everywhere_reduced (h : ∀ c ∈ cs, Everywhere P c)
    (hroot : reduct? op cs = none → P (node op cs)) : Everywhere P (reduced op cs) := by
  unfold reduced
  cases hr : reduct? op cs with
  | none => exact .node (hroot hr) h
  | some d =>
    rcases reduct?_eq_some.1 hr with ⟨rfl, rfl⟩ | ⟨-, rfl⟩
    · exact (everywhere_node.1 (h _ List.mem_cons_self)).2 d List.mem_cons_self
    · exact h d List.mem_cons_self

end

/-! ### The normal form -/

/-- Nothing is empty, and a negation has one child. -/
def Filled : Condition → Prop
  | .leaf l => l.args ≠ []
  | .node op cs => op ≠ .unset ∧ cs ≠ [] ∧ (op = .not → cs.length = 1)

/-- No node is redundant: a negation does not stand in a negation, and other nodes have at least two
children. -/
def Tight : Condition → Prop
  | .leaf _ => True
  | .node op cs => (op = .not → ∀ c ∈ cs, c.isNodeOf .not = false) ∧ (op ≠ .not → 2 ≤ cs.length)

/-- No child of an "and" or an "or" is of the same operation. -/
def Flat : Condition → Prop
  | .leaf _ => True
  | .node op cs => op ≠ .not → ∀ c ∈ cs, c.isNodeOf op = false

/-- The leaves that an operation can take are of different fields and grouped by it. -/
def Settled : Condition → Prop
  | .leaf _ => True
  | .node op cs => op ≠ .not → 1 < cs.length →
    (∀ l ∈ cs.filterMap (mergeableLeaf? op), l.grouping = op) ∧
      ((cs.filterMap (mergeableLeaf? op)).map Leaf.field).Nodup

/-- The children are in order of their ranks. -/
def Ordered : Condition → Prop
  | .leaf _ => True
  | .node _ cs => cs.Pairwise fun c d => c.rank ≤ d.rank

/-- The normal form at the root of a condition, but for the order of the children. -/
structure Normal (c : Condition) : Prop where
  filled : c.Filled
  tight : c.Tight
  flat : c.Flat
  settled : c.Settled

section

variable {c d : Condition} {op : Operation} {cs ds : List Condition} {l : Leaf}

/-! ### Inlining -/

/-- Inlining children that are not empty does not leave fewer. -/
theorem length_le_inlineAll (op : Operation) (h : ∀ c ∈ cs, c.Filled) :
    cs.length ≤ (inlineAll op cs).length := by
  unfold inlineAll
  split_ifs
  · exact Nat.le_refl _
  · induction cs with
    | nil => simp
    | cons c cs ih =>
      have hc : 0 < (inlined op c).length := by
        cases c with
        | leaf l => simp [inlined]
        | node o es =>
          have hes : es ≠ [] := (h _ List.mem_cons_self).2.1
          simp only [inlined]
          split_ifs
          · exact List.length_pos_iff.2 hes
          · simp
      have hcs := ih fun d hd => h d (List.mem_cons_of_mem _ hd)
      simp only [List.flatMap_cons, List.length_append, List.length_cons]
      omega

theorem forall_mem_map_of {P : Condition → Prop} {f : Condition → Condition}
    (h : ∀ c ∈ cs, P (f c)) : ∀ d ∈ cs.map f, P d := by
  intro d hd
  obtain ⟨c, hc, rfl⟩ := List.mem_map.1 hd
  exact h c hc

theorem filled_flatten (h : Everywhere Filled c) : Everywhere Filled c.flatten := by
  induction h with
  | leaf h => simpa using h
  | @node op cs h hcs ih =>
    obtain ⟨hop, hne, hnot⟩ := h
    rw [flatten_node]
    have hmap := forall_mem_map_of ih
    have hlen : (cs.map flatten).length ≤ (inlineAll op (cs.map flatten)).length :=
      length_le_inlineAll op fun d hd => (hmap d hd).root
    refine .node ⟨hop, ?_, fun ho => ?_⟩ fun d hd => everywhere_of_mem_inlineAll hmap hd
    · have hpos := List.length_pos_iff.2 hne
      rw [List.length_map] at hlen
      exact List.length_pos_iff.1 (by omega)
    · simpa [inlineAll, ho] using hnot ho

/-- **Inlining makes a condition flat.** -/
theorem flat_flatten (c : Condition) : Everywhere Flat c.flatten := by
  induction c with
  | leaf l => simp [Flat]
  | node op cs ih =>
    have hmap := forall_mem_map_of ih
    rw [flatten_node]
    refine .node (fun ho d hd => ?_) fun d hd => everywhere_of_mem_inlineAll hmap hd
    rw [inlineAll, if_neg ho] at hd
    obtain ⟨e, he, hde⟩ := List.mem_flatMap.1 hd
    cases hop : e.isNodeOf op with
    | false =>
      rw [inlined_of_isNodeOf_false hop] at hde
      exact List.mem_singleton.1 hde ▸ hop
    | true =>
      -- the children of a node that is dissolved are none of its operation
      cases e with
      | leaf l => cases hop
      | node o es =>
        obtain rfl : o = op := by simpa [isNodeOf] using hop
        simp only [inlined, if_true] at hde
        exact (hmap _ he).root ho d hde

theorem tight_flatten (hf : Everywhere Filled c) (h : Everywhere Tight c) :
    Everywhere Tight c.flatten := by
  induction h with
  | leaf => simp [Tight]
  | @node op cs h _ ih =>
    have hcs := (everywhere_node.1 hf).2
    rw [flatten_node]
    refine .node ⟨fun ho d hd => ?_, fun ho => ?_⟩ fun d hd =>
      everywhere_of_mem_inlineAll (forall_mem_map_of fun c hc => ih c hc (hcs c hc)) hd
    · subst ho
      obtain ⟨c, hc, rfl⟩ := List.mem_map.1 (by simpa [inlineAll] using hd)
      simpa using h.1 rfl c hc
    · have hlen : (cs.map flatten).length ≤ (inlineAll op (cs.map flatten)).length :=
        length_le_inlineAll _
          (forall_mem_map_of fun c hc => (filled_flatten (hcs c hc)).root)
      rw [List.length_map] at hlen
      exact Nat.le_trans (h.2 ho) hlen

/-! ### Merging -/

/-- What merging leaves redundant: a node that is no negation may have a single child, but then that
is a leaf into which several were merged. -/
def Loose : Condition → Prop
  | .leaf _ => True
  | .node op cs => (op = .not → ∀ c ∈ cs, c.isNodeOf .not = false) ∧
    (op ≠ .not → 2 ≤ cs.length ∨ ∃ l, cs = [.leaf l] ∧ 1 < l.args.length ∧ l.grouping = op)

theorem mergeSiblings_of_length_le (h : cs.length ≤ 1) : mergeSiblings op cs = cs := if_pos h

/-- Siblings are those that cannot be merged and the leaves of the others. -/
theorem length_eq_mergeable (op : Operation) (cs : List Condition) :
    cs.length = (cs.filter fun c => (c.mergeableLeaf? op).isNone).length +
      (cs.filterMap (mergeableLeaf? op)).length := by
  induction cs with
  | nil => rfl
  | cons c cs ih =>
    cases hc : c.mergeableLeaf? op with
    | none => simp only [List.filter_cons, List.filterMap_cons, hc, Option.isNone_none, if_true,
        List.length_cons]; omega
    | some l => simp only [List.filter_cons, List.filterMap_cons, hc, Option.isNone_some,
        Bool.false_eq_true, if_false, List.length_cons]; omega

theorem args_of_mem_mergeable (h : ∀ c ∈ cs, c.Filled) (hl : l ∈ cs.filterMap (mergeableLeaf? op)) :
    l.args ≠ [] := by
  obtain ⟨c, hc, hcl⟩ := List.mem_filterMap.1 hl
  obtain ⟨rfl, -⟩ := mergeableLeaf?_eq_some.1 hcl
  exact h _ hc

theorem merged_mergeAll_of_filled (op : Operation) (h : ∀ c ∈ cs, c.Filled) :
    Merged op (Leaf.mergeAll op (cs.filterMap (mergeableLeaf? op))) :=
  merged_mergeAll fun _ hl => args_of_mem_mergeable h hl

/-- Several siblings are merged into several, or into one leaf that has several arguments. -/
theorem length_mergeSiblings (op : Operation) (h : ∀ c ∈ cs, c.Filled) (hlen : 2 ≤ cs.length) :
    2 ≤ (mergeSiblings op cs).length ∨
      ∃ l, mergeSiblings op cs = [leaf l] ∧ 1 < l.args.length ∧ l.grouping = op := by
  have hsum := length_eq_mergeable op cs
  have hmerged := merged_mergeAll_of_filled op h
  unfold mergeSiblings
  rw [if_neg (by omega), List.length_append, List.length_map]
  generalize hrest : cs.filter (fun c => (c.mergeableLeaf? op).isNone) = rest at hsum
  generalize hls : cs.filterMap (mergeableLeaf? op) = ls at hsum hmerged
  have hargs : ∀ l ∈ ls, l.args ≠ [] := fun l hl => args_of_mem_mergeable h (hls ▸ hl)
  by_cases hnil : ls = []
  · subst hnil
    rw [List.length_nil] at hsum
    exact .inl (by omega)
  have hpos := List.length_pos_iff.2 (Leaf.mergeAll_ne_nil op hnil)
  by_cases hone : rest = [] ∧ (Leaf.mergeAll op ls).length = 1
  · obtain ⟨rfl, hone⟩ := hone
    obtain ⟨t, ht⟩ := List.length_eq_one_iff.1 hone
    have hmt := (hmerged t (by rw [ht]; exact List.mem_singleton_self t)).1
    rw [List.length_nil] at hsum
    exact .inr ⟨t, by simp [ht], Leaf.length_args_of_mergeAll hargs (by omega) ht, hmt⟩
  · have hlen' : rest.length ≠ 0 ∨ (Leaf.mergeAll op ls).length ≠ 1 := by
      by_contra hno
      push Not at hno
      exact hone ⟨List.length_eq_zero_iff.1 hno.1, hno.2⟩
    exact .inl (by omega)

theorem mergeSiblings_ne_nil (h : ∀ c ∈ cs, c.Filled) (hne : cs ≠ []) :
    mergeSiblings op cs ≠ [] := by
  by_cases hlen : cs.length ≤ 1
  · rwa [mergeSiblings_of_length_le hlen]
  · rcases length_mergeSiblings op h (by omega) with hlen | ⟨l, hl, -⟩
    · exact List.length_pos_iff.1 (by omega)
    · simp [hl]

theorem filled_mergeLeaves (h : Everywhere Filled c) : Everywhere Filled c.mergeLeaves := by
  induction h with
  | leaf h => simpa using h
  | @node op cs h hcs ih =>
    obtain ⟨hop, hne, hnot⟩ := h
    have hmap := forall_mem_map_of ih
    have hroot : ∀ d ∈ cs.map mergeLeaves, d.Filled := fun d hd => (hmap d hd).root
    rw [mergeLeaves_node]
    refine .node ⟨hop, mergeSiblings_ne_nil hroot (by simpa using hne), fun ho => ?_⟩ fun d hd =>
      everywhere_of_mem_mergeSiblings hmap
        (fun t ht => (merged_mergeAll_of_filled op hroot t ht).2) hd
    have hlen : (cs.map mergeLeaves).length = 1 := by simpa using hnot ho
    rwa [mergeSiblings_of_length_le (by omega)]

/-- Merged siblings are siblings that were there, or leaves. -/
theorem of_mem_mergeSiblings (h : d ∈ mergeSiblings op cs) : d ∈ cs ∨ ∃ l, d = leaf l := by
  unfold mergeSiblings at h
  split_ifs at h
  · exact .inl h
  · rcases List.mem_append.1 h with h | h
    · exact .inl (List.mem_filter.1 h).1
    · obtain ⟨t, -, rfl⟩ := List.mem_map.1 h
      exact .inr ⟨t, rfl⟩

theorem flat_mergeLeaves (h : Everywhere Flat c) : Everywhere Flat c.mergeLeaves := by
  induction h with
  | leaf => simp [Flat]
  | @node op cs h _ ih =>
    rw [mergeLeaves_node]
    refine .node (fun ho d hd => ?_) fun d hd =>
      everywhere_of_mem_mergeSiblings (forall_mem_map_of ih) (fun _ _ => trivial) hd
    rcases of_mem_mergeSiblings hd with hd | ⟨l, rfl⟩
    · obtain ⟨c, hc, rfl⟩ := List.mem_map.1 hd
      simpa using h ho c hc
    · rfl

/-- The leaves that can be merged after a merge are the merged ones. -/
theorem filterMap_mergeSiblings (h : ∀ c ∈ cs, c.Filled) (hlen : 1 < cs.length) :
    (mergeSiblings op cs).filterMap (mergeableLeaf? op) =
      Leaf.mergeAll op (cs.filterMap (mergeableLeaf? op)) := by
  have hmerged := merged_mergeAll_of_filled op h
  have hrest : (cs.filter fun c => (c.mergeableLeaf? op).isNone).filterMap (mergeableLeaf? op) =
      [] := by
    refine List.filterMap_eq_nil_iff.2 fun c hc => ?_
    simpa using (List.mem_filter.1 hc).2
  unfold mergeSiblings
  rw [if_neg (by omega), List.filterMap_append, hrest, List.nil_append, List.filterMap_map]
  refine (List.filterMap_congr fun t ht => ?_).trans List.filterMap_some
  exact mergeableLeaf?_eq_some.2 ⟨rfl, .inr (hmerged t ht).1⟩

/-- **Merging settles a condition.** -/
theorem settled_mergeLeaves (h : Everywhere Filled c) : Everywhere Settled c.mergeLeaves := by
  induction h with
  | leaf => simp [Settled]
  | @node op cs _ hcs ih =>
    have hroot : ∀ d ∈ cs.map mergeLeaves, d.Filled :=
      forall_mem_map_of fun c hc => (filled_mergeLeaves (hcs c hc)).root
    rw [mergeLeaves_node]
    refine .node (fun _ hlen => ?_) fun d hd =>
      everywhere_of_mem_mergeSiblings (forall_mem_map_of ih) (fun _ _ => trivial) hd
    have hlen' : 1 < (cs.map mergeLeaves).length := by
      by_contra hle
      rw [mergeSiblings_of_length_le (by omega)] at hlen
      exact hle hlen
    rw [filterMap_mergeSiblings hroot hlen']
    exact ⟨fun l hl => (merged_mergeAll_of_filled op hroot l hl).1, Leaf.fields_mergeAll_nodup _ _⟩

theorem loose_mergeLeaves (hf : Everywhere Filled c) (h : Everywhere Tight c) :
    Everywhere Loose c.mergeLeaves := by
  induction h with
  | leaf => simp [Loose]
  | @node op cs h _ ih =>
    obtain ⟨hfill, hcs⟩ := everywhere_node.1 hf
    have hroot : ∀ d ∈ cs.map mergeLeaves, d.Filled :=
      forall_mem_map_of fun c hc => (filled_mergeLeaves (hcs c hc)).root
    rw [mergeLeaves_node]
    refine .node ⟨fun ho d hd => ?_, fun ho => ?_⟩ fun d hd =>
      everywhere_of_mem_mergeSiblings (forall_mem_map_of fun c hc => ih c hc (hcs c hc))
        (fun _ _ => trivial) hd
    · rcases of_mem_mergeSiblings hd with hd | ⟨l, rfl⟩
      · obtain ⟨c, hc, rfl⟩ := List.mem_map.1 hd
        simpa using h.1 ho c hc
      · rfl
    · exact length_mergeSiblings op hroot (by simpa using h.2 ho)

/-! ### Collapsing -/

theorem filled_collapse (h : Everywhere Filled c) : Everywhere Filled c.collapse := by
  induction h with
  | leaf h => simpa using h
  | @node op cs h _ ih =>
    rw [collapse_node]
    refine everywhere_reduced (forall_mem_map_of ih) fun _ => ?_
    exact ⟨h.1, by simpa using h.2.1, by simpa using h.2.2⟩

/-- A node that does not reduce is not redundant. -/
theorem tight_of_reduct? (h : (node op cs).Filled) (hcs : ∀ c ∈ cs, c.Filled)
    (hr : reduct? op cs = none) : (node op cs).Tight := by
  have hno : ∀ d, reduct? op cs ≠ some d := fun d hd => nomatch hr.symm.trans hd
  refine ⟨?_, fun ho => ?_⟩
  · rintro rfl c hc
    obtain ⟨d, rfl⟩ := List.length_eq_one_iff.1 (h.2.2 rfl)
    obtain rfl := List.mem_singleton.1 hc
    refine Bool.eq_false_iff.2 fun hnot => ?_
    cases c with
    | leaf l => cases hnot
    | node o es =>
      obtain rfl : o = .not := by simpa [isNodeOf] using hnot
      obtain ⟨e, rfl⟩ := List.length_eq_one_iff.1 ((hcs _ hc).2.2 rfl)
      exact hno e (reduct?_eq_some.2 (.inl ⟨rfl, rfl⟩))
  · by_contra hlen
    have hpos := List.length_pos_iff.2 h.2.1
    obtain ⟨d, rfl⟩ := List.length_eq_one_iff.1 (show cs.length = 1 by omega)
    exact hno d (reduct?_eq_some.2 (.inr ⟨ho, rfl⟩))

/-- **Collapsing makes a condition tight.** -/
theorem tight_collapse (h : Everywhere Filled c) : Everywhere Tight c.collapse := by
  induction h with
  | leaf => simp [Tight]
  | @node op cs h hcs ih =>
    rw [collapse_node]
    refine everywhere_reduced (forall_mem_map_of ih) fun hr => ?_
    refine tight_of_reduct? ⟨h.1, by simpa using h.2.1, by simpa using h.2.2⟩ ?_ hr
    exact forall_mem_map_of fun c hc => (filled_collapse (hcs c hc)).root

theorem reduced_singleton (h : op ≠ .not) (d : Condition) : reduced op [d] = d := by
  rw [reduced, reduct?_eq_some.2 (.inr ⟨h, rfl⟩)]
  rfl

/-- A loose node reduces only to the leaf that is left of it. -/
theorem reduct?_collapse (hf : (node op cs).Filled) (h : (node op cs).Loose)
    (hnot : op = .not → ∀ c ∈ cs, c.collapse.isNodeOf .not = false) :
    reduct? op (cs.map collapse) = none ∨
      op ≠ .not ∧ ∃ l, cs = [leaf l] ∧ 1 < l.args.length ∧ l.grouping = op := by
  by_cases ho : op = .not
  · subst ho
    obtain ⟨c, rfl⟩ := List.length_eq_one_iff.1 (hf.2.2 rfl)
    refine .inl (Option.eq_none_iff_forall_ne_some.2 fun d hd => ?_)
    rcases reduct?_eq_some.1 hd with ⟨-, hc⟩ | ⟨hne, -⟩
    · have hc' := hnot rfl c List.mem_cons_self
      rw [List.map_singleton, List.singleton_inj] at hc
      rw [hc] at hc'
      cases hc'
    · exact hne rfl
  · rcases h.2 ho with hlen | hleaf
    · refine .inl (Option.eq_none_iff_forall_ne_some.2 fun d hd => ?_)
      rcases reduct?_eq_some.1 hd with ⟨rfl, -⟩ | ⟨-, hc⟩
      · exact ho rfl
      · have hone := congrArg List.length hc
        rw [List.length_map, List.length_singleton] at hone
        omega
    · exact .inr ⟨ho, hleaf⟩

/-- Collapsing a loose condition brings no operation to its root. -/
theorem isNodeOf_collapse {o : Operation} (hf : Everywhere Filled c) (h : Everywhere Loose c)
    (ho : c.isNodeOf o = false) : c.collapse.isNodeOf o = false := by
  induction h generalizing o with
  | leaf => simp [isNodeOf]
  | @node op cs h _ ih =>
    obtain ⟨hfill, hcs⟩ := everywhere_node.1 hf
    rw [collapse_node]
    rcases reduct?_collapse hfill h (fun hop c hc => ih c hc (hcs c hc) (h.1 hop c hc)) with
      hr | ⟨hop, l, rfl, -⟩
    · rw [reduced, hr]
      exact ho
    · rw [List.map_singleton, collapse_leaf, reduced_singleton hop]
      rfl

/-- In a node of another operation, what a loose condition collapses to offers what it did. -/
theorem mergeableLeaf?_collapse {o : Operation} (hf : Everywhere Filled c)
    (h : Everywhere Loose c) (ho : c.isNodeOf o = false) :
    c.collapse.mergeableLeaf? o = c.mergeableLeaf? o := by
  cases h with
  | leaf => simp
  | @node op cs h hcs =>
    obtain ⟨hfill, hfs⟩ := everywhere_node.1 hf
    rw [collapse_node]
    rcases reduct?_collapse hfill h
      (fun hop c hc => isNodeOf_collapse (hfs c hc) (hcs c hc) (h.1 hop c hc)) with
      hr | ⟨hop, l, rfl, hlen, rfl⟩
    · rw [reduced, hr]
      rfl
    · -- the leaf that is left has several arguments, grouped by an operation that is not `o`
      have hne : ¬l.grouping = o := by simpa [isNodeOf] using ho
      rw [List.map_singleton, collapse_leaf, reduced_singleton hop]
      simp [mergeableLeaf?, Leaf.mergeable, hne, hlen]

theorem flat_collapse (hf : Everywhere Filled c) (hl : Everywhere Loose c)
    (h : Everywhere Flat c) : Everywhere Flat c.collapse := by
  induction h with
  | leaf => simp [Flat]
  | @node op cs h _ ih =>
    have hfs := (everywhere_node.1 hf).2
    have hls := (everywhere_node.1 hl).2
    rw [collapse_node]
    refine everywhere_reduced (forall_mem_map_of fun c hc => ih c hc (hfs c hc) (hls c hc))
      fun _ ho => forall_mem_map_of fun c hc => ?_
    exact isNodeOf_collapse (hfs c hc) (hls c hc) (h ho c hc)

theorem settled_collapse (hf : Everywhere Filled c) (hl : Everywhere Loose c)
    (hflat : Everywhere Flat c) (h : Everywhere Settled c) : Everywhere Settled c.collapse := by
  induction h with
  | leaf => simp [Settled]
  | @node op cs h _ ih =>
    have hfs := (everywhere_node.1 hf).2
    have hls := (everywhere_node.1 hl).2
    obtain ⟨hflat, hflats⟩ := everywhere_node.1 hflat
    rw [collapse_node]
    refine everywhere_reduced
      (forall_mem_map_of fun c hc => ih c hc (hfs c hc) (hls c hc) (hflats c hc))
      fun _ ho hlen => ?_
    have hsame : (cs.map collapse).filterMap (mergeableLeaf? op) =
        cs.filterMap (mergeableLeaf? op) := by
      rw [List.filterMap_map]
      exact List.filterMap_congr fun c hc =>
        mergeableLeaf?_collapse (hfs c hc) (hls c hc) (hflat ho c hc)
    rw [hsame]
    exact h ho (by simpa using hlen)

end

end Condition

end MailRules
