import MailRules.Proofs.Condition.FixedPoint
import Mathlib.Data.List.Induction

/-!
# Simplification and the order of siblings

Conditions that differ in the order of siblings only are simplified to conditions that differ in
no more than the order of siblings and of arguments.

* `Matched` relates lists item by item, whatever the order of the items.
* `Condition.Reordered` relates conditions whose nodes have matched children; what is asked of their
  leaves is a parameter, `Leaf.Alike` is the same leaf with its arguments in another order.
* Each step of a round keeps the relation, and so does arrangement (`Reordered.flatten`,
  `Reordered.mergeLeaves`, `Reordered.collapse`, `Reordered.arrange`).  For merging this is so
  because a merged leaf depends on its field only, and on which leaves there are
  (`Leaf.mergeAll_eq_map`).
* The counts of two runs need not agree, but whether a round counts anything at all is a question of
  the normal form, which does not depend on order (`Reordered.normal`).  So the rounds of both end
  together (`Reordered.rounds`).
-/

namespace MailRules

/-! ### Lists matched item by item -/

/-- The items of two lists are related one to one, in some order. -/
def Matched {α β : Type} (S : α → β → Prop) (xs : List α) (ys : List β) : Prop :=
  ∃ zs, xs.Perm zs ∧ List.Forall₂ S zs ys

namespace Matched

variable {α β γ δ : Type} {S : α → β → Prop} {T : γ → δ → Prop} {xs xs' : List α} {ys ys' : List β}

theorem of_forall₂ (h : List.Forall₂ S xs ys) : Matched S xs ys := ⟨xs, .refl _, h⟩

theorem perm_left (hp : xs'.Perm xs) (h : Matched S xs ys) : Matched S xs' ys :=
  let ⟨zs, hzs, hS⟩ := h
  ⟨zs, hp.trans hzs, hS⟩

theorem perm_right (h : Matched S xs ys) (hp : ys.Perm ys') : Matched S xs ys' := by
  obtain ⟨zs, hzs, hS⟩ := h
  obtain ⟨zs', hS', hzs'⟩ := List.perm_comp_forall₂ hp.symm hS.flip
  exact ⟨zs', hzs.trans hzs'.symm, hS'.flip⟩

theorem flip (h : Matched S xs ys) : Matched (fun y x => S x y) ys xs := by
  obtain ⟨zs, hzs, hS⟩ := h
  exact (of_forall₂ hS.flip).perm_right hzs.symm

theorem length_eq (h : Matched S xs ys) : xs.length = ys.length := by
  obtain ⟨zs, hzs, hS⟩ := h
  exact hzs.length_eq.trans hS.length_eq

theorem append {us : List α} {vs : List β} (h : Matched S xs ys) (h' : Matched S us vs) :
    Matched S (xs ++ us) (ys ++ vs) := by
  obtain ⟨zs, hzs, hS⟩ := h
  obtain ⟨ws, hws, hS'⟩ := h'
  exact ⟨zs ++ ws, hzs.append hws, List.rel_append hS hS'⟩

theorem imp {R : α → β → Prop} (h : Matched S xs ys) (hR : ∀ x ∈ xs, ∀ y, S x y → R x y) :
    Matched R xs ys := by
  obtain ⟨zs, hzs, hS⟩ := h
  have hmem : ∀ z ∈ zs, z ∈ xs := fun z hz => hzs.symm.subset hz
  have hboth := (List.forall₂_and_left zs ys).2 ⟨hmem, hS⟩
  exact ⟨zs, hzs, hboth.imp fun x y hxy => hR x hxy.1 y hxy.2⟩

theorem map {f : α → γ} {g : β → δ} (h : Matched (fun x y => T (f x) (g y)) xs ys) :
    Matched T (xs.map f) (ys.map g) := by
  obtain ⟨zs, hzs, hT⟩ := h
  exact ⟨zs.map f, hzs.map f, List.forall₂_map_left_iff.2 (List.forall₂_map_right_iff.2 hT)⟩

theorem flatMap {f : α → List γ} {g : β → List δ} (h : Matched S xs ys)
    (hf : ∀ x y, S x y → Matched T (f x) (g y)) : Matched T (xs.flatMap f) (ys.flatMap g) := by
  obtain ⟨zs, hzs, hS⟩ := h
  refine perm_left (hzs.flatMap_right f) ?_
  clear hzs
  induction hS with
  | nil => exact of_forall₂ .nil
  | cons hxy _ ih => exact (hf _ _ hxy).append ih

theorem filter {p : α → Bool} {q : β → Bool} (h : Matched S xs ys)
    (hp : ∀ x y, S x y → p x = q y) : Matched S (xs.filter p) (ys.filter q) := by
  obtain ⟨zs, hzs, hS⟩ := h
  exact ⟨zs.filter p, hzs.filter p, List.rel_filter (fun x y hxy => by simp only [hp x y hxy]) hS⟩

theorem filterMap {f : α → Option γ} {g : β → Option δ} (h : Matched S xs ys)
    (hf : ∀ x y, S x y → Option.Rel T (f x) (g y)) :
    Matched T (xs.filterMap f) (ys.filterMap g) := by
  obtain ⟨zs, hzs, hS⟩ := h
  exact ⟨zs.filterMap f, hzs.filterMap f, List.rel_filterMap (fun _ _ hxy => hf _ _ hxy) hS⟩

/-- What matched items have in common they have in another order. -/
theorem perm_map {f : α → γ} {g : β → γ} (h : Matched S xs ys) (hf : ∀ x y, S x y → f x = g y) :
    (xs.map f).Perm (ys.map g) := by
  obtain ⟨zs, hzs, hS⟩ := h
  refine (hzs.map f).trans (.of_eq ?_)
  exact map_eq_of_forall₂ (hS.flip.imp fun y x hxy => hf x y hxy)

theorem perm_flatMap {f : α → List γ} {g : β → List γ} (h : Matched S xs ys)
    (hf : ∀ x y, S x y → (f x).Perm (g y)) : (xs.flatMap f).Perm (ys.flatMap g) := by
  obtain ⟨zs, hzs, hS⟩ := h
  refine (hzs.flatMap_right f).trans ?_
  clear hzs
  induction hS with
  | nil => exact .refl _
  | cons hxy _ ih => exact (hf _ _ hxy).append ih

theorem forall_mem {P : α → Prop} {Q : β → Prop} (h : Matched S xs ys) (hP : ∀ x ∈ xs, P x)
    (hS : ∀ x y, S x y → P x → Q y) : ∀ y ∈ ys, Q y := by
  obtain ⟨zs, hzs, hR⟩ := h
  intro y hy
  obtain ⟨x, hx, hxy⟩ := (exists_mem_of_forall₂ hR).2 y hy
  exact hS x y hxy (hP x (hzs.symm.subset hx))

theorem singleton {x : α} (h : Matched S [x] ys) : ∃ y, ys = [y] ∧ S x y := by
  obtain ⟨zs, hzs, hS⟩ := h
  obtain rfl := List.singleton_perm.1 hzs
  obtain ⟨y, ys, hxy, hys, rfl⟩ := List.forall₂_cons_left_iff.1 hS
  cases hys
  exact ⟨y, rfl, hxy⟩

end Matched

/-! ### Merged leaves -/

namespace Leaf

variable {op : Operation} {l k : Leaf} {ls ks : List Leaf}

/-- The same leaf, with its arguments in another order. -/
structure Alike (l k : Leaf) : Prop where
  field : l.field = k.field
  grouping : l.grouping = k.grouping
  args : l.args.Perm k.args
  raw : l.raw = k.raw

/-- What the leaves of a field are merged into. -/
def gathered (op : Operation) (ls : List Leaf) (f : Field) : Leaf where
  field := f
  grouping := op
  args := (ls.filter fun l => l.field = f).flatMap Leaf.args
  raw := (ls.filter fun l => l.field = f).any Leaf.raw

theorem mergeAll_concat (op : Operation) (ls : List Leaf) (l : Leaf) :
    mergeAll op (ls ++ [l]) = l.mergeInto op (mergeAll op ls) := by
  rw [mergeAll, List.foldl_append]
  rfl

theorem mem_fields_mergeAll {f : Field} :
    f ∈ (mergeAll op ls).map Leaf.field ↔ f ∈ ls.map Leaf.field := by
  induction ls using List.reverseRecOn with
  | nil => rfl
  | append_singleton ls l ih =>
    rw [mergeAll_concat, fields_mergeInto, List.map_append, List.mem_append, ← ih]
    split_ifs with hl
    · simp only [List.map_cons, List.map_nil, List.mem_singleton]
      exact ⟨.inl, fun h => h.elim id fun h => h ▸ hl⟩
    · simp

theorem gathered_concat_of_ne {f : Field} (h : l.field ≠ f) :
    gathered op (ls ++ [l]) f = gathered op ls f := by
  simp [gathered, h]

theorem gathered_concat_self :
    gathered op (ls ++ [l]) l.field =
      { gathered op ls l.field with
        args := (gathered op ls l.field).args ++ l.args
        raw := (gathered op ls l.field).raw || l.raw } := by
  simp [gathered]

theorem gathered_concat_of_new (h : ∀ k ∈ ls, k.field ≠ l.field) :
    gathered op (ls ++ [l]) l.field = { l with grouping := op } := by
  have hnone : (ls.filter fun k => k.field = l.field) = [] :=
    List.filter_eq_nil_iff.2 fun k hk => by simpa using h k hk
  simp [gathered, hnone]

/-- A further leaf changes what is gathered for its own field only. -/
theorem mergeInto_gathered {fs : List Field} (hfs : fs.Nodup)
    (h : l.field ∉ fs → ∀ k ∈ ls, k.field ≠ l.field) :
    l.mergeInto op (fs.map (gathered op ls)) =
      (if l.field ∈ fs then fs else fs ++ [l.field]).map (gathered op (ls ++ [l])) := by
  induction fs with
  | nil => simp [mergeInto, gathered_concat_of_new (h List.not_mem_nil)]
  | cons f fs ih =>
    obtain ⟨hf, hfs⟩ := List.nodup_cons.1 hfs
    rw [List.map_cons, mergeInto]
    by_cases hl : f = l.field
    · subst hl
      have hrest : fs.map (gathered op (ls ++ [l])) = fs.map (gathered op ls) :=
        List.map_congr_left fun g hg => gathered_concat_of_ne fun heq => hf (heq ▸ hg)
      rw [if_pos List.mem_cons_self, List.map_cons, hrest, gathered_concat_self]
      exact if_pos rfl
    · have hmem : l.field ∈ f :: fs ↔ l.field ∈ fs := by simp [Ne.symm hl]
      have hne : (gathered op ls f).field ≠ l.field := hl
      have hother : gathered op (ls ++ [l]) f = gathered op ls f :=
        gathered_concat_of_ne (Ne.symm hl)
      rw [if_neg hne, ih hfs fun hnot => h (hmem.not.2 hnot),
        ← hother]
      simp only [hmem]
      split_ifs <;> rfl

/-- **A merged leaf depends on its field only**, and on which leaves there are. -/
theorem mergeAll_eq_map (op : Operation) (ls : List Leaf) :
    mergeAll op ls = ((mergeAll op ls).map Leaf.field).map (gathered op ls) := by
  induction ls using List.reverseRecOn with
  | nil => rfl
  | append_singleton ls l ih =>
    have hnew : l.field ∉ (mergeAll op ls).map Leaf.field → ∀ k ∈ ls, k.field ≠ l.field := by
      intro hnot k hk heq
      exact hnot (mem_fields_mergeAll.2 (heq ▸ List.mem_map_of_mem hk))
    rw [mergeAll_concat, fields_mergeInto,
      ← mergeInto_gathered (fields_mergeAll_nodup op ls) hnew, ← ih]

namespace Alike

theorem of_eq (h : l = k) : Alike l k := h ▸ ⟨rfl, rfl, .refl _, rfl⟩

theorem symm (h : Alike l k) : Alike k l :=
  ⟨h.field.symm, h.grouping.symm, h.args.symm, h.raw.symm⟩

theorem mergeable (h : Alike l k) (op : Operation) : l.mergeable op = k.mergeable op := by
  rw [Leaf.mergeable, Leaf.mergeable, h.args.length_eq, h.grouping]

/-- Leaves that are alike are gathered to leaves that are alike. -/
theorem gathered (h : Matched Alike ls ks) (op : Operation) (f : Field) :
    Alike (gathered op ls f) (Leaf.gathered op ks f) := by
  have hfield : Matched Alike (ls.filter fun l => l.field = f) (ks.filter fun k => k.field = f) :=
    h.filter fun l k hlk => by rw [hlk.field]
  refine ⟨rfl, rfl, hfield.perm_flatMap fun _ _ => Alike.args, ?_⟩
  have hraw := hfield.perm_map fun _ _ => Alike.raw
  simpa [Leaf.gathered, List.any_map] using hraw.any_eq (f := id)

theorem mergeAll (h : Matched Alike ls ks) (op : Operation) :
    Matched Alike (mergeAll op ls) (Leaf.mergeAll op ks) := by
  have hfields : ((Leaf.mergeAll op ls).map Leaf.field).Perm
      ((Leaf.mergeAll op ks).map Leaf.field) := by
    refine (List.perm_ext_iff_of_nodup (fields_mergeAll_nodup op ls)
      (fields_mergeAll_nodup op ks)).2 fun f => ?_
    rw [mem_fields_mergeAll, mem_fields_mergeAll]
    exact (h.perm_map fun _ _ => Alike.field).mem_iff
  rw [mergeAll_eq_map op ls, mergeAll_eq_map op ks]
  refine .perm_left (hfields.map _) (.map (.of_forall₂ ?_))
  exact List.forall₂_same.2 fun f _ => gathered h op f

end Alike

end Leaf

namespace Condition

/-! ### Conditions up to the order of siblings -/

/-- Conditions whose nodes have matched children, and whose leaves are related. -/
inductive Reordered (R : Leaf → Leaf → Prop) : Condition → Condition → Prop
  | leaf {l k : Leaf} (related : R l k) : Reordered R (.leaf l) (.leaf k)
  | node {op : Operation} {cs es ds : List Condition} (order : cs.Perm es)
      (parts : List.Forall₂ (Reordered R) es ds) : Reordered R (.node op cs) (.node op ds)

section

variable {R : Leaf → Leaf → Prop} {c d : Condition} {op : Operation} {cs ds : List Condition}

theorem reordered_node : Reordered R (node op cs) (node op ds) ↔ Matched (Reordered R) cs ds :=
  ⟨fun | .node order parts => ⟨_, order, parts⟩, fun ⟨_, order, parts⟩ => .node order parts⟩

namespace Reordered

theorem exists_leaf {l : Leaf} (h : Reordered R (.leaf l) d) : ∃ k, d = .leaf k ∧ R l k := by
  cases h with
  | leaf h => exact ⟨_, rfl, h⟩

theorem exists_node (h : Reordered R (.node op cs) d) :
    ∃ ds, d = .node op ds ∧ Matched (Reordered R) cs ds := by
  cases h with
  | node order parts => exact ⟨_, rfl, _, order, parts⟩

theorem imp {R' : Leaf → Leaf → Prop} (hR : ∀ l k, R l k → R' l k) (h : Reordered R c d) :
    Reordered R' c d := by
  induction c generalizing d with
  | leaf l =>
    obtain ⟨k, rfl, hlk⟩ := h.exists_leaf
    exact .leaf (hR l k hlk)
  | node op cs ih =>
    obtain ⟨ds, rfl, hcs⟩ := h.exists_node
    exact reordered_node.2 (hcs.imp fun c hc d hcd => ih c hc hcd)

theorem symm (hR : ∀ l k, R l k → R k l) (h : Reordered R c d) : Reordered R d c := by
  induction c generalizing d with
  | leaf l =>
    obtain ⟨k, rfl, hlk⟩ := h.exists_leaf
    exact .leaf (hR l k hlk)
  | node op cs ih =>
    obtain ⟨ds, rfl, hcs⟩ := h.exists_node
    exact reordered_node.2 (hcs.imp fun c hc d hcd => ih c hc hcd).flip

theorem isNodeOf (h : Reordered R c d) (o : Operation) : c.isNodeOf o = d.isNodeOf o := by
  cases h <;> rfl

/-! ### The steps of a round -/

theorem inlined (h : Reordered R c d) (op : Operation) :
    Matched (Reordered R) (inlined op c) (Condition.inlined op d) := by
  cases c with
  | leaf l =>
    obtain ⟨k, rfl, -⟩ := h.exists_leaf
    exact .of_forall₂ (.cons h .nil)
  | node o cs =>
    obtain ⟨ds, rfl, hcs⟩ := h.exists_node
    simp only [Condition.inlined]
    split_ifs
    · exact hcs
    · exact .of_forall₂ (.cons h .nil)

theorem inlineAll (h : Matched (Reordered R) cs ds) (op : Operation) :
    Matched (Reordered R) (inlineAll op cs) (Condition.inlineAll op ds) := by
  unfold Condition.inlineAll
  split_ifs
  · exact h
  · exact h.flatMap fun _ _ hcd => hcd.inlined op

/-- A pass over siblings keeps the relation, if it does so on each of them. -/
theorem map {f : Condition → Condition} (h : Matched (Reordered R) cs ds)
    (hf : ∀ c ∈ cs, ∀ d, Reordered R c d → Reordered R (f c) (f d)) :
    Matched (Reordered R) (cs.map f) (ds.map f) :=
  (h.imp (R := fun c d => Reordered R (f c) (f d)) hf).map

theorem flatten (h : Reordered R c d) : Reordered R c.flatten d.flatten := by
  induction c generalizing d with
  | leaf l =>
    obtain ⟨k, rfl, -⟩ := h.exists_leaf
    simpa using h
  | node op cs ih =>
    obtain ⟨ds, rfl, hcs⟩ := h.exists_node
    rw [flatten_node, flatten_node]
    exact reordered_node.2 (inlineAll (map hcs fun c hc _ => ih c hc) op)

/-- Conditions that differ in order offer the same leaves for merging. -/
theorem mergeableLeaf? (h : Reordered Leaf.Alike c d) (op : Operation) :
    Option.Rel Leaf.Alike (c.mergeableLeaf? op) (d.mergeableLeaf? op) := by
  cases h with
  | node => exact .none
  | leaf h =>
    simp only [Condition.mergeableLeaf?, h.mergeable op]
    split_ifs
    · exact .some h
    · exact .none

theorem isNone_mergeableLeaf? (h : Reordered Leaf.Alike c d) (op : Operation) :
    (c.mergeableLeaf? op).isNone = (d.mergeableLeaf? op).isNone := by
  have hrel := h.mergeableLeaf? op
  revert hrel
  generalize c.mergeableLeaf? op = a
  generalize d.mergeableLeaf? op = b
  rintro (_ | _) <;> rfl

theorem mergeSiblings (h : Matched (Reordered Leaf.Alike) cs ds) (op : Operation) :
    Matched (Reordered Leaf.Alike) (mergeSiblings op cs) (Condition.mergeSiblings op ds) := by
  unfold Condition.mergeSiblings
  rw [h.length_eq]
  split_ifs
  · exact h
  · have hleaves : Matched Leaf.Alike (cs.filterMap (Condition.mergeableLeaf? op))
        (ds.filterMap (Condition.mergeableLeaf? op)) :=
      h.filterMap fun _ _ hcd => hcd.mergeableLeaf? op
    exact (h.filter fun _ _ hcd => hcd.isNone_mergeableLeaf? op).append
      ((Leaf.Alike.mergeAll hleaves op).imp fun _ _ _ hlk => .leaf hlk).map

theorem mergeLeaves (h : Reordered Leaf.Alike c d) :
    Reordered Leaf.Alike c.mergeLeaves d.mergeLeaves := by
  induction c generalizing d with
  | leaf l =>
    obtain ⟨k, rfl, -⟩ := h.exists_leaf
    simpa using h
  | node op cs ih =>
    obtain ⟨ds, rfl, hcs⟩ := h.exists_node
    rw [mergeLeaves_node, mergeLeaves_node]
    exact reordered_node.2 (mergeSiblings (map hcs fun c hc _ => ih c hc) op)

/-- What a node reduces to does not depend on order, since a node that reduces has one child. -/
theorem exists_reduct? (h : Matched (Reordered R) cs ds) (hc : reduct? op cs = some c) :
    ∃ d, reduct? op ds = some d ∧ Reordered R c d := by
  rcases reduct?_eq_some.1 hc with ⟨rfl, rfl⟩ | ⟨ho, rfl⟩
  · obtain ⟨_, rfl, hnot⟩ := h.singleton
    obtain ⟨es, rfl, hes⟩ := hnot.exists_node
    obtain ⟨d, rfl, hd⟩ := hes.singleton
    exact ⟨d, rfl, hd⟩
  · obtain ⟨d, rfl, hd⟩ := h.singleton
    exact ⟨d, reduct?_eq_some.2 (.inr ⟨ho, rfl⟩), hd⟩

theorem reduced (hR : ∀ l k, R l k → R k l) (h : Matched (Reordered R) cs ds) (op : Operation) :
    Reordered R (reduced op cs) (Condition.reduced op ds) := by
  unfold Condition.reduced
  cases hc : reduct? op cs with
  | some c =>
    obtain ⟨d, hd, hcd⟩ := exists_reduct? h hc
    rwa [hd]
  | none =>
    have hd : reduct? op ds = none := by
      refine Option.eq_none_iff_forall_ne_some.2 fun d hd => ?_
      have hback := (h.imp fun _ _ _ hcd => hcd.symm hR).flip
      obtain ⟨c, hc', -⟩ := exists_reduct? hback hd
      rw [hc] at hc'
      cases hc'
    rw [hd]
    exact reordered_node.2 h

theorem collapse (hR : ∀ l k, R l k → R k l) (h : Reordered R c d) :
    Reordered R c.collapse d.collapse := by
  induction c generalizing d with
  | leaf l =>
    obtain ⟨k, rfl, -⟩ := h.exists_leaf
    simpa using h
  | node op cs ih =>
    obtain ⟨ds, rfl, hcs⟩ := h.exists_node
    rw [collapse_node, collapse_node]
    exact reduced hR (map hcs fun c hc _ => ih c hc) op

theorem round (h : Reordered Leaf.Alike c d) : Reordered Leaf.Alike c.round d.round :=
  h.flatten.mergeLeaves.collapse fun _ _ => Leaf.Alike.symm

theorem arrange (h : Reordered R c d) : Reordered R c.arrange d.arrange := by
  induction c generalizing d with
  | leaf l =>
    obtain ⟨k, rfl, -⟩ := h.exists_leaf
    simpa using h
  | node op cs ih =>
    obtain ⟨ds, rfl, hcs⟩ := h.exists_node
    rw [arrange_node, arrange_node]
    exact reordered_node.2 (((map hcs fun c hc _ => ih c hc).perm_left (List.mergeSort_perm _ _))
      |>.perm_right (List.mergeSort_perm _ _).symm)

/-! ### The normal form and the rounds -/

/-- What the roots of conditions have in common whatever the order, all their parts have. -/
theorem everywhere {P : Condition → Prop}
    (hP : ∀ c d, Reordered R c d → P c → P d) (h : Reordered R c d) (hc : Everywhere P c) :
    Everywhere P d := by
  induction hc generalizing d with
  | leaf hl =>
    obtain ⟨k, rfl, -⟩ := h.exists_leaf
    exact .leaf (hP _ _ h hl)
  | node hn _ ih =>
    obtain ⟨ds, rfl, hcs⟩ := h.exists_node
    refine .node (hP _ _ h hn) ?_
    have hparts := hcs.imp (R := fun _ d => Everywhere P d) fun c hc d hcd => ih c hc hcd
    exact hparts.forall_mem (P := fun _ => True) (fun _ _ => trivial) fun _ _ hd _ => hd

theorem filled (h : Reordered Leaf.Alike c d) (hc : c.Filled) : d.Filled := by
  cases c with
  | leaf l =>
    obtain ⟨k, rfl, hlk⟩ := h.exists_leaf
    exact fun hk => hc (List.perm_nil.1 (hk ▸ hlk.args))
  | node op cs =>
    obtain ⟨ds, rfl, hcs⟩ := h.exists_node
    have hlen := hcs.length_eq
    refine ⟨hc.1, fun hds => hc.2.1 ?_, fun ho => hlen.symm.trans (hc.2.2 ho)⟩
    exact List.length_eq_zero_iff.1 (hlen.trans (by rw [hds]; rfl))

theorem normal (h : Reordered Leaf.Alike c d) (hc : c.Normal) : d.Normal := by
  cases c with
  | leaf l =>
    obtain ⟨k, rfl, -⟩ := h.exists_leaf
    exact ⟨h.filled hc.filled, trivial, trivial, trivial⟩
  | node op cs =>
    obtain ⟨ds, rfl, hcs⟩ := h.exists_node
    have hlen := hcs.length_eq
    have hnode : ∀ o, (∀ c ∈ cs, c.isNodeOf o = false) → ∀ d ∈ ds, d.isNodeOf o = false :=
      fun o ho => hcs.forall_mem ho fun c d hcd hco => (hcd.isNodeOf o).symm.trans hco
    have hleaves : Matched Leaf.Alike (cs.filterMap (Condition.mergeableLeaf? op))
        (ds.filterMap (Condition.mergeableLeaf? op)) :=
      hcs.filterMap fun _ _ hcd => hcd.mergeableLeaf? op
    refine ⟨h.filled hc.filled, ⟨fun ho => hnode _ (hc.tight.1 ho), fun ho => hlen ▸ hc.tight.2 ho⟩,
      fun ho => hnode _ (hc.flat ho), fun ho hds => ?_⟩
    obtain ⟨hgroup, hnodup⟩ := hc.settled ho (hlen ▸ hds)
    exact ⟨hleaves.forall_mem hgroup fun _ _ hlk hl => hlk.grouping.symm.trans hl,
      (hleaves.perm_map fun _ _ => Leaf.Alike.field).nodup_iff.1 hnodup⟩

/-- Whether a round counts anything does not depend on order. -/
theorem roundCount_eq_zero_iff (h : Reordered Leaf.Alike c d) (hc : Everywhere Filled c) :
    c.roundCount = 0 ↔ d.roundCount = 0 := by
  have hd : Everywhere Filled d := h.everywhere (fun _ _ => filled) hc
  rw [Condition.roundCount_eq_zero_iff hc, Condition.roundCount_eq_zero_iff hd]
  exact ⟨h.everywhere fun _ _ => normal,
    (h.symm fun _ _ => Leaf.Alike.symm).everywhere fun _ _ => normal⟩

theorem rounds (h : Reordered Leaf.Alike c d) (hc : Everywhere Filled c) (n : Nat) :
    Reordered Leaf.Alike (c.rounds n) (d.rounds n) := by
  induction n generalizing c d with
  | zero => exact h
  | succ n ih =>
    rw [Condition.rounds, Condition.rounds]
    simp only [h.roundCount_eq_zero_iff hc]
    split_ifs
    · exact h.round
    · exact ih h.round (filled_round hc)

end Reordered

/-- **Simplification depends on the order of siblings in the order of arguments and of equally
ranked siblings only.** -/
theorem simplify_reordered (hc : Everywhere Filled c) (h : Reordered Eq c d) :
    Reordered Leaf.Alike c.simplify d.simplify ∧
      Everywhere Ordered c.simplify ∧ Everywhere Ordered d.simplify := by
  have halike : Reordered Leaf.Alike c d := h.imp fun _ _ => Leaf.Alike.of_eq
  exact ⟨(halike.rounds hc maxRounds).arrange, ordered_arrange _, ordered_arrange _⟩

/-- Two senders, which are merged, around two negations, which rank equally. -/
def mirrored : Condition :=
  .node .or [
    .leaf { field := .sender, args := ["a"] },
    .node .not [.node .and [.leaf { field := .cc, args := ["b"] },
      .leaf { field := .cc, args := ["c"], raw := true }]],
    .node .not [.leaf { field := .list, args := ["d"] }],
    .leaf { field := .sender, args := ["e"] }]

/-- `mirrored` with the children of every node from right to left. -/
def mirrorImage : Condition :=
  .node .or [
    .leaf { field := .sender, args := ["e"] },
    .node .not [.leaf { field := .list, args := ["d"] }],
    .node .not [.node .and [.leaf { field := .cc, args := ["c"], raw := true },
      .leaf { field := .cc, args := ["b"] }]],
    .leaf { field := .sender, args := ["a"] }]

theorem simplify_reordered_mirrored :
    (Everywhere Filled mirrored ∧ Reordered Eq mirrored mirrorImage) ∧
      Reordered Leaf.Alike mirrored.simplify mirrorImage.simplify ∧
      Everywhere Ordered mirrored.simplify ∧ Everywhere Ordered mirrorImage.simplify := by
  have hfilled : Everywhere Filled mirrored := by
    simp [mirrored, everywhere_node, Filled]
  have hleaf : ∀ l : Leaf, Reordered Eq (.leaf l) (.leaf l) := fun l => .leaf rfl
  have hpair : ∀ l k : Leaf,
      Reordered Eq (.node .and [.leaf l, .leaf k]) (.node .and [.leaf k, .leaf l]) :=
    fun l k => .node (.swap ..) (.cons (hleaf k) (.cons (hleaf l) .nil))
  have horder : Reordered Eq mirrored mirrorImage :=
    .node (List.reverse_perm _).symm
      (.cons (hleaf _) (.cons (.node (.refl _) (.cons (hleaf _) .nil))
        (.cons (.node (.refl _) (.cons (hpair _ _) .nil)) (.cons (hleaf _) .nil))))
  exact ⟨⟨hfilled, horder⟩, simplify_reordered hfilled horder⟩

end

end Condition

end MailRules
