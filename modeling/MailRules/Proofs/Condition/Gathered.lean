import MailRules.Proofs.Condition.Leaves
import Mathlib.Data.List.Perm.Basic
import Mathlib.Logic.Relation

/-!
# What becomes of the leaves of a condition

Simplification rewrites the leaves of a condition in three ways: it reorders them, gives them other
groupings, and merges two leaves of one field.

* `Leaf.Step` is one such change of a list of leaves; `becomes_simplify` says that simplification
  amounts to a run of these, whatever the shape of the condition.
* `Leaf.GatheredFrom` is the relation of a leaf to those that were merged into it.  A step keeps the
  leaves gathered from those at the start (`Gathers.step`), and so does a run
  (`Gathers.of_becomes`).
-/

namespace MailRules

/-! ### Changes of leaves -/

namespace Leaf

/-- One change of the leaves of a condition. -/
inductive Step : List Leaf → List Leaf → Prop
  | reorder {ls ks : List Leaf} (h : ls.Perm ks) : Step ls ks
  | regroup (op : Operation) (l : Leaf) (ls : List Leaf) :
      Step (l :: ls) ({ l with grouping := op } :: ls)
  | merge {t l : Leaf} (h : t.field = l.field) (ls : List Leaf) :
      Step (t :: l :: ls) ({ t with args := t.args ++ l.args, raw := t.raw || l.raw } :: ls)

/-- Some leaves become others by changes one after the other. -/
abbrev Becomes : List Leaf → List Leaf → Prop := Relation.ReflTransGen Step

variable {t l : Leaf} {ls ks ms ns ts : List Leaf} {op : Operation}

theorem Step.append_right (h : Step ls ks) (ms : List Leaf) : Step (ls ++ ms) (ks ++ ms) := by
  cases h with
  | reorder h => exact .reorder (h.append_right ms)
  | regroup op l ls => exact .regroup op l (ls ++ ms)
  | merge h ls => exact .merge h (ls ++ ms)

namespace Becomes

theorem of_perm (h : ls.Perm ks) : Becomes ls ks := .single (.reorder h)

theorem append_right (h : Becomes ls ks) (ms : List Leaf) : Becomes (ls ++ ms) (ks ++ ms) :=
  h.lift (· ++ ms) fun _ _ hstep => hstep.append_right ms

theorem append (h : Becomes ls ks) (h' : Becomes ms ns) : Becomes (ls ++ ms) (ks ++ ns) :=
  calc Becomes (ls ++ ms) (ks ++ ms) := h.append_right ms
    Becomes _ (ms ++ ks) := of_perm List.perm_append_comm
    Becomes _ (ns ++ ks) := h'.append_right ks
    Becomes _ (ks ++ ns) := of_perm List.perm_append_comm

theorem cons (t : Leaf) (h : Becomes ls ks) : Becomes (t :: ls) (t :: ks) :=
  append (.refl (a := [t])) h

end Becomes

theorem becomes_mergeInto (op : Operation) (l : Leaf) (ts : List Leaf) :
    Becomes (l :: ts) (l.mergeInto op ts) := by
  induction ts with
  | nil => exact .single (.regroup op l [])
  | cons t ts ih =>
    have hswap : Becomes (l :: t :: ts) (t :: l :: ts) := .of_perm (.swap t l ts)
    unfold mergeInto
    split_ifs with hf
    · exact hswap.tail (.merge hf ts)
    · exact hswap.trans (ih.cons t)

theorem becomes_mergeAll (op : Operation) (ls : List Leaf) : Becomes ls (mergeAll op ls) := by
  have hfold : ∀ ts : List Leaf,
      Becomes (ts ++ ls) (ls.foldl (fun merged l => mergeInto op l merged) ts) := by
    induction ls with
    | nil => intro ts; simpa using Relation.ReflTransGen.refl
    | cons l ls ih =>
      intro ts
      have hnext : Becomes (ts ++ l :: ls) (l :: ts ++ ls) := .of_perm List.perm_middle
      exact hnext.trans (((becomes_mergeInto op l ts).append_right ls).trans (ih _))
  exact hfold []

end Leaf

/-! ### The leaves of a condition -/

namespace Condition

mutual

/-- The leaves of a condition, from left to right. -/
def leaves : Condition → List Leaf
  | .leaf l => [l]
  | .node _ cs => leavesAll cs

/-- The leaves of each condition of a list, one after the other. -/
def leavesAll : List Condition → List Leaf
  | [] => []
  | c :: cs => c.leaves ++ leavesAll cs

end

variable {c d : Condition} {op : Operation} {cs ds : List Condition}

theorem leavesAll_eq_flatMap (cs : List Condition) : leavesAll cs = cs.flatMap leaves := by
  induction cs with
  | nil => rfl
  | cons c cs ih => rw [leavesAll, ih, List.flatMap_cons]

@[simp] theorem leaves_leaf (l : Leaf) : (leaf l).leaves = [l] := by
  rw [leaves]

@[simp] theorem leaves_node (op : Operation) (cs : List Condition) :
    (node op cs).leaves = cs.flatMap leaves := by
  rw [leaves, leavesAll_eq_flatMap]

theorem flatMap_leaves_map {f : Condition → Condition} (h : ∀ c ∈ cs, (f c).leaves = c.leaves) :
    (cs.map f).flatMap leaves = cs.flatMap leaves := by
  rw [List.flatMap_map]
  exact List.flatMap_congr h

theorem becomes_map {f : Condition → Condition} (h : ∀ c ∈ cs, Leaf.Becomes c.leaves (f c).leaves) :
    Leaf.Becomes (cs.flatMap leaves) ((cs.map f).flatMap leaves) := by
  induction cs with
  | nil => exact .refl
  | cons c cs ih =>
    obtain ⟨hc, hcs⟩ := List.forall_mem_cons.1 h
    rw [List.map_cons, List.flatMap_cons, List.flatMap_cons]
    exact hc.append (ih hcs)

/-! ### Leaves of a simplified condition -/

theorem leaves_inlineAll (op : Operation) (cs : List Condition) :
    (inlineAll op cs).flatMap leaves = cs.flatMap leaves := by
  have hinlined : ∀ c, (inlined op c).flatMap leaves = c.leaves := by
    intro c
    cases c with
    | leaf l => simp [inlined]
    | node o cs =>
      simp only [inlined]
      split_ifs <;> simp
  unfold inlineAll
  split_ifs
  · rfl
  · rw [List.flatMap_assoc]
    exact List.flatMap_congr fun c _ => hinlined c

theorem flatten_leaves (c : Condition) : c.flatten.leaves = c.leaves := by
  induction c with
  | leaf l => simp
  | node op cs ih =>
    rw [flatten_node, leaves_node, leaves_inlineAll, flatMap_leaves_map ih, leaves_node]

/-- What cannot be merged and the leaves that can be are all leaves. -/
theorem perm_leaves_mergeable (op : Operation) (cs : List Condition) :
    (cs.flatMap leaves).Perm ((cs.filter fun c => (c.mergeableLeaf? op).isNone).flatMap leaves ++
      cs.filterMap (mergeableLeaf? op)) := by
  induction cs with
  | nil => simp
  | cons c cs ih =>
    cases hc : c.mergeableLeaf? op with
    | none => simpa [List.filter_cons, List.filterMap_cons, hc] using ih.append_left c.leaves
    | some l =>
      obtain ⟨rfl, -⟩ := mergeableLeaf?_eq_some.1 hc
      simp only [List.filter_cons, hc, Option.isNone_some, Bool.false_eq_true, if_false,
        List.filterMap_cons, List.flatMap_cons, leaves_leaf, List.singleton_append]
      exact (ih.cons l).trans List.perm_middle.symm

theorem becomes_mergeSiblings (op : Operation) (cs : List Condition) :
    Leaf.Becomes (cs.flatMap leaves) ((mergeSiblings op cs).flatMap leaves) := by
  unfold mergeSiblings
  split_ifs
  · exact .refl
  · have hleaves : ∀ ls : List Leaf, (ls.map leaf).flatMap leaves = ls := fun ls => by
      simp [List.flatMap_map]
    rw [List.flatMap_append, hleaves]
    exact (Leaf.Becomes.of_perm (perm_leaves_mergeable op cs)).trans
      (Leaf.Becomes.append .refl (Leaf.becomes_mergeAll op _))

theorem becomes_mergeLeaves (c : Condition) : Leaf.Becomes c.leaves c.mergeLeaves.leaves := by
  induction c with
  | leaf l => simpa using Relation.ReflTransGen.refl
  | node op cs ih =>
    rw [mergeLeaves_node, leaves_node, leaves_node]
    exact (becomes_map ih).trans (becomes_mergeSiblings op _)

theorem leaves_reduced (op : Operation) (cs : List Condition) :
    (reduced op cs).leaves = cs.flatMap leaves := by
  unfold reduced
  cases hr : reduct? op cs with
  | none => exact leaves_node op cs
  | some d => rcases reduct?_eq_some.1 hr with ⟨rfl, rfl⟩ | ⟨-, rfl⟩ <;> simp

theorem collapse_leaves (c : Condition) : c.collapse.leaves = c.leaves := by
  induction c with
  | leaf l => simp
  | node op cs ih => rw [collapse_node, leaves_reduced, flatMap_leaves_map ih, leaves_node]

theorem becomes_arrange (c : Condition) : Leaf.Becomes c.leaves c.arrange.leaves := by
  induction c with
  | leaf l => simpa using Relation.ReflTransGen.refl
  | node op cs ih =>
    rw [arrange_node, leaves_node, leaves_node]
    exact (becomes_map ih).trans
      (Leaf.Becomes.of_perm ((List.mergeSort_perm _ _).symm.flatMap_right leaves))

theorem becomes_round (c : Condition) : Leaf.Becomes c.leaves c.round.leaves := by
  rw [round, collapse_leaves]
  exact flatten_leaves c ▸ becomes_mergeLeaves c.flatten

/-- **Simplification reorders leaves, groups them anew and merges those of one field**, and does
nothing else to them. -/
theorem becomes_simplify (c : Condition) : Leaf.Becomes c.leaves c.simplify.leaves := by
  have hround : ∀ d : Condition, Leaf.Becomes c.leaves d.leaves →
      Leaf.Becomes c.leaves d.round.leaves := fun d hd => hd.trans (becomes_round d)
  have hrounds : Leaf.Becomes c.leaves (c.rounds maxRounds).leaves :=
    rounds_keep hround maxRounds .refl
  exact hrounds.trans (becomes_arrange _)

end Condition

/-! ### Leaves that others are gathered in -/

namespace Leaf

/-- A leaf was merged from others: it is of their field, has the arguments of one after the other,
and is raw if one of them is. -/
structure GatheredFrom (t : Leaf) (parts : List Leaf) : Prop where
  ne_nil : parts ≠ []
  field : ∀ l ∈ parts, l.field = t.field
  args : t.args = parts.flatMap Leaf.args
  raw : t.raw = parts.any Leaf.raw

/-- Leaves are gathered from others, each of which ends up in one of them. -/
def Gathers (ts ls : List Leaf) : Prop :=
  ∃ parts : List (List Leaf), parts.flatten.Perm ls ∧ List.Forall₂ GatheredFrom ts parts

variable {t l : Leaf} {ls ts ts' p q : List Leaf}

theorem gatheredFrom_self (l : Leaf) : l.GatheredFrom [l] :=
  ⟨List.cons_ne_nil _ _, by simp, by simp, by simp⟩

theorem GatheredFrom.merge (ht : t.GatheredFrom p) (hl : l.GatheredFrom q)
    (h : t.field = l.field) : GatheredFrom
      { t with args := t.args ++ l.args, raw := t.raw || l.raw } (p ++ q) where
  ne_nil := List.append_ne_nil_of_left_ne_nil ht.ne_nil q
  field k hk := (List.mem_append.1 hk).elim (ht.field k) fun hk => (hl.field k hk).trans h.symm
  args := by rw [List.flatMap_append, ← ht.args, ← hl.args]
  raw := by rw [List.any_append, ← ht.raw, ← hl.raw]

theorem gathers_self (ls : List Leaf) : Gathers ls ls := by
  refine ⟨ls.map fun l => [l], by simp [← List.flatMap_def], ?_⟩
  rw [List.forall₂_map_right_iff, List.forall₂_same]
  exact fun l _ => gatheredFrom_self l

/-- **A change keeps leaves gathered** from what they were gathered from. -/
theorem Gathers.step (h : Gathers ts ls) (hs : Step ts ts') : Gathers ts' ls := by
  obtain ⟨parts, hperm, hparts⟩ := h
  cases hs with
  | reorder hp =>
    obtain ⟨parts', hparts', hp'⟩ := List.perm_comp_forall₂ hp.symm hparts
    exact ⟨parts', hp'.flatten.trans hperm, hparts'⟩
  | regroup op l ts =>
    obtain ⟨p, rest, hl, hrest, rfl⟩ := List.forall₂_cons_left_iff.1 hparts
    exact ⟨p :: rest, hperm, .cons ⟨hl.ne_nil, hl.field, hl.args, hl.raw⟩ hrest⟩
  | merge hf ts =>
    obtain ⟨p, qs, ht, hqs, rfl⟩ := List.forall₂_cons_left_iff.1 hparts
    obtain ⟨q, rest, hl, hrest, rfl⟩ := List.forall₂_cons_left_iff.1 hqs
    exact ⟨(p ++ q) :: rest, by simpa using hperm, .cons (ht.merge hl hf) hrest⟩

theorem Gathers.of_becomes (h : Becomes ls ts) : Gathers ts ls := by
  induction h with
  | refl => exact gathers_self ls
  | tail _ hs ih => exact ih.step hs

end Leaf

end MailRules
