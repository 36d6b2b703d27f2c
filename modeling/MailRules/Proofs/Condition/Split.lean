import MailRules.Condition.Split
import MailRules.Proofs.Condition.Meaning
import Mathlib.Data.List.Flatten
import Mathlib.Tactic.SplitIfs

/-!
# Pieces of a condition are its alternatives

Splitting turns a condition into a disjunction: a message matches the condition exactly when it
matches one of the pieces.

* `flatten_groupsOf` says that cutting a list into groups loses nothing, and `any_groups` what
  this means for the groups of a condition that is rooted at "or".
* `splitLargestOr_eq_some` says where an "and" is cut, `any_splitAnd` that the cut distributes the
  other children over the groups.
* `any_pieces` is the whole splitting; `split_of_no_or` says what is not split at all.
-/

namespace MailRules

/-- **Groups put one after the other are the list again.** -/
theorem flatten_groupsOf {α : Type} {k : Nat} (hk : 0 < k) (xs : List α) :
    (groupsOf k xs).flatten = xs := by
  fun_induction groupsOf k xs with
  | case1 xs h =>
    rcases h with h | rfl
    · omega
    · rfl
  | case2 xs _ ih => rw [List.flatten_cons, ih, List.take_append_drop]

theorem any_groupsOf {α : Type} {k : Nat} (hk : 0 < k) (p : α → Bool) (xs : List α) :
    ((groupsOf k xs).any fun ys => ys.any p) = xs.any p := by
  rw [← List.any_flatten, flatten_groupsOf hk]

theorem any_and_const {α : Type} (p : α → Bool) (b : Bool) (xs : List α) :
    (xs.any fun x => p x && b) = (xs.any p && b) := by
  cases b <;> simp

namespace Condition

variable {v : Field × String → Bool}

/-! ### Groups -/

theorem holds_or (cs : List Condition) : (node .or cs).holds v = cs.any (holds v) := by
  simp [holds_node, Operation.joined]

/-- **A condition rooted at "or" holds if one of its groups does.** -/
theorem any_groups {c : Condition} {k : Nat} (hk : 0 < k) (h : c.rootOperation = .or) :
    (c.groups k).any (holds v) = c.holds v := by
  cases c with
  | node op cs =>
    obtain rfl : op = .or := h
    simp only [groups, List.any_map, Function.comp_def, holds_or, any_groupsOf hk]
  | leaf l =>
    obtain ⟨f, g, args, raw⟩ := l
    obtain rfl : g = .or := h
    simp only [groups, List.any_map, Function.comp_def, holds_leaf, Leaf.holds, Leaf.pairs,
      Operation.joined, if_true, id, any_groupsOf hk]

/-! ### Cutting an "and" -/

/-- An "and" is cut at one of its children, which is rooted at "or". -/
theorem splitLargestOr_eq_some {cs before after : List Condition} {d : Condition}
    (h : splitLargestOr cs = some (before, d, after)) :
    cs = before ++ d :: after ∧ d.rootOperation = .or := by
  induction cs generalizing before d after with
  | nil => simp [splitLargestOr] at h
  | cons c cs ih =>
    simp only [splitLargestOr] at h
    by_cases hc : c.rootOperation = .or ∧ 0 < c.size
    · rw [if_pos hc] at h
      cases hcs : splitLargestOr cs with
      | none =>
        simp only [hcs, Option.some.injEq, Prod.mk.injEq] at h
        obtain ⟨rfl, rfl, rfl⟩ := h
        exact ⟨rfl, hc.1⟩
      | some p =>
        obtain ⟨before', e, after'⟩ := p
        obtain ⟨heq, he⟩ := ih hcs
        simp only [hcs] at h
        split_ifs at h <;> simp only [Option.some.injEq, Prod.mk.injEq] at h <;>
          obtain ⟨rfl, rfl, rfl⟩ := h
        · exact ⟨by rw [heq, List.cons_append], he⟩
        · exact ⟨rfl, hc.1⟩
    · rw [if_neg hc] at h
      cases hcs : splitLargestOr cs with
      | none => simp [hcs] at h
      | some p =>
        obtain ⟨before', e, after'⟩ := p
        obtain ⟨heq, he⟩ := ih hcs
        simp only [hcs, Option.some.injEq, Prod.mk.injEq] at h
        obtain ⟨rfl, rfl, rfl⟩ := h
        exact ⟨by rw [heq, List.cons_append], he⟩

theorem holds_and (cs : List Condition) : (node .and cs).holds v = cs.all (holds v) := by
  simp [holds_node, Operation.joined]

/-- **An "and" holds if a group of one child holds together with all other children.** -/
theorem any_splitAnd {limit : Int} {c : Condition} (h : c.rootOperation = .and) :
    (c.splitAnd limit).any (holds v) = c.holds v := by
  cases c with
  | leaf l => simp [splitAnd]
  | node op cs =>
    obtain rfl : op = .and := h
    simp only [splitAnd]
    cases hs : splitLargestOr cs with
    | none => simp
    | some p =>
      obtain ⟨before, d, after⟩ := p
      obtain ⟨hcs, hd⟩ := splitLargestOr_eq_some hs
      -- the room for a group is positive, so that the groups cover the child
      have hroom : 0 < (max 1 (limit - (((node .and cs).size : Int) - d.size))).toNat := by omega
      have hgroup : ∀ g, (node .and (g :: (before ++ after))).holds v =
          (g.holds v && (before ++ after).all (holds v)) := fun g => by
        rw [holds_and, List.all_cons]
      simp only [List.any_map, Function.comp_def, hgroup]
      rw [any_and_const, any_groups hroom hd, holds_and, hcs]
      simp only [List.all_append, List.all_cons]
      cases before.all (holds v) <;> cases d.holds v <;> rfl

/-! ### Pieces -/

theorem any_fit {limit : Int} (hl : 1 ≤ limit) (c : Condition) :
    (c.fit limit).any (holds v) = c.holds v := by
  simp only [fit]
  split_ifs
  · simp
  · split
    · exact any_groups (by omega) ‹_›
    · exact any_splitAnd ‹_›
    · simp

theorem any_alternatives (c : Condition) : c.alternatives.any (holds v) = c.holds v := by
  unfold alternatives
  split
  · exact (holds_or _).symm
  · simp

/-- **The pieces of a condition are its alternatives**: it holds if one of them does. -/
theorem any_pieces {limit : Int} (hl : 1 ≤ limit) (c : Condition) :
    (c.pieces limit).any (holds v) = c.holds v := by
  rw [pieces, List.any_flatMap, ← any_alternatives c]
  simp only [any_fit hl]

/-- A positive limit is never refused. -/
theorem split_eq_ok {limit : Int} (hl : 1 ≤ limit) (c : Condition) :
    c.split limit = .ok (c.pieces limit) := by
  have h : limit ≠ 0 := by omega
  simp [split, h]

/-- A condition is its own piece if there is no "or" to split it at, whatever the limit. -/
theorem split_of_no_or {c : Condition} (limit : Int) (h : c.rootOperation ≠ .or)
    (hcs : ∀ op cs, c = node op cs → ∀ d ∈ cs, d.rootOperation ≠ .or) :
    c.split limit = .ok [c] := by
  have halt : c.alternatives = [c] := by
    unfold alternatives
    split
    · exact absurd rfl h
    · rfl
  have hand : c.splitAnd limit = [c] := by
    cases c with
    | leaf l => rfl
    | node op cs =>
      have hnone : splitLargestOr cs = none := by
        refine Option.eq_none_iff_forall_ne_some.2 fun p hp => ?_
        obtain ⟨rfl, hd⟩ := splitLargestOr_eq_some (show _ = some (p.1, p.2.1, p.2.2) from hp)
        exact hcs op _ rfl p.2.1 (by simp) hd
      rw [splitAnd, hnone]
  have hfit : c.fit limit = [c] := by
    unfold fit
    split_ifs
    · rfl
    · split
      · exact absurd ‹_› h
      · exact hand
      · rfl
  have hneeds : c.needsGroups limit = false := by
    rw [needsGroups, halt]
    simp [h]
  simp [split, pieces, hneeds, halt, hfit]

end Condition

end MailRules
