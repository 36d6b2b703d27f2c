import MailRules.Proofs.Condition.Pieces

/-!
# Splitting loses no alternative

Which pieces a condition is split into: nothing is lost, repeated or reordered.

* `Cut` says what consecutive groups of a list are, and `cut_groupsOf` that cutting makes them;
  `Chunked` are the groups of the children of a node, or of the arguments of a leaf.
* `LargestOr` is the place where an "and" is cut, the first of the largest alternatives inside it;
  `splitLargestOr_cases` says that it is found if there is one.
* `Divided` is what becomes of one alternative, and `divided_fit` that it does.  The whole splitting
  is `split_partitions`.
-/

namespace MailRules

/-! ### Consecutive groups -/

/-- A list is cut into consecutive groups: each has the given number of members, but the last may
have fewer, and is not empty. -/
structure Cut {α : Type} (k : Nat) (xs : List α) (groups : List (List α)) : Prop where
  /-- Together the groups are the list. -/
  flatten : groups.flatten = xs
  /-- All groups but the last are full. -/
  full : ∀ g ∈ groups.dropLast, g.length = k
  /-- The last group is not empty, and no larger. -/
  last : ∀ g ∈ groups.getLast?, g ≠ [] ∧ g.length ≤ k

theorem cut_groupsOf {α : Type} {k : Nat} (hk : 0 < k) (xs : List α) :
    Cut k xs (groupsOf k xs) where
  flatten := flatten_groupsOf hk xs
  full := by
    fun_induction groupsOf k xs with
    | case1 => simp
    | case2 xs h ih =>
      by_cases hrest : xs.drop k = []
      · simp [hrest, groupsOf]
      · rw [List.dropLast_cons_of_ne_nil (groupsOf_ne_nil hk hrest)]
        have hlen : k < xs.length := by
          simpa using hrest
        exact List.forall_mem_cons.2 ⟨by simp; omega, ih⟩
  last g hg :=
    have hmem := List.mem_of_getLast? hg
    ⟨(of_mem_groupsOf hmem).1, length_le_of_mem_groupsOf hmem⟩

namespace Condition

variable {c d : Condition} {cs before after : List Condition} {k : Nat} {limit : Int}

/-- The children of a node, or the arguments of a leaf, in consecutive groups.  Each group stands
under the operation of the node, or is a match of the same kind. -/
inductive Chunked (k : Nat) : Condition → List Condition → Prop
  | node {op : Operation} {cs : List Condition} {groups : List (List Condition)}
      (h : Cut k cs groups) : Chunked k (.node op cs) (groups.map (.node op))
  | leaf {l : Leaf} {groups : List (List String)} (h : Cut k l.args groups) :
      Chunked k (.leaf l) (groups.map fun args =>
        .leaf { field := l.field, grouping := l.grouping, args := args, raw := l.raw })

theorem chunked_groups (hk : 0 < k) (c : Condition) : Chunked k c (c.groups k) := by
  cases c with
  | node op cs => exact .node (cut_groupsOf hk cs)
  | leaf l => exact .leaf (cut_groupsOf hk l.args)

/-! ### The place of a cut -/

/-- Between some conditions stands the first of the largest among those rooted at "or". -/
structure LargestOr (before : List Condition) (d : Condition) (after : List Condition) : Prop where
  /-- It is rooted at "or". -/
  root : d.rootOperation = .or
  /-- It has a size. -/
  pos : 0 < d.size
  /-- Those before it are smaller. -/
  first : ∀ e ∈ before, e.rootOperation = .or → e.size < d.size
  /-- Those after it are not larger. -/
  largest : ∀ e ∈ after, e.rootOperation = .or → e.size ≤ d.size

/-- **The first of the largest conditions rooted at "or" is found**, unless there are only empty
ones. -/
theorem splitLargestOr_cases (cs : List Condition) :
    (splitLargestOr cs = none ∧ ∀ e ∈ cs, e.rootOperation = .or → e.size = 0) ∨
      ∃ before d after, splitLargestOr cs = some (before, d, after) ∧
        cs = before ++ d :: after ∧ LargestOr before d after := by
  induction cs with
  | nil => exact .inl ⟨rfl, by simp⟩
  | cons c cs ih =>
    by_cases hc : c.rootOperation = .or ∧ 0 < c.size
    · rcases ih with ⟨hcs, hnone⟩ | ⟨before, d, after, hcs, rfl, hd⟩
      · refine .inr ⟨[], c, cs, by simp [splitLargestOr, hc, hcs], rfl, ⟨hc.1, hc.2, by simp, ?_⟩⟩
        exact fun e he ho => by rw [hnone e he ho]; exact Nat.zero_le _
      · by_cases hlt : c.size < d.size
        · refine .inr ⟨c :: before, d, after, by simp [splitLargestOr, hc, hcs, hlt], rfl, ?_⟩
          exact ⟨hd.root, hd.pos, List.forall_mem_cons.2 ⟨fun _ => hlt, hd.first⟩, hd.largest⟩
        · -- what follows is at most as large as its largest, and that as the first
          refine .inr ⟨[], c, _, by simp [splitLargestOr, hc, hcs, hlt], rfl,
            ⟨hc.1, hc.2, by simp, fun e he ho => ?_⟩⟩
          rcases List.mem_append.1 he with he | he
          · have := hd.first e he ho
            omega
          · rcases List.mem_cons.1 he with rfl | he
            · omega
            · have := hd.largest e he ho
              omega
    · have hempty : c.rootOperation = .or → c.size = 0 := fun ho =>
        Nat.eq_zero_of_not_pos fun hpos => hc ⟨ho, hpos⟩
      rcases ih with ⟨hcs, hnone⟩ | ⟨before, d, after, hcs, rfl, hd⟩
      · exact .inl ⟨by simp [splitLargestOr, hc, hcs], List.forall_mem_cons.2 ⟨hempty, hnone⟩⟩
      · refine .inr ⟨c :: before, d, after, by simp [splitLargestOr, hc, hcs], rfl, ?_⟩
        exact ⟨hd.root, hd.pos,
          List.forall_mem_cons.2 ⟨fun ho => by rw [hempty ho]; exact hd.pos, hd.first⟩, hd.largest⟩

/-! ### Divided alternatives -/

/-- What becomes of an alternative under a limit.  It stays `whole` if it fits or there is nothing
to cut it at; one rooted at "or" is cut into groups of as many members as the limit; and within an
"and" one child is cut, into groups that leave room for everything else. -/
inductive Divided (limit : Int) : Condition → List Condition → Prop
  | whole {c : Condition} (h : (c.size : Int) ≤ limit ∨ (c.rootOperation ≠ .or ∧
      ∀ cs, c = .node .and cs → ∀ e ∈ cs, e.rootOperation = .or → e.size = 0)) :
      Divided limit c [c]
  | groups {c : Condition} {gs : List Condition} (hsize : limit < c.size)
      (hroot : c.rootOperation = .or) (h : Chunked limit.toNat c gs) : Divided limit c gs
  | within {before after gs : List Condition} {d : Condition} {k : Nat}
      (hsize : limit < (node .and (before ++ d :: after)).size) (hd : LargestOr before d after)
      (hk : (k : Int) = max 1 (limit - ((node .and (before ++ d :: after)).size - d.size)))
      (h : Chunked k d gs) : Divided limit (.node .and (before ++ d :: after))
        (gs.map fun g => .node .and (g :: (before ++ after)))

theorem divided_fit (hl : 1 ≤ limit) (c : Condition) : Divided limit c (c.fit limit) := by
  by_cases hsize : (c.size : Int) ≤ limit
  · rw [fit, if_pos hsize]
    exact .whole (.inl hsize)
  have hlt : limit < c.size := by omega
  rw [fit_of_lt hlt]
  cases hroot : c.rootOperation with
  | or => exact .groups hlt hroot (chunked_groups (by omega) c)
  | not | unset =>
    refine .whole (.inr ⟨by simp [hroot], ?_⟩)
    rintro cs rfl
    cases hroot
  | and =>
    cases c with
    | leaf l => exact .whole (.inr ⟨by simp [hroot], by simp⟩)
    | node op cs =>
      obtain rfl : op = .and := hroot
      rcases splitLargestOr_cases cs with ⟨hcs, hnone⟩ | ⟨before, d, after, hcs, rfl, hd⟩
      · rw [splitAnd, hcs]
        exact .whole (.inr ⟨by simp [rootOperation], fun _ heq => (node.inj heq).2 ▸ hnone⟩)
      · rw [splitAnd, hcs]
        exact .within hlt hd (by omega) (chunked_groups (by omega) d)

/-- **Splitting partitions the alternatives.**  For a positive limit, the alternatives of a
condition are the children of an "or" or the condition itself, and its pieces are, alternative by
alternative and in this order, what these are divided into. -/
theorem split_partitions (hl : 1 ≤ limit) (c : Condition) :
    ∃ alternatives parts,
      (∀ cs, c = .node .or cs → alternatives = cs) ∧
      ((∀ cs, c ≠ .node .or cs) → alternatives = [c]) ∧
      c.split limit = .ok parts.flatten ∧
      List.Forall₂ (Divided limit) alternatives parts := by
  refine ⟨c.alternatives, c.alternatives.map (fit limit), ?_, ?_, ?_, ?_⟩
  · rintro cs rfl
    rfl
  · intro h
    unfold alternatives
    split
    · exact absurd rfl (h _)
    · rfl
  · rw [split_eq_ok hl, pieces, List.flatMap_def]
  · rw [List.forall₂_map_right_iff, List.forall₂_same]
    exact fun d _ => divided_fit hl d

/-- Any of some senders. -/
def anySender (args : List String) : Condition :=
  .leaf { field := .sender, grouping := .or, args }

/-- Any of some recipients. -/
def anyRecipient (args : List String) : Condition :=
  .leaf { field := .recipient, grouping := .or, args }

/-- Three alternatives: five senders, a match that fits, and as many senders as recipients, among
which the senders come first. -/
def sendersAndRecipients : Condition :=
  .node .or [
    anySender ["a", "b", "c", "d", "e"],
    .leaf { field := .subject, args := ["s"] },
    .node .and [.leaf { field := .list, args := ["l"] }, anySender ["a", "b"],
      anyRecipient ["c", "d"]]]

theorem split_sendersAndRecipients : sendersAndRecipients.split 2 = .ok [
    anySender ["a", "b"], anySender ["c", "d"], anySender ["e"],
    .leaf { field := .subject, args := ["s"] },
    .node .and [anySender ["a"], .leaf { field := .list, args := ["l"] },
      anyRecipient ["c", "d"]],
    .node .and [anySender ["b"], .leaf { field := .list, args := ["l"] },
      anyRecipient ["c", "d"]]] := by
  with_unfolding_all rfl

theorem split_partitions_sendersAndRecipients :
    1 ≤ (2 : Int) ∧ ∃ five subject both parts,
      sendersAndRecipients = .node .or [five, subject, both] ∧
      List.Forall₂ (Divided 2) [five, subject, both] parts ∧
      parts.flatten = [
        anySender ["a", "b"], anySender ["c", "d"], anySender ["e"], subject,
        .node .and [anySender ["a"], .leaf { field := .list, args := ["l"] },
          anyRecipient ["c", "d"]],
        .node .and [anySender ["b"], .leaf { field := .list, args := ["l"] },
          anyRecipient ["c", "d"]]] := by
  obtain ⟨alternatives, parts, hchildren, -, hsplit, hparts⟩ :=
    split_partitions (by decide : 1 ≤ (2 : Int)) sendersAndRecipients
  obtain rfl := hchildren _ rfl
  exact ⟨by decide, _, _, _, parts, rfl, hparts,
    Except.ok.inj (hsplit.symm.trans split_sendersAndRecipients)⟩

end Condition

end MailRules
