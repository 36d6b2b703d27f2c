import MailRules.Proofs.Condition.Distinct
import MailRules.Proofs.Condition.Split

/-!
# Simplified conditions can be written down

Writing a condition as criteria fails for some shapes.  No written node leads to one of them, and
splitting does not bring one about.

* Splitting takes children from an "and" or an "or", and arguments from a leaf.  What is
  `Divisible` survives that, so it holds of the pieces if it holds of the condition
  (`everywhere_pieces`); and there are pieces (`pieces_ne_nil`).
* `Expressible` is what search notation asks of a condition.  Then `criteria_ok` gives criteria,
  which are not empty.
* `FilterNode.expressible_simplify` says that the simplified conditions of nodes are expressible.
-/

namespace MailRules

/-! ### Groups -/

section

variable {α : Type} {k : Nat} {xs ys : List α}

/-- A group is not empty and has its members from the list, in order. -/
theorem of_mem_groupsOf (h : ys ∈ groupsOf k xs) : ys ≠ [] ∧ ys.Sublist xs := by
  fun_induction groupsOf k xs with
  | case1 => cases h
  | case2 xs hne ih =>
    obtain ⟨hk, hxs⟩ := not_or.1 hne
    rcases List.mem_cons.1 h with rfl | h
    · exact ⟨by simp [hk, hxs], List.take_sublist k xs⟩
    · exact ⟨(ih h).1, (ih h).2.trans (List.drop_sublist k xs)⟩

theorem groupsOf_ne_nil (hk : 0 < k) (h : xs ≠ []) : groupsOf k xs ≠ [] := by
  intro hnil
  refine h ?_
  rw [← flatten_groupsOf hk xs, hnil, List.flatten_nil]

end

namespace Condition

section

variable {P : Condition → Prop} {c d : Condition} {cs : List Condition} {k : Nat} {limit : Int}

/-! ### Properties of pieces -/

/-- A property of conditions that splitting keeps: that of an "and" or an "or" does not depend on
which children there are, and that of a leaf passes to some of its arguments. -/
structure Divisible (P : Condition → Prop) : Prop where
  node : ∀ op cs ds, op = .and ∨ op = .or → P (.node op cs) → ds ≠ [] → P (.node op ds)
  leaf : ∀ l args, P (.leaf l) → args ≠ [] → args.Sublist l.args → P (.leaf { l with args })

/-- What passes to some of the arguments of a leaf is a property that splitting keeps. -/
theorem divisible_ofLeaves {Q : Leaf → Prop}
    (h : ∀ l args, Q l → args ≠ [] → args.Sublist l.args → Q { l with args }) :
    Divisible (OfLeaves Q) where
  node _ _ _ _ _ _ := trivial
  leaf := h

theorem everywhere_groups (hP : Divisible P) (h : Everywhere P c) (ho : c.rootOperation = .or) :
    ∀ g ∈ c.groups k, Everywhere P g := by
  intro g hg
  cases c with
  | leaf l =>
    obtain ⟨args, hargs, rfl⟩ := List.mem_map.1 hg
    obtain ⟨hne, hsub⟩ := of_mem_groupsOf hargs
    exact .leaf (hP.leaf l args h.root hne hsub)
  | node op cs =>
    obtain ⟨ds, hds, rfl⟩ := List.mem_map.1 hg
    obtain ⟨hne, hsub⟩ := of_mem_groupsOf hds
    obtain ⟨hroot, hcs⟩ := everywhere_node.1 h
    exact .node (hP.node op cs ds (.inr ho) hroot hne) fun d hd => hcs d (hsub.subset hd)

theorem everywhere_splitAnd (hP : Divisible P) (h : Everywhere P c) (ho : c.rootOperation = .and) :
    ∀ p ∈ c.splitAnd limit, Everywhere P p := by
  intro p hp
  cases c with
  | leaf l => exact List.mem_singleton.1 hp ▸ h
  | node op cs =>
    obtain rfl : op = .and := ho
    obtain ⟨hroot, hcs⟩ := everywhere_node.1 h
    simp only [splitAnd] at hp
    cases hs : splitLargestOr cs with
    | none =>
      rw [hs] at hp
      exact List.mem_singleton.1 hp ▸ h
    | some q =>
      obtain ⟨before, d, after⟩ := q
      obtain ⟨rfl, hd⟩ := splitLargestOr_eq_some hs
      rw [hs] at hp
      obtain ⟨g, hg, rfl⟩ := List.mem_map.1 hp
      refine .node (hP.node _ _ _ (.inl rfl) hroot (List.cons_ne_nil _ _)) fun e he => ?_
      rcases List.mem_cons.1 he with rfl | he
      · exact everywhere_groups hP (hcs d (by simp)) hd e hg
      · rcases List.mem_append.1 he with he | he <;> exact hcs e (by simp [he])

theorem everywhere_fit (hP : Divisible P) (h : Everywhere P c) :
    ∀ p ∈ c.fit limit, Everywhere P p := by
  unfold fit
  split_ifs
  · simpa using h
  · split
    · exact everywhere_groups hP h ‹_›
    · exact everywhere_splitAnd hP h ‹_›
    · simpa using h

theorem everywhere_alternatives (h : Everywhere P c) : ∀ d ∈ c.alternatives, Everywhere P d := by
  unfold alternatives
  split
  · exact (everywhere_node.1 h).2
  · simpa using h

/-- **What splitting keeps holds of the pieces.** -/
theorem everywhere_pieces (hP : Divisible P) (h : Everywhere P c) :
    ∀ p ∈ c.pieces limit, Everywhere P p := by
  intro p hp
  obtain ⟨d, hd, hp⟩ := List.mem_flatMap.1 hp
  exact everywhere_fit hP (everywhere_alternatives h d hd) p hp

/-! ### There are pieces -/

theorem groups_ne_nil (hk : 0 < k) (h : c.Filled) : c.groups k ≠ [] := by
  cases c with
  | leaf l => simpa [groups] using groupsOf_ne_nil hk h
  | node op cs => simpa [groups] using groupsOf_ne_nil hk h.2.1

theorem splitAnd_ne_nil (h : Everywhere Filled c) : c.splitAnd limit ≠ [] := by
  cases c with
  | leaf l => simp [splitAnd]
  | node op cs =>
    simp only [splitAnd]
    cases hs : splitLargestOr cs with
    | none => simp
    | some q =>
      obtain ⟨before, d, after⟩ := q
      obtain ⟨rfl, -⟩ := splitLargestOr_eq_some hs
      have hd := ((everywhere_node.1 h).2 d (by simp)).root
      simpa using groups_ne_nil (by omega) hd

theorem fit_ne_nil (hl : 1 ≤ limit) (h : Everywhere Filled c) : c.fit limit ≠ [] := by
  unfold fit
  split_ifs
  · simp
  · split
    · exact groups_ne_nil (by omega) h.root
    · exact splitAnd_ne_nil h
    · simp

theorem pieces_ne_nil (hl : 1 ≤ limit) (h : Everywhere Filled c) : c.pieces limit ≠ [] := by
  have halt : c.alternatives ≠ [] := by
    unfold alternatives
    split
    · exact h.root.2.1
    · simp
  obtain ⟨d, hd⟩ := List.exists_mem_of_ne_nil _ halt
  intro hnil
  exact fit_ne_nil hl (everywhere_alternatives h d hd) (List.flatMap_eq_nil_iff.1 hnil d hd)

end

end Condition

/-! ### Criteria that are not empty -/

namespace Criteria

variable {k k' : Criteria} {t : String}

theorem isEmpty_iff : k.isEmpty = true ↔ ∀ s, k.slot s = "" := by
  obtain ⟨a, b, c, d⟩ := k
  have hslots : (∀ s, (Criteria.mk a b c d).slot s = "") ↔ a = "" ∧ b = "" ∧ c = "" ∧ d = "" :=
    ⟨fun h => ⟨h .sender, h .recipient, h .subject, h .query⟩,
      fun ⟨ha, hb, hc, hd⟩ s => by cases s <;> assumption⟩
  rw [hslots]
  simp [isEmpty]

theorem isEmpty_only (h : t ≠ "") (s : Slot) : (only t s).isEmpty = false := by
  refine Bool.eq_false_iff.2 fun hempty => h ?_
  simpa [slot_only] using isEmpty_iff.1 hempty s

theorem isEmpty_join : (k.join k').isEmpty = (k.isEmpty && k'.isEmpty) := by
  have hjoin : ∀ a b : String, joinTwo a b = "" ↔ a = "" ∧ b = "" := fun a b => by
    unfold joinTwo
    split_ifs <;> simp_all
  rw [Bool.eq_iff_iff, Bool.and_eq_true]
  simp only [isEmpty_iff, slot_join, hjoin, forall_and]

theorem isEmpty_foldl_join (ks : List Criteria) (k : Criteria) :
    (ks.foldl join k).isEmpty = (k.isEmpty && ks.all isEmpty) := by
  induction ks generalizing k with
  | nil => simp
  | cons k' ks ih => rw [List.foldl_cons, ih, isEmpty_join, List.all_cons, Bool.and_assoc]

end Criteria

/-! ### Conditions that can be written -/

/-- A group of terms, or the negation of one, is not empty. -/
theorem groupTerms_ok {op : Operation} (h : op ≠ .unset) (q : String) :
    ∃ t, groupTerms q op = .ok t ∧ t ≠ "" := by
  obtain ⟨t, ht, hchars⟩ := groupTerms_eq h q
  refine ⟨t, ht, ?_⟩
  rintro rfl
  cases op with
  | unset => exact h rfl
  | _ => cases hchars

/-- Some of the arguments of a leaf have a meaning if all of them do. -/
theorem Leaf.Meaningful.of_sublist {l : Leaf} {args : List String} (h : l.Meaningful)
    (hne : args ≠ []) (hsub : args.Sublist l.args) : ({ l with args } : Leaf).Meaningful :=
  ⟨hne, fun hlen => h.2 (Nat.lt_of_lt_of_le hlen hsub.length_le)⟩

/-- A leaf with something to search for: there are arguments, none is empty, and an operation
combines several. -/
def Leaf.Expressible (l : Leaf) : Prop := l.Meaningful ∧ ∀ a ∈ l.args, a ≠ ""

namespace Leaf.Expressible

variable {l : Leaf}

theorem argText_ok (h : l.Expressible) : ∃ t, l.argText = .ok t ∧ t ≠ "" := by
  rcases Leaf.args_cases h.1 with ⟨a, ha⟩ | hlen
  · have hne : a ≠ "" := h.2 a (by simp [ha])
    have hquote : quoteArg a ≠ "" := by
      unfold quoteArg
      split_ifs
      · simp
      · exact hne
    refine ⟨" ".intercalate l.terms, by simp [argText, ha], ?_⟩
    unfold terms
    split_ifs <;> simpa [ha]
  · obtain ⟨t, ht, hne⟩ := groupTerms_ok (grouping_ne_unset h.1 hlen) (" ".intercalate l.terms)
    exact ⟨t, by simp [argText, hlen, ht], hne⟩

theorem query_ok (h : l.Expressible) : ∃ t, l.query = .ok t ∧ t ≠ "" := by
  obtain ⟨t, ht, hne⟩ := h.argText_ok
  refine ⟨_, bind_eq_ok_iff.2 ⟨t, ht, rfl⟩, ?_⟩
  split_ifs
  · exact hne
  · simp

end Leaf.Expressible

namespace Condition

variable {c : Condition} {cs : List Condition}

/-- What can be written in search notation: operations have as many children as they take, and not
none, and leaves have something to search for. -/
def Expressible : Condition → Prop
  | .leaf l => l.Expressible
  | .node op cs => op.Takes cs.length ∧ cs ≠ []

theorem divisible_expressible : Divisible Expressible where
  node op cs ds hop _ hne := by
    rcases hop with rfl | rfl <;> exact ⟨trivial, hne⟩
  leaf _ _ h hne hsub := ⟨h.1.of_sublist hne hsub, fun a ha => h.2 a (hsub.subset ha)⟩

theorem Expressible.filled (h : c.Expressible) : c.Filled := by
  cases c with
  | leaf l => exact h.1.1
  | node op cs =>
    refine ⟨?_, h.2, ?_⟩ <;> rintro rfl <;> exact h.1

theorem queryAll_ok (h : ∀ c ∈ cs, ∃ t, c.query = .ok t) : ∃ ts, queryAll cs = .ok ts := by
  induction cs with
  | nil => exact ⟨[], by rw [queryAll]⟩
  | cons c cs ih =>
    obtain ⟨⟨t, ht⟩, hcs⟩ := List.forall_mem_cons.1 h
    obtain ⟨ts, hts⟩ := ih hcs
    exact ⟨t :: ts, by rw [queryAll, ht, hts]; rfl⟩

theorem query_ok (h : Everywhere Expressible c) : ∃ t, c.query = .ok t ∧ t ≠ "" := by
  induction h with
  | leaf h =>
    rw [query]
    exact Leaf.Expressible.query_ok h
  | @node op cs h _ ih =>
    obtain ⟨ts, hts⟩ := queryAll_ok fun c hc => (ih c hc).imp fun t ht => ht.1
    have hop : op ≠ .unset := by
      rintro rfl
      exact h.1
    obtain ⟨t, ht, hne⟩ := groupTerms_ok hop (joinTerms ts)
    exact ⟨t, by rw [query, hts]; exact ht, hne⟩

theorem criteriaAll_ok (h : ∀ c ∈ cs, ∃ k, c.criteria = .ok k ∧ k.isEmpty = false) :
    ∃ ks, criteriaAll cs = .ok ks ∧ ks.length = cs.length ∧ ∀ k ∈ ks, k.isEmpty = false := by
  induction cs with
  | nil => exact ⟨[], by rw [criteriaAll], rfl, by simp⟩
  | cons c cs ih =>
    obtain ⟨⟨k, hk, hne⟩, hcs⟩ := List.forall_mem_cons.1 h
    obtain ⟨ks, hks, hlen, hnes⟩ := ih hcs
    exact ⟨k :: ks, by rw [criteriaAll, hk, hks]; rfl, by simp [hlen],
      List.forall_mem_cons.2 ⟨hne, hnes⟩⟩

/-- **An expressible condition has criteria**, which are not empty. -/
theorem criteria_ok (h : Everywhere Expressible c) :
    ∃ k, c.criteria = .ok k ∧ k.isEmpty = false := by
  induction h with
  | @leaf l h =>
    have htext : ∃ t, (if l.field.slot = .query then l.query else l.argText) = .ok t ∧ t ≠ "" := by
      split_ifs
      · exact Leaf.Expressible.query_ok h
      · exact Leaf.Expressible.argText_ok h
    obtain ⟨t, ht, hne⟩ := htext
    exact ⟨_, by rw [criteria, Leaf.criteria_of_ok ht], Criteria.isEmpty_only hne _⟩
  | @node op cs h hcs ih =>
    have hquery : ∀ t : String, t ≠ "" → ({ query := t } : Criteria).isEmpty = false :=
      fun t ht => Criteria.isEmpty_only ht .query
    rcases h.1.cases with (rfl | rfl) | ⟨rfl, hlen⟩
    · obtain ⟨ks, hks, hlen, hne⟩ := criteriaAll_ok ih
      refine ⟨ks.foldl Criteria.join {}, by rw [criteria, hks]; rfl, ?_⟩
      -- there is a child, and its criteria are not empty
      obtain ⟨k, hk⟩ := List.exists_mem_of_ne_nil ks fun hnil =>
        h.2 (List.length_eq_zero_iff.1 (by rw [← hlen, hnil, List.length_nil]))
      rw [Criteria.isEmpty_foldl_join]
      exact Bool.and_eq_false_imp.2 fun _ => List.all_eq_false.2 ⟨k, hk, by simp [hne k hk]⟩
    · obtain ⟨ts, hts⟩ := queryAll_ok fun c hc => (query_ok (hcs c hc)).imp fun t ht => ht.1
      exact ⟨_, by rw [criteria, hts]; rfl, hquery _ (by simp)⟩
    · obtain ⟨c, rfl⟩ := List.length_eq_one_iff.1 hlen
      obtain ⟨t, ht, -⟩ := query_ok (hcs c List.mem_cons_self)
      exact ⟨_, by rw [criteria, ht]; rfl, hquery _ (by simp)⟩

end Condition

/-! ### Written nodes -/

namespace FilterNode

variable {n : FilterNode} {c : Condition}

/-- The texts that nodes state are not empty, and simplification keeps that. -/
theorem leaves_ne_empty (h : n.condition = .ok c) :
    c.simplify.Everywhere (Condition.OfLeaves fun l => ∀ a ∈ l.args, a ≠ "") := by
  have hclosed : Leaf.Closed fun l => ∀ a ∈ l.args, a ≠ "" :=
    ⟨fun _ _ h => h, fun _ _ _ ht hl a ha => (List.mem_append.1 ha).elim (ht a) (hl a)⟩
  refine Condition.leaves_simplify hclosed ?_
  refine everywhere_of_condition (every_of_forall (fun _ => trivial) n) h
    (fun _ _ _ _ _ => trivial) (fun _ _ => trivial) fun m p _ hp => ?_
  simpa [Condition.OfLeaves] using (FieldMatches.ofName?_of_mem_stated hp).2

/-- **The simplified condition of a node can be written.** -/
theorem expressible_simplify (h : n.condition = .ok c) :
    c.simplify.Everywhere Condition.Expressible := by
  have hfilled : c.simplify.Everywhere Condition.Filled :=
    (Condition.normal_simplify (filled_of_condition h).1).1.imp fun _ hd => hd.filled
  have hmeans := (meaningful_of_condition h).simplify
  have htexts := leaves_ne_empty h
  generalize c.simplify = d at hfilled hmeans htexts
  induction hfilled with
  | leaf _ => exact .leaf ⟨Condition.meaningful_leaf.1 hmeans, htexts.root⟩
  | node hf _ ih =>
    obtain ⟨htakes, hms⟩ := Condition.meaningful_node.1 hmeans
    exact .node ⟨htakes, hf.2.1⟩ fun e he =>
      ih e he (hms e he) ((Condition.everywhere_node.1 htexts).2 e he)

end FilterNode

end MailRules
