import MailRules.Proofs.Condition.Normal
import MailRules.Proofs.Condition.Ranked
import Mathlib.Data.Nat.Find
import Mathlib.Logic.Function.Iterate

/-!
# Rounds of simplification

Simplification comes to a normal form in two rounds, whatever the condition was, and a third round
finds nothing to do.

* Each step counts the places that it changes, and it counts none just where its part of the normal
  form is reached: `flattenCount_eq_zero_iff`, `mergeCount_eq_zero_iff`,
  `collapseCount_eq_zero_iff`.  So the test that ends the rounds is a test of the normal form
  (`roundCount_eq_zero_iff`).
* `EndsAfter` is the end of the rounds, and `rounds_of_endsAfter` what they lead to.
* A round makes a condition tight, and a tight one normal (`normal_round`); `normal_rounds` and
  `normal_simplify` are the main results.
-/

namespace MailRules

/-- Leaves are counted unless they are of different fields and grouped by the operation. -/
theorem Leaf.mergeCount_eq_zero_iff {op : Operation} {seen : List Field} {ls : List Leaf} :
    Leaf.mergeCount op seen ls = 0 ↔
      (∀ l ∈ ls, l.grouping = op) ∧ (ls.map Leaf.field).Nodup ∧ ∀ l ∈ ls, l.field ∉ seen := by
  induction ls generalizing seen with
  | nil => simp [Leaf.mergeCount]
  | cons l ls ih =>
    have hfirst : (if l.field ∈ seen ∨ l.grouping ≠ op then 1 else 0) = 0 ↔
        l.field ∉ seen ∧ l.grouping = op := by simp
    have hrest : (∀ k ∈ ls, k.field ∉ l.field :: seen) ↔
        l.field ∉ ls.map Leaf.field ∧ ∀ k ∈ ls, k.field ∉ seen := by
      simp [forall_and]
    rw [Leaf.mergeCount, Nat.add_eq_zero_iff, hfirst, ih, hrest, List.map_cons, List.nodup_cons,
      List.forall_mem_cons, List.forall_mem_cons]
    constructor
    · rintro ⟨⟨hseen, hop⟩, hops, hnodup, hne, hnot⟩
      exact ⟨⟨hop, hops⟩, ⟨hne, hnodup⟩, hseen, hnot⟩
    · rintro ⟨⟨hop, hops⟩, ⟨hne, hnodup⟩, hseen, hnot⟩
      exact ⟨⟨hseen, hop⟩, hops, hnodup, hne, hnot⟩

namespace Condition

section

variable {c d : Condition} {op : Operation} {cs ds : List Condition} {l : Leaf} {k n : Nat}

/-! ### Places that are counted -/

/-- A count over siblings is that of all of them together. -/
theorem countAll_eq_zero_iff {count : Condition → Nat} {countAll : List Condition → Nat}
    (hnil : countAll [] = 0) (hcons : ∀ c cs, countAll (c :: cs) = count c + countAll cs) :
    countAll cs = 0 ↔ ∀ c ∈ cs, count c = 0 := by
  induction cs with
  | nil => simp [hnil]
  | cons c cs ih => rw [hcons, Nat.add_eq_zero_iff, ih, List.forall_mem_cons]

theorem flattenCountAll_eq_zero_iff :
    flattenCountAll cs = 0 ↔ ∀ c ∈ cs, c.flattenCount = 0 :=
  countAll_eq_zero_iff (by rw [flattenCountAll]) fun _ _ => by rw [flattenCountAll]

theorem mergeCountAll_eq_zero_iff : mergeCountAll cs = 0 ↔ ∀ c ∈ cs, c.mergeCount = 0 :=
  countAll_eq_zero_iff (by rw [mergeCountAll]) fun _ _ => by rw [mergeCountAll]

theorem collapseCountAll_eq_zero_iff :
    collapseCountAll cs = 0 ↔ ∀ c ∈ cs, c.collapseCount = 0 :=
  countAll_eq_zero_iff (by rw [collapseCountAll]) fun _ _ => by rw [collapseCountAll]

/-! ### Inlining -/

/-- **Nothing is inlined in a flat condition**, and only there. -/
theorem flattenCount_eq_zero_iff : c.flattenCount = 0 ↔ Everywhere Flat c := by
  induction c with
  | leaf l => simp [flattenCount, Flat]
  | node op cs ih =>
    have hroot : inlineCount op (cs.map flatten) = 0 ↔ (node op cs).Flat := by
      simp [inlineCount, Flat, List.countP_eq_zero]
    rw [flattenCount, flattenAll_eq_map, Nat.add_eq_zero_iff, flattenCountAll_eq_zero_iff, hroot,
      everywhere_node, and_comm]
    exact and_congr_right fun _ => forall₂_congr ih

theorem inlineAll_of_flat (h : (node op cs).Flat) : inlineAll op cs = cs := by
  unfold inlineAll
  split_ifs with ho
  · rfl
  · have hsame : ∀ c ∈ cs, inlined op c = [c] := fun c hc => inlined_of_isNodeOf_false (h ho c hc)
    rw [List.flatMap_congr hsame, List.flatMap_singleton']

theorem flatten_of_flat (h : Everywhere Flat c) : c.flatten = c := by
  induction h with
  | leaf => simp
  | node h _ ih =>
    rw [flatten_node, List.map_congr_left ih, List.map_id', inlineAll_of_flat h]

/-! ### Merging -/

@[simp] theorem mergeableLeaf?_mergeLeaves (o : Operation) :
    c.mergeLeaves.mergeableLeaf? o = c.mergeableLeaf? o := by
  cases c <;> simp [mergeableLeaf?]

/-- A pass that leaves alone what each child offers changes nothing for the parent. -/
theorem filterMap_map_mergeLeaves :
    (cs.map mergeLeaves).filterMap (mergeableLeaf? op) = cs.filterMap (mergeableLeaf? op) := by
  rw [List.filterMap_map]
  exact List.filterMap_congr fun c _ => mergeableLeaf?_mergeLeaves op

theorem settled_map_mergeLeaves :
    (node op (cs.map mergeLeaves)).Settled ↔ (node op cs).Settled := by
  simp only [Settled, List.length_map, filterMap_map_mergeLeaves]

theorem mergeSiblingsCount_eq_zero_iff (h : (node op cs).Filled) :
    mergeSiblingsCount op cs = 0 ↔ (node op cs).Settled := by
  unfold mergeSiblingsCount Settled
  split_ifs with hlen
  · simp [Nat.not_lt.2 hlen]
  · have ho : op ≠ .not := fun ho => hlen (Nat.le_of_eq (h.2.2 ho))
    simp [Leaf.mergeCount_eq_zero_iff, ho, Nat.lt_of_not_le hlen]

theorem filled_map {f : Condition → Condition} (h : (node op cs).Filled) :
    (node op (cs.map f)).Filled :=
  ⟨h.1, by simpa using h.2.1, by simpa using h.2.2⟩

/-- **Nothing is merged in a settled condition**, and only there. -/
theorem mergeCount_eq_zero_iff (hf : Everywhere Filled c) :
    c.mergeCount = 0 ↔ Everywhere Settled c := by
  induction hf with
  | leaf => simp [mergeCount, Settled]
  | @node op cs hf _ ih =>
    rw [mergeCount, mergeLeavesAll_eq_map, Nat.add_eq_zero_iff, mergeCountAll_eq_zero_iff,
      mergeSiblingsCount_eq_zero_iff (filled_map hf), settled_map_mergeLeaves, everywhere_node,
      and_comm]
    exact and_congr_right fun _ => forall₂_congr ih

theorem map_leaf_mergeable (op : Operation) (cs : List Condition) :
    (cs.filterMap (mergeableLeaf? op)).map leaf =
      cs.filter fun c => (c.mergeableLeaf? op).isSome := by
  induction cs with
  | nil => rfl
  | cons c cs ih =>
    cases hc : c.mergeableLeaf? op with
    | none => simpa [List.filter_cons, List.filterMap_cons, hc] using ih
    | some l =>
      obtain ⟨rfl, -⟩ := mergeableLeaf?_eq_some.1 hc
      simpa [List.filter_cons, List.filterMap_cons, hc] using ih

/-- Merging in a settled node moves its leaves behind the other children. -/
theorem mergeSiblings_of_settled (h : (node op cs).Settled) (ho : op ≠ .not)
    (hlen : 1 < cs.length) :
    mergeSiblings op cs = (cs.filter fun c => !(c.mergeableLeaf? op).isSome) ++
      cs.filter fun c => (c.mergeableLeaf? op).isSome := by
  obtain ⟨hgroup, hnodup⟩ := h ho hlen
  have hsame : Leaf.mergeAll op (cs.filterMap (mergeableLeaf? op)) =
      cs.filterMap (mergeableLeaf? op) := by
    rw [Leaf.mergeAll_of_nodup op hnodup]
    refine (List.map_congr_left fun l hl => ?_).trans (List.map_id' _)
    rw [← hgroup l hl]
  unfold mergeSiblings
  rw [if_neg (by omega), hsame, map_leaf_mergeable]
  simp

theorem perm_mergeSiblings (hf : (node op cs).Filled) (h : (node op cs).Settled) :
    (mergeSiblings op cs).Perm cs := by
  by_cases hlen : cs.length ≤ 1
  · rw [mergeSiblings_of_length_le hlen]
  · have ho : op ≠ .not := fun ho => hlen (Nat.le_of_eq (hf.2.2 ho))
    rw [mergeSiblings_of_settled h ho (by omega)]
    exact List.perm_append_comm.trans (List.filter_append_perm _ cs)

/-- Moving the leaves of a settled condition makes no node redundant. -/
theorem tight_mergeLeaves_iff (hf : Everywhere Filled c) (h : Everywhere Settled c) :
    Everywhere Tight c.mergeLeaves ↔ Everywhere Tight c := by
  induction hf with
  | leaf => simp
  | @node op cs hf _ ih =>
    obtain ⟨hroot, hcs⟩ := everywhere_node.1 h
    have hperm := perm_mergeSiblings (filled_map hf) (settled_map_mergeLeaves.2 hroot)
    have htight : (node op (mergeSiblings op (cs.map mergeLeaves))).Tight ↔
        (node op cs).Tight := by
      simp [Tight, hperm.mem_iff, hperm.length_eq]
    rw [mergeLeaves_node, everywhere_node, everywhere_node, htight]
    refine and_congr_right fun _ => ?_
    simp only [hperm.mem_iff, List.forall_mem_map]
    exact forall₂_congr fun c hc => ih c hc (hcs c hc)

/-! ### Collapsing -/

/-- A node that is not redundant does not reduce. -/
theorem reduct?_of_tight (h : (node op cs).Tight) : reduct? op cs = none := by
  refine Option.eq_none_iff_forall_ne_some.2 fun d hd => ?_
  rcases reduct?_eq_some.1 hd with ⟨rfl, rfl⟩ | ⟨ho, rfl⟩
  · cases h.1 rfl _ List.mem_cons_self
  · exact absurd (h.2 ho) (by simp)

/-- Nothing changes if no place is counted. -/
theorem collapse_of_count (h : c.collapseCount = 0) : c.collapse = c := by
  induction c with
  | leaf l => simp
  | node op cs ih =>
    rw [collapseCount, collapseAll_eq_map, Nat.add_eq_zero_iff, collapseCountAll_eq_zero_iff] at h
    have hcs : cs.map collapse = cs :=
      (List.map_congr_left fun c hc => ih c hc (h.1 c hc)).trans (List.map_id' cs)
    have hr : reduct? op (cs.map collapse) = none := by simpa using h.2
    rw [collapse_node, reduced, hr, hcs]
    rfl

/-- **Nothing collapses in a tight condition**, and only there. -/
theorem collapseCount_eq_zero_iff (hf : Everywhere Filled c) :
    c.collapseCount = 0 ↔ Everywhere Tight c := by
  induction hf with
  | leaf => simp [collapseCount, Tight]
  | @node op cs hf hcs ih =>
    rw [collapseCount, collapseAll_eq_map, Nat.add_eq_zero_iff, collapseCountAll_eq_zero_iff,
      everywhere_node, and_comm, forall₂_congr ih]
    refine and_congr_left fun hts => ?_
    have hsame : cs.map collapse = cs :=
      (List.map_congr_left fun c hc => collapse_of_count ((ih c hc).2 (hts c hc))).trans
        (List.map_id' cs)
    rw [hsame]
    constructor
    · intro h
      exact tight_of_reduct? hf (fun c hc => (hcs c hc).root) (by simpa using h)
    · intro h
      simp [reduct?_of_tight h]

/-! ### One round -/

theorem filled_round (h : Everywhere Filled c) : Everywhere Filled c.round :=
  filled_collapse (filled_mergeLeaves (filled_flatten h))

theorem tight_round (h : Everywhere Filled c) : Everywhere Tight c.round :=
  tight_collapse (filled_mergeLeaves (filled_flatten h))

theorem everywhere_normal_iff : Everywhere Normal c ↔ Everywhere Filled c ∧ Everywhere Tight c ∧
    Everywhere Flat c ∧ Everywhere Settled c := by
  constructor
  · intro h
    exact ⟨h.imp fun _ => Normal.filled, h.imp fun _ => Normal.tight, h.imp fun _ => Normal.flat,
      h.imp fun _ => Normal.settled⟩
  · rintro ⟨hfill, ht, hflat, hs⟩
    exact (hfill.and (ht.and (hflat.and hs))).imp fun _ h => ⟨h.1, h.2.1, h.2.2.1, h.2.2.2⟩

/-- **A round counts nothing in a condition in normal form**, and only there. -/
theorem roundCount_eq_zero_iff (h : Everywhere Filled c) :
    c.roundCount = 0 ↔ Everywhere Normal c := by
  rw [roundCount, Nat.add_eq_zero_iff, Nat.add_eq_zero_iff, flattenCount_eq_zero_iff,
    everywhere_normal_iff]
  constructor
  · rintro ⟨⟨hflat, hm⟩, hc⟩
    rw [flatten_of_flat hflat] at hm hc
    have hs := (mergeCount_eq_zero_iff h).1 hm
    have ht := (collapseCount_eq_zero_iff (filled_mergeLeaves h)).1 hc
    exact ⟨h, (tight_mergeLeaves_iff h hs).1 ht, hflat, hs⟩
  · rintro ⟨-, ht, hflat, hs⟩
    rw [flatten_of_flat hflat, mergeCount_eq_zero_iff h,
      collapseCount_eq_zero_iff (filled_mergeLeaves h)]
    exact ⟨⟨hflat, hs⟩, (tight_mergeLeaves_iff h hs).2 ht⟩

/-- A round that counts nothing moves leaves behind other children. -/
theorem round_of_normal (h : Everywhere Normal c) : c.round = c.mergeLeaves := by
  obtain ⟨hfill, ht, hflat, hs⟩ := everywhere_normal_iff.1 h
  rw [round, flatten_of_flat hflat]
  refine collapse_of_count ((collapseCount_eq_zero_iff (filled_mergeLeaves hfill)).2 ?_)
  exact (tight_mergeLeaves_iff hfill hs).2 ht

/-- A round makes a condition normal that is not redundant. -/
theorem normal_round (hf : Everywhere Filled c) (ht : Everywhere Tight c) :
    Everywhere Normal c.round := by
  have hfill := filled_flatten hf
  have hfill' := filled_mergeLeaves hfill
  have hflat := flat_mergeLeaves (flat_flatten c)
  have hloose := loose_mergeLeaves hfill (tight_flatten hf ht)
  exact everywhere_normal_iff.2 ⟨filled_collapse hfill', tight_collapse hfill',
    flat_collapse hfill' hloose hflat,
    settled_collapse hfill' hloose hflat (settled_mergeLeaves hfill)⟩

/-! ### The end of the rounds -/

/-- A number of rounds change something, and the next one changes nothing. -/
structure EndsAfter (k : Nat) (c : Condition) : Prop where
  changing : ∀ m < k, (round^[m] c).roundCount ≠ 0
  unchanging : (round^[k] c).roundCount = 0

theorem exists_endsAfter (h : (round^[n] c).roundCount = 0) : ∃ k ≤ n, c.EndsAfter k := by
  have hex : ∃ k, (round^[k] c).roundCount = 0 := ⟨n, h⟩
  exact ⟨Nat.find hex, Nat.find_min' hex h, fun _ => Nat.find_min hex, Nat.find_spec hex⟩

/-- The rounds are those up to the first that changes nothing, unless they are cut off before. -/
theorem rounds_of_endsAfter (h : c.EndsAfter k) (hk : k ≤ n) :
    c.rounds (n + 1) = round^[k + 1] c := by
  induction k generalizing c n with
  | zero =>
    have hcount : c.roundCount = 0 := h.unchanging
    rw [rounds, if_pos hcount, Function.iterate_one]
  | succ k ih =>
    cases n with
    | zero => omega
    | succ n =>
      have hcount : c.roundCount ≠ 0 := h.changing 0 k.succ_pos
      have hnext : c.round.EndsAfter k :=
        ⟨fun m hm => h.changing (m + 1) (by omega), h.unchanging⟩
      rw [rounds, if_neg hcount, ih hnext (by omega), ← Function.iterate_succ_apply]

/-- **Two rounds change something at most.** -/
theorem endsAfter_of_filled (h : Everywhere Filled c) : ∃ k ≤ 2, c.EndsAfter k :=
  exists_endsAfter ((roundCount_eq_zero_iff (filled_round (filled_round h))).2
    (normal_round (filled_round h) (tight_round h)))

theorem normal_round_of_count (hf : Everywhere Filled c) (h : c.roundCount = 0) :
    Everywhere Normal c.round :=
  normal_round hf (((roundCount_eq_zero_iff hf).1 h).imp fun _ => Normal.tight)

theorem rounds_of_normal (h : Everywhere Normal c) (n : Nat) :
    Everywhere Normal (c.rounds n) :=
  rounds_keep (fun _ h => normal_round (h.imp fun _ => Normal.filled) (h.imp fun _ => Normal.tight))
    n h

/-- **Two rounds lead to the normal form**, and no further round leads away from it. -/
theorem normal_rounds (h : Everywhere Filled c) (n : Nat) :
    Everywhere Normal (c.rounds (n + 2)) := by
  rw [rounds]
  split_ifs with hc
  · exact normal_round_of_count h hc
  · rw [rounds]
    split_ifs with hc'
    · exact normal_round_of_count (filled_round h) hc'
    · exact rounds_of_normal (normal_round (filled_round h) (tight_round h)) n

/-! ### Arrangement -/

theorem mem_arrange : d ∈ (cs.map arrange).mergeSort (fun a b => a.rank ≤ b.rank) ↔
    ∃ c ∈ cs, c.arrange = d := by
  rw [List.mem_mergeSort, List.mem_map]

theorem normal_arrange (h : Everywhere Normal c) : Everywhere Normal c.arrange := by
  induction h with
  | leaf h => simpa using h
  | @node op cs h _ ih =>
    have hperm := List.mergeSort_perm (cs.map arrange) fun a b => a.rank ≤ b.rank
    have hlen : ((cs.map arrange).mergeSort fun a b => a.rank ≤ b.rank).length = cs.length := by
      rw [hperm.length_eq, List.length_map]
    have hleaves : (((cs.map arrange).mergeSort fun a b => a.rank ≤ b.rank).filterMap
        (mergeableLeaf? op)).Perm (cs.filterMap (mergeableLeaf? op)) := by
      refine (hperm.filterMap _).trans (.of_eq ?_)
      rw [List.filterMap_map]
      exact List.filterMap_congr fun c _ => mergeableLeaf?_arrange op
    rw [arrange_node]
    refine .node ⟨⟨h.filled.1, ?_, fun ho => hlen.trans (h.filled.2.2 ho)⟩,
      ⟨fun ho d hd => ?_, fun ho => hlen ▸ h.tight.2 ho⟩, fun ho d hd => ?_, fun ho hl => ?_⟩
      fun d hd => ?_
    · have hpos := List.length_pos_iff.2 h.filled.2.1
      exact List.length_pos_iff.1 (hlen ▸ hpos)
    · obtain ⟨c, hc, rfl⟩ := mem_arrange.1 hd
      simpa using h.tight.1 ho c hc
    · obtain ⟨c, hc, rfl⟩ := mem_arrange.1 hd
      simpa using h.flat ho c hc
    · obtain ⟨hgroup, hnodup⟩ := h.settled ho (hlen ▸ hl)
      exact ⟨fun l hl => hgroup l (hleaves.subset hl),
        (hleaves.map Leaf.field).nodup_iff.2 hnodup⟩
    · obtain ⟨c, hc, rfl⟩ := mem_arrange.1 hd
      exact ih c hc

theorem ordered_arrange (c : Condition) : Everywhere Ordered c.arrange := by
  induction c with
  | leaf l => simp [Ordered]
  | node op cs ih =>
    rw [arrange_node]
    refine .node (pairwise_mergeSort_key rank _) fun d hd => ?_
    obtain ⟨c, hc, rfl⟩ := mem_arrange.1 hd
    exact ih c hc

/-- **The simplified form of a condition is normal and ordered.** -/
theorem normal_simplify (h : Everywhere Filled c) :
    Everywhere Normal c.simplify ∧ Everywhere Ordered c.simplify :=
  ⟨normal_arrange (normal_rounds h 2), ordered_arrange _⟩

end

end Condition

end MailRules
