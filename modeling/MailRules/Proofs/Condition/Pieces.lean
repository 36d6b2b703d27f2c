import MailRules.Proofs.Condition.Expressible

/-!
# Pieces: what they say and how large they are

Splitting is to keep what a condition says and to make it small.

* The pieces of a condition are meaningful if it is, and hold together exactly when it does
  (`split_equivalent`).
* A piece for the limit one takes alternatives one at a time; no other limit gives smaller pieces
  (`exists_fit_of_mem_fit_one`), so those have to fit for a limit to be kept at all.
* `of_mem_groups` says what a group is if it is none of these: arguments of a leaf, which count one
  each, or several children of an "or" node, which count what they count, and one for the node.
* `split_fits_but_joined` is what this means for the pieces.  One that does not fit joins several
  children of an "or" node, and exceeds the limit at most by what was not counted.
-/

namespace MailRules

/-! ### Groups -/

section

variable {α : Type} {k : Nat} {x : α} {xs ys : List α}

theorem groupsOf_one (xs : List α) : groupsOf 1 xs = xs.map fun x => [x] := by
  induction xs with
  | nil => simp [groupsOf]
  | cons x xs ih =>
    rw [groupsOf, List.map_cons, ← ih]
    simp

theorem length_le_of_mem_groupsOf (h : ys ∈ groupsOf k xs) : ys.length ≤ k := by
  fun_induction groupsOf k xs with
  | case1 => cases h
  | case2 xs _ ih =>
    rcases List.mem_cons.1 h with rfl | h
    · exact List.length_take_le k xs
    · exact ih h

theorem exists_mem_groupsOf (hk : 0 < k) (h : x ∈ xs) : ∃ ys ∈ groupsOf k xs, x ∈ ys := by
  rw [← flatten_groupsOf hk xs] at h
  exact List.mem_flatten.1 h

end

namespace Condition

variable {c d e g p : Condition} {op : Operation} {cs ds before after : List Condition} {k : Nat}
  {limit : Int}

/-! ### What pieces say -/

/-- What is asked of the root of a condition for it to be meaningful. -/
def MeaningfulRoot : Condition → Prop
  | .leaf l => l.Meaningful
  | .node op cs => op.Takes cs.length

theorem meaningful_iff_everywhere : c.Meaningful ↔ Everywhere MeaningfulRoot c := by
  induction c with
  | leaf l => simp [MeaningfulRoot]
  | node op cs ih =>
    rw [meaningful_node, everywhere_node]
    exact and_congr_right fun _ => forall₂_congr ih

theorem divisible_meaningful : Divisible MeaningfulRoot where
  node op cs ds hop _ _ := by
    rcases hop with rfl | rfl <;> trivial
  leaf _ _ h hne hsub := h.of_sublist hne hsub

theorem Meaningful.pieces (h : c.Meaningful) : ∀ p ∈ c.pieces limit, p.Meaningful := fun p hp =>
  meaningful_iff_everywhere.2
    (everywhere_pieces divisible_meaningful (meaningful_iff_everywhere.1 h) p hp)

/-- **Splitting is an equivalent disjunction.**  No positive limit is refused; the pieces are
meaningful if the condition is, and for all truth values of pairs of a field and an argument it is
true exactly if one of them is. -/
theorem split_equivalent (hl : 1 ≤ limit) (c : Condition) :
    ∃ pieces, c.split limit = .ok pieces ∧ (c.Meaningful → ∀ p ∈ pieces, p.Meaningful) ∧
      ∀ v, c.holds v = true ↔ ∃ p ∈ pieces, p.holds v = true := by
  refine ⟨c.pieces limit, split_eq_ok hl c, Meaningful.pieces, fun v => ?_⟩
  rw [← any_pieces hl c, List.any_eq_true]

/-- Alternatives the first of which cannot be true: there is nothing in the "or" that it is cut
at. -/
def deadAlternative : Condition :=
  .node .or [
    .node .and [.node .or [], .leaf { field := .sender, grouping := .and, args := ["a", "b"] }],
    .leaf { field := .subject, grouping := .or, args := ["s", "t", "u"] },
    .node .or []]

theorem split_deadAlternative : deadAlternative.split 2 = .ok [
    .leaf { field := .subject, grouping := .or, args := ["s", "t"] },
    .leaf { field := .subject, grouping := .or, args := ["u"] },
    .node .or []] := by
  with_unfolding_all rfl

theorem split_equivalent_deadAlternative :
    1 ≤ (2 : Int) ∧ deadAlternative.Meaningful ∧ ∃ pieces, deadAlternative.split 2 = .ok pieces ∧
      pieces.length = 3 ∧ (∀ p ∈ pieces, p.Meaningful) ∧
      ∃ p ∈ pieces, p.holds (fun m => m.2 = "u") = true := by
  have hmeans : deadAlternative.Meaningful := by
    simp [deadAlternative, Leaf.Meaningful, Operation.Takes]
  obtain ⟨pieces, hsplit, hpieces, hiff⟩ :=
    split_equivalent (by decide : 1 ≤ (2 : Int)) deadAlternative
  have heq := Except.ok.inj (hsplit.symm.trans split_deadAlternative)
  exact ⟨by decide, hmeans, pieces, hsplit, by rw [heq]; rfl, hpieces hmeans,
    (hiff _).1 (by decide)⟩

/-! ### How large groups are -/

theorem sizeAll_le_of_sublist (h : ds.Sublist cs) : sizeAll ds ≤ sizeAll cs := by
  induction h with
  | slnil => exact Nat.le_refl _
  | cons c _ ih => exact Nat.le_trans ih (Nat.le_add_left _ _)
  | cons_cons c _ ih => exact Nat.add_le_add_left ih _

theorem size_le_of_mem (h : c ∈ cs) : c.size ≤ sizeAll cs := by
  simpa [sizeAll] using sizeAll_le_of_sublist (List.singleton_sublist.2 h)

theorem size_le_of_mem_groups (h : g ∈ c.groups k) : g.size ≤ c.size := by
  cases c with
  | leaf l =>
    obtain ⟨args, hargs, rfl⟩ := List.mem_map.1 h
    exact (of_mem_groupsOf hargs).2.length_le
  | node op cs =>
    obtain ⟨ds, hds, rfl⟩ := List.mem_map.1 h
    exact Nat.add_le_add_left (sizeAll_le_of_sublist (of_mem_groupsOf hds).2) 1

/-- One child or argument is in a group of every other length. -/
theorem exists_group_of_mem_one (hk : 0 < k) (h : g ∈ c.groups 1) :
    ∃ g' ∈ c.groups k, g.size ≤ g'.size := by
  cases c with
  | leaf l =>
    simp only [groups, groupsOf_one, List.map_map, List.mem_map] at h
    obtain ⟨a, ha, rfl⟩ := h
    obtain ⟨args, hargs, hmem⟩ := exists_mem_groupsOf hk ha
    exact ⟨_, List.mem_map_of_mem hargs, List.length_pos_of_mem hmem⟩
  | node op cs =>
    simp only [groups, groupsOf_one, List.map_map, List.mem_map] at h
    obtain ⟨d, hd, rfl⟩ := h
    obtain ⟨ds, hds, hmem⟩ := exists_mem_groupsOf hk hd
    refine ⟨_, List.mem_map_of_mem hds, ?_⟩
    simpa [size, sizeAll] using size_le_of_mem hmem

/-- A group of several members has several arguments, which count one each, or several children. -/
theorem of_mem_groups (ho : c.rootOperation = .or) (h : g ∈ c.groups k) :
    g ∈ c.groups 1 ∨ g.size ≤ k ∨ ∃ ds, g = node .or ds ∧ 2 ≤ ds.length ∧ ds.length ≤ k := by
  cases c with
  | leaf l =>
    obtain ⟨args, hargs, rfl⟩ := List.mem_map.1 h
    exact .inr (.inl (length_le_of_mem_groupsOf hargs))
  | node op cs =>
    obtain rfl : op = .or := ho
    obtain ⟨ds, hds, rfl⟩ := List.mem_map.1 h
    by_cases hlen : 2 ≤ ds.length
    · exact .inr (.inr ⟨ds, rfl, hlen, length_le_of_mem_groupsOf hds⟩)
    · obtain ⟨hne, hsub⟩ := of_mem_groupsOf hds
      have hpos := List.length_pos_iff.2 hne
      obtain ⟨d, rfl⟩ := List.length_eq_one_iff.1 (show ds.length = 1 by omega)
      refine .inl (List.mem_map_of_mem ?_)
      rw [groupsOf_one]
      exact List.mem_map_of_mem (hsub.subset List.mem_cons_self)

/-! ### How large pieces are -/

theorem size_cut (op : Operation) (before after : List Condition) (d : Condition) :
    (node op (before ++ d :: after)).size = (node op (before ++ after)).size + d.size := by
  simp only [size, sizeAll_append, sizeAll]
  omega

theorem size_rewrapped (op : Operation) (cs : List Condition) (g : Condition) :
    (node op (g :: cs)).size = (node op cs).size + g.size := by
  simp only [size, sizeAll]
  omega

/-- How many members a group may have if everything else takes up some of the limit. -/
def room (limit : Int) (rest : Nat) : Nat :=
  (max 1 (limit - rest)).toNat

theorem room_cases (limit : Int) (rest : Nat) :
    room limit rest = 1 ∨ (room limit rest : Int) = limit - rest := by
  unfold room
  omega

theorem room_pos (limit : Int) (rest : Nat) : 0 < room limit rest := by
  unfold room
  omega

/-- A limit of one leaves room for one member, since the node around it is something. -/
theorem room_one (cs : List Condition) : room 1 (node op cs).size = 1 := by
  unfold room
  simp only [size]
  omega

/-- An "and" without a child to cut is its only piece; otherwise the pieces are the groups of that
child, each with all that stands around it. -/
theorem mem_splitAnd_node : p ∈ (node op cs).splitAnd limit ↔
    (splitLargestOr cs = none ∧ p = node op cs) ∨
      ∃ before d after, splitLargestOr cs = some (before, d, after) ∧
        ∃ g ∈ d.groups (room limit (node .and (before ++ after)).size),
          p = node .and (g :: (before ++ after)) := by
  cases hs : splitLargestOr cs with
  | none => simp [splitAnd, hs]
  | some q =>
    obtain ⟨before, d, after⟩ := q
    obtain ⟨rfl, -⟩ := splitLargestOr_eq_some hs
    have hrest : ((node op (before ++ d :: after)).size : Int) - d.size =
        (node .and (before ++ after)).size := by
      rw [size_cut]
      simp only [size]
      omega
    simp [splitAnd, hs, hrest, room, eq_comm]

/-- A piece is never larger than the alternative that it is a piece of. -/
theorem size_le_of_mem_fit (h : p ∈ c.fit limit) : p.size ≤ c.size := by
  unfold fit at h
  split_ifs at h
  · exact (List.mem_singleton.1 h) ▸ Nat.le_refl _
  · split at h
    · exact size_le_of_mem_groups h
    · cases c with
      | leaf l => exact (List.mem_singleton.1 h) ▸ Nat.le_refl _
      | node op cs =>
        rcases mem_splitAnd_node.1 h with ⟨-, rfl⟩ | ⟨before, d, after, hs, g, hg, rfl⟩
        · exact Nat.le_refl _
        · obtain ⟨rfl, -⟩ := splitLargestOr_eq_some hs
          have hgd := size_le_of_mem_groups hg
          have hop : (node .and (before ++ after)).size = (node op (before ++ after)).size := by
            simp only [size]
          rw [size_rewrapped, size_cut]
          omega
    · exact (List.mem_singleton.1 h) ▸ Nat.le_refl _

/-- A condition that is too large is cut by what it is rooted at. -/
theorem fit_of_lt (h : limit < c.size) : c.fit limit = match c.rootOperation with
    | .or => c.groups limit.toNat
    | .and => c.splitAnd limit
    | _ => [c] := by
  unfold fit
  exact if_neg (by omega)

/-- **No limit gives smaller pieces than one.** -/
theorem exists_fit_of_mem_fit_one (hl : 1 ≤ limit) (h : p ∈ c.fit 1) :
    ∃ q ∈ c.fit limit, p.size ≤ q.size := by
  by_cases hc : (c.size : Int) ≤ limit
  · refine ⟨c, ?_, size_le_of_mem_fit h⟩
    rw [fit, if_pos hc]
    exact List.mem_singleton_self c
  rw [fit_of_lt (by omega)] at h ⊢
  cases hop : c.rootOperation with
  | or =>
    rw [hop] at h
    exact exists_group_of_mem_one (by omega) h
  | and =>
    rw [hop] at h
    cases c with
    | leaf l => exact ⟨p, h, Nat.le_refl _⟩
    | node op cs =>
      rcases mem_splitAnd_node.1 h with hwhole | ⟨before, d, after, hs, g, hg, rfl⟩
      · exact ⟨p, mem_splitAnd_node.2 (.inl hwhole), Nat.le_refl _⟩
      · rw [room_one] at hg
        obtain ⟨g', hg', hle⟩ := exists_group_of_mem_one
          (room_pos limit (node .and (before ++ after)).size) hg
        refine ⟨_, mem_splitAnd_node.2 (.inr ⟨before, d, after, hs, g', hg', rfl⟩), ?_⟩
        rw [size_rewrapped, size_rewrapped]
        omega
  | not | unset =>
    rw [hop] at h
    exact ⟨p, h, Nat.le_refl _⟩

/-- What a piece is that joins several children of an "or" node: these alone, or with what they are
alternatives within. -/
inductive Joins (ds : List Condition) : Condition → Prop
  | alone : Joins ds (node .or ds)
  | within (rest : List Condition) : Joins ds (node .and (node .or ds :: rest))

/-- A piece does not fit because its members do not fit one at a time, or because it joins several
children of an "or" node. -/
theorem of_mem_fit (hl : 1 ≤ limit) (hone : ∀ q ∈ c.fit 1, (q.size : Int) ≤ limit)
    (h : p ∈ c.fit limit) (hp : limit < p.size) :
    ∃ ds, Joins ds p ∧ 2 ≤ ds.length ∧ (p.size : Int) + ds.length ≤ limit + 1 + sizeAll ds := by
  have hnone : p ∉ c.fit 1 := fun hmem => absurd (hone p hmem) (by omega)
  have hsize := size_le_of_mem_fit h
  rw [fit_of_lt (by omega)] at h hnone
  cases hop : c.rootOperation with
  | or =>
    rw [hop] at h hnone
    rcases of_mem_groups hop h with h1 | hle | ⟨ds, rfl, hlen, hle⟩
    · exact absurd h1 hnone
    · omega
    · refine ⟨ds, .alone, hlen, ?_⟩
      simp only [size]
      omega
  | and =>
    rw [hop] at h hnone
    cases c with
    | leaf l => exact absurd h hnone
    | node op cs =>
      rcases mem_splitAnd_node.1 h with hwhole | ⟨before, d, after, hs, g, hg, rfl⟩
      · exact absurd (mem_splitAnd_node.2 (.inl hwhole)) hnone
      -- a group of one member would be a piece for the limit one as well
      have hg1 : g ∉ d.groups 1 := fun hg1 => hnone <|
        mem_splitAnd_node.2 (.inr ⟨before, d, after, hs, g, (room_one _).symm ▸ hg1, rfl⟩)
      rw [size_rewrapped] at hp ⊢
      rcases room_cases limit (node .and (before ++ after)).size with hroom | hroom
      · rw [hroom] at hg
        exact absurd hg hg1
      · rcases of_mem_groups (splitLargestOr_eq_some hs).2 hg with h1 | hle | ⟨ds, rfl, hlen, hle⟩
        · exact absurd h1 hg1
        · omega
        · refine ⟨ds, .within _, hlen, ?_⟩
          simp only [size] at hroom hle ⊢
          omega
  | not | unset =>
    rw [hop] at h hnone
    exact absurd h hnone

/-- **Pieces fit whenever they can, but for joined ones.**  For a positive limit: if all pieces fit,
then so do those that take one alternative at a time.  If these fit, then a piece that does not fit
joins several children of an "or" node, and exceeds the limit by no more than one for that node and
what its children count beyond one each. -/
theorem split_fits_but_joined (hl : 1 ≤ limit) (c : Condition) :
    ∃ single pieces, c.split 1 = .ok single ∧ c.split limit = .ok pieces ∧
      ((∀ p ∈ pieces, (p.size : Int) ≤ limit) → ∀ p ∈ single, (p.size : Int) ≤ limit) ∧
      ((∀ p ∈ single, (p.size : Int) ≤ limit) → ∀ p ∈ pieces, limit < p.size →
        ∃ ds, Joins ds p ∧ 2 ≤ ds.length ∧
          (p.size : Int) + ds.length ≤ limit + 1 + sizeAll ds) := by
  refine ⟨_, _, split_eq_ok (Int.le_refl 1) c, split_eq_ok hl c, fun hfit p hp => ?_,
    fun hone p hp hlt => ?_⟩
  · obtain ⟨d, hd, hp⟩ := List.mem_flatMap.1 hp
    obtain ⟨q, hq, hle⟩ := exists_fit_of_mem_fit_one hl hp
    have hfits := hfit q (List.mem_flatMap.2 ⟨d, hd, hq⟩)
    omega
  · obtain ⟨d, hd, hp⟩ := List.mem_flatMap.1 hp
    exact of_mem_fit hl (fun q hq => hone q (List.mem_flatMap.2 ⟨d, hd, hq⟩)) hp hlt

/-- One of three matches of different fields, together with another match. -/
def threeFields : Condition :=
  .node .and [
    .leaf { field := .cc, grouping := .and, args := ["d"] },
    .node .or [
      .leaf { field := .sender, grouping := .or, args := ["a"] },
      .leaf { field := .recipient, grouping := .or, args := ["b"] },
      .leaf { field := .subject, grouping := .or, args := ["c"] }]]

/-- What remains of `threeFields` if only some of the three matches are asked for. -/
def fieldsOf (ls : List Leaf) : Condition :=
  .node .and [
    .node .or (ls.map .leaf), .leaf { field := .cc, grouping := .and, args := ["d"] }]

theorem split_threeFields :
    threeFields.split 1 = .ok [
      fieldsOf [{ field := .sender, grouping := .or, args := ["a"] }],
      fieldsOf [{ field := .recipient, grouping := .or, args := ["b"] }],
      fieldsOf [{ field := .subject, grouping := .or, args := ["c"] }]] ∧
    threeFields.split 4 = .ok [
      fieldsOf [{ field := .sender, grouping := .or, args := ["a"] },
        { field := .recipient, grouping := .or, args := ["b"] }],
      fieldsOf [{ field := .subject, grouping := .or, args := ["c"] }]] := by
  constructor <;> with_unfolding_all rfl

/-- **A piece does not fit though it could.**  Taken one at a time the three matches make pieces of
size four, but for the limit four two of them are joined in a piece of size five. -/
theorem threeFields_joined_too_large :
    ∃ single pieces, threeFields.split 1 = .ok single ∧ threeFields.split 4 = .ok pieces ∧
      (∀ p ∈ single, (p.size : Int) ≤ 4) ∧ ¬∀ p ∈ pieces, (p.size : Int) ≤ 4 :=
  ⟨_, _, split_threeFields.1, split_threeFields.2, by decide, by decide⟩

/-- The piece joins two matches, and exceeds the limit by one. -/
theorem split_fits_but_joined_threeFields :
    1 ≤ (4 : Int) ∧ ∃ single pieces, threeFields.split 1 = .ok single ∧
      threeFields.split 4 = .ok pieces ∧ (∀ p ∈ single, (p.size : Int) ≤ 4) ∧
      ∃ p ∈ pieces, 4 < (p.size : Int) ∧ ∃ ds, Joins ds p ∧ 2 ≤ ds.length ∧
        (p.size : Int) + ds.length ≤ 4 + 1 + sizeAll ds := by
  obtain ⟨single, pieces, hsingle, hpieces, -, hjoined⟩ :=
    split_fits_but_joined (by decide : 1 ≤ (4 : Int)) threeFields
  obtain rfl := Except.ok.inj (hsingle.symm.trans split_threeFields.1)
  obtain rfl := Except.ok.inj (hpieces.symm.trans split_threeFields.2)
  refine ⟨by decide, _, _, hsingle, hpieces, by decide, _, List.mem_cons_self, by decide, ?_⟩
  exact hjoined (by decide) _ List.mem_cons_self (by decide)

end Condition

end MailRules
