import MailRules.Sequence.Matching
import Mathlib.Data.List.Basic
import Mathlib.Tactic.SplitIfs

/-!
# Matching blocks match

What two sequences have in common is found as blocks, and these are where they should be.

* `runBefore` is the length of the run that ends at two positions, and the rows that a search keeps
  are made of such lengths (`runLengths_runRow`).  What is found `Agrees` with both sequences,
  within the bounds of each (`agrees_longestRun`).
* `Chain` is a list of blocks one behind the other, and `chain_matchingBlocks` says that the blocks
  of two sequences are one.
* A sequence and itself have one block (`matchingBlocks_self`), if equal members have equal marks.
-/

namespace MailRules

namespace Sequence

variable {α : Type}

/-! ### Marks -/

/-- Marks that are the same for equal members. -/
def Consistent (ys : List (α × Bool)) : Prop :=
  ∀ p ∈ ys, ∀ q ∈ ys, p.1 = q.1 → p.2 = q.2

section

variable [BEq α]

theorem consistent_markPopular (ys : List α) : Consistent (markPopular ys) := by
  unfold markPopular
  split_ifs
  · rintro p hp q hq -
    obtain ⟨x, -, rfl⟩ := List.mem_map.1 hp
    obtain ⟨y, -, rfl⟩ := List.mem_map.1 hq
    rfl
  · rintro p hp q hq heq
    obtain ⟨x, -, rfl⟩ := List.mem_map.1 hp
    obtain ⟨y, -, rfl⟩ := List.mem_map.1 hq
    obtain rfl : x = y := heq
    rfl

theorem map_fst_markPopular (ys : List α) : (markPopular ys).map Prod.fst = ys := by
  unfold markPopular
  split_ifs <;> exact (List.map_map ..).trans (List.map_id ys)

end

/-! ### Runs -/

/-- The block of a size that ends just before two positions. -/
def endingAt (i j n : Nat) : Block :=
  ⟨i - n, j - n, n⟩

section

variable [BEq α] {xs zs : List α} {ys : List (α × Bool)} {best : Block} {i j n : Nat}
  {ns : List Nat}

/-- The length of the run of equal members, none of them popular, that ends just before two
positions. -/
def runBefore (xs : List α) (ys : List (α × Bool)) : Nat → Nat → Nat
  | i + 1, j + 1 =>
    match xs[i]?, ys[j]? with
    | some x, some (y, popular) => if !popular && x == y then runBefore xs ys i j + 1 else 0
    | _, _ => 0
  | _, _ => 0

theorem runBefore_succ (hi : i < xs.length) (hj : j < ys.length) :
    runBefore xs ys (i + 1) (j + 1) =
      if !ys[j].2 && xs[i] == ys[j].1 then runBefore xs ys i j + 1 else 0 := by
  simp [runBefore, hi, hj]

theorem getElem?_runLengths (x : α) (ns : List Nat) (ys : List (α × Bool)) (j : Nat) :
    (runLengths x ns ys)[j]? = (ns[j]?).bind fun n => (ys[j]?).map fun y =>
      if !y.2 && x == y.1 then n + 1 else 0 := by
  induction ns generalizing ys j with
  | nil => simp [runLengths]
  | cons n ns ih =>
    cases ys with
    | nil => simp [runLengths]
    | cons y ys =>
      cases j with
      | zero => simp [runLengths]
      | succ j => simpa [runLengths] using ih ys j

/-- The lengths of the runs that end at a position of the first list, for every end in the
second. -/
def runRow (xs : List α) (ys : List (α × Bool)) (i : Nat) : List Nat :=
  (List.range ys.length).map fun j => runBefore xs ys i (j + 1)

theorem getElem?_runRow (hj : j < ys.length) :
    (runRow xs ys i)[j]? = some (runBefore xs ys i (j + 1)) := by
  simp [runRow, hj]

theorem runLengths_runRow (hi : i < xs.length) :
    runLengths xs[i] (0 :: runRow xs ys i) ys = runRow xs ys (i + 1) := by
  refine List.ext_getElem? fun j => ?_
  rw [getElem?_runLengths]
  rcases Nat.lt_or_ge j ys.length with hj | hj
  · have hbefore : (0 :: runRow xs ys i)[j]? = some (runBefore xs ys i j) := by
      cases j with
      | zero => cases i <;> simp [runBefore]
      | succ j => rw [List.getElem?_cons_succ, getElem?_runRow (by omega)]
    rw [hbefore, getElem?_runRow hj, runBefore_succ hi hj, List.getElem?_eq_getElem hj]
    rfl
  · simp [runRow, hj]

theorem runRow_zero : runRow xs ys 0 = ys.map fun _ => 0 := by
  refine List.ext_getElem (by simp [runRow]) fun j _ _ => ?_
  simp [runRow, runBefore]

/-- The best run is the best so far or one of those that end here. -/
theorem bestOf_cases (i : Nat) (best : Block) (j : Nat) (ns : List Nat) :
    bestOf i best j ns = best ∨
      ∃ k n, ns[k]? = some n ∧ bestOf i best j ns = endingAt (i + 1) (j + k + 1) n := by
  induction ns generalizing best j with
  | nil => exact .inl rfl
  | cons n ns ih =>
    rw [bestOf]
    rcases ih (if best.size < n then ⟨i + 1 - n, j + 1 - n, n⟩ else best) (j + 1) with
      heq | ⟨k, m, hk, heq⟩
    · rw [heq]
      split_ifs
      · exact .inr ⟨0, n, rfl, rfl⟩
      · exact .inl rfl
    · exact .inr ⟨k + 1, m, hk, by rw [heq, Nat.add_right_comm j 1 k]; rfl⟩

/-! ### Blocks of equal members -/

/-- A block lies within two lists, and has equal members in both. -/
structure Agrees (xs ys : List α) (m : Block) : Prop where
  /-- The block lies within the first list. -/
  left : m.a + m.size ≤ xs.length
  /-- The block lies within the second list. -/
  right : m.b + m.size ≤ ys.length
  /-- The members are equal. -/
  eq : ∀ k < m.size, xs[m.a + k]? = ys[m.b + k]?

variable [LawfulBEq α]

theorem of_lt_commonLength {k : Nat} (h : k < commonLength xs zs) :
    k < xs.length ∧ k < zs.length ∧ xs[k]? = zs[k]? := by
  induction xs generalizing zs k with
  | nil => simp [commonLength] at h
  | cons x xs ih =>
    cases zs with
    | nil => simp [commonLength] at h
    | cons z zs =>
      rw [commonLength] at h
      split_ifs at h with hxz
      · cases k with
        | zero => simp [eq_of_beq hxz]
        | succ k => simpa using ih (Nat.lt_of_succ_lt_succ h)
      · cases h

theorem commonLength_le (xs zs : List α) :
    commonLength xs zs ≤ xs.length ∧ commonLength xs zs ≤ zs.length := by
  by_cases h : commonLength xs zs = 0
  · omega
  · have := of_lt_commonLength (Nat.sub_one_lt h)
    omega

/-- A block may be extended as far as the lists agree before it and behind it. -/
theorem Agrees.extend (h : Agrees xs zs best) :
    Agrees xs zs
      ⟨best.a - commonLength (xs.take best.a).reverse (zs.take best.b).reverse,
        best.b - commonLength (xs.take best.a).reverse (zs.take best.b).reverse,
        commonLength (xs.take best.a).reverse (zs.take best.b).reverse + best.size +
          commonLength (xs.drop (best.a + best.size)) (zs.drop (best.b + best.size))⟩ := by
  have hl := commonLength_le (xs.take best.a).reverse (zs.take best.b).reverse
  have hr := commonLength_le (xs.drop (best.a + best.size)) (zs.drop (best.b + best.size))
  have hbefore (k : Nat)
      (hk : k < commonLength (xs.take best.a).reverse (zs.take best.b).reverse) :=
    of_lt_commonLength hk
  have hbehind (k : Nat) (hk : k < commonLength (xs.drop (best.a + best.size))
    (zs.drop (best.b + best.size))) := of_lt_commonLength hk
  generalize commonLength (xs.take best.a).reverse (zs.take best.b).reverse = l at *
  generalize commonLength (xs.drop (best.a + best.size)) (zs.drop (best.b + best.size)) = r at *
  have hxs := h.left
  have hzs := h.right
  simp only [List.length_reverse, List.length_take, List.length_drop] at hl hr
  refine ⟨by simp only; omega, by simp only; omega, fun k hk => ?_⟩
  simp only at hk ⊢
  rcases Nat.lt_or_ge k l with hkl | hkl
  · obtain ⟨-, -, heq⟩ := hbefore (l - 1 - k) (by omega)
    rw [List.getElem?_reverse (by simp; omega), List.getElem?_reverse (by simp; omega)] at heq
    simp only [List.length_take] at heq
    rw [List.getElem?_take_of_lt (by omega), List.getElem?_take_of_lt (by omega)] at heq
    convert heq using 2 <;> omega
  rcases Nat.lt_or_ge k (l + best.size) with hkm | hkm
  · have heq := h.eq (k - l) (by omega)
    convert heq using 2 <;> omega
  · obtain ⟨-, -, heq⟩ := hbehind (k - l - best.size) (by omega)
    rw [List.getElem?_drop, List.getElem?_drop] at heq
    convert heq using 2 <;> omega

/-! ### Longest runs -/

theorem agrees_runBefore (hi : i ≤ xs.length) (hj : j ≤ ys.length) :
    runBefore xs ys i j ≤ i ∧ runBefore xs ys i j ≤ j ∧
      Agrees xs (ys.map Prod.fst) (endingAt i j (runBefore xs ys i j)) := by
  have hzero : 0 ≤ i ∧ 0 ≤ j ∧ Agrees xs (ys.map Prod.fst) (endingAt i j 0) :=
    ⟨Nat.zero_le _, Nat.zero_le _, by simpa [endingAt] using hi, by simpa [endingAt] using hj,
      by simp [endingAt]⟩
  induction i generalizing j with
  | zero => exact hzero
  | succ i ih =>
    cases j with
    | zero => exact hzero
    | succ j =>
      rw [runBefore_succ hi hj]
      split_ifs with h
      · obtain ⟨-, hxy⟩ := (Bool.and_eq_true _ _).mp h
        obtain ⟨hri, hrj, hagree⟩ := ih (j := j) (by omega) (by omega)
          ⟨Nat.zero_le _, Nat.zero_le _, by simp [endingAt]; omega, by simp [endingAt]; omega,
            by simp [endingAt]⟩
        generalize runBefore xs ys i j = r at *
        refine ⟨by omega, by omega, by simp [endingAt]; omega, by simp [endingAt]; omega,
          fun k hk => ?_⟩
        simp only [endingAt, Nat.add_sub_add_right] at hk ⊢
        rcases Nat.lt_or_ge k r with hkr | hkr
        · exact hagree.eq k hkr
        · obtain rfl : k = r := by omega
          rw [Nat.sub_add_cancel hri, Nat.sub_add_cancel hrj, List.getElem?_map]
          simp [List.getElem?_eq_getElem hi, List.getElem?_eq_getElem hj, eq_of_beq hxy]
      · exact hzero

theorem agrees_longestFrom (hbest : Agrees xs (ys.map Prod.fst) best) (hi : i ≤ xs.length) :
    Agrees xs (ys.map Prod.fst) (longestFrom ys i (runRow xs ys i) best (xs.drop i)) := by
  induction hk : xs.length - i generalizing i best with
  | zero =>
    rw [List.drop_of_length_le (by omega), longestFrom]
    exact hbest
  | succ k ih =>
    have hlt : i < xs.length := by omega
    rw [List.drop_eq_getElem_cons hlt, longestFrom, runLengths_runRow hlt]
    refine ih ?_ hlt (by omega)
    rcases bestOf_cases i best 0 (runRow xs ys (i + 1)) with heq | ⟨j, n, hj, heq⟩
    · rw [heq]
      exact hbest
    · have hlen : j < ys.length := by
        have := (List.getElem?_eq_some_iff.1 hj).1
        simpa [runRow] using this
      rw [getElem?_runRow hlen] at hj
      obtain rfl := Option.some.inj hj
      rw [heq, Nat.zero_add]
      exact (agrees_runBefore hlt hlen).2.2

/-- **A longest run has equal members.** -/
theorem agrees_longestRun (xs : List α) (ys : List (α × Bool)) :
    Agrees xs (ys.map Prod.fst) (longestRun xs ys) := by
  have hnone : Agrees xs (ys.map Prod.fst) ⟨0, 0, 0⟩ := ⟨by simp, by simp, by simp⟩
  have hbest := agrees_longestFrom (i := 0) hnone (Nat.zero_le _)
  rw [runRow_zero, List.drop_zero] at hbest
  exact hbest.extend

end

/-! ### Blocks in order -/

section

variable {xs ys : List α} {i j i' j' : Nat} {ms ns : List Block}

/-- Blocks of equal members, from two positions on to two others, each behind the one before it in
both lists. -/
inductive Chain (xs ys : List α) : Nat → Nat → List Block → Nat → Nat → Prop
  | nil {i j i' j' : Nat} (hi : i ≤ i') (hj : j ≤ j') : Chain xs ys i j [] i' j'
  | cons {i j i' j' : Nat} {m : Block} {ms : List Block} (hi : i ≤ m.a) (hj : j ≤ m.b)
      (eq : ∀ k < m.size, xs[m.a + k]? = ys[m.b + k]?)
      (rest : Chain xs ys (m.a + m.size) (m.b + m.size) ms i' j') : Chain xs ys i j (m :: ms) i' j'

theorem Chain.weaken {i₀ j₀ : Nat} (h : Chain xs ys i j ms i' j')
    (hi : i₀ ≤ i) (hj : j₀ ≤ j) : Chain xs ys i₀ j₀ ms i' j' := by
  cases h with
  | nil hi' hj' => exact .nil (Nat.le_trans hi hi') (Nat.le_trans hj hj')
  | cons hi' hj' eq rest => exact .cons (Nat.le_trans hi hi') (Nat.le_trans hj hj') eq rest

theorem Chain.append {i₁ j₁ : Nat} (hm : Chain xs ys i j ms i₁ j₁)
    (hn : Chain xs ys i₁ j₁ ns i' j') : Chain xs ys i j (ms ++ ns) i' j' := by
  induction hm with
  | nil hi hj => exact hn.weaken hi hj
  | cons hi hj eq _ ih => exact .cons hi hj eq (ih hn)

theorem Chain.joinTouching (h : Chain xs ys i j ms i' j') :
    Chain xs ys i j (joinTouching ms) i' j' := by
  induction h with
  | nil hi hj => exact .nil hi hj
  | @cons i j i' j' m ms hi hj eq _ ih =>
    rw [Sequence.joinTouching]
    generalize Sequence.joinTouching ms = ns at ih
    cases ih with
    | nil hi' hj' => exact .cons hi hj eq (.nil hi' hj')
    | @cons _ _ _ _ n ns hi' hj' eq' rest' =>
      simp only
      split_ifs with htouch
      · have hrest : Chain xs ys (m.a + (m.size + n.size)) (m.b + (m.size + n.size)) ns
            i' j' := by
          rw [← Nat.add_assoc, ← Nat.add_assoc, htouch.1, htouch.2]
          exact rest'
        refine .cons hi hj (fun k hk => ?_) hrest
        rcases Nat.lt_or_ge k m.size with hkm | hkm
        · exact eq k hkm
        · simp only at hk ⊢
          have hk' := eq' (k - m.size) (by omega)
          convert hk' using 2 <;> omega
      · exact .cons hi hj eq (.cons hi' hj' eq' rest')

end

section

variable [BEq α] [LawfulBEq α] {xs : List α} {ys : List (α × Bool)} {i j : Nat}

/-- The blocks of two parts of lists are in order in the lists. -/
theorem chain_blocksFrom {Xs Ys : List α} (fuel : Nat)
    (hxs : ∀ k < xs.length, Xs[i + k]? = xs[k]?)
    (hys : ∀ k < ys.length, Ys[j + k]? = (ys.map Prod.fst)[k]?) :
    Chain Xs Ys i j (blocksFrom fuel i j xs ys) (i + xs.length) (j + ys.length) := by
  induction fuel generalizing i j xs ys with
  | zero => exact .nil (Nat.le_add_right _ _) (Nat.le_add_right _ _)
  | succ fuel ih =>
    have hm := agrees_longestRun xs ys
    rw [blocksFrom]
    generalize longestRun xs ys = m at hm
    have hleft := hm.left
    have hright := hm.right
    rw [List.length_map] at hright
    split_ifs with hsize
    · exact .nil (Nat.le_add_right _ _) (Nat.le_add_right _ _)
    have hbefore : Chain Xs Ys i j (blocksFrom fuel i j (xs.take m.a) (ys.take m.b))
        (i + (xs.take m.a).length) (j + (ys.take m.b).length) := ih
      (fun k hk => by
        rw [List.length_take] at hk
        rw [hxs k (by omega), List.getElem?_take_of_lt (by omega)])
      (fun k hk => by
        rw [List.length_take] at hk
        rw [hys k (by omega), List.map_take, List.getElem?_take_of_lt (by omega)])
    have hbehind : Chain Xs Ys (i + m.a + m.size) (j + m.b + m.size) (blocksFrom fuel _ _
        (xs.drop (m.a + m.size)) (ys.drop (m.b + m.size)))
        (i + m.a + m.size + (xs.drop (m.a + m.size)).length)
        (j + m.b + m.size + (ys.drop (m.b + m.size)).length) := ih
      (fun k hk => by
        rw [List.length_drop] at hk
        rw [List.getElem?_drop, ← hxs _ (by omega)]
        congr 1
        omega)
      (fun k hk => by
        rw [List.length_drop] at hk
        rw [List.map_drop, List.getElem?_drop, ← hys _ (by omega)]
        congr 1
        omega)
    simp only [List.length_take, List.length_drop] at hbefore hbehind
    rw [Nat.min_eq_left (by omega), Nat.min_eq_left (by omega)] at hbefore
    have hi : i + m.a + m.size + (xs.length - (m.a + m.size)) = i + xs.length := by omega
    have hj : j + m.b + m.size + (ys.length - (m.b + m.size)) = j + ys.length := by omega
    rw [hi, hj] at hbehind
    refine hbefore.append (.cons (Nat.le_refl _) (Nat.le_refl _) (fun k hk => ?_) hbehind)
    simp only at hk ⊢
    rw [Nat.add_assoc i, Nat.add_assoc j, hxs _ (by omega), hys _ (by omega)]
    exact hm.eq k hk

/-- **The blocks of two lists match, and are in order.** -/
theorem chain_matchingBlocks (xs : List α) (ys : List (α × Bool)) :
    Chain xs (ys.map Prod.fst) 0 0 (matchingBlocks xs ys) xs.length ys.length := by
  have h : Chain xs (ys.map Prod.fst) 0 0 (blocksFrom xs.length 0 0 xs ys) (0 + xs.length)
      (0 + ys.length) := chain_blocksFrom xs.length
    (fun k _ => by rw [Nat.zero_add]) (fun k _ => by rw [Nat.zero_add])
  rw [Nat.zero_add, Nat.zero_add] at h
  exact h.joinTouching

/-! ### A list and itself -/

/-- A run of a list and itself is not longer than the one that ends at the same place in both. -/
theorem runBefore_le_left (hj : j ≤ ys.length) :
    runBefore xs ys i j ≤ runBefore (ys.map Prod.fst) ys j j := by
  induction j generalizing i with
  | zero => cases i <;> simp [runBefore]
  | succ j ih =>
    cases i with
    | zero => simp [runBefore]
    | succ i =>
      rcases Nat.lt_or_ge i xs.length with hi | hi
      · rw [runBefore_succ hi hj, runBefore_succ (by rwa [List.length_map]) hj]
        have hle := ih (i := i) (by omega)
        by_cases hpop : ys[j].2 <;> simp [hpop]
        split_ifs <;> omega
      · simp [runBefore, List.getElem?_eq_none hi]

theorem runBefore_le_right (hys : Consistent ys) (hi : i ≤ ys.length) (hj : j ≤ ys.length) :
    runBefore (ys.map Prod.fst) ys i j ≤ runBefore (ys.map Prod.fst) ys i i := by
  induction i generalizing j with
  | zero => simp [runBefore]
  | succ i ih =>
    cases j with
    | zero => simp [runBefore]
    | succ j =>
      have hi' : i < (ys.map Prod.fst).length := by rwa [List.length_map]
      rw [runBefore_succ hi' hj, runBefore_succ hi' hi]
      have hle := ih (j := j) (by omega) (by omega)
      split_ifs with h h'
      · omega
      · have hpop := hys ys[i] (List.getElem_mem _) ys[j] (List.getElem_mem _)
        simp_all
      all_goals omega

theorem bestOf_of_le {best : Block} {ns : List Nat} (h : ∀ n ∈ ns, n ≤ best.size) (k : Nat) :
    bestOf i best k ns = best := by
  induction ns generalizing k with
  | nil => rfl
  | cons n ns ih =>
    obtain ⟨hn, hns⟩ := List.forall_mem_cons.1 h
    rw [bestOf, if_neg (by omega), ih hns]

theorem bestOf_append (i : Nat) (best : Block) (k : Nat) (ns ms : List Nat) :
    bestOf i best k (ns ++ ms) = bestOf i (bestOf i best k ns) (k + ns.length) ms := by
  induction ns generalizing best k with
  | nil => rfl
  | cons n ns ih =>
    rw [List.cons_append, bestOf, ih, bestOf, List.length_cons, Nat.add_assoc, Nat.add_comm 1]

/-- Of the runs that end at one place in the first list, only one at the same place in the second
can be better than all before. -/
theorem bestOf_self (hys : Consistent ys) (hi : i < ys.length) {best : Block}
    (hmax : ∀ k ≤ i, runBefore (ys.map Prod.fst) ys k k ≤ best.size) :
    bestOf i best 0 (runRow (ys.map Prod.fst) ys (i + 1)) =
      if best.size < runBefore (ys.map Prod.fst) ys (i + 1) (i + 1) then
        endingAt (i + 1) (i + 1) (runBefore (ys.map Prod.fst) ys (i + 1) (i + 1))
      else best := by
  have hrow : ∀ {j n}, (runRow (ys.map Prod.fst) ys (i + 1))[j]? = some n →
      j < ys.length ∧ n = runBefore (ys.map Prod.fst) ys (i + 1) (j + 1) := by
    intro j n hj
    have hlen : j < ys.length := by
      simpa [runRow] using (List.getElem?_eq_some_iff.1 hj).1
    rw [getElem?_runRow hlen] at hj
    exact ⟨hlen, (Option.some.inj hj).symm⟩
  have hlen : (runRow (ys.map Prod.fst) ys (i + 1)).length = ys.length := by simp [runRow]
  have hself : (runRow (ys.map Prod.fst) ys (i + 1))[i]? =
      some (runBefore (ys.map Prod.fst) ys (i + 1) (i + 1)) := getElem?_runRow hi
  generalize runRow (ys.map Prod.fst) ys (i + 1) = row at *
  have hsplit : row = row.take i ++
      runBefore (ys.map Prod.fst) ys (i + 1) (i + 1) :: row.drop (i + 1) := by
    obtain ⟨hlt, heq⟩ := List.getElem?_eq_some_iff.1 hself
    rw [← heq, ← List.drop_eq_getElem_cons, List.take_append_drop]
  have hfirst : ∀ n ∈ row.take i, n ≤ best.size := by
    intro n hn
    obtain ⟨j, hj⟩ := List.mem_iff_getElem?.1 hn
    have hji : j < i := by
      have := (List.getElem?_eq_some_iff.1 hj).1
      rw [List.length_take] at this
      omega
    rw [List.getElem?_take_of_lt hji] at hj
    obtain ⟨hlt, rfl⟩ := hrow hj
    exact Nat.le_trans (runBefore_le_left hlt) (hmax (j + 1) hji)
  have hlast : ∀ n ∈ row.drop (i + 1), n ≤ runBefore (ys.map Prod.fst) ys (i + 1) (i + 1) := by
    intro n hn
    obtain ⟨j, hj⟩ := List.mem_iff_getElem?.1 hn
    rw [List.getElem?_drop] at hj
    obtain ⟨hlt, rfl⟩ := hrow hj
    exact runBefore_le_right hys (by omega) (by omega)
  rw [hsplit, bestOf_append, bestOf_of_le hfirst, bestOf, List.length_take, hlen, Nat.zero_add,
    Nat.min_eq_left (by omega)]
  split_ifs with hbetter
  · exact bestOf_of_le hlast _
  · exact bestOf_of_le (fun n hn => Nat.le_trans (hlast n hn) (by omega)) _

/-- The best run of a list and itself is at the same place in both. -/
theorem longestFrom_self (hys : Consistent ys) (hi : i ≤ ys.length) {best : Block}
    (hbest : best.a = best.b)
    (hmax : ∀ k ≤ i, runBefore (ys.map Prod.fst) ys k k ≤ best.size) :
    (longestFrom ys i (runRow (ys.map Prod.fst) ys i) best ((ys.map Prod.fst).drop i)).a =
      (longestFrom ys i (runRow (ys.map Prod.fst) ys i) best ((ys.map Prod.fst).drop i)).b := by
  induction hk : ys.length - i generalizing i best with
  | zero =>
    rw [List.drop_of_length_le (by rw [List.length_map]; omega), longestFrom]
    exact hbest
  | succ k ih =>
    have hlt : i < ys.length := by omega
    have hlt' : i < (ys.map Prod.fst).length := by rwa [List.length_map]
    rw [List.drop_eq_getElem_cons hlt', longestFrom, runLengths_runRow hlt',
      bestOf_self hys hlt hmax]
    refine ih hlt ?_ (fun k hk => ?_) (by omega)
    · split_ifs
      · rfl
      · exact hbest
    · split_ifs with hbetter
      · rcases Nat.lt_or_ge k (i + 1) with hki | hki
        · exact Nat.le_trans (hmax k (by omega)) (Nat.le_of_lt hbetter)
        · obtain rfl : k = i + 1 := by omega
          exact Nat.le_refl _
      · rcases Nat.lt_or_ge k (i + 1) with hki | hki
        · exact hmax k (by omega)
        · obtain rfl : k = i + 1 := by omega
          omega

theorem commonLength_self (xs : List α) : commonLength xs xs = xs.length := by
  induction xs with
  | nil => rfl
  | cons x xs ih => simp [commonLength, ih]

theorem longestRun_self (hys : Consistent ys) :
    longestRun (ys.map Prod.fst) ys = ⟨0, 0, ys.length⟩ := by
  have hsame := longestFrom_self (i := 0) hys (Nat.zero_le _)
    (show (⟨0, 0, 0⟩ : Block).a = (⟨0, 0, 0⟩ : Block).b from rfl)
    (fun k hk => by obtain rfl := Nat.le_zero.1 hk; exact Nat.le_refl _)
  have hnone : Agrees (ys.map Prod.fst) (ys.map Prod.fst) ⟨0, 0, 0⟩ :=
    ⟨by simp, by simp, by simp⟩
  have hagree := agrees_longestFrom (i := 0) hnone (Nat.zero_le _)
  rw [runRow_zero, List.drop_zero] at hsame hagree
  have hlen := hagree.left
  rw [List.length_map] at hlen
  rw [longestRun, ← hsame, commonLength_self, commonLength_self]
  simp only [List.length_reverse, List.length_take, List.length_drop, List.length_map,
    Block.mk.injEq]
  omega

/-- **A list matches itself as one block.** -/
theorem matchingBlocks_self (hys : Consistent ys) :
    matchingBlocks (ys.map Prod.fst) ys = if ys = [] then [] else [⟨0, 0, ys.length⟩] := by
  have hnil : ∀ (fuel i j : Nat), blocksFrom fuel i j ([] : List α) [] = [] := by
    intro fuel i j
    cases fuel <;> rfl
  unfold matchingBlocks
  cases ys with
  | nil => rfl
  | cons y ys =>
    rw [List.length_map, List.length_cons, blocksFrom, longestRun_self hys]
    simp only [List.length_cons, Nat.succ_ne_zero, if_false, List.take_zero, Nat.zero_add,
      reduceCtorEq]
    rw [List.drop_of_length_le (by simp), List.drop_of_length_le (by simp), hnil, hnil]
    rfl

end

end Sequence

end MailRules
