import MailRules.Condition.OfNode
import MailRules.Condition.Query
import MailRules.Proofs.Condition.Gathered
import Mathlib.Algebra.GroupWithZero.Nat
import Mathlib.Algebra.Order.BigOperators.Group.List
import Mathlib.Algebra.Order.Group.Nat

/-!
# The arguments of a simplified condition as they are written

Arguments are put in quotation marks where that is needed, but for those of raw leaves and of
queries, which are search notation already.

* `Condition.rendered` are the arguments of a condition as they are written.
* A leaf that others are gathered in is raw if one of them is, so the arguments of the others are
  written without quotation marks as well (`GatheredFrom.rendered_eq`).
* Without quotation marks there is less to write (`charCount_pairs_lt`), so that nothing makes up
  for one that is lost.  `simplify_rendered` says what simplification does to arguments, and when it
  changes nothing.
-/

namespace MailRules

namespace Leaf

variable {t l : Leaf} {p : List Leaf}

/-! ### Arguments of a leaf -/

/-- The arguments of a leaf as they are written, each with its field. -/
def rendered (l : Leaf) : List (Field × String) := l.terms.map fun t => (l.field, t)

/-- The arguments of leaves that were gathered in one, as that one has them: all without quotation
marks if one of the leaves is raw. -/
def renderedTogether (parts : List Leaf) : List (Field × String) :=
  if parts.any Leaf.raw then parts.flatMap pairs else parts.flatMap rendered

theorem terms_of_raw (h : l.raw = true) : l.terms = l.args := by
  simp [terms, h]

theorem terms_of_plain (h : l.raw = false) :
    l.terms = l.args.map (if l.field = .query then id else quoteArg) := by
  unfold terms
  by_cases hq : l.field = .query <;> simp [hq, h]

/-- The terms of a leaf are its arguments if it is in search notation already, or if no argument needs
quotation marks. -/
theorem terms_eq_args_iff :
    l.terms = l.args ↔ (l.raw = false → l.field ≠ .query → ∀ a ∈ l.args, quoteArg a = a) := by
  cases hraw : l.raw with
  | true => simp [terms_of_raw hraw]
  | false =>
    rw [terms_of_plain hraw]
    by_cases hq : l.field = .query
    · simp [hq]
    · have hmap : l.args.map quoteArg = l.args.map id ↔ ∀ a ∈ l.args, quoteArg a = a :=
        List.map_inj_left
      simpa [hq] using hmap

/-- The arguments of a leaf that others are gathered in are written as those of the others, and
without quotation marks if one of the others is raw. -/
theorem GatheredFrom.rendered_eq (h : t.GatheredFrom p) : t.rendered = renderedTogether p := by
  unfold renderedTogether
  rw [← h.raw]
  cases hraw : t.raw with
  | true =>
    have hparts : p.flatMap pairs = p.flatMap fun l => l.args.map fun a => (t.field, a) :=
      List.flatMap_congr fun l hl => by rw [pairs, h.field l hl]
    rw [if_pos rfl, hparts, rendered, terms_of_raw hraw, h.args, List.map_flatMap]
  | false =>
    have hplain : ∀ l ∈ p, l.raw = false := by
      rw [h.raw, List.any_eq_false] at hraw
      exact fun l hl => Bool.eq_false_iff.2 (hraw l hl)
    have hparts : p.flatMap rendered = p.flatMap fun l =>
        (l.args.map (if t.field = .query then id else quoteArg)).map fun a => (t.field, a) :=
      List.flatMap_congr fun l hl => by
        rw [rendered, terms_of_plain (hplain l hl), h.field l hl]
    rw [if_neg Bool.false_ne_true, hparts, rendered, terms_of_plain hraw, h.args, List.map_flatMap,
      List.map_flatMap]

/-! ### How much there is to write -/

/-- How many characters there are in some arguments. -/
def charCount (ps : List (Field × String)) : Nat := (ps.map fun p => p.2.length).sum

theorem charCount_flatMap {α : Type} (f : α → List (Field × String)) (xs : List α) :
    charCount (xs.flatMap f) = (xs.map fun x => charCount (f x)).sum := by
  induction xs with
  | nil => rfl
  | cons x xs ih =>
    rw [List.flatMap_cons, List.map_cons, List.sum_cons, ← ih]
    simp [charCount]

theorem length_le_quoteArg (a : String) : a.length ≤ (quoteArg a).length := by
  unfold quoteArg
  split_ifs
  · simp only [String.length_append]
    omega
  · exact Nat.le_refl _

theorem length_lt_quoteArg {a : String} (h : quoteArg a ≠ a) : a.length < (quoteArg a).length := by
  unfold quoteArg at h ⊢
  split_ifs at h ⊢ with hq
  · have hmark : "\"".length = 1 := rfl
    simp only [String.length_append, hmark]
    omega
  · exact absurd rfl h

theorem charCount_pairs_le (l : Leaf) : charCount l.pairs ≤ charCount l.rendered := by
  unfold charCount pairs rendered terms
  split_ifs
  · exact Nat.le_refl _
  · simp only [List.map_map]
    exact List.sum_le_sum fun a _ => length_le_quoteArg a

theorem charCount_pairs_lt (h : l.terms ≠ l.args) : charCount l.pairs < charCount l.rendered := by
  unfold charCount pairs rendered
  unfold terms at h ⊢
  split_ifs at h ⊢
  · exact absurd rfl h
  · simp only [List.map_map]
    refine List.sum_lt_sum _ _ (fun a _ => length_le_quoteArg a) ?_
    by_contra hnone
    refine h ((List.map_congr_left fun a ha => ?_).trans (List.map_id _))
    by_contra hne
    exact hnone ⟨a, ha, length_lt_quoteArg hne⟩

theorem charCount_together_le (parts : List Leaf) :
    charCount (renderedTogether parts) ≤ charCount (parts.flatMap rendered) := by
  unfold renderedTogether
  split_ifs
  · rw [charCount_flatMap, charCount_flatMap]
    exact List.sum_le_sum fun l _ => charCount_pairs_le l
  · exact Nat.le_refl _

theorem charCount_together_lt {parts : List Leaf} (hraw : ∃ l ∈ parts, l.raw = true)
    (hl : l ∈ parts) (h : l.terms ≠ l.args) :
    charCount (renderedTogether parts) < charCount (parts.flatMap rendered) := by
  unfold renderedTogether
  rw [if_pos (List.any_eq_true.2 hraw), charCount_flatMap, charCount_flatMap]
  exact List.sum_lt_sum _ _ (fun l _ => charCount_pairs_le l) ⟨l, hl, charCount_pairs_lt h⟩

/-- What is written together is what is written apart, if no raw leaf takes the quotation marks from
an argument of another. -/
theorem renderedTogether_eq {parts : List Leaf}
    (h : (∃ l ∈ parts, l.raw = true) → ∀ l ∈ parts, l.terms = l.args) :
    renderedTogether parts = parts.flatMap rendered := by
  unfold renderedTogether
  split_ifs with hraw
  · exact List.flatMap_congr fun l hl => by rw [pairs, rendered, h (List.any_eq_true.1 hraw) l hl]
  · rfl

end Leaf

namespace Condition

/-- The arguments of a condition as they are written, each with its field. -/
def rendered (c : Condition) : List (Field × String) := c.leaves.flatMap Leaf.rendered

/-- **Merging with a raw leaf takes away quotation marks**, and nothing else changes how arguments
are written.  Each leaf of the simplified condition was gathered from leaves of the condition, and
each of these is in one of them.  The arguments are written as they were, but for those gathered
with an argument of a raw leaf; so they are all written as they were exactly if no argument gathered
so has quotation marks to lose.  Arguments of raw leaves and of queries have none. -/
theorem simplify_rendered (c : Condition) :
    ∃ parts : List (List Leaf), parts.flatten.Perm c.leaves ∧
      List.Forall₂ Leaf.GatheredFrom c.simplify.leaves parts ∧
      c.simplify.rendered = parts.flatMap Leaf.renderedTogether ∧
      (c.simplify.rendered.Perm c.rendered ↔
        ∀ p ∈ parts, (∃ l ∈ p, l.raw = true) → ∀ l ∈ p, l.raw = false → l.field ≠ .query →
          ∀ a ∈ l.args, quoteArg a = a) := by
  obtain ⟨parts, hperm, hparts⟩ := Leaf.Gathers.of_becomes (becomes_simplify c)
  have heq : c.simplify.rendered = parts.flatMap Leaf.renderedTogether := by
    have hmap : parts.map Leaf.renderedTogether = c.simplify.leaves.map Leaf.rendered :=
      map_eq_of_forall₂ (hparts.imp fun _ _ h => h.rendered_eq.symm)
    rw [rendered, List.flatMap_def, List.flatMap_def, hmap]
  -- what was written before, part by part
  have hbefore : (parts.flatMap fun p => p.flatMap Leaf.rendered).Perm c.rendered := by
    have hflat := hperm.flatMap_right Leaf.rendered
    rwa [← List.flatMap_id, List.flatMap_assoc] at hflat
  refine ⟨parts, hperm, hparts, heq, fun h p hp hraw l hl => ?_, fun h => ?_⟩
  · rw [← Leaf.terms_eq_args_iff]
    by_contra hne
    have hcount : Leaf.charCount c.simplify.rendered =
        Leaf.charCount (parts.flatMap fun p => p.flatMap Leaf.rendered) :=
      ((h.trans hbefore.symm).map _).sum_nat
    rw [heq, Leaf.charCount_flatMap, Leaf.charCount_flatMap] at hcount
    have hlt := List.sum_lt_sum _ _ (fun p _ => Leaf.charCount_together_le p)
      ⟨p, hp, Leaf.charCount_together_lt hraw hl hne⟩
    omega
  · have hsame : parts.flatMap Leaf.renderedTogether =
        parts.flatMap fun p => p.flatMap Leaf.rendered :=
      List.flatMap_congr fun p hp => Leaf.renderedTogether_eq fun hraw l hl =>
        Leaf.terms_eq_args_iff.2 (h p hp hraw l hl)
    rw [heq, hsame]
    exact hbefore

end Condition

/-- A match of either of two subjects, the first of which is given in search notation. -/
def FilterNode.rawSibling : FilterNode where
  any := some [{ fields := { subject := some "a b" }, raw := true },
    { fields := { subject := some "c d" } }]

/-- The leaves of the node are merged, and the second argument loses its quotation marks. -/
theorem FilterNode.rawSibling_unquoted : ∃ c, rawSibling.condition = .ok c ∧
    c.rendered = [(.subject, "a b"), (.subject, "\"c d\"")] ∧
    c.simplify.rendered = [(.subject, "a b"), (.subject, "c d")] ∧
    ¬c.simplify.rendered.Perm c.rendered := by
  refine ⟨_, rfl, rfl, rfl, ?_⟩
  decide +kernel

end MailRules
