import MailRules.Proofs.Condition.Text

/-!
# Conditions from criteria

Criteria forget the shape of a condition, but no two simplified conditions have the same criteria.

* Criteria have four slots.  `Condition.conjuncts` are the parts of a condition that go to them, and
  `Condition.criteria_eq` says that a slot is the row of the terms of its conjuncts.
* The terms of a slot can be read back (`slotText_inj`).  The order of conjuncts from different
  slots is that of their ranks, and a rank tells the slot (`slot_of_rank`), so the conjuncts of each
  slot make up all conjuncts in their order (`eq_of_filter`).
* `Readable` is what this takes of a condition; simplified conditions of written nodes have it, if
  what the nodes state is to be written in search notation (`FilterNode.readable_simplify`).
-/

namespace MailRules

/-! ### Slots -/

/-- The slots of criteria. -/
inductive Slot where
  | sender | recipient | subject | query
  deriving DecidableEq

/-- All slots, in the order in which a search shows them. -/
def Slot.all : List Slot := [.sender, .recipient, .subject, .query]

/-- What is in a slot. -/
def Criteria.slot (k : Criteria) : Slot → String
  | .sender => k.sender
  | .recipient => k.recipient
  | .subject => k.subject
  | .query => k.query

/-- The slot that matches of a field go to. -/
def Field.slot : Field → Slot
  | .sender => .sender
  | .recipient => .recipient
  | .subject => .subject
  | _ => .query

/-- Fields that have a slot to themselves are told by it. -/
theorem Field.eq_of_slot {f g : Field} (h : f.slot = g.slot) (hf : f.slot ≠ .query) : f = g := by
  cases f <;> cases g <;> first | rfl | exact absurd rfl hf | cases h

/-- The criteria that have something in one slot only. -/
def Criteria.only (t : String) : Slot → Criteria
  | .sender => { sender := t }
  | .recipient => { recipient := t }
  | .subject => { subject := t }
  | .query => { query := t }

theorem slot_only (t : String) (s s' : Slot) :
    (Criteria.only t s).slot s' = if s = s' then t else "" := by
  cases s <;> cases s' <;> simp [Criteria.only, Criteria.slot]

/-- A leaf goes to the slot of its field, and to the query slot with the name of the field. -/
theorem Leaf.criteria_of_ok {l : Leaf} {t : String}
    (h : (if l.field.slot = .query then l.query else l.argText) = .ok t) :
    l.criteria = .ok (.only t l.field.slot) := by
  unfold Leaf.criteria
  cases hf : l.field <;> rw [hf] at h <;>
    simp only [Field.slot, if_true, reduceCtorEq, if_false] at h <;> rw [h] <;> rfl

theorem slot_join (a b : Criteria) (s : Slot) :
    (a.join b).slot s = joinTwo (a.slot s) (b.slot s) := by
  cases s <;> rfl

theorem toList_joinTwo {a b : String} {ts us : List (List Char)} (ha : a.toList = words ts)
    (hb : b.toList = words us) (hts : ∀ t ∈ ts, t ≠ []) (hus : ∀ t ∈ us, t ≠ []) :
    (joinTwo a b).toList = words (ts ++ us) := by
  have hempty : ∀ {x : String} {vs : List (List Char)}, x.toList = words vs →
      (∀ t ∈ vs, t ≠ []) → (x = "" ↔ vs = []) := by
    intro x vs hx hvs
    rw [← String.toList_eq_nil_iff, hx, words_eq_nil_iff hvs]
  unfold joinTwo
  split_ifs with hna hnb
  · rw [hb, (hempty ha hts).1 hna, List.nil_append]
  · rw [ha, (hempty hb hus).1 hnb, List.append_nil]
  · rw [words_append (fun h => hna ((hempty ha hts).2 h)) fun h => hnb ((hempty hb hus).2 h)]
    simp [ha, hb]

namespace Condition

/-- The slot that a part of an "and" goes to. -/
def slot (c : Condition) : Slot := c.rootField.slot

/-- What a part of an "and" contributes to its slot. -/
def slotText : Condition → List Char
  | .leaf l => if l.field.slot = .query then l.chars else l.argChars
  | .node op cs => (node op cs).text

/-- The parts of a condition that all have to hold. -/
def conjuncts : Condition → List Condition
  | .node .and cs => cs
  | c => [c]

/-- There is one conjunct, the condition itself, or they are the parts of an "and". -/
theorem conjuncts_cases (c : Condition) :
    (c.isNodeOf .and = false ∧ c.conjuncts = [c]) ∨ ∃ cs, c = node .and cs ∧ c.conjuncts = cs := by
  cases c with
  | leaf l => exact .inl ⟨rfl, rfl⟩
  | node op cs =>
    cases op with
    | and => exact .inr ⟨cs, rfl, rfl⟩
    | _ => exact .inl ⟨rfl, rfl⟩

/-- What holds everywhere in a condition does so in its conjuncts. -/
theorem Everywhere.conjuncts {P : Condition → Prop} {c : Condition} (h : Everywhere P c) :
    ∀ e ∈ c.conjuncts, Everywhere P e := by
  rcases c.conjuncts_cases with ⟨-, hself⟩ | ⟨cs, rfl, -⟩
  · rw [hself]
    simpa using h
  · exact (everywhere_node.1 h).2

/-- No conjunct of a condition in normal form is an "and" itself. -/
theorem Normal.flat_conjuncts {c : Condition} (h : c.Normal) :
    ∀ e ∈ c.conjuncts, e.isNodeOf .and = false := by
  rcases c.conjuncts_cases with ⟨hand, hself⟩ | ⟨cs, rfl, -⟩
  · rw [hself]
    simpa using hand
  · exact h.flat (by decide)

/-- The rank of a condition tells its slot. -/
theorem slot_of_rank {c d : Condition} (h : c.rank = d.rank) : c.slot = d.slot :=
  congrArg Field.slot (of_rank_eq h).2.2

theorem slot_of_mem_filter {c : Condition} {cs : List Condition} {s : Slot}
    (h : c ∈ cs.filter fun c => c.slot = s) : c.slot = s :=
  of_decide_eq_true (List.mem_filter.1 h).2

/-- Every part is in one of the slots. -/
theorem perm_slots (cs : List Condition) :
    (Slot.all.flatMap fun s => cs.filter fun c => c.slot = s).Perm cs := by
  induction cs with
  | nil => rfl
  | cons c cs ih =>
    refine List.Perm.trans ?_ (ih.cons c)
    -- the part comes first in its slot, after the slots before it
    cases hc : c.slot <;> simp [Slot.all, hc, -List.append_assoc, ← List.append_assoc]
    all_goals exact List.perm_middle.trans (.of_eq (by simp))

/-! ### Terms of a slot -/

section

variable {c d : Condition} {r r' : List Char}

theorem slotText_ne_nil (h : Spelled c) : c.slotText ≠ [] := by
  cases c with
  | node op cs => exact text_ne_nil h
  | leaf l =>
    simp only [slotText]
    split_ifs
    · exact text_ne_nil h
    · exact h.1.argChars_ne_nil h.2

/-- **The terms of a slot can be read back.** -/
theorem slotText_inj (hc : Everywhere Legible c) (hd : Everywhere Legible d) (hr : Stops r)
    (hr' : Stops r') (hs : c.slot = d.slot) (h : c.slotText ++ r = d.slotText ++ r') :
    c.ungrouped = d.ungrouped ∧ r = r' := by
  have htext : ∀ {e : Condition}, e.slot = .query → e.slotText = e.text := by
    intro e he
    cases e with
    | node op cs => rfl
    | leaf l =>
      have hl : l.field.slot = .query := he
      simp [slotText, hl]
  by_cases hq : c.slot = .query
  · rw [htext hq, htext (hs ▸ hq)] at h
    exact text_inj hc hd hr hr' h
  · -- in the other slots there are leaves of one field
    have hleaf : ∀ {e : Condition}, e.slot ≠ .query →
        ∃ l, e = leaf l ∧ e.slotText = l.argChars ∧ l.field.slot = e.slot := by
      intro e he
      cases e with
      | node op cs => exact absurd rfl he
      | leaf l => exact ⟨l, rfl, if_neg he, rfl⟩
    obtain ⟨l, rfl, hl, hls⟩ := hleaf hq
    obtain ⟨k, rfl, hk, hks⟩ := hleaf (hs ▸ hq)
    have hf : l.field = k.field :=
      Field.eq_of_slot (hls.trans (hs.trans hks.symm)) fun h => hq (hls.symm.trans h)
    rw [hl, hk] at h
    obtain ⟨⟨hlp, hlm⟩, hkp, hkm⟩ := And.intro (everywhere_leaf.1 hc) (everywhere_leaf.1 hd)
    obtain ⟨hlk, hrest⟩ := hlp.argChars_inj hkp.toWorded hlm hkm hr hr' hf h
    exact ⟨congrArg Condition.leaf hlk, hrest⟩

/-! ### Criteria -/

/-- The criteria of one part. -/
theorem criteria_of_conjunct (h : Everywhere Spelled c) (hand : c.isNodeOf .and = false) :
    ∃ k, c.criteria = .ok k ∧
      ∀ s, (k.slot s).toList = if c.slot = s then c.slotText else [] := by
  suffices honly : ∃ t, c.criteria = .ok (.only t c.slot) ∧ t.toList = c.slotText by
    obtain ⟨t, ht, htext⟩ := honly
    refine ⟨_, ht, fun s => ?_⟩
    rw [slot_only, ← htext]
    split_ifs <;> simp
  cases c with
  | leaf l =>
    obtain ⟨hp, hm⟩ := everywhere_leaf.1 h
    rw [criteria]
    by_cases hs : l.field.slot = .query
    · obtain ⟨t, ht, htext⟩ := hp.query_eq hm
      exact ⟨t, Leaf.criteria_of_ok (by rw [if_pos hs, ht]), by simp [slotText, hs, htext]⟩
    · obtain ⟨t, ht, htext⟩ := hp.argText_eq hm
      exact ⟨t, Leaf.criteria_of_ok (by rw [if_neg hs, ht]), by simp [slotText, hs, htext]⟩
  | node op cs =>
    obtain ⟨t, ht, htext⟩ := query_eq h
    refine ⟨t, ?_, htext⟩
    obtain ⟨ss, hss, ht⟩ := bind_eq_ok_iff.1 (query.eq_2 op cs ▸ ht)
    rcases Operation.Takes.cases (everywhere_node.1 h).1 with (rfl | rfl) | ⟨rfl, hlen⟩
    · cases hand
    · rw [criteria, hss, ← Except.ok.inj ht]
      rfl
    · obtain ⟨c, rfl⟩ := List.length_eq_one_iff.1 hlen
      obtain ⟨q, hq, hqt⟩ := query_eq ((everywhere_node.1 h).2 c List.mem_cons_self)
      have hne : q ≠ "" := by
        rintro rfl
        exact text_ne_nil ((everywhere_node.1 h).2 c List.mem_cons_self).root hqt.symm
      have hjoin : joinTerms [q] = q := by simp [joinTerms, hne]
      have hall : queryAll [c] = .ok [q] := by
        rw [queryAll, queryAll, hq]
        rfl
      obtain rfl := Except.ok.inj (hall.symm.trans hss)
      rw [criteria, hq, ← Except.ok.inj ht, hjoin]
      rfl

/-- The texts that some parts of a condition have in a slot. -/
def termsIn (s : Slot) (cs : List Condition) : List (List Char) :=
  (cs.filter fun c => c.slot = s).map slotText

theorem termsIn_ne_nil {cs : List Condition} {s : Slot} (h : ∀ c ∈ cs, Everywhere Spelled c) :
    ∀ t ∈ termsIn s cs, t ≠ [] := by
  intro t ht
  obtain ⟨c, hc, rfl⟩ := List.mem_map.1 ht
  exact slotText_ne_nil (h c (List.mem_filter.1 hc).1).root

/-- The criteria of some parts are joined to the rows of their terms. -/
theorem criteriaAll_eq {cs : List Condition} (h : ∀ c ∈ cs, Everywhere Spelled c)
    (hand : ∀ c ∈ cs, c.isNodeOf .and = false) :
    ∃ ks, criteriaAll cs = .ok ks ∧ ∀ (k : Criteria) (ts : Slot → List (List Char)),
      (∀ s, (k.slot s).toList = words (ts s)) → (∀ s, ∀ t ∈ ts s, t ≠ []) →
      ∀ s, ((ks.foldl Criteria.join k).slot s).toList = words (ts s ++ termsIn s cs) := by
  induction cs with
  | nil => exact ⟨[], by rw [criteriaAll], fun k ts hk _ s => by simpa [termsIn] using hk s⟩
  | cons c cs ih =>
    have hcs := fun c hc => h c (List.mem_cons_of_mem _ hc)
    obtain ⟨kc, hkc, hslot⟩ :=
      criteria_of_conjunct (h c List.mem_cons_self) (hand c List.mem_cons_self)
    obtain ⟨ks, hks, hfold⟩ := ih hcs fun c hc => hand c (List.mem_cons_of_mem _ hc)
    refine ⟨kc :: ks, by rw [criteriaAll, hkc, hks]; rfl, fun k ts hk hts s => ?_⟩
    have hone : ∀ s, (kc.slot s).toList = words (termsIn s [c]) := by
      intro s
      rw [hslot s]
      by_cases hs : c.slot = s <;> simp [termsIn, hs, words, List.intercalate]
    have hone_ne : ∀ s, ∀ t ∈ termsIn s [c], t ≠ [] :=
      fun s => termsIn_ne_nil (by simpa using h c List.mem_cons_self)
    have hsplit : termsIn s (c :: cs) = termsIn s [c] ++ termsIn s cs := by
      rw [termsIn, termsIn, termsIn, ← List.map_append, ← List.filter_append, List.singleton_append]
    rw [List.foldl_cons, hsplit, ← List.append_assoc]
    refine hfold _ (fun s => ts s ++ termsIn s [c]) (fun s => ?_) (fun s t ht => ?_) s
    · rw [slot_join]
      exact toList_joinTwo (hk s) (hone s) (hts s) (hone_ne s)
    · rcases List.mem_append.1 ht with ht | ht
      · exact hts s t ht
      · exact hone_ne s t ht

/-- **The criteria of a condition are the terms of its conjuncts**, slot by slot. -/
theorem criteria_eq (h : Everywhere Spelled c)
    (hflat : ∀ e ∈ c.conjuncts, e.isNodeOf .and = false) :
    ∃ k, c.criteria = .ok k ∧ ∀ s, (k.slot s).toList = words (termsIn s c.conjuncts) := by
  rcases c.conjuncts_cases with ⟨hand, hself⟩ | ⟨cs, rfl, -⟩
  · obtain ⟨k, hk, hslot⟩ := criteria_of_conjunct h hand
    refine ⟨k, hk, fun s => ?_⟩
    rw [hslot s, hself]
    by_cases hs : c.slot = s <;> simp [termsIn, hs, words, List.intercalate]
  · obtain ⟨ks, hks, hfold⟩ := criteriaAll_eq (everywhere_node.1 h).2 hflat
    refine ⟨ks.foldl Criteria.join {}, by rw [criteria, hks]; rfl, fun s => ?_⟩
    exact hfold {} (fun _ => []) (fun s => by cases s <;> rfl) (by simp) s

end

/-! ### Simplified conditions -/

/-- What it takes of a condition to be read back from its criteria. -/
structure Readable (c : Condition) : Prop where
  legible : Everywhere Legible c
  normal : c.Normal
  ordered : c.Ordered
  grouped : c.Grouped .unset

/-- How leaves with one argument are grouped that are a conjunct of a condition. -/
def conjunctGrouping (c : Condition) : Operation :=
  if c.isNodeOf .and then .and else .unset

namespace Readable

variable {c d : Condition}

theorem spelled (h : c.Readable) : Everywhere Spelled c := h.legible.imp fun _ => Legible.spelled

theorem criteria_eq (h : c.Readable) :
    ∃ k, c.criteria = .ok k ∧ ∀ s, (k.slot s).toList = words (termsIn s c.conjuncts) :=
  Condition.criteria_eq h.spelled h.normal.flat_conjuncts

/-- Several conjuncts are the parts of an "and", which has at least two of them. -/
theorem two_le_length {cs : List Condition} (h : (node .and cs).Readable) : 2 ≤ cs.length :=
  h.normal.tight.2 (by decide)

theorem grouped_conjuncts (h : c.Readable) : ∀ e ∈ c.conjuncts, e.Grouped c.conjunctGrouping := by
  unfold conjunctGrouping
  rcases c.conjuncts_cases with ⟨hand, hself⟩ | ⟨cs, rfl, -⟩
  · rw [hself, hand]
    simpa using h.grouped
  · exact h.legible.root.2.2

theorem ordered_conjuncts (h : c.Readable) :
    c.conjuncts.Pairwise fun d e => d.rank ≤ e.rank := by
  rcases c.conjuncts_cases with ⟨-, hself⟩ | ⟨cs, rfl, -⟩
  · rw [hself]
    exact List.pairwise_singleton _ _
  · exact h.ordered

theorem conjunctGrouping_eq (h : c.Readable) :
    c.conjunctGrouping = if c.conjuncts.length = 1 then .unset else .and := by
  unfold conjunctGrouping
  rcases c.conjuncts_cases with ⟨hand, hself⟩ | ⟨cs, rfl, hcs⟩
  · rw [hself, hand]
    rfl
  · have hlen := h.two_le_length
    rw [hcs, if_neg (show ¬cs.length = 1 by omega)]
    rfl

/-- Conditions are made up of their conjuncts. -/
theorem eq_of_conjuncts (hc : c.Readable) (hd : d.Readable) (h : c.conjuncts = d.conjuncts) :
    c = d := by
  rcases c.conjuncts_cases with ⟨-, hself⟩ | ⟨cs, rfl, hcs⟩ <;>
    rcases d.conjuncts_cases with ⟨-, hself'⟩ | ⟨ds, rfl, hds⟩
  · rw [hself, hself'] at h
    exact List.singleton_inj.1 h
  · have hlen := hd.two_le_length
    rw [hself, hds] at h
    simp [← h] at hlen
  · have hlen := hc.two_le_length
    rw [hcs, hself'] at h
    simp [h] at hlen
  · rw [hcs, hds] at h
    rw [h]

/-- **The criteria of a condition tell the condition.** -/
theorem eq_of_criteria (hc : c.Readable) (hd : d.Readable) (h : c.criteria = d.criteria) :
    c = d := by
  obtain ⟨k, hk, hslots⟩ := hc.criteria_eq
  obtain ⟨k', hk', hslots'⟩ := hd.criteria_eq
  obtain rfl : k = k' := Except.ok.inj (hk.symm.trans (h.trans hk'))
  have hread : ∀ s, (c.conjuncts.filter fun e => e.slot = s).map ungrouped =
      (d.conjuncts.filter fun e => e.slot = s).map ungrouped := by
    intro s
    have hwords : words (termsIn s c.conjuncts) = words (termsIn s d.conjuncts) :=
      (hslots s).symm.trans (hslots' s)
    have hnil : termsIn s c.conjuncts = [] ↔ termsIn s d.conjuncts = [] := by
      rw [← words_eq_nil_iff (termsIn_ne_nil hc.spelled.conjuncts), hwords,
        words_eq_nil_iff (termsIn_ne_nil hd.spelled.conjuncts)]
    unfold termsIn at hnil hwords
    rw [List.map_eq_nil_iff, List.map_eq_nil_iff] at hnil
    by_cases hempty : (c.conjuncts.filter fun e => e.slot = s) = []
    · rw [hempty, hnil.1 hempty]
    · refine (words_inj hempty (fun h => hempty (hnil.2 h)) (fun a ha b hb _ _ hq hq' hab => ?_)
        ends_nil ends_nil (by rw [hwords])).1
      exact slotText_inj (hc.legible.conjuncts a (List.mem_filter.1 ha).1)
        (hd.legible.conjuncts b (List.mem_filter.1 hb).1) hq hq'
        ((slot_of_mem_filter ha).trans (slot_of_mem_filter hb).symm) hab
  -- as many conjuncts in each slot are as many conjuncts, and these tell the grouping
  have hlen : c.conjuncts.length = d.conjuncts.length := by
    have hslot : ∀ s, (c.conjuncts.filter fun e => e.slot = s).length =
        (d.conjuncts.filter fun e => e.slot = s).length := fun s => by
      simpa using congrArg List.length (hread s)
    rw [← (perm_slots c.conjuncts).length_eq, ← (perm_slots d.conjuncts).length_eq]
    simp [List.length_flatMap, hslot]
  have hgroup : d.conjunctGrouping = c.conjunctGrouping := by
    rw [hc.conjunctGrouping_eq, hd.conjunctGrouping_eq, hlen]
  refine hc.eq_of_conjuncts hd
    (eq_of_filter slot_of_rank hc.ordered_conjuncts hd.ordered_conjuncts fun s => ?_)
  exact eq_of_map_ungrouped (fun e he => hc.grouped_conjuncts e (List.mem_filter.1 he).1)
    (fun e he => hgroup ▸ hd.grouped_conjuncts e (List.mem_filter.1 he).1) (hread s)

end Readable

/-- A condition in normal form is legible. -/
theorem legible_of_normal {c : Condition} (hn : Everywhere Normal c) (hl : Everywhere Lone c)
    (hp : Everywhere (OfLeaves Leaf.Plain) c) (hm : c.Meaningful) : Everywhere Legible c := by
  induction hn with
  | leaf _ => exact .leaf ⟨hp.root, meaningful_leaf.1 hm⟩
  | @node op cs h _ ih =>
    obtain ⟨htakes, hms⟩ := meaningful_node.1 hm
    obtain ⟨hlone, hls⟩ := everywhere_node.1 hl
    refine .node ⟨htakes, h.filled.2.1, fun c hc => ?_⟩
      fun c hc => ih c hc (hls c hc) ((everywhere_node.1 hp).2 c hc) (hms c hc)
    split_ifs with ho
    · exact hlone (.inl ho) c hc
    · cases c with
      | node op' ds => trivial
      | leaf l =>
        intro hone
        refine (h.settled ho (h.tight.2 ho)).1 l (List.mem_filterMap.2 ⟨_, hc, ?_⟩)
        exact mergeableLeaf?_eq_some.2 ⟨rfl, .inl (Nat.le_of_eq hone)⟩

end Condition

/-! ### Written nodes -/

namespace FilterNode

/-- What a node states is to be written in search notation: it is not raw, matches a field that has
a name, and contains no quotation mark. -/
def Verbal (n : FilterNode) : Prop :=
  n.raw = false ∧ ∀ p ∈ n.fields.stated, p.1 ≠ .has ∧ p.1 ≠ .query ∧ '"' ∉ p.2.toList

theorem readable_simplify {n : FilterNode} {c : Condition} (hn : n.Every Verbal)
    (h : n.condition = .ok c) : c.simplify.Readable := by
  obtain ⟨hfilled, hlone, hgrouped⟩ := filled_of_condition h
  obtain ⟨hlone', hgrouped'⟩ := Condition.lone_simplify hfilled hlone hgrouped
  obtain ⟨hnormal, hordered⟩ := Condition.normal_simplify hfilled
  have hplain : c.Everywhere (Condition.OfLeaves Leaf.Plain) := by
    refine everywhere_of_condition hn h (fun _ _ _ _ _ => trivial) (fun _ _ => trivial) ?_
    intro m p hm hp
    obtain ⟨hhas, hquery, hmark⟩ := hm.2 p hp
    refine ⟨⟨hquery, hm.1, ?_⟩, ?_⟩
    · simpa using ⟨(FieldMatches.ofName?_of_mem_stated hp).2, hmark⟩
    · cases hf : p.1 <;> first | rfl | exact absurd hf hhas | exact absurd hf hquery
  exact ⟨Condition.legible_of_normal hnormal hlone'
    (Condition.leaves_simplify Leaf.closed_plain hplain) (meaningful_of_condition h).simplify,
    hnormal.root, hordered.root, hgrouped'⟩

/-- **Different simplified conditions have different criteria.**  The conditions of nodes that state
matches in words have criteria when simplified, and what has the same criteria is the same. -/
theorem criteria_simplify_inj {n m : FilterNode} {c d : Condition} (hn : n.Every Verbal)
    (hm : m.Every Verbal) (hc : n.condition = .ok c) (hd : m.condition = .ok d) :
    ∃ k₁ k₂, c.simplify.criteria = .ok k₁ ∧ d.simplify.criteria = .ok k₂ ∧
      (k₁ = k₂ → c.simplify = d.simplify) := by
  have hcr := readable_simplify hn hc
  have hdr := readable_simplify hm hd
  obtain ⟨k₁, hk₁, -⟩ := hcr.criteria_eq
  obtain ⟨k₂, hk₂, -⟩ := hdr.criteria_eq
  refine ⟨k₁, k₂, hk₁, hk₂, ?_⟩
  rintro rfl
  exact hcr.eq_of_criteria hdr (hk₁.trans hk₂.symm)

/-- Two orders of the same parts. -/
theorem criteria_simplify_inj_reordered :
    ∃ k₁ k₂,
      (Condition.node .and [.leaf { field := .sender, args := ["a"] },
        .node .not [.leaf { field := .subject, args := ["b c"] }]]).simplify.criteria = .ok k₁ ∧
      (Condition.node .and [.node .not [.leaf { field := .subject, args := ["b c"] }],
        .leaf { field := .sender, args := ["a"] }]).simplify.criteria = .ok k₂ ∧
      (k₁ = k₂ →
        (Condition.node .and [.leaf { field := .sender, args := ["a"] },
          .node .not [.leaf { field := .subject, args := ["b c"] }]]).simplify =
        (Condition.node .and [.node .not [.leaf { field := .subject, args := ["b c"] }],
          .leaf { field := .sender, args := ["a"] }]).simplify) := by
  have hempty : ∀ {m : FilterNode}, m.raw = false → m.fields.stated = [] → m.Verbal :=
    fun hraw hs => ⟨hraw, by simp [hs]⟩
  have hsender : Every Verbal { fields := { sender := some "a" } } :=
    .mk ⟨rfl, by simp [FieldMatches.stated, FieldMatches.entries]⟩ (by simp) (by simp) (by simp)
  have hsubject : Every Verbal { negated := some { fields := { subject := some "b c" } } } := by
    refine .mk (hempty rfl rfl) (by simp) (by simp) ?_
    rintro m ⟨⟩
    exact .mk ⟨rfl, by simp [FieldMatches.stated, FieldMatches.entries]⟩ (by simp) (by simp)
      (by simp)
  exact criteria_simplify_inj
    (n := { all := some [{ fields := { sender := some "a" } },
      { negated := some { fields := { subject := some "b c" } } }] })
    (m := { all := some [{ negated := some { fields := { subject := some "b c" } } },
      { fields := { sender := some "a" } }] })
    (.mk (hempty rfl rfl) (by simp [hsender, hsubject]) (by simp) (by simp))
    (.mk (hempty rfl rfl) (by simp [hsender, hsubject]) (by simp) (by simp)) rfl rfl

end FilterNode

end MailRules
