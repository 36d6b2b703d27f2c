import MailRules.Filter.Render
import MailRules.Proofs.Condition.Distinct

/-!
# Searches for conditions

The search for some criteria shows what the condition states that they come from, if it can.

* `searchTerms` cuts a search at the spaces between its terms.  What is `Balanced` stays in one
  piece, whatever follows (`piecesFrom_append`), and texts of conditions are (`balanced_text`), so
  rows of them are cut into them again (`searchTerms_words`).
* The text of a conjunct begins with the operator of its slot (`text_eq_operator`), and a search has
  that operator once for each slot: `shown` is what it shows of the conjuncts in one
  (`searchTerms_search`).
* So a search is made up of the search expressions of the conjuncts exactly if no slot with an
  operator has several of them: this is `FilterNode.searchTerms_perm_iff`.
-/

namespace MailRules

/-! ### Cutting searches -/

/-- What is open at a place in a search: quotation marks, and a number of brackets. -/
structure Nesting where
  /-- Whether quotation marks are open. -/
  quoted : Bool := false
  /-- How many brackets are open. -/
  depth : Nat := 0

namespace Nesting

/-- What is open after one more character.  In quotation marks brackets are characters as others. -/
def after (n : Nesting) (x : Char) : Nesting :=
  if x = '"' then { n with quoted := !n.quoted }
  else if n.quoted then n
  else if x = '(' || x = '\x7b' then { n with depth := n.depth + 1 }
  else if x = ')' || x = '\x7d' then { n with depth := n.depth - 1 }
  else n

/-- Whether terms are separated by a character. -/
def cutsAt (n : Nesting) (x : Char) : Bool :=
  x = ' ' && !n.quoted && n.depth = 0

end Nesting

/-- A text cut at the spaces outside of what is open; the first piece goes on with what is. -/
def piecesFrom (n : Nesting) : List Char → List (List Char)
  | [] => [[]]
  | x :: s =>
    if n.cutsAt x then [] :: piecesFrom n s
    else (piecesFrom (n.after x) s).modifyHead (x :: ·)

/-- The terms of a search, which are separated by spaces outside of quotation marks and brackets. -/
def searchTerms (s : String) : List String :=
  if s = "" then [] else (piecesFrom {} s.toList).map String.ofList

/-- A text that closes what it opens.  The flag says whether there may be spaces outside of
quotation marks and brackets. -/
inductive Balanced : Bool → List Char → Prop
  | nil {b : Bool} : Balanced b []
  | plain {b : Bool} {x : Char} (hx : isTermBreak x = false) (hq : x ≠ '"') : Balanced b [x]
  | space : Balanced true [' ']
  | quoted {b : Bool} {s : List Char} (h : '"' ∉ s) : Balanced b ('"' :: (s ++ ['"']))
  | group {b : Bool} {op : Operation} {s : List Char} (hop : op = .and ∨ op = .or)
      (hs : Balanced true s) : Balanced b (op.enclose s)
  | append {b : Bool} {s t : List Char} (hs : Balanced b s) (ht : Balanced b t) :
      Balanced b (s ++ t)

section

variable {b : Bool} {s t : List Char} {ts : List (List Char)}

/-- Up to the closing quotation mark nothing is cut. -/
theorem piecesFrom_quoted (d : Nat) (h : '"' ∉ s) (r : List Char) :
    piecesFrom ⟨true, d⟩ (s ++ '"' :: r) =
      (piecesFrom ⟨false, d⟩ r).modifyHead (s ++ '"' :: ·) := by
  induction s with
  | nil => simp [piecesFrom, Nesting.cutsAt, Nesting.after]
  | cons x s ih =>
    obtain ⟨hx, hs⟩ : '"' ≠ x ∧ '"' ∉ s := by simpa using h
    simp [piecesFrom, Nesting.cutsAt, Nesting.after, hx.symm, ih hs, Function.comp_def]

/-- **What is balanced is not cut**, and what follows it is cut as if it stood alone. -/
theorem piecesFrom_append (h : Balanced b s) {d : Nat} (hd : b = true → 0 < d) (r : List Char) :
    piecesFrom ⟨false, d⟩ (s ++ r) = (piecesFrom ⟨false, d⟩ r).modifyHead (s ++ ·) := by
  induction h generalizing d r with
  | nil => exact (congrFun List.modifyHead_id _).symm
  | plain hx hq =>
    simp only [isTermBreak, Bool.or_eq_false_iff, decide_eq_false_iff_not] at hx
    obtain ⟨⟨⟨⟨⟨hspace, -⟩, hob⟩, hcb⟩, hop⟩, hcp⟩ := hx
    simp [piecesFrom, Nesting.cutsAt, Nesting.after, hq, hspace, hob, hcb, hop, hcp]
  | space =>
    have hopen : d ≠ 0 := Nat.ne_of_gt (hd rfl)
    simp [piecesFrom, Nesting.cutsAt, Nesting.after, hopen]
  | quoted h =>
    simp [piecesFrom, Nesting.cutsAt, Nesting.after, piecesFrom_quoted d h, Function.comp_def]
  | group hop hs ih =>
    have hin := fun x => ih (d := d + 1) (fun _ => Nat.succ_pos d) (x :: r)
    rcases hop with rfl | rfl <;>
      simp [Operation.enclose, piecesFrom, Nesting.cutsAt, Nesting.after, hin, Function.comp_def]
  | append hs ht ihs iht =>
    simp [ihs hd, iht hd, Function.comp_def]

/-- **A row of terms is cut into them.** -/
theorem piecesFrom_words_cons (ht : Balanced false t) (hts : ∀ u ∈ ts, Balanced false u) :
    piecesFrom {} (t ++ spaced ts) = t :: ts := by
  induction ts generalizing t with
  | nil =>
    rw [piecesFrom_append ht (by simp)]
    simp [spaced, piecesFrom]
  | cons u ts ih =>
    obtain ⟨hu, hts⟩ := List.forall_mem_cons.1 hts
    have hspaced : spaced (u :: ts) = ' ' :: (u ++ spaced ts) := by simp [spaced]
    rw [piecesFrom_append ht (by simp), hspaced]
    simp [piecesFrom, Nesting.cutsAt, ih hu hts]

theorem searchTerms_words {q : String} (h : q.toList = words ts) (hne : ∀ t ∈ ts, t ≠ [])
    (hts : ∀ t ∈ ts, Balanced false t) : searchTerms q = ts.map String.ofList := by
  unfold searchTerms
  cases ts with
  | nil => simp [String.toList_eq_nil_iff.1 h]
  | cons t ts =>
    have hq : q ≠ "" := by
      rintro rfl
      exact List.cons_ne_nil _ _ ((words_eq_nil_iff hne).1 h.symm)
    obtain ⟨ht, hts⟩ := List.forall_mem_cons.1 hts
    rw [if_neg hq, h, words_cons, piecesFrom_words_cons ht hts]

example : searchTerms "from:\"a b\" -\x7bto:c to:d\x7d" =
    ["from:\"a b\"", "-\x7bto:c to:d\x7d"] := by
  rfl

/-! ### Texts are balanced -/

theorem balanced_of_plain (h : ∀ x ∈ s, isTermBreak x = false ∧ x ≠ '"') : Balanced b s := by
  induction s with
  | nil => exact .nil
  | cons x s ih =>
    have hx := h x List.mem_cons_self
    exact (Balanced.plain hx.1 hx.2).append (ih fun y hy => h y (List.mem_cons_of_mem _ hy))

theorem balanced_spaced (h : ∀ t ∈ ts, Balanced true t) : Balanced true (spaced ts) := by
  induction ts with
  | nil => exact .nil
  | cons t ts ih =>
    obtain ⟨ht, hts⟩ := List.forall_mem_cons.1 h
    exact (Balanced.space.append ht).append (ih hts)

theorem balanced_words (h : ∀ t ∈ ts, Balanced true t) : Balanced true (words ts) := by
  cases ts with
  | nil => exact .nil
  | cons t ts =>
    obtain ⟨ht, hts⟩ := List.forall_mem_cons.1 h
    rw [words_cons]
    exact ht.append (balanced_spaced hts)

theorem balanced_argTerm (h : '"' ∉ s) : Balanced b (argTerm s) := by
  unfold argTerm
  split_ifs with hq
  · exact .quoted h
  · have hbreak := not_isTermBreak (Bool.eq_false_iff.2 hq) h
    exact balanced_of_plain fun x hx => ⟨hbreak x hx, fun hmark => h (hmark ▸ hx)⟩

end

namespace Leaf.Worded

variable {l : Leaf} {b : Bool}

theorem balanced_argChars (hl : l.Worded) (hm : l.Meaningful) : Balanced b l.argChars := by
  rcases args_cases hm with ⟨a, ha⟩ | hlen
  · rw [argChars_of_one ha]
    exact balanced_argTerm (hl.chars (by simp [ha])).2
  · rw [argChars_of_several hlen]
    refine .group (hm.2 hlen) (balanced_words fun t ht => ?_)
    obtain ⟨a, ha, rfl⟩ := List.mem_map.1 ht
    exact balanced_argTerm (hl.chars ha).2

theorem balanced_chars (hl : l.Worded) (hm : l.Meaningful) : Balanced b l.chars := by
  have hname : ∀ f : Field, (f.name.toList ++ [':']).all fun x => !isTermBreak x && x != '"' := by
    intro f
    cases f <;> rfl
  unfold Leaf.chars
  split_ifs
  · exact hl.balanced_argChars hm
  · have hplain : Balanced b (l.field.name.toList ++ [':']) :=
      balanced_of_plain fun x hx => by simpa using List.all_eq_true.1 (hname l.field) x hx
    simpa using hplain.append (hl.balanced_argChars hm)

end Leaf.Worded

namespace Condition

section

variable {c : Condition} {b : Bool}

theorem balanced_text (h : Everywhere Spelled c) : Balanced b c.text := by
  induction h generalizing b with
  | leaf h =>
    rw [text_leaf]
    exact h.1.balanced_chars h.2
  | @node op cs h _ ih =>
    rw [text_node]
    have hwords : Balanced true (words (cs.map text)) :=
      balanced_words (by simpa using fun c hc => ih c hc)
    rcases Operation.Takes.cases h with hop | ⟨rfl, hlen⟩
    · exact .group hop hwords
    · obtain ⟨c, rfl⟩ := List.length_eq_one_iff.1 hlen
      have hminus : Balanced b ['-'] := .plain rfl (by decide)
      simpa [Operation.enclose, words, List.intercalate] using
        hminus.append (ih c List.mem_cons_self)

theorem balanced_slotText (h : Everywhere Spelled c) : Balanced b c.slotText := by
  cases c with
  | node op cs => exact balanced_text h
  | leaf l =>
    obtain ⟨hl, hm⟩ := everywhere_leaf.1 h
    rw [slotText]
    split_ifs
    · exact hl.balanced_chars hm
    · exact hl.balanced_argChars hm

end

end Condition

/-! ### Searches -/

/-- The operator that a search has for a slot. -/
def Slot.operator : Slot → String
  | .sender => "from:"
  | .recipient => "to:"
  | .subject => "subject:"
  | .query => ""

/-- Rows after each other are one row; where a row is empty, nothing stands for it. -/
theorem words_flatMap_rows {α : Type} {ss : List α} {row : α → List (List Char)} :
    words (ss.flatMap fun s => if row s = [] then [] else [words (row s)]) =
      words (ss.flatMap row) := by
  induction ss with
  | nil => rfl
  | cons s ss ih =>
    by_cases hrow : row s = []
    · simpa [hrow] using ih
    by_cases hrest : ss.flatMap row = []
    · have hnone : ∀ s ∈ ss, row s = [] := List.flatMap_eq_nil_iff.1 hrest
      have hempty : (ss.flatMap fun s => if row s = [] then [] else [words (row s)]) = [] :=
        List.flatMap_eq_nil_iff.2 fun s hs => if_pos (hnone s hs)
      rw [List.flatMap_cons, List.flatMap_cons, hempty, hrest, if_neg hrow, List.append_nil]
      simp [words, List.intercalate]
    · have hsome : (ss.flatMap fun s => if row s = [] then [] else [words (row s)]) ≠ [] := by
        simpa using hrest
      rw [List.flatMap_cons, List.flatMap_cons, if_neg hrow, words_append hrow hrest, ← ih,
        words_append (by simp) hsome]
      simp [words, List.intercalate]

theorem Criteria.search_eq (k : Criteria) :
    k.search = " ".intercalate (Slot.all.flatMap fun s =>
      if k.slot s = "" then [] else [s.operator ++ k.slot s]) := by
  simp only [Slot.all, List.flatMap_cons, List.flatMap_nil, List.append_nil, ← List.append_assoc]
  rfl

namespace Condition

/-- The text of a part begins with the operator of its slot. -/
theorem text_eq_operator (c : Condition) : c.text = c.slot.operator.toList ++ c.slotText := by
  cases c with
  | node op cs => rfl
  | leaf l =>
    rw [text_leaf, slotText, Leaf.chars]
    cases hf : l.field <;>
      simp [slot, rootField, hf, Field.slot, Slot.operator, Field.isBare, Field.name]

/-- What a search shows of parts of one slot: the operator of the slot stands only once. -/
def shown : List Condition → List (List Char)
  | [] => []
  | c :: cs => c.text :: cs.map slotText

section

variable {c : Condition} {cs : List Condition} {s : Slot} {k : Criteria}

theorem shown_eq_nil_iff : shown cs = [] ↔ cs = [] := by
  cases cs <;> simp [shown]

theorem words_shown (h : cs ≠ []) (hs : ∀ c ∈ cs, c.slot = s) :
    words (shown cs) = s.operator.toList ++ words (cs.map slotText) := by
  obtain ⟨c, cs, rfl⟩ := List.exists_cons_of_ne_nil h
  rw [shown, List.map_cons, words_cons, words_cons, text_eq_operator, hs c List.mem_cons_self,
    List.append_assoc]

theorem balanced_shown (h : ∀ c ∈ cs, Everywhere Spelled c) :
    ∀ t ∈ shown cs, t ≠ [] ∧ Balanced false t := by
  cases cs with
  | nil => simp [shown]
  | cons c cs =>
    obtain ⟨hc, hcs⟩ := List.forall_mem_cons.1 h
    refine List.forall_mem_cons.2 ⟨⟨text_ne_nil hc.root, balanced_text hc⟩, ?_⟩
    intro t ht
    obtain ⟨d, hd, rfl⟩ := List.mem_map.1 ht
    exact ⟨slotText_ne_nil (hcs d hd).root, balanced_slotText (hcs d hd)⟩

/-- A search is the row of what its slots show. -/
theorem toList_search (hk : ∀ s, (k.slot s).toList = words (termsIn s cs))
    (hcs : ∀ c ∈ cs, Everywhere Spelled c) :
    k.search.toList =
      words (Slot.all.flatMap fun s => shown (cs.filter fun c => c.slot = s)) := by
  rw [Criteria.search_eq, String.toList_intercalate, List.map_flatMap, ← words_flatMap_rows]
  refine congrArg words (List.flatMap_congr fun s _ => ?_)
  have hempty : k.slot s = "" ↔ (cs.filter fun c => c.slot = s) = [] := by
    rw [← String.toList_eq_nil_iff, hk s, words_eq_nil_iff (termsIn_ne_nil hcs), termsIn,
      List.map_eq_nil_iff]
  by_cases hs : (cs.filter fun c => c.slot = s) = []
  · rw [if_pos (hempty.2 hs), if_pos (shown_eq_nil_iff.2 hs), List.map_nil]
  · rw [if_neg (mt hempty.1 hs), if_neg (mt shown_eq_nil_iff.1 hs),
      words_shown hs fun c hc => slot_of_mem_filter hc, ← termsIn, ← hk s]
    simp

/-- **The terms of a search** are those that its slots show. -/
theorem searchTerms_search (hk : ∀ s, (k.slot s).toList = words (termsIn s cs))
    (hcs : ∀ c ∈ cs, Everywhere Spelled c) :
    (searchTerms k.search).map String.toList =
      Slot.all.flatMap fun s => shown (cs.filter fun c => c.slot = s) := by
  have hterms : ∀ t ∈ Slot.all.flatMap fun s => shown (cs.filter fun c => c.slot = s),
      t ≠ [] ∧ Balanced false t := by
    intro t ht
    obtain ⟨s, -, ht⟩ := List.mem_flatMap.1 ht
    exact balanced_shown (fun c hc => hcs c (List.mem_filter.1 hc).1) t ht
  rw [searchTerms_words (toList_search hk hcs) (fun t ht => (hterms t ht).1)
    fun t ht => (hterms t ht).2]
  simp [Function.comp_def]

/-- Parts of one slot are shown as they are if the slot has no operator or there is one part. -/
theorem shown_eq_map (hs : ∀ c ∈ cs, c.slot = s) (h : s = .query ∨ cs.length ≤ 1) :
    shown cs = cs.map text := by
  cases cs with
  | nil => rfl
  | cons c cs =>
    refine congrArg (c.text :: ·) (List.map_congr_left fun d hd => ?_)
    rcases h with rfl | hlen
    · rw [text_eq_operator, hs d (List.mem_cons_of_mem _ hd)]
      rfl
    · simp [List.length_eq_zero_iff.1 (Nat.le_zero.1 (Nat.le_of_succ_le_succ hlen))] at hd

theorem length_slotTexts (hs : ∀ c ∈ cs, c.slot = s) :
    (cs.map slotText).flatten.length + cs.length * s.operator.toList.length =
      (cs.map text).flatten.length := by
  induction cs with
  | nil => simp
  | cons c cs ih =>
    obtain ⟨hc, hcs⟩ := List.forall_mem_cons.1 hs
    have hlen := ih hcs
    rw [List.map_cons, List.map_cons, List.flatten_cons, List.flatten_cons, List.length_append,
      List.length_append, text_eq_operator c, hc, List.length_append, List.length_cons,
      Nat.succ_mul]
    omega

/-- What is missing from what is shown of the parts of one slot are the operators of all but one. -/
theorem length_shown (hs : ∀ c ∈ cs, c.slot = s) :
    (shown cs).flatten.length + (cs.length - 1) * s.operator.toList.length =
      (cs.map text).flatten.length := by
  cases cs with
  | nil => simp [shown]
  | cons c cs =>
    have hlen := length_slotTexts fun d hd => hs d (List.mem_cons_of_mem _ hd)
    simp only [shown, List.map_cons, List.flatten_cons, List.length_append, List.length_cons,
      Nat.add_sub_cancel]
    omega

/-- What the slots show are the texts of the parts exactly if no slot that has an operator has
several parts. -/
theorem perm_shown_iff (cs : List Condition) :
    (Slot.all.flatMap fun s => shown (cs.filter fun c => c.slot = s)).Perm (cs.map text) ↔
      ∀ s ≠ .query, (cs.filter fun c => c.slot = s).length ≤ 1 := by
  have hslot : ∀ s, ∀ c ∈ cs.filter fun c => c.slot = s, c.slot = s :=
    fun _ _ hc => slot_of_mem_filter hc
  have htexts : (Slot.all.flatMap fun s => (cs.filter fun c => c.slot = s).map text).Perm
      (cs.map text) := by
    rw [← List.map_flatMap]
    exact (perm_slots cs).map text
  refine ⟨fun h => ?_, fun h => ?_⟩
  · have hlen := (h.trans htexts.symm).flatten.length_eq
    simp only [Slot.all, List.flatMap_cons, List.flatMap_nil, List.flatten_append,
      List.length_append, List.append_nil] at hlen
    -- as much is missing as operators are left out, which is nothing
    have hsender := length_shown (hslot .sender)
    have hrecipient := length_shown (hslot .recipient)
    have hsubject := length_shown (hslot .subject)
    have hquery := length_shown (hslot .query)
    rw [show Slot.sender.operator.toList.length = 5 from rfl] at hsender
    rw [show Slot.recipient.operator.toList.length = 3 from rfl] at hrecipient
    rw [show Slot.subject.operator.toList.length = 8 from rfl] at hsubject
    intro s hs
    cases s with
    | query => exact absurd rfl hs
    | _ => omega
  · have hshown : ∀ s, shown (cs.filter fun c => c.slot = s) =
        (cs.filter fun c => c.slot = s).map text := by
      intro s
      by_cases hs : s = .query
      · exact shown_eq_map (hslot s) (.inl hs)
      · exact shown_eq_map (hslot s) (.inr (h s hs))
    simpa only [hshown] using htexts

/-- Conditions with an operation for as many children as they have are spelled if their leaves
are. -/
theorem spelled_of_leaves (hl : Everywhere (OfLeaves Leaf.Worded) c) (hm : c.Meaningful) :
    Everywhere Spelled c := by
  induction hl with
  | leaf h => exact .leaf ⟨h, meaningful_leaf.1 hm⟩
  | node _ _ ih =>
    obtain ⟨htakes, hms⟩ := meaningful_node.1 hm
    exact .node htakes fun c hc => ih c hc (hms c hc)

end

end Condition

namespace FilterNode

/-- What a node states is to be put into words: it is not raw and no search expression, and contains
no quotation mark. -/
def Worded (n : FilterNode) : Prop :=
  n.raw = false ∧ ∀ p ∈ n.fields.stated, p.1 ≠ .query ∧ '"' ∉ p.2.toList

theorem spelled_simplify {n : FilterNode} {c : Condition} (hn : n.Every Worded)
    (h : n.condition = .ok c) : c.simplify.Everywhere Condition.Spelled := by
  have hworded : c.Everywhere (Condition.OfLeaves Leaf.Worded) := by
    refine everywhere_of_condition hn h (fun _ _ _ _ _ => trivial) (fun _ _ => trivial) ?_
    intro m p hm hp
    obtain ⟨hquery, hmark⟩ := hm.2 p hp
    exact ⟨hquery, hm.1, by simpa using ⟨(FieldMatches.ofName?_of_mem_stated hp).2, hmark⟩⟩
  exact Condition.spelled_of_leaves (Condition.leaves_simplify Leaf.closed_worded hworded)
    (meaningful_of_condition h).simplify

/-- **The search for a simplified condition.**  It consists of what the slots of the criteria show
of the conjuncts.  These are the search expressions of the conjuncts, in some order, exactly if no
two conjuncts are in one of the slots that have an operator. -/
theorem searchTerms_perm_iff {n : FilterNode} {c : Condition} (hn : n.Every Worded)
    (h : n.condition = .ok c) :
    ∃ k ts, c.simplify.criteria = .ok k ∧ Condition.queryAll c.simplify.conjuncts = .ok ts ∧
      (searchTerms k.search).map String.toList = (Slot.all.flatMap fun s =>
        Condition.shown (c.simplify.conjuncts.filter fun d => d.slot = s)) ∧
      ((searchTerms k.search).Perm ts ↔
        ∀ s ≠ .query, (c.simplify.conjuncts.filter fun d => d.slot = s).length ≤ 1) := by
  have hspelled := spelled_simplify hn h
  have hnormal := (Condition.normal_simplify (filled_of_condition h).1).1.root
  obtain ⟨k, hk, hslots⟩ := Condition.criteria_eq hspelled hnormal.flat_conjuncts
  obtain ⟨ts, hts, htexts⟩ :=
    Condition.queryAll_eq fun d hd => Condition.query_eq (hspelled.conjuncts d hd)
  have hterms := Condition.searchTerms_search hslots hspelled.conjuncts
  refine ⟨k, ts, hk, hts, hterms, ?_⟩
  rw [← List.map_perm_map_iff (f := String.toList) fun _ _ => String.toList_injective, hterms,
    htexts, Condition.perm_shown_iff]

/-- A match of a sender and either of two subjects without attachments. -/
def unattached : FilterNode where
  all := some [{ fields := { sender := some "a b" } },
    { any := some [{ fields := { subject := some "c" } }, { fields := { subject := some "d" } }] },
    { negated := some { fields := { has := some "attachment" } } }]

/-- The three conjuncts are in different slots. -/
theorem searchTerms_perm_iff_unattached : unattached.Every Worded ∧
    ∃ c k ts, unattached.condition = .ok c ∧ c.simplify.criteria = .ok k ∧
      Condition.queryAll c.simplify.conjuncts = .ok ts ∧ (searchTerms k.search).Perm ts := by
  have hempty : ∀ {m : FilterNode}, m.raw = false → m.fields.stated = [] → m.Worded :=
    fun hraw hs => ⟨hraw, by simp [hs]⟩
  have hfield : ∀ {fields : FieldMatches},
      (∀ p ∈ fields.stated, p.1 ≠ .query ∧ '"' ∉ p.2.toList) → Every Worded { fields } :=
    fun h => .mk ⟨rfl, h⟩ (by simp) (by simp) (by simp)
  have hsender : Every Worded { fields := { sender := some "a b" } } := hfield (by decide)
  have hsubjects : Every Worded { any := some [{ fields := { subject := some "c" } },
      { fields := { subject := some "d" } }] } :=
    .mk (hempty rfl rfl) (by simp) (by simpa using ⟨hfield (by decide), hfield (by decide)⟩)
      (by simp)
  have hnot : Every Worded { negated := some { fields := { has := some "attachment" } } } :=
    .mk (hempty rfl rfl) (by simp) (by simp) (by simpa using hfield (by decide))
  have hworded : unattached.Every Worded :=
    .mk (hempty rfl rfl) (by simp [unattached, hsender, hsubjects, hnot]) (by simp [unattached])
      (by simp [unattached])
  obtain ⟨k, ts, hk, hts, -, hperm⟩ := searchTerms_perm_iff hworded rfl
  refine ⟨hworded, _, k, ts, rfl, hk, hts, hperm.2 fun s _ => ?_⟩
  -- the two subjects are one leaf; merged leaves stand behind the other children
  change ((Condition.arrange (.node .and [
    .leaf { field := .subject, grouping := .or, args := ["c", "d"] },
    .node .not [.leaf { field := .has, args := ["attachment"] }],
    .leaf { field := .sender, grouping := .and, args := ["a b"] }])).conjuncts.filter
      fun d => d.slot = s).length ≤ 1
  simp only [Condition.arrange_eq_insertionSort, List.map_cons, List.map_nil]
  cases s <;> decide

/-- A match of one sender and of either of two others. -/
def nestedSenders : FilterNode where
  all := some [{ fields := { sender := some "a" } },
    { any := some [{ fields := { sender := some "b" } }, { fields := { sender := some "c" } }] }]

/-- The two other senders are one leaf, which is not merged with the first. -/
theorem simplify_nestedSenders : ∃ c, nestedSenders.condition = .ok c ∧ c.simplify = .node .and [
    .leaf { field := .sender, grouping := .and, args := ["a"] },
    .leaf { field := .sender, grouping := .or, args := ["b", "c"] }] := by
  refine ⟨_, rfl, ?_⟩
  change Condition.arrange (.node .and [
    .leaf { field := .sender, grouping := .or, args := ["b", "c"] },
    .leaf { field := .sender, grouping := .and, args := ["a"] }]) = _
  simp only [Condition.arrange_eq_insertionSort, List.map_cons, List.map_nil]
  rfl

/-- The search for the node has the operator for the first sender only. -/
theorem nestedSenders_searched_apart : ∃ c k ts, nestedSenders.condition = .ok c ∧
    c.simplify.criteria = .ok k ∧ Condition.queryAll c.simplify.conjuncts = .ok ts ∧
    searchTerms k.search = ["from:a", "\x7bb c\x7d"] ∧ ts = ["from:a", "from:\x7bb c\x7d"] ∧
    ¬(searchTerms k.search).Perm ts := by
  obtain ⟨c, hc, hs⟩ := simplify_nestedSenders
  refine ⟨c, { sender := "a \x7bb c\x7d" }, _, hc, ?_, ?_, ?_, rfl, ?_⟩
  · rw [hs]
    rfl
  · rw [hs]
    rfl
  · rfl
  · decide +kernel

end FilterNode

end MailRules
