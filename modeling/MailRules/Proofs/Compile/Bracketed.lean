import MailRules.Proofs.Compile.Faults
import MailRules.Proofs.Condition.Grammar
import MailRules.Proofs.Text.Brackets

/-!
# Compiled criteria are well bracketed

What a condition is written as closes all brackets and quotation marks that it opens, if the texts
that it is made of allow for that: an argument that quoting can protect contains no quotation mark,
and search expressions are well bracketed themselves.

* `Leaf.Protected` says so of a leaf; merging and splitting keep it.
* `Condition.wellBracketed_query` is about the search expression of a condition, and
  `Condition.bracketed_criteria` about its slots.
* `compile_wellBracketed` says so of all filters that a config compiles to.
-/

namespace MailRules

/-! ### Terms -/

theorem wellBracketed_words {ts : List (List Char)} (h : ∀ t ∈ ts, WellBracketed t) :
    WellBracketed (words ts) := by
  cases ts with
  | nil => exact .nil
  | cons t ts =>
    obtain ⟨ht, hts⟩ := List.forall_mem_cons.1 h
    have hspace : WellBracketed [' '] := rfl
    rw [words_cons, spaced, List.flatMap_def]
    refine ht.append (.flatten fun u hu => ?_)
    obtain ⟨v, hv, rfl⟩ := List.mem_map.1 hu
    exact hspace.append (hts v hv)

theorem wellBracketed_intercalate {ts : List String} (h : ∀ t ∈ ts, WellBracketed t.toList) :
    WellBracketed (" ".intercalate ts).toList := by
  rw [String.toList_intercalate]
  exact wellBracketed_words (by simpa using h)

/-- **An argument without quotation marks is protected**: its brackets are quoted. -/
theorem wellBracketed_argTerm {s : List Char} (h : '"' ∉ s) : WellBracketed (argTerm s) := by
  unfold argTerm
  split_ifs with hq
  · exact .quote h
  · refine .of_plain fun x hx => ?_
    have hbreak := not_isTermBreak (Bool.eq_false_iff.2 hq) h x hx
    refine ⟨fun heq => h (heq ▸ hx), ?_, ?_⟩ <;>
      simp_all [isTermBreak, isOpening, isClosing]

theorem wellBracketed_enclose {s : List Char} (h : WellBracketed s) (op : Operation) :
    WellBracketed (op.enclose s) := by
  cases op with
  | unset => exact h
  | and => exact h.group (x := '(') rfl
  | or => exact h.group (x := '\x7b') rfl
  | not => exact (show WellBracketed ['-'] from rfl).append h

theorem wellBracketed_groupTerms {t q : String} {op : Operation} (h : WellBracketed q.toList)
    (ht : groupTerms q op = .ok t) : WellBracketed t.toList := by
  have hop : op ≠ .unset := by
    rintro rfl
    cases ht
  obtain ⟨s, hs, heq⟩ := groupTerms_eq hop q
  obtain rfl := Except.ok.inj (hs.symm.trans ht)
  rw [heq]
  exact wellBracketed_enclose h op

theorem wellBracketed_joinTerms {ts : List String} (h : ∀ t ∈ ts, WellBracketed t.toList) :
    WellBracketed (joinTerms ts).toList :=
  wellBracketed_intercalate fun t ht => h t (List.mem_of_mem_filter ht)

theorem wellBracketed_joinTwo {a b : String} (ha : WellBracketed a.toList)
    (hb : WellBracketed b.toList) : WellBracketed (joinTwo a b).toList := by
  unfold joinTwo
  split_ifs
  · exact hb
  · exact ha
  · have hspace : WellBracketed " ".toList := rfl
    rw [String.toList_append, String.toList_append]
    exact (ha.append hspace).append hb

/-! ### Leaves -/

/-- A text that can be an argument for a field: a search expression is well bracketed, and others
contain no quotation marks. -/
def Field.Admits (f : Field) (a : String) : Prop :=
  if f = .query then WellBracketed a.toList else '"' ∉ a.toList

instance (f : Field) (a : String) : Decidable (f.Admits a) :=
  inferInstanceAs (Decidable (if f = .query then _ else _))

namespace Leaf

/-- A leaf whose arguments stay within their terms: they are not in search notation already, but for
search expressions that are well bracketed. -/
structure Protected (l : Leaf) : Prop where
  raw : l.raw = false
  args : ∀ a ∈ l.args, l.field.Admits a

theorem closed_protected : Closed Protected where
  group _ _ h := ⟨h.raw, h.args⟩
  merge t l hf ht hl := by
    refine ⟨by simp [ht.raw, hl.raw], fun a ha => ?_⟩
    rcases List.mem_append.1 ha with ha | ha
    · exact ht.args a ha
    · exact hf ▸ hl.args a ha

variable {l : Leaf} {t : String}

theorem Protected.terms (h : l.Protected) : ∀ t ∈ l.terms, WellBracketed t.toList := by
  intro t ht
  unfold Leaf.terms at ht
  by_cases hf : l.field = .query
  · simpa [Field.Admits, hf] using h.args t (by simpa [hf] using ht)
  · rw [if_neg (by simp [hf, h.raw])] at ht
    obtain ⟨a, ha, rfl⟩ := List.mem_map.1 ht
    rw [toList_quoteArg]
    exact wellBracketed_argTerm (by simpa [Field.Admits, hf] using h.args a ha)

theorem Protected.argText (h : l.Protected) (ht : l.argText = .ok t) :
    WellBracketed t.toList := by
  have hwords := wellBracketed_intercalate h.terms
  unfold Leaf.argText at ht
  split_ifs at ht
  · exact wellBracketed_groupTerms hwords ht
  · rwa [← Except.ok.inj ht]

theorem Protected.query (h : l.Protected) (ht : l.query = .ok t) : WellBracketed t.toList := by
  obtain ⟨s, hs, heq⟩ := bind_eq_ok_iff.1 ht
  have hs' := h.argText hs
  rw [← pure_eq_ok_iff.1 heq]
  split_ifs
  · exact hs'
  · have hname : WellBracketed l.field.name.toList := by cases l.field <;> rfl
    have hcolon : WellBracketed ":".toList := rfl
    rw [String.toList_append, String.toList_append]
    exact (hname.append hcolon).append hs'

end Leaf

/-! ### Conditions -/

/-- Criteria whose slots are well bracketed. -/
def Criteria.Bracketed (k : Criteria) : Prop :=
  ∀ s, WellBracketed (k.slot s).toList

theorem Criteria.bracketed_only {t : String} (h : WellBracketed t.toList) (s : Slot) :
    (only t s).Bracketed := by
  intro s'
  rw [slot_only]
  split_ifs
  · exact h
  · exact .nil

theorem Criteria.Bracketed.foldl_join {ks : List Criteria} {k : Criteria} (hk : k.Bracketed)
    (h : ∀ k ∈ ks, Bracketed k) : (ks.foldl join k).Bracketed := by
  induction ks generalizing k with
  | nil => exact hk
  | cons k' ks ih =>
    obtain ⟨hk', hks⟩ := List.forall_mem_cons.1 h
    refine ih (fun s => ?_) hks
    rw [slot_join]
    exact wellBracketed_joinTwo (hk s) (hk' s)

namespace Condition

variable {c : Condition} {cs : List Condition}

theorem forall_mem_queryAll {ts : List String} (h : queryAll cs = .ok ts)
    (ih : ∀ c ∈ cs, ∀ {t}, c.query = .ok t → WellBracketed t.toList) :
    ∀ t ∈ ts, WellBracketed t.toList := by
  induction cs generalizing ts with
  | nil =>
    obtain rfl := Except.ok.inj h
    simp
  | cons c cs ihs =>
    obtain ⟨hc, hcs⟩ := List.forall_mem_cons.1 ih
    simp only [queryAll, bind_eq_ok_iff, pure_eq_ok_iff] at h
    obtain ⟨t, ht, ts, hts, rfl⟩ := h
    exact List.forall_mem_cons.2 ⟨hc ht, ihs hts hcs⟩

/-- **A search expression closes what it opens.** -/
theorem wellBracketed_query (h : Everywhere (OfLeaves Leaf.Protected) c) :
    ∀ {t}, c.query = .ok t → WellBracketed t.toList := by
  induction h with
  | leaf h => exact fun ht => Leaf.Protected.query h (by simpa only [query] using ht)
  | node _ _ ih =>
    intro t ht
    rw [query] at ht
    obtain ⟨ts, hts, ht⟩ := bind_eq_ok_iff.1 ht
    exact wellBracketed_groupTerms (wellBracketed_joinTerms (forall_mem_queryAll hts ih)) ht

theorem bracketed_leaf {l : Leaf} {k : Criteria} (h : l.Protected) (hk : l.criteria = .ok k) :
    k.Bracketed := by
  unfold Leaf.criteria at hk
  split at hk <;> obtain ⟨t, ht, heq⟩ := bind_eq_ok_iff.1 hk <;> rw [← pure_eq_ok_iff.1 heq]
  · exact Criteria.bracketed_only (h.argText ht) .sender
  · exact Criteria.bracketed_only (h.argText ht) .recipient
  · exact Criteria.bracketed_only (h.argText ht) .subject
  · exact Criteria.bracketed_only (h.query ht) .query

/-- **The criteria of a condition close what they open**, each slot for itself. -/
theorem bracketed_criteria (h : Everywhere (OfLeaves Leaf.Protected) c) :
    ∀ {k}, c.criteria = .ok k → k.Bracketed := by
  induction h with
  | leaf h => exact fun hk => bracketed_leaf h (by simpa only [criteria] using hk)
  | @node op cs _ hcs ih =>
    intro k hk
    have hquery : ∀ c ∈ cs, ∀ {t}, c.query = .ok t → WellBracketed t.toList :=
      fun c hc => wellBracketed_query (hcs c hc)
    cases op with
    | unset =>
      rw [criteria] at hk
      cases hk
    | and =>
      rw [criteria] at hk
      obtain ⟨ks, hks, heq⟩ := bind_eq_ok_iff.1 hk
      have hempty : Criteria.Bracketed {} := fun s => by cases s <;> exact .nil
      rw [← pure_eq_ok_iff.1 heq]
      refine hempty.foldl_join fun k' hk' => ?_
      obtain ⟨c, hc, hck⟩ := (exists_mem_of_forall₂ (criteriaAll_eq_ok.1 hks)).2 k' hk'
      exact ih c hc hck
    | or =>
      rw [criteria] at hk
      obtain ⟨ts, hts, heq⟩ := bind_eq_ok_iff.1 hk
      rw [← pure_eq_ok_iff.1 heq]
      have hjoin := wellBracketed_joinTerms (forall_mem_queryAll hts hquery)
      refine Criteria.bracketed_only ?_ .query
      simpa [closingOf] using hjoin.group (x := '\x7b') rfl
    | not =>
      rcases cs with - | ⟨c, - | ⟨d, cs⟩⟩
      · simp only [criteria, reduceCtorEq] at hk
      · rw [criteria] at hk
        obtain ⟨t, ht, heq⟩ := bind_eq_ok_iff.1 hk
        rw [← pure_eq_ok_iff.1 heq]
        have hminus : WellBracketed "-".toList := rfl
        refine Criteria.bracketed_only ?_ .query
        simpa using hminus.append (hquery c List.mem_cons_self ht)
      · simp only [criteria, reduceCtorEq] at hk

theorem everywhere_of_leaves {Q : Leaf → Prop} (h : ∀ l ∈ c.leaves, Q l) :
    Everywhere (OfLeaves Q) c := by
  induction c with
  | leaf l => exact .leaf (h l (by simp))
  | node op cs ih =>
    rw [leaves_node] at h
    exact .node trivial fun d hd => ih d hd fun l hl => h l (List.mem_flatMap_of_mem hd hl)

end Condition

/-! ### Configs -/

/-- A node whose matches stay within their terms. -/
structure FilterNode.Protected (n : FilterNode) : Prop where
  raw : n.raw = false
  texts : ∀ p ∈ n.fields.stated, p.1.Admits p.2

theorem FilterNode.Protected.statedLeaves {n : FilterNode} (h : n.Protected) :
    ∀ l ∈ n.statedLeaves, l.Protected := by
  intro l hl
  obtain ⟨p, hp, rfl⟩ := List.mem_map.1 hl
  exact ⟨h.raw, by simpa using h.texts p hp⟩

theorem RuleDecl.Yields.bracketed {limit : Int} {r : RuleDecl} {f : Filter}
    (h : r.Yields limit f) (hn : ∀ n ∈ r.filter.nodes, n.Protected) : f.criteria.Bracketed := by
  obtain ⟨c, acts, hc, -, ⟨p, hp, hk⟩, -, -⟩ := h
  have hleaves : c.Everywhere (Condition.OfLeaves Leaf.Protected) := by
    refine Condition.everywhere_of_leaves fun l hl => ?_
    rw [FilterNode.leaves_of_condition hc] at hl
    obtain ⟨n, hn', hl⟩ := List.mem_flatMap.1 hl
    exact (hn n hn').statedLeaves l hl
  have hsome : Condition.Divisible (Condition.OfLeaves Leaf.Protected) :=
    Condition.divisible_ofLeaves fun l args h _ hsub =>
      ⟨h.raw, fun a ha => h.args a (hsub.subset ha)⟩
  have hsimple := Condition.leaves_simplify Leaf.closed_protected hleaves
  exact Condition.bracketed_criteria (Condition.everywhere_pieces hsome hsimple p hp) hk

/-- **Compiled criteria are well bracketed.**  If no node of a config is raw, no text but a search
expression contains a quotation mark, and search expressions close what they open, then all four
slots of all filters do. -/
theorem compile_wellBracketed {limit : Int} (hl : 1 ≤ limit) {c : Config} {m : MailConfig}
    (h : c.compile limit = .ok m) (hn : ∀ r ∈ c.rules, ∀ n ∈ r.filter.nodes, n.Protected) :
    ∀ f ∈ m.filters, WellBracketed f.criteria.sender.toList ∧
      WellBracketed f.criteria.recipient.toList ∧ WellBracketed f.criteria.subject.toList ∧
      WellBracketed f.criteria.query.toList := by
  intro f hf
  obtain ⟨r, hr, hyields⟩ := (mem_compiled_iff hl h).1 hf
  have hslots := hyields.bracketed (hn r hr)
  exact ⟨hslots .sender, hslots .recipient, hslots .subject, hslots .query⟩

/-- A rule with brackets in its texts, some of which do not match. -/
def strayBrackets : Config where
  rules := [{
    filter := { all := some [
      { any := some [{ fields := { sender := some "(a" } }, { fields := { list := some "b)" } }] },
      { fields := { query := some "\x7bc \"(\"\x7d" } },
      { negated := some { fields := { subject := some "d\x7d" } } }] }
    actions := { star := true } }]

/-- The search comes first, then the choice, and the negation last. -/
theorem readRules_strayBrackets : readRules strayBrackets = .ok [{
    condition := .node .and [
      .leaf { field := .query, grouping := .and, args := ["\x7bc \"(\"\x7d"] },
      .node .or [.leaf { field := .sender, grouping := .or, args := ["(a"] },
        .leaf { field := .list, grouping := .or, args := ["b)"] }],
      .node .not [.leaf { field := .subject, args := ["d\x7d"] }]]
    actions := { star := true } }] := by
  -- before they are arranged, merged leaves stand behind the other children
  change Except.ok [Rule.mk (Condition.arrange (.node .and [
    .node .or [.leaf { field := .sender, grouping := .or, args := ["(a"] },
      .leaf { field := .list, grouping := .or, args := ["b)"] }],
    .node .not [.leaf { field := .subject, args := ["d\x7d"] }],
    .leaf { field := .query, grouping := .and, args := ["\x7bc \"(\"\x7d"] }])) _] = _
  simp only [Condition.arrange_eq_insertionSort, List.map_cons, List.map_nil]
  rfl

theorem compile_strayBrackets : strayBrackets.compile 20 = .ok { filters := [{
    criteria := { query :=
      "\x7bc \"(\"\x7d \x7bfrom:\"(a\" list:\"b)\"\x7d -subject:\"d\x7d\"" }
    action := { star := true } }] } := by
  rw [Config.compile, readRules_strayBrackets]
  with_unfolding_all rfl

theorem strayBrackets_protected :
    ∀ r ∈ strayBrackets.rules, ∀ n ∈ r.filter.nodes, n.Protected := by
  intro r hr n hn
  obtain rfl := List.mem_singleton.1 hr
  have hnodes : ∀ n ∈ (strayBrackets.rules.headD default).filter.nodes,
      n.raw = false ∧ ∀ p ∈ n.fields.stated, p.1.Admits p.2 := by
    decide
  exact ⟨(hnodes n hn).1, (hnodes n hn).2⟩

theorem compile_wellBracketed_strayBrackets :
    1 ≤ (20 : Int) ∧ (∀ r ∈ strayBrackets.rules, ∀ n ∈ r.filter.nodes, n.Protected) ∧
    ∃ m, strayBrackets.compile 20 = .ok m ∧
      ∀ f ∈ m.filters, WellBracketed f.criteria.sender.toList ∧
        WellBracketed f.criteria.recipient.toList ∧ WellBracketed f.criteria.subject.toList ∧
        WellBracketed f.criteria.query.toList :=
  ⟨by decide, strayBrackets_protected, _, compile_strayBrackets,
    compile_wellBracketed (by decide) compile_strayBrackets strayBrackets_protected⟩

end MailRules
