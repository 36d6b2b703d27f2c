import MailRules.Proofs.Account.Storable
import MailRules.Proofs.Config.Describe

/-!
# Compiled filters survive a download

Describing the filters of a compiled config and compiling the description gives the same filters
again, provided that nothing in the config is raw and all labels have names.

* What search notation is made of in a slot is not quoted again.  A group has a blank in it, a
  quoted argument a quotation mark, and any other argument was left alone before
  (`Leaf.requoted_argText`); joined to a row, texts still are not (`requoted_joinTwo`).
* `survives_of_criteria` says this of the criteria of any condition without raw leaves, and
  `survives_of_yields` of the filters of a rule.
* `exists_rule_iff` says what can be described.  `describe_compiled` is the whole download.
-/

namespace MailRules

/-! ### Texts that are not quoted again -/

section

variable {a b v : String}

theorem requoted_of_mem {x : Char} (hx : x = ' ' ∨ x = '"') (h : x ∈ v.toList) :
    requoted v = v := by
  refine requoted_eq_iff.2 (.inl ?_)
  unfold isSpacedOut
  refine List.any_eq_true.2 ⟨x, h, ?_⟩
  rcases hx with rfl | rfl <;> rfl

/-- What was quoted is not quoted again, and neither is what did not need it. -/
theorem requoted_quoteArg (a : String) : requoted (quoteArg a) = quoteArg a := by
  unfold quoteArg
  split_ifs with hq
  · exact requoted_of_mem (.inr rfl) (by simp)
  · exact requoted_eq_iff.2 (.inr (Bool.eq_false_iff.2 hq))

/-- A row has a blank in it. -/
theorem requoted_joinTwo (ha : requoted a = a) (hb : requoted b = b) :
    requoted (joinTwo a b) = joinTwo a b := by
  unfold joinTwo
  split_ifs
  · exact hb
  · exact ha
  · exact requoted_of_mem (.inl rfl) (by simp)

theorem mem_enclose {x : Char} {s : List Char} (op : Operation) (h : x ∈ s) :
    x ∈ op.enclose s := by
  cases op <;> simp [Operation.enclose, h]

/-- Several terms have a blank between them. -/
theorem blank_mem_words {t u : List Char} {ts : List (List Char)} :
    ' ' ∈ words (t :: u :: ts) := by
  rw [words_cons, spaced_eq (List.cons_ne_nil u ts)]
  simp

/-- **The arguments of a leaf are not quoted again.** -/
theorem Leaf.requoted_argText {l : Leaf} (hraw : l.raw = false) (hq : l.field ≠ .query)
    (h : l.argText = .ok v) : requoted v = v := by
  have hterms : l.terms = l.args.map quoteArg := by simp [terms, hq, hraw]
  unfold argText at h
  rw [hterms] at h
  rcases hargs : l.args with _ | ⟨a, _ | ⟨b, as⟩⟩
  · obtain rfl : "" = v := by simpa [hargs] using h
    exact requoted_empty
  · obtain rfl : quoteArg a = v := by simpa [hargs] using h
    exact requoted_quoteArg a
  · have hlen : l.args.length > 1 := by simp [hargs]
    simp only [hlen, if_true] at h
    have hop : l.grouping ≠ .unset := by
      intro hop
      rw [hop] at h
      cases h
    obtain ⟨t, ht, hchars⟩ := groupTerms_eq hop (" ".intercalate (l.args.map quoteArg))
    obtain rfl := Except.ok.inj (ht.symm.trans h)
    refine requoted_of_mem (.inl rfl) ?_
    rw [hchars, String.toList_intercalate, hargs]
    exact mem_enclose _ blank_mem_words

end

/-! ### Criteria that are not quoted again -/

namespace Criteria

variable {k k' : Criteria}

/-- Nothing but the query slot is looked at. -/
theorem survives_iff : k.Survives ↔ ∀ s, s ≠ .query → MailRules.requoted (k.slot s) = k.slot s := by
  simp only [Survives, ← requoted_eq_iff, List.forall_mem_cons, List.not_mem_nil, false_implies,
    implies_true, and_true]
  constructor
  · rintro ⟨hsender, hrecipient, hsubject⟩ s hs
    cases s with
    | sender => exact hsender
    | recipient => exact hrecipient
    | subject => exact hsubject
    | query => exact absurd rfl hs
  · intro h
    exact ⟨h .sender (by simp), h .recipient (by simp), h .subject (by simp)⟩

theorem survives_only {v : String} {s : Slot} (h : s ≠ .query → MailRules.requoted v = v) :
    (only v s).Survives := by
  refine survives_iff.2 fun s' hs' => ?_
  rw [slot_only]
  split_ifs with hs
  · exact h (hs ▸ hs')
  · exact requoted_empty

theorem survives_join (h : k.Survives) (h' : k'.Survives) : (k.join k').Survives := by
  refine survives_iff.2 fun s hs => ?_
  rw [slot_join]
  exact requoted_joinTwo (survives_iff.1 h s hs) (survives_iff.1 h' s hs)

theorem survives_foldl_join {ks : List Criteria} (h : ∀ k ∈ ks, k.Survives) (hk : k.Survives) :
    (ks.foldl join k).Survives := by
  induction ks generalizing k with
  | nil => exact hk
  | cons k' ks ih =>
    obtain ⟨hk', hks⟩ := List.forall_mem_cons.1 h
    exact ih hks (survives_join hk hk')

end Criteria

/-- The criteria of a leaf have one text, in the slot of its field. -/
theorem Leaf.of_criteria {l : Leaf} {k : Criteria} (h : l.criteria = .ok k) :
    ∃ t, (if l.field.slot = .query then l.query else l.argText) = .ok t ∧
      k = .only t l.field.slot := by
  unfold Leaf.criteria at h
  cases hf : l.field <;> rw [hf] at h <;> obtain ⟨t, ht, hk⟩ := bind_eq_ok_iff.1 h <;>
    exact ⟨t, ht, (pure_eq_ok_iff.1 hk).symm⟩

namespace Condition

variable {c : Condition} {k : Criteria}

/-- **The criteria of a condition are not quoted again** if no leaf of it is raw. -/
theorem survives_of_criteria (hraw : Everywhere (OfLeaves fun l => l.raw = false) c)
    (h : c.criteria = .ok k) : k.Survives := by
  have hquery : ∀ t : String, ({ query := t } : Criteria).Survives :=
    fun t => Criteria.survives_only (s := .query) fun hs => absurd rfl hs
  induction hraw generalizing k with
  | @leaf l hl =>
    rw [criteria] at h
    obtain ⟨t, ht, rfl⟩ := Leaf.of_criteria h
    refine Criteria.survives_only fun hs => ?_
    rw [if_neg hs] at ht
    refine Leaf.requoted_argText hl (fun hq => hs ?_) ht
    rw [hq]
    rfl
  | @node op cs _ _ ih =>
    cases op with
    | unset => cases h
    | and =>
      rw [criteria] at h
      obtain ⟨ks, hks, h⟩ := bind_eq_ok_iff.1 h
      obtain rfl := pure_eq_ok_iff.1 h
      refine Criteria.survives_foldl_join (fun k' hk' => ?_) (hquery "")
      obtain ⟨d, hd, hdk⟩ := (exists_mem_of_forall₂ (criteriaAll_eq_ok.1 hks)).2 k' hk'
      exact ih d hd hdk
    | or =>
      rw [criteria] at h
      obtain ⟨ss, -, h⟩ := bind_eq_ok_iff.1 h
      obtain rfl := pure_eq_ok_iff.1 h
      exact hquery _
    | not =>
      -- a negation has criteria only if it has one child
      rcases cs with _ | ⟨d, _ | ⟨e, es⟩⟩
      · cases h
      · rw [criteria] at h
        obtain ⟨s, -, h⟩ := bind_eq_ok_iff.1 h
        obtain rfl := pure_eq_ok_iff.1 h
        exact hquery _
      · cases h

end Condition

/-! ### Filters of a rule -/

section

variable {limit : Int} {r : RuleDecl} {f : Filter}

/-- Simplification and splitting do not make anything raw. -/
theorem survives_of_yields (hraw : r.filter.Every fun n => n.raw = false)
    (h : r.Yields limit f) : f.criteria.Survives := by
  obtain ⟨c, -, hc, -, ⟨p, hp, hcrit⟩, -⟩ := h
  have hclosed : Leaf.Closed fun l => l.raw = false :=
    ⟨fun _ _ h => h, fun t l _ ht hl => by simp [ht, hl]⟩
  have hleaves : c.Everywhere (Condition.OfLeaves fun l => l.raw = false) :=
    FilterNode.everywhere_of_condition hraw hc (fun _ _ _ _ _ => trivial) (fun _ _ => trivial)
      fun _ _ hm _ => hm
  have hpiece := Condition.everywhere_pieces (Condition.divisible_ofLeaves fun _ _ h _ _ => h)
    (Condition.leaves_simplify hclosed hleaves) p hp
  exact Condition.survives_of_criteria hpiece hcrit

theorem requoted_of_yields (hraw : r.filter.Every fun n => n.raw = false)
    (h : r.Yields limit f) : f.requoted = f := by
  obtain ⟨k, a, id⟩ := f
  obtain rfl : id = "" := by
    obtain ⟨-, -, -, -, -, -, hid⟩ := h
    exact hid
  rw [Filter.requoted, Criteria.requoted_eq_self_iff.2 (survives_of_yields hraw h)]

/-- No rule asks for opposite marks. -/
theorem marks_of_yields (h : r.Yields limit f) :
    ¬(f.action.markImportant && f.action.markNotImportant) = true := by
  obtain ⟨-, acts, -, ha, -, hx, -⟩ := h
  rcases (mem_filterActions ha).1 hx with hmain | ⟨l, -, hlabel⟩
  · rw [hmain]
    rcases hm : r.actions.markImportant with _ | _ | _ <;> simp [Actions.mainAction, hm]
  · rw [hlabel]
    simp

end

/-! ### Describing filters -/

/-- A filter can be described if it matches something and has no opposite marks. -/
theorem exists_rule_iff {f : Filter} : (∃ r, f.rule = .ok r) ↔
    f.criteria.isEmpty = false ∧ ¬(f.action.markImportant && f.action.markNotImportant) = true := by
  have hnode : f.criteria.node? = none ↔ f.criteria.isEmpty = true := by
    have hnil : f.criteria.filled = [] ↔ f.criteria.isEmpty = true := by
      rw [Criteria.isEmpty_iff, List.eq_nil_iff_forall_not_mem]
      simp only [Criteria.mem_filled, not_not]
    rw [← hnil, Criteria.node?_eq]
    rcases f.criteria.filled with _ | ⟨s, _ | ⟨t, ss⟩⟩ <;> simp
  unfold Filter.rule Action.actions?
  cases hn : f.criteria.node? with
  | none => simp [hnode.1 hn]
  | some n =>
    have hne : f.criteria.isEmpty = false := by
      refine Bool.eq_false_iff.2 fun hempty => ?_
      rw [hnode.2 hempty] at hn
      cases hn
    split_ifs with hmarks <;> simp [hne, hmarks]

theorem rulesFrom_eq_ok {i : Nat} {fs : List Filter} {rs : List RuleDecl}
    (h : List.Forall₂ (fun (f : Filter) r => f.rule = .ok r) fs rs) :
    rulesFrom i fs = .ok rs := by
  induction h generalizing i with
  | nil => rfl
  | cons hr _ ih => simp only [rulesFrom, hr, ih]

/-- **Compiled filters survive a download.**  Where nothing is raw and labels have names, the
filters of a compiled config can be described, whatever labels there are, and the description
compiles to the same filters in their order, whatever the limit. -/
theorem describe_compiled {c : Config} {limit : Int} {m : MailConfig} (hl : 1 ≤ limit)
    (hraw : ∀ r ∈ c.rules, r.filter.Every fun n => n.raw = false)
    (hnamed : ∀ r ∈ c.rules, "" ∉ r.actions.labels) (h : c.compile limit = .ok m)
    (labels : List Label) :
    ∃ d, MailConfig.describe { labels, filters := m.filters } = .ok d ∧
      ∀ limit', d.compile limit' =
        .ok { labels := labels.map Label.withoutId, filters := m.filters } := by
  have hyields : ∀ f ∈ m.filters, ∃ r ∈ c.rules, r.Yields limit f :=
    fun f => (mem_compiled_iff hl h).1
  have hactions : ∀ f ∈ m.filters, f.action.isEmpty = false :=
    (actions_compiled_iff hl h).2 fun r hr => not_hasIdle_of_named (hnamed r hr)
  have hrules : ∀ f ∈ m.filters, ∃ r, f.rule = .ok r := by
    intro f hf
    obtain ⟨r, -, hr⟩ := hyields f hf
    exact exists_rule_iff.2 ⟨criteria_of_yields hr, marks_of_yields hr⟩
  have hsame : m.filters.map Filter.requoted = m.filters := by
    refine (List.map_congr_left fun f hf => ?_).trans (List.map_id _)
    obtain ⟨r, hr, hrf⟩ := hyields f hf
    exact requoted_of_yields (hraw r hr) hrf
  obtain ⟨rs, hrs⟩ := exists_forall₂_iff.2 hrules
  have hdescribe : ∃ d, MailConfig.describe { labels, filters := m.filters } = .ok d := by
    simp [MailConfig.describe, rulesFrom_eq_ok hrs]
  obtain ⟨d, hd⟩ := hdescribe
  refine ⟨d, hd, fun limit' => ?_⟩
  rw [describe_compile hactions hd, hsame]

/-- The filters of `threeSenders` have a group of senders and a quoted subject. -/
theorem describe_compiled_threeSenders :
    ∃ m d, threeSenders.compile 5 = .ok m ∧
      MailConfig.describe { labels := [{ name := "home" }], filters := m.filters } = .ok d ∧
      d.compile 1 = .ok { labels := [{ name := "home" }], filters := m.filters } := by
  have hraw : ∀ r ∈ threeSenders.rules, r.filter.Every fun n => n.raw = false := by
    intro r hr
    obtain rfl := List.mem_singleton.1 hr
    have hfields : ∀ fields : FieldMatches,
        FilterNode.Every (fun n => n.raw = false) { fields } := fun fields =>
      .mk rfl (by simp) (by simp) (by simp)
    refine .mk rfl ?_ (by simp) (by simp)
    intro n hn
    rcases List.mem_pair.1 hn with rfl | rfl
    · exact .mk rfl (by simp) (by simp [hfields]) (by simp)
    · exact .mk rfl (by simp) (by simp) (by simp [hfields])
  have hnamed : ∀ r ∈ threeSenders.rules, "" ∉ r.actions.labels := by
    intro r hr
    obtain rfl := List.mem_singleton.1 hr
    decide
  obtain ⟨d, hd, hcompile⟩ := describe_compiled (by decide : (1 : Int) ≤ 5) hraw hnamed
    compile_threeSenders [{ name := "home" }]
  exact ⟨_, d, compile_threeSenders, hd, hcompile 1⟩

end MailRules
