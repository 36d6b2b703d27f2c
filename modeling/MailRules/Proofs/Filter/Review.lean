import MailRules.Proofs.Filter.ReviewLines

/-!
# What a review tells

A review puts the lines of filters one below the other.  Only the first line of a filter begins as
one does, unless a text contains a line feed, so the lines tell where each filter begins.

* No line of a query that is laid out is `Flush`, and first lines are; `opens_closing` says so of
  all lines of a `Filter.SingleLine` filter.
* `Filter.query_eq_of_opening`: a search that is shown tells the query.
* `Filter.renderAll_eq_iff` is when two lists of filters are reviewed in the same way.
-/

namespace MailRules

/-! ### Where the lines of a filter begin -/

/-- Members that are told by a property are where blocks begin that have it at their heads only. -/
theorem flatMap_cons_inj {α β : Type} {head : α → β} {rest : α → List β} {p : β → Bool}
    {fs gs : List α} (hf : ∀ f ∈ fs, p (head f) = true ∧ ∀ l ∈ rest f, p l = false)
    (hg : ∀ g ∈ gs, p (head g) = true ∧ ∀ l ∈ rest g, p l = false)
    (h : fs.flatMap (fun f => head f :: rest f) = gs.flatMap fun g => head g :: rest g) :
    List.Forall₂ (fun f g => head f = head g ∧ rest f = rest g) fs gs := by
  -- behind a block there is nothing, or the next one begins
  have hbehind : ∀ {hs : List α}, (∀ f ∈ hs, p (head f) = true ∧ ∀ l ∈ rest f, p l = false) →
      ∀ l ∈ (hs.flatMap fun f => head f :: rest f).head?, (!p l) = false := by
    intro hs hhs l hl
    cases hs with
    | nil => cases hl
    | cons f hs =>
      obtain rfl : head f = l := by simpa using hl
      simpa using (hhs f List.mem_cons_self).1
  induction fs generalizing gs with
  | nil =>
    cases gs with
    | nil => exact .nil
    | cons g gs => cases h
  | cons f fs ih =>
    cases gs with
    | nil => cases h
    | cons g gs =>
      obtain ⟨⟨-, hrest⟩, hfs⟩ := List.forall_mem_cons.1 hf
      obtain ⟨⟨-, hrest'⟩, hgs⟩ := List.forall_mem_cons.1 hg
      obtain ⟨hhead, htail⟩ := List.cons.inj h
      obtain ⟨hrests, hmore⟩ := append_inj_of_head (p := fun l => !p l)
        (fun l hl => by simp [hrest l hl]) (fun l hl => by simp [hrest' l hl]) (hbehind hfs)
        (hbehind hgs) htail
      exact .cons ⟨hhead, hrests⟩ (ih hfs hgs hmore)

/-- A line whose second character is a blank, while its first is neither a blank nor a quotation
mark. -/
def Flush (l : List Char) : Prop :=
  ∃ x rest, l = x :: ' ' :: rest ∧ x ≠ ' ' ∧ x ≠ '"'

theorem not_flush_of_indent {l : List Char} (h : l.head? = some ' ') : ¬Flush l := by
  rintro ⟨x, rest, rfl, hx, -⟩
  exact hx (Option.some.inj h)

/-- No line of a layout is flush: blanks outside of quotation marks are indentation. -/
theorem not_flush_of_mem_layoutScan {base : Int} {s l more : List Char} {k : LayoutLine}
    (hk : k ∈ (layoutScan base s).lines) (htext : k.text = l ++ more) : ¬Flush l := by
  rintro ⟨x, rest, rfl, hx, hquote⟩
  have hcontent : k.content = x :: ' ' :: (rest ++ more) := by
    rw [LayoutLine.text] at htext
    cases hn : 2 * k.level.toNat with
    | zero => simpa [hn] using htext
    | succ n =>
      rw [hn, List.replicate_succ] at htext
      exact absurd (List.cons.inj htext).1.symm hx
  refine space_not_mem_layoutScan hk ?_
  rw [hcontent, outside, if_neg hquote]
  simp [outside]

theorem not_flush_of_mem_queryLines {query : String} (hfeed : '\n' ∉ query.toList) {l : List Char}
    (h : l ∈ queryLines query) : ¬Flush l := by
  have htag : '\n' ∉ "    query: ".toList := by decide
  unfold queryLines at h
  split_ifs at h
  · cases h
  rw [String.toList_append] at h
  rcases indentQuery_cases query 2 with heq | ⟨shown, blank, heq, htext, -⟩
  · have hfree : '\n' ∉ "    query: ".toList ++ query.toList := by
      simpa using And.intro htag hfeed
    rw [heq, splitAtChar_eq_splitOn, List.splitOn_eq_singleton hfree] at h
    obtain rfl := List.mem_singleton.1 h
    exact not_flush_of_indent (by simp)
  · rw [heq, splitAtChar_append_cons htag] at h
    rcases List.mem_cons.1 h with rfl | h
    · exact not_flush_of_indent (by simp)
    · obtain ⟨above, below, hlines⟩ := List.append_of_mem h
      obtain ⟨ls, k, ls', more, hscan, -, hk⟩ := exists_line_of_shown hfeed htext hlines
      have hmem : k ∈ (layoutScan (2 + 1) query.toList).lines := by
        rw [hscan]
        exact List.mem_append_right _ List.mem_cons_self
      exact not_flush_of_mem_layoutScan hmem hk

/-- Whether a line begins as the first line of a filter does in a review. -/
def opens (withSearch : Bool) (l : List Char) : Bool :=
  (if withSearch then "# S" else "* ").toList.isPrefixOf l

theorem flush_of_opens {withSearch : Bool} {l : List Char} (h : opens withSearch l = true) :
    Flush l := by
  obtain ⟨rest, rfl⟩ := List.isPrefixOf_iff_prefix.1 h
  cases withSearch with
  | false => exact ⟨'*', rest, by simp, by decide, by decide⟩
  | true => exact ⟨'#', 'S' :: rest, by simp, by decide, by decide⟩

theorem opens_of_not_flush {withSearch : Bool} {l : List Char} (h : ¬Flush l) :
    opens withSearch l = false :=
  Bool.eq_false_iff.2 fun hopens => h (flush_of_opens hopens)

section

variable {withSearch : Bool} {f g : Filter} {fs gs : List Filter}

namespace Filter

/-- A filter without line feeds in its texts. -/
structure SingleLine (f : Filter) : Prop where
  sender : '\n' ∉ f.criteria.sender.toList
  recipient : '\n' ∉ f.criteria.recipient.toList
  subject : '\n' ∉ f.criteria.subject.toList
  query : '\n' ∉ f.criteria.query.toList
  addLabel : '\n' ∉ f.action.addLabel.toList
  forward : '\n' ∉ f.action.forward.toList

theorem opens_opening (withSearch : Bool) (f : Filter) :
    opens withSearch (opening withSearch f) = true := by
  cases withSearch <;> simp [opens, opening, List.isPrefixOf]

theorem not_flush_of_mem_details (h : f.SingleLine) {l : List Char} (hl : l ∈ f.details) :
    ¬Flush l := by
  have htagged : ∀ {rows : List (String × Option String)} {tags : List String},
      rows.map Prod.fst = tags → (∀ t ∈ tags, [' '] <+: t.toList) → l ∈ tagged rows →
      ¬Flush l := by
    rintro rows tags rfl htags hl
    obtain ⟨row, hrow, v, -, rfl⟩ := exists_tag_of_mem_tagged hl
    obtain ⟨rest, hrest⟩ := htags row.1 (List.mem_map_of_mem hrow)
    exact not_flush_of_indent (by rw [← hrest]; rfl)
  rcases List.mem_append.1 hl with hl | hl
  · rcases List.mem_append.1 hl with hl | hl
    · exact htagged f.criteria.tags_rows (by decide) hl
    · exact not_flush_of_mem_queryLines h.query hl
  · rcases List.mem_cons.1 hl with rfl | hl
    · exact not_flush_of_indent (by simp)
    · exact htagged f.action.tags_rows (by decide) hl

/-- Only the first line of a filter begins as one. -/
theorem opens_closing (h : f.SingleLine) :
    ∀ l ∈ closing withSearch f, opens withSearch l = false := by
  intro l hl
  rcases List.mem_append.1 hl with hl | hl
  · rcases List.mem_append.1 hl with hl | hl
    · cases withSearch with
      | false => cases hl
      | true =>
        rcases List.mem_pair.1 hl with rfl | rfl
        · simp [opens, List.isPrefixOf]
        · simp [opens, List.isPrefixOf]
    · exact opens_of_not_flush (not_flush_of_mem_details h hl)
  · obtain rfl := List.mem_singleton.1 hl
    cases withSearch <;> rfl

/-! ### Line feeds -/

theorem lineFeed_not_mem_tagged {rows : List (String × Option String)}
    (h : ∀ row ∈ rows, '\n' ∉ row.1.toList ∧ ∀ v, row.2 = some v → '\n' ∉ v.toList) :
    ∀ l ∈ tagged rows, '\n' ∉ l := by
  intro l hl
  obtain ⟨row, hrow, v, hv, rfl⟩ := exists_tag_of_mem_tagged hl
  simpa using ⟨(h row hrow).1, (h row hrow).2 v hv⟩

theorem lineFeed_not_mem_valueEntry {name value : String} (hn : '\n' ∉ name.toList)
    (hv : '\n' ∉ value.toList) : '\n' ∉ (valueEntry name value).1.toList ∧
      ∀ v, (valueEntry name value).2 = some v → '\n' ∉ v.toList := by
  refine ⟨by simpa [valueEntry] using hn, fun v hvalue => ?_⟩
  unfold valueEntry at hvalue
  split_ifs at hvalue
  obtain rfl := Option.some.inj hvalue
  exact hv

theorem lineFeed_not_mem_flagEntry {name : String} {value : Bool} (hn : '\n' ∉ name.toList) :
    '\n' ∉ (flagEntry name value).1.toList ∧
      ∀ v, (flagEntry name value).2 = some v → '\n' ∉ v.toList := by
  refine ⟨by simpa [flagEntry] using hn, fun v hvalue => ?_⟩
  unfold flagEntry at hvalue
  split_ifs at hvalue
  obtain rfl := Option.some.inj hvalue
  exact List.not_mem_nil

theorem lineFeed_not_mem_details (h : f.SingleLine) : ∀ l ∈ f.details, '\n' ∉ l := by
  have hcategory : '\n' ∉ ((f.action.category.map Category.name).getD "").toList := by
    rcases f.action.category with _ | c
    · exact List.not_mem_nil
    · cases c <;> decide
  intro l hl
  rcases List.mem_append.1 hl with hl | hl
  · rcases List.mem_append.1 hl with hl | hl
    · refine lineFeed_not_mem_tagged (fun row hrow => ?_) l hl
      simp only [Criteria.rows, List.mem_cons, List.not_mem_nil, or_false] at hrow
      rcases hrow with rfl | rfl | rfl
      · exact lineFeed_not_mem_valueEntry (by decide) h.sender
      · exact lineFeed_not_mem_valueEntry (by decide) h.recipient
      · exact lineFeed_not_mem_valueEntry (by decide) h.subject
    · unfold queryLines at hl
      split_ifs at hl
      · cases hl
      · exact not_mem_of_mem_splitAtChar hl
  · rcases List.mem_cons.1 hl with rfl | hl
    · decide
    · refine lineFeed_not_mem_tagged (fun row hrow => ?_) l hl
      simp only [Action.rows, List.mem_cons, List.not_mem_nil, or_false] at hrow
      rcases hrow with rfl | rfl | rfl | rfl | rfl | rfl | rfl | rfl | rfl | rfl
      iterate 7 exact lineFeed_not_mem_flagEntry (by decide)
      · exact lineFeed_not_mem_valueEntry (by decide) hcategory
      · exact lineFeed_not_mem_valueEntry (by decide) h.addLabel
      · exact lineFeed_not_mem_valueEntry (by decide) h.forward

end Filter

/-! ### Searches -/

/-- A text as a row of one term, or of none if it is empty. -/
def termOf (u : List Char) : List (List Char) :=
  if u = [] then [] else [u]

/-- The term of a slot with an operator, if it is set. -/
def slotTerm (operator value : String) : List (List Char) :=
  if value = "" then [] else [(operator ++ value).toList]

/-- The terms of a search but for the query. -/
def Criteria.slotTerms (k : Criteria) : List (List Char) :=
  slotTerm "from:" k.sender ++ slotTerm "to:" k.recipient ++ slotTerm "subject:" k.subject

theorem Criteria.toList_search_eq (k : Criteria) :
    k.search.toList = words (k.slotTerms ++ termOf k.query.toList) := by
  have hslot : ∀ operator value : String,
      (if value = "" then [] else [operator ++ value]).map String.toList =
        slotTerm operator value := by
    intro operator value
    unfold slotTerm
    split_ifs <;> rfl
  have hquery : slotTerm "" k.query = termOf k.query.toList := by
    unfold slotTerm termOf
    by_cases h : k.query = "" <;> simp [h]
  have hspace : " ".toList = [' '] := by simp
  simp only [search, String.toList_intercalate, List.map_append, hslot, hquery, hspace]
  rfl

/-- Behind the same terms one text is known from the row. -/
theorem words_termOf_inj {ts : List (List Char)} {u u' : List Char}
    (h : words (ts ++ termOf u) = words (ts ++ termOf u')) : u = u' := by
  have hwords : ∀ v, words (ts ++ termOf v) =
      if ts = [] then v else words ts ++ if v = [] then [] else ' ' :: v := by
    intro v
    by_cases hts : ts = [] <;> by_cases hv : v = []
    · simp [termOf, hts, hv, words, List.intercalate]
    · simp [termOf, hts, hv, words, List.intercalate]
    · simp [termOf, hts, hv]
    · rw [termOf, if_neg hv, if_neg hts, if_neg hv, words_append hts (List.cons_ne_nil _ _)]
      simp [words, List.intercalate]
  rw [hwords, hwords] at h
  by_cases hts : ts = []
  · simpa [hts] using h
  · rw [if_neg hts, if_neg hts, List.append_cancel_left_eq] at h
    by_cases hu : u = [] <;> by_cases hu' : u' = [] <;> simp_all

theorem lineFeed_not_mem_words {ts : List (List Char)} (h : ∀ t ∈ ts, '\n' ∉ t) :
    '\n' ∉ words ts := by
  cases ts with
  | nil => exact List.not_mem_nil
  | cons t ts =>
    obtain ⟨ht, hts⟩ := List.forall_mem_cons.1 h
    rw [words_cons, spaced]
    intro hmem
    rcases List.mem_append.1 hmem with hmem | hmem
    · exact ht hmem
    · obtain ⟨u, hu, hmem⟩ := List.mem_flatMap.1 hmem
      exact hts u hu (by simpa using hmem)

namespace Filter

theorem lineFeed_not_mem_append {a b : String} (ha : '\n' ∉ a.toList) (hb : '\n' ∉ b.toList) :
    '\n' ∉ (a ++ b).toList := by
  simpa using ⟨ha, hb⟩

theorem lineFeed_not_mem_slotTerm {operator value : String} (ho : '\n' ∉ operator.toList)
    (hv : '\n' ∉ value.toList) : ∀ t ∈ slotTerm operator value, '\n' ∉ t := by
  intro t ht
  unfold slotTerm at ht
  split_ifs at ht
  · cases ht
  · obtain rfl := List.mem_singleton.1 ht
    exact lineFeed_not_mem_append ho hv

theorem lineFeed_not_mem_search (h : f.SingleLine) : '\n' ∉ f.criteria.search.toList := by
  rw [Criteria.toList_search_eq]
  refine lineFeed_not_mem_words fun t ht => ?_
  rcases List.mem_append.1 ht with ht | ht
  · rcases List.mem_append.1 ht with ht | ht
    · rcases List.mem_append.1 ht with ht | ht
      · exact lineFeed_not_mem_slotTerm (by decide) h.sender t ht
      · exact lineFeed_not_mem_slotTerm (by decide) h.recipient t ht
    · exact lineFeed_not_mem_slotTerm (by decide) h.subject t ht
  · unfold termOf at ht
    split_ifs at ht
    · cases ht
    · obtain rfl := List.mem_singleton.1 ht
      exact h.query

theorem lineFeed_not_mem_formByte (b : UInt8) : '\n' ∉ formByte b := by
  have hall : ∀ n < 256, '\n' ∉ formByte (UInt8.ofNat n) := by decide +kernel
  simpa using hall b.toNat b.toNat_lt

theorem lineFeed_not_mem_searchAddress (k : Criteria) : '\n' ∉ k.searchAddress.toList := by
  have hform : '\n' ∉ (formEncoded k.search).toList := by
    rw [formEncoded, String.toList_ofList]
    intro hmem
    obtain ⟨b, -, hb⟩ := List.mem_flatMap.1 hmem
    exact lineFeed_not_mem_formByte b hb
  exact lineFeed_not_mem_append (by simp) hform

theorem lineFeed_not_mem_lines (h : f.SingleLine) :
    ∀ l ∈ opening withSearch f :: closing withSearch f, '\n' ∉ l := by
  refine List.forall_mem_cons.2 ⟨?_, fun l hl => ?_⟩
  · unfold opening
    split_ifs
    · exact lineFeed_not_mem_append (by decide) (lineFeed_not_mem_search h)
    · decide
  · rcases List.mem_append.1 hl with hl | hl
    · rcases List.mem_append.1 hl with hl | hl
      · split_ifs at hl
        · rcases List.mem_pair.1 hl with rfl | rfl
          · exact lineFeed_not_mem_append (by decide) (lineFeed_not_mem_searchAddress _)
          · decide
        · cases hl
      · exact lineFeed_not_mem_details h l hl
    · obtain rfl := List.mem_singleton.1 hl
      exact List.not_mem_nil

/-! ### What a review tells -/

/-- With the search in the review, a query is known from the search and the other slots. -/
theorem query_eq_of_opening (h : opening true f = opening true g) (halike : f.ShownAlike g) :
    f.criteria.query = g.criteria.query := by
  have hterms : f.criteria.slotTerms = g.criteria.slotTerms := by
    rw [Criteria.slotTerms, Criteria.slotTerms, halike.sender, halike.recipient, halike.subject]
  rw [opening, opening, if_pos rfl, if_pos rfl, String.toList_append, String.toList_append,
    List.append_cancel_left_eq, Criteria.toList_search_eq, Criteria.toList_search_eq, hterms] at h
  exact String.toList_injective (words_termOf_inj h)

theorem shownAlike_of_closing (h : closing withSearch f = closing withSearch g) :
    f.ShownAlike g := by
  have hfront := List.append_cancel_right h
  refine shownAlike_of_details (List.append_inj_right hfront ?_)
  split_ifs <;> simp

theorem criteria_eq_of_alike (h : f.ShownAlike g) (hquery : f.criteria.query = g.criteria.query) :
    f.criteria = g.criteria := by
  obtain ⟨⟨sender, recipient, subject, query⟩, action, id⟩ := f
  obtain ⟨⟨sender', recipient', subject', query'⟩, action', id'⟩ := g
  obtain rfl : sender = sender' := h.sender
  obtain rfl : recipient = recipient' := h.recipient
  obtain rfl : subject = subject' := h.subject
  obtain rfl : query = query' := hquery
  rfl

/-- The text of a filter in a review, up to the empty line. -/
theorem shown_of_alike (h : f.ShownAlike g)
    (hquery : withSearch = true → f.criteria.query = g.criteria.query) :
    (if withSearch then f.renderWithSearch else f.render) =
      if withSearch then g.renderWithSearch else g.render := by
  have hrender : f.render = g.render := by
    rw [render, render, h.action, h.sender, h.recipient, h.subject, h.query]
  split_ifs with hsearch
  · rw [renderWithSearch, renderWithSearch, criteria_eq_of_alike h (hquery hsearch), hrender]
  · exact hrender

theorem lineFeed_not_mem_blocks (h : ∀ f ∈ fs, f.SingleLine) :
    ∀ l ∈ fs.flatMap fun f => opening withSearch f :: closing withSearch f, '\n' ∉ l := by
  intro l hl
  obtain ⟨f, hf, hl⟩ := List.mem_flatMap.1 hl
  exact lineFeed_not_mem_lines (h f hf) l hl

theorem renderAll_ne_empty (h : ∀ f ∈ fs, f.SingleLine) (hne : fs ≠ []) :
    renderAll withSearch fs ≠ "" := by
  intro hempty
  obtain ⟨f, fs, rfl⟩ := List.exists_cons_of_ne_nil hne
  have htext := toList_renderAll withSearch (List.cons_ne_nil f fs)
  rw [hempty] at htext
  -- the only line of an empty text is empty, and no filter begins so
  have hfree : ∀ l ∈ [([] : List Char)], '\n' ∉ l := by simp
  have hlines := ended_inj hfree (lineFeed_not_mem_blocks h) htext
  have hopening := opens_opening withSearch f
  rw [← (List.cons.inj hlines).1] at hopening
  cases withSearch <;> cases hopening

theorem renderAll_of_alike (h : List.Forall₂ (fun f g => f.ShownAlike g ∧
    (withSearch = true → f.criteria.query = g.criteria.query)) fs gs) :
    renderAll withSearch fs = renderAll withSearch gs := by
  have hmap : (fs.map fun f => if withSearch then f.renderWithSearch else f.render) =
      gs.map fun f => if withSearch then f.renderWithSearch else f.render := by
    induction h with
    | nil => rfl
    | cons hfg _ ih => rw [List.map_cons, List.map_cons, shown_of_alike hfg.1 hfg.2, ih]
  rw [renderAll, renderAll, hmap]

/-- **What a review tells.**  Filters without line feeds are reviewed in the same way exactly if
they are shown alike, one by one, and if their queries are the same where the searches are shown. -/
theorem renderAll_eq_iff (hfs : ∀ f ∈ fs, f.SingleLine) (hgs : ∀ g ∈ gs, g.SingleLine) :
    renderAll withSearch fs = renderAll withSearch gs ↔
      List.Forall₂ (fun f g => f.ShownAlike g ∧
        (withSearch = true → f.criteria.query = g.criteria.query)) fs gs := by
  constructor
  · intro h
    rcases eq_or_ne fs [] with rfl | hf <;> rcases eq_or_ne gs [] with rfl | hg
    · exact .nil
    · exact absurd h.symm (renderAll_ne_empty hgs hg)
    · exact absurd h (renderAll_ne_empty hfs hf)
    have htext := toList_renderAll withSearch hf
    rw [h, toList_renderAll withSearch hg] at htext
    have hlines := ended_inj (lineFeed_not_mem_blocks hgs) (lineFeed_not_mem_blocks hfs) htext
    have hblocks := flatMap_cons_inj
      (fun f hf => ⟨opens_opening withSearch f, opens_closing (hfs f hf)⟩)
      (fun g hg => ⟨opens_opening withSearch g, opens_closing (hgs g hg)⟩) hlines.symm
    refine hblocks.imp fun f g hfg => ⟨shownAlike_of_closing hfg.2, ?_⟩
    rintro rfl
    exact query_eq_of_opening hfg.1 (shownAlike_of_closing hfg.2)
  · exact renderAll_of_alike

end Filter

end

end MailRules
