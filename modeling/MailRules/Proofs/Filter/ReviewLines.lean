import MailRules.Filter.Render
import MailRules.Proofs.Condition.Text
import MailRules.Proofs.Filter.Layout

/-!
# The lines of a filter in a review

A filter is reviewed in lines that begin with tags; a value that is not set has no line.

* `tagged` are the lines of some rows.  Where no tag begins another, and what follows begins with
  none of them, the lines tell the rows (`tagged_append_inj`).
* `Filter.details` are the lines of a filter below the first, and `Filter.toList_renderAll` says
  that a review is made of them.
* `Filter.ShownAlike` is what two filters with the same lines have in common
  (`shownAlike_of_details`).
-/

namespace MailRules

/-! ### Tagged lines -/

/-- Some lines begin with a tag. -/
def Begins (t : String) (ls : List (List Char)) : Prop :=
  ∃ l ∈ ls.head?, t.toList <+: l

/-- Neither of two tags begins the other. -/
def Apart (t u : String) : Prop :=
  ¬t.toList <+: u.toList ∧ ¬u.toList <+: t.toList

instance (t u : String) : Decidable (Apart t u) :=
  inferInstanceAs (Decidable (_ ∧ _))

/-- A line for each value that there is, with its tag before it. -/
def tagged (rows : List (String × Option String)) : List (List Char) :=
  rows.filterMap fun r => r.2.map fun v => r.1.toList ++ v.toList

section

variable {rows rows' : List (String × Option String)} {r r' : List (List Char)} {t : String}

theorem not_begins_tagged (hapart : ∀ u ∈ rows.map Prod.fst, Apart t u) (hr : ¬Begins t r) :
    ¬Begins t (tagged rows ++ r) := by
  induction rows with
  | nil => exact hr
  | cons row rows ih =>
    obtain ⟨⟨htu, hut⟩, hrest⟩ := List.forall_mem_cons.1 hapart
    obtain ⟨u, v⟩ := row
    cases v with
    | none => exact ih hrest
    | some v =>
      rintro ⟨l, hl, hpre⟩
      obtain rfl : u.toList ++ v.toList = l := by simpa [tagged] using hl
      rcases List.prefix_or_prefix_of_prefix hpre (List.prefix_append _ _) with h | h
      · exact htu h
      · exact hut h

/-- **Tagged lines tell the values**, whatever follows that begins with none of the tags. -/
theorem tagged_append_inj (htags : rows.map Prod.fst = rows'.map Prod.fst)
    (hapart : (rows.map Prod.fst).Pairwise Apart) (hr : ∀ t ∈ rows.map Prod.fst, ¬Begins t r)
    (hr' : ∀ t ∈ rows.map Prod.fst, ¬Begins t r') (h : tagged rows ++ r = tagged rows' ++ r') :
    rows = rows' ∧ r = r' := by
  induction rows generalizing rows' with
  | nil =>
    obtain rfl := List.map_eq_nil_iff.1 htags.symm
    exact ⟨rfl, h⟩
  | cons row rows ih =>
    obtain ⟨t, v⟩ := row
    obtain ⟨⟨t', v'⟩, rows', rfl, rfl, hrows⟩ := List.map_eq_cons_iff.1 htags.symm
    obtain ⟨ht, hpair⟩ := List.pairwise_cons.1 hapart
    obtain ⟨hrt, hrs⟩ := List.forall_mem_cons.1 hr
    obtain ⟨hrt', hrs'⟩ := List.forall_mem_cons.1 hr'
    -- a line that is on one side only would be told by its tag
    have hnone : ∀ {q : List (String × Option String)} {s : List (List Char)} {w : String}
        {ls : List (List Char)}, q.map Prod.fst = rows.map Prod.fst → ¬Begins t' s →
        tagged q ++ s ≠ (t'.toList ++ w.toList) :: ls := by
      intro q s w ls hq hs heq
      have hnot := not_begins_tagged (hq ▸ ht) hs
      rw [heq] at hnot
      exact hnot ⟨_, rfl, List.prefix_append _ _⟩
    cases v with
    | none =>
      cases v' with
      | none =>
        obtain ⟨hrows, hrest⟩ := ih hrows.symm hpair hrs hrs' h
        exact ⟨by rw [hrows], hrest⟩
      | some v' => exact absurd h (hnone (q := rows) rfl hrt)
    | some v =>
      cases v' with
      | none => exact absurd h.symm (hnone (q := rows') hrows hrt')
      | some v' =>
        obtain ⟨hline, hrest⟩ := List.cons.inj h
        obtain ⟨hrows, hrest⟩ := ih hrows.symm hpair hrs hrs' hrest
        rw [String.toList_injective (List.append_cancel_left hline), hrows]
        exact ⟨rfl, hrest⟩

end

/-! ### Lines of a review -/

/-- The line for a value. -/
def valueEntry (name value : String) : String × Option String :=
  ("    " ++ name ++ ": ", if value = "" then none else some value)

/-- The line for a flag. -/
def flagEntry (name : String) (value : Bool) : String × Option String :=
  ("    " ++ name, if value then some "" else none)

/-- A row as a text, which is empty if there is no value. -/
def entryText (row : String × Option String) : List Char :=
  ended (tagged [row])

theorem toList_valueLine (name value : String) :
    (valueLine name value).toList = entryText (valueEntry name value) := by
  unfold valueLine valueEntry
  split_ifs <;> simp [entryText, tagged]

theorem toList_flagLine (name : String) (value : Bool) :
    (flagLine name value).toList = entryText (flagEntry name value) := by
  unfold flagLine flagEntry
  split_ifs <;> simp [entryText, tagged]

theorem ended_tagged (rows : List (String × Option String)) :
    ended (tagged rows) = rows.flatMap entryText := by
  induction rows with
  | nil => rfl
  | cons row rows ih =>
    have hcons : tagged (row :: rows) = tagged [row] ++ tagged rows := by
      obtain ⟨t, v⟩ := row
      cases v <;> rfl
    rw [hcons, ended_append, ih, List.flatMap_cons]
    rfl

/-- The lines for the slots that hold no query. -/
def Criteria.rows (k : Criteria) : List (String × Option String) :=
  [valueEntry "from" k.sender, valueEntry "to" k.recipient, valueEntry "subject" k.subject]

/-- The lines for an action. -/
def Action.rows (a : Action) : List (String × Option String) :=
  [flagEntry "archive" a.archive, flagEntry "delete" a.delete,
    flagEntry "mark as important" a.markImportant,
    flagEntry "never mark as important" a.markNotImportant,
    flagEntry "never mark as spam" a.markNotSpam, flagEntry "mark as read" a.markRead,
    flagEntry "star" a.star, valueEntry "categorize as" ((a.category.map Category.name).getD ""),
    valueEntry "apply label" a.addLabel, valueEntry "forward to" a.forward]

/-- The lines for a query, which may be laid out. -/
def queryLines (query : String) : List (List Char) :=
  if indentQuery query 2 = "" then []
  else splitAtChar '\n' ("    query: " ++ indentQuery query 2).toList

theorem entryText_query (query : String) :
    entryText (valueEntry "query" (indentQuery query 2)) = ended (queryLines query) := by
  rw [← toList_valueLine]
  unfold valueLine queryLines
  split_ifs
  · rfl
  · rw [ended_splitAtChar, String.toList_append]
    rfl

namespace Filter

/-- The lines of a filter below the first, as it is reviewed. -/
def details (f : Filter) : List (List Char) :=
  tagged f.criteria.rows ++ queryLines f.criteria.query ++
    "  Actions:".toList :: tagged f.action.rows

theorem toList_render (f : Filter) :
    f.render.toList = ended ("* Criteria:".toList :: f.details) := by
  have hcriteria : "* Criteria:\n".toList = "* Criteria:".toList ++ ['\n'] := rfl
  have hactions : "  Actions:\n".toList = "  Actions:".toList ++ ['\n'] := rfl
  simp only [render, details, Criteria.rows, Action.rows, String.toList_join, List.flatMap_cons,
    List.flatMap_nil, toList_valueLine, toList_flagLine, entryText_query, ended_append, ended_cons,
    ended_tagged, hcriteria, hactions, List.append_assoc, List.append_nil, List.singleton_append]

/-- The first line of a filter in a review, which may begin with the search. -/
def opening (withSearch : Bool) (f : Filter) : List Char :=
  if withSearch then ("# Search: " ++ f.criteria.search).toList else "* Criteria:".toList

/-- The lines of a filter in a review below the first, and the empty line behind them. -/
def closing (withSearch : Bool) (f : Filter) : List (List Char) :=
  (if withSearch then
    [("# URL: " ++ f.criteria.searchAddress).toList, "* Criteria:".toList] else []) ++
    f.details ++ [[]]

theorem toList_renderAll (withSearch : Bool) {fs : List Filter} (h : fs ≠ []) :
    (renderAll withSearch fs).toList ++ ['\n'] =
      ended (fs.flatMap fun f => opening withSearch f :: closing withSearch f) := by
  have hone : ∀ f : Filter, (if withSearch then f.renderWithSearch else f.render).toList ++ ['\n'] =
      ended (opening withSearch f :: closing withSearch f) := by
    intro f
    cases withSearch with
    | false => simp [toList_render, opening, closing]
    | true => simp [renderWithSearch, toList_render, opening, closing]
  unfold renderAll
  rw [String.toList_intercalate, List.map_map]
  induction fs with
  | nil => exact absurd rfl h
  | cons f fs ih =>
    cases fs with
    | nil => simpa [List.intercalate] using hone f
    | cons g gs =>
      have hrest := ih (List.cons_ne_nil g gs)
      rw [List.map_cons, List.map_cons, List.intercalate_cons_cons, List.append_assoc,
        List.append_assoc, ← List.map_cons, hrest, List.flatMap_cons (x := f), ended_append,
        ← hone f]
      simp

end Filter

/-! ### Reading a filter off its lines -/

/-- The tags of the slots that hold no query. -/
def criteriaTags : List String := ["    from: ", "    to: ", "    subject: "]

/-- The tags of an action. -/
def actionTags : List String :=
  ["    archive", "    delete", "    mark as important", "    never mark as important",
    "    never mark as spam", "    mark as read", "    star", "    categorize as: ",
    "    apply label: ", "    forward to: "]

theorem Criteria.tags_rows (k : Criteria) : k.rows.map Prod.fst = criteriaTags := rfl

theorem Action.tags_rows (a : Action) : a.rows.map Prod.fst = actionTags := rfl

theorem valueEntry_inj {name v w : String} (h : valueEntry name v = valueEntry name w) : v = w := by
  have hvalue := (Prod.mk.inj h).2
  split_ifs at hvalue with hv hw <;> simp_all

theorem flagEntry_inj {name : String} {a b : Bool} (h : flagEntry name a = flagEntry name b) :
    a = b := by
  have hvalue := (Prod.mk.inj h).2
  cases a <;> cases b <;> simp_all

theorem Criteria.rows_inj {k k' : Criteria} (h : k.rows = k'.rows) :
    k.sender = k'.sender ∧ k.recipient = k'.recipient ∧ k.subject = k'.subject := by
  simp only [rows, List.cons.injEq, and_true] at h
  exact ⟨valueEntry_inj h.1, valueEntry_inj h.2.1, valueEntry_inj h.2.2⟩

theorem categoryName_inj {a b : Option Category}
    (h : (a.map Category.name).getD "" = (b.map Category.name).getD "") : a = b := by
  rcases a with _ | a <;> rcases b with _ | b
  · rfl
  · cases b <;> exact absurd h (by decide)
  · cases a <;> exact absurd h (by decide)
  · cases a <;> cases b <;> first | rfl | exact absurd h (by decide)

theorem Action.rows_inj {a b : Action} (h : a.rows = b.rows) : a = b := by
  simp only [rows, List.cons.injEq, and_true] at h
  obtain ⟨h1, h2, h3, h4, h5, h6, h7, h8, h9, h10⟩ := h
  obtain ⟨label, category, archive, delete, important, notImportant, read, notSpam, star,
    forward⟩ := a
  obtain ⟨label', category', archive', delete', important', notImportant', read', notSpam', star',
    forward'⟩ := b
  obtain rfl := flagEntry_inj h1
  obtain rfl := flagEntry_inj h2
  obtain rfl := flagEntry_inj h3
  obtain rfl := flagEntry_inj h4
  obtain rfl := flagEntry_inj h5
  obtain rfl := flagEntry_inj h6
  obtain rfl := flagEntry_inj h7
  obtain rfl := categoryName_inj (valueEntry_inj h8)
  obtain rfl := valueEntry_inj h9
  obtain rfl := valueEntry_inj h10
  rfl

/-- A query line begins with its tag. -/
theorem begins_queryLines {t query : String} (h : Begins t (queryLines query)) :
    t.toList <+: "    query: ".toList ∨ "    query: ".toList <+: t.toList := by
  obtain ⟨l, hl, hpre⟩ := h
  unfold queryLines at hl
  split_ifs at hl
  · cases hl
  · have htag : splitAtChar '\n' "    query: ".toList = [] ++ "    query: ".toList :: [] := by
      decide
    obtain ⟨more, below, hlines⟩ := splitAtChar_append htag (indentQuery query 2).toList
    rw [String.toList_append, hlines] at hl
    obtain rfl : "    query: ".toList ++ more = l := by simpa using hl
    exact List.prefix_or_prefix_of_prefix hpre (List.prefix_append _ _)

theorem queryLines_inj {q q' : String} (h : queryLines q = queryLines q') :
    indentQuery q 2 = indentQuery q' 2 := by
  have htext := congrArg ended h
  rw [← entryText_query, ← entryText_query] at htext
  generalize indentQuery q 2 = v at htext ⊢
  generalize indentQuery q' 2 = v' at htext ⊢
  unfold entryText valueEntry at htext
  split_ifs at htext with hv hv' hv'
  · rw [hv, hv']
  · simp [tagged] at htext
  · simp [tagged] at htext
  · exact String.toList_injective (by simpa [tagged] using htext)

/-- Filters that a review shows in the same way: only their queries may differ, as far as the layout
does not show it. -/
structure Filter.ShownAlike (f g : Filter) : Prop where
  action : f.action = g.action
  sender : f.criteria.sender = g.criteria.sender
  recipient : f.criteria.recipient = g.criteria.recipient
  subject : f.criteria.subject = g.criteria.subject
  query : indentQuery f.criteria.query 2 = indentQuery g.criteria.query 2

/-- The last occurrence of a member divides a list. -/
theorem append_cons_inj_of_not_mem {α : Type} [DecidableEq α] {s s' t t' : List α} {x : α}
    (ht : x ∉ t) (ht' : x ∉ t') (h : s ++ x :: t = s' ++ x :: t') : s = s' ∧ t = t' := by
  have hreverse : t.reverse ++ x :: s.reverse = t'.reverse ++ x :: s'.reverse := by
    simpa using congrArg List.reverse h
  have hother : ∀ {u : List α}, x ∉ u → ∀ y ∈ u.reverse, (y != x) = true := fun hu y hy =>
    bne_iff_ne.2 fun heq => hu (heq ▸ List.mem_reverse.1 hy)
  obtain ⟨htt, hss⟩ := append_inj_of_head (hother ht) (hother ht') (by simp) (by simp) hreverse
  exact ⟨List.reverse_injective (List.cons.inj hss).2, List.reverse_injective htt⟩

/-- A tagged line begins with a tag. -/
theorem exists_tag_of_mem_tagged {rows : List (String × Option String)} {l : List Char}
    (h : l ∈ tagged rows) : ∃ row ∈ rows, ∃ v, row.2 = some v ∧ l = row.1.toList ++ v.toList := by
  obtain ⟨row, hrow, hl⟩ := List.mem_filterMap.1 h
  obtain ⟨v, hv, rfl⟩ := Option.map_eq_some_iff.1 hl
  exact ⟨row, hrow, v, hv, rfl⟩

/-- Lines of actions are indented by four spaces. -/
theorem indent_of_mem_actions {a : Action} {l : List Char} (h : l ∈ tagged a.rows) :
    "    ".toList <+: l := by
  obtain ⟨row, hrow, v, -, rfl⟩ := exists_tag_of_mem_tagged h
  have htags : ∀ t ∈ actionTags, "    ".toList <+: t.toList := by decide
  have htag := htags row.1 (a.tags_rows ▸ List.mem_map_of_mem hrow)
  exact htag.trans (List.prefix_append _ _)

/-- **A filter is known from its lines**, but for the layout of its query. -/
theorem shownAlike_of_details {f g : Filter} (h : f.details = g.details) : f.ShownAlike g := by
  have hactions : ∀ a : Action, "  Actions:".toList ∉ tagged a.rows := fun a hmem =>
    absurd (indent_of_mem_actions hmem) (by decide)
  obtain ⟨hcriteria, haction⟩ := append_cons_inj_of_not_mem (hactions _) (hactions _) h
  have hquery : ∀ q : String, ∀ t ∈ criteriaTags, ¬Begins t (queryLines q) := by
    intro q t ht hbegins
    have hapart : ∀ t ∈ criteriaTags, Apart t "    query: " := by decide
    exact (begins_queryLines hbegins).elim (hapart t ht).1 (hapart t ht).2
  have hnone : ∀ t ∈ actionTags, ¬Begins t [] := fun t _ ⟨l, hl, _⟩ => by cases hl
  have hapart : (f.criteria.rows.map Prod.fst).Pairwise Apart := by
    rw [Criteria.tags_rows]
    decide
  have hapart' : (f.action.rows.map Prod.fst).Pairwise Apart := by
    rw [Action.tags_rows]
    decide
  have htags : f.criteria.rows.map Prod.fst = g.criteria.rows.map Prod.fst := rfl
  have htags' : f.action.rows.map Prod.fst = g.action.rows.map Prod.fst := rfl
  obtain ⟨hrows, hlines⟩ := tagged_append_inj htags hapart (hquery _) (hquery _) hcriteria
  obtain ⟨hrows', -⟩ := tagged_append_inj htags' hapart' hnone hnone (congrArg (· ++ []) haction)
  obtain ⟨hsender, hrecipient, hsubject⟩ := Criteria.rows_inj hrows
  exact ⟨Action.rows_inj hrows', hsender, hrecipient, hsubject, queryLines_inj hlines⟩

end MailRules
