import MailRules.Config.Document
import MailRules.Config.Load
import MailRules.Proofs.Config.Checked
import MailRules.Proofs.Condition.OfNode

/-!
# Configs are read back from their documents

The document of a config is read as the same config, whatever the config holds.

* `written` are the members of a record that is written row by row, where a row without a value is
  left out.  `WrittenAs` says that the rows stand under the first accepted names, no name being
  accepted for two rows; then every reading finds its own row, and nothing is left over.
* `ReadsBack` says that a row gives back what it was made from, also when it was left out.
* `readNode_toValue` is a whole expression, by induction; `load_document` is a whole config.
-/

namespace MailRules

variable {α : Type}

/-! ### Records written row by row -/

/-- The members of a record with the given rows. -/
def written (rows : List (String × Option Value)) : Members :=
  (rows.flatMap fun r => memberOf r.1 r.2).map fun m => (.str m.1, m.2)

/-- The rows of a record are written under the first of its accepted names, and no name is accepted
for two rows. -/
structure WrittenAs (names : List (List String)) (rows : List (String × Option Value)) : Prop where
  heads : names.map List.head? = rows.map fun r => some r.1
  distinct : names.flatten.Nodup

section

variable {rows : List (String × Option Value)} {names : List (List String)} {ns : List String}
  {n : String} {r : String × Option Value} {v : Option Value} {i : Nat}

@[simp] theorem written_nil : written [] = [] :=
  rfl

@[simp] theorem written_cons_none : written ((n, none) :: rows) = written rows :=
  rfl

@[simp] theorem written_cons_some {w : Value} :
    written ((n, some w) :: rows) = (.str n, w) :: written rows :=
  rfl

theorem mem_written {m : Scalar × Value} :
    m ∈ written rows ↔ ∃ r ∈ rows, ∃ w, r.2 = some w ∧ m = (.str r.1, w) := by
  induction rows with
  | nil => simp
  | cons r rows ih =>
    rw [List.exists_mem_cons_iff, ← ih]
    obtain ⟨name, _ | w⟩ := r <;> simp

theorem member?_written_cons (h : r.1 ≠ n) :
    Value.member? n (written (r :: rows)) = Value.member? n (written rows) := by
  obtain ⟨name, _ | w⟩ := r
  · rfl
  · rw [written_cons_some, member?_cons_str, if_neg h]

theorem findNamed_written_cons (h : r.1 ∉ ns) :
    findNamed (written (r :: rows)) ns = findNamed (written rows) ns := by
  induction ns with
  | nil => rfl
  | cons n ns ih =>
    have hn : r.1 ≠ n := List.ne_of_not_mem_cons h
    simp only [findNamed, member?_written_cons hn, ih (List.not_mem_of_not_mem_cons h)]

theorem findNamed_written_eq_none (h : ∀ r ∈ rows, r.1 ∉ ns) :
    findNamed (written rows) ns = none := by
  induction rows with
  | nil => exact findNamed_eq_none.2 fun _ _ => rfl
  | cons r rows ih =>
    obtain ⟨hr, hrows⟩ := List.forall_mem_cons.1 h
    rw [findNamed_written_cons hr, ih hrows]

namespace WrittenAs

theorem name_mem (h : WrittenAs names rows) (hr : r ∈ rows) : r.1 ∈ names.flatten := by
  have hmem : some r.1 ∈ names.map List.head? := h.heads ▸ List.mem_map_of_mem hr
  obtain ⟨ns, hns, hhead⟩ := List.mem_map.1 hmem
  exact List.mem_flatten_of_mem hns (List.mem_of_mem_head? hhead)

theorem cons (h : WrittenAs (ns :: names) (r :: rows)) :
    (∃ ms, ns = r.1 :: ms) ∧ WrittenAs names rows ∧ ∀ n ∈ ns, n ∉ names.flatten := by
  obtain ⟨hheads, hdistinct⟩ := h
  obtain ⟨hhead, htail⟩ := List.cons.inj hheads
  obtain ⟨-, hnames, hdisjoint⟩ := List.nodup_append.1 hdistinct
  exact ⟨List.head?_eq_some_iff.1 hhead, ⟨htail, hnames⟩, fun n hn hn' => hdisjoint n hn n hn' rfl⟩

/-- **Every reading finds its own row.** -/
theorem findNamed_eq (h : WrittenAs names rows) (hn : names[i]? = some ns)
    (hr : rows[i]? = some (n, v)) :
    findNamed (written rows) ns = v.map fun w => (n, w) := by
  induction rows generalizing names i with
  | nil => simp at hr
  | cons r rows ih =>
    cases names with
    | nil => simp at hn
    | cons ns₀ names =>
      obtain ⟨⟨ms, rfl⟩, hrows, hother⟩ := h.cons
      cases i with
      | zero =>
        obtain rfl := Option.some.inj hn
        obtain rfl := Option.some.inj hr
        cases v with
        | none =>
          -- no later row has a name that is accepted for this one
          rw [written_cons_none]
          exact findNamed_written_eq_none fun r hmem hn => hother _ hn (hrows.name_mem hmem)
        | some w => simp [findNamed, member?_cons_str]
      | succ i =>
        have hns : ns ∈ names := List.mem_of_getElem? hn
        have hr₀ : r.1 ∉ ns := fun hmem =>
          hother _ List.mem_cons_self (List.mem_flatten_of_mem hns hmem)
        rw [findNamed_written_cons hr₀]
        exact ih hrows hn hr

/-- **No member is left over.** -/
theorem otherMembers_eq_nil (h : WrittenAs names rows) :
    otherMembers names (written rows) = [] := by
  refine otherMembers_eq_nil_iff.2 fun m hm => ?_
  obtain ⟨⟨n, v⟩, hr, w, rfl, rfl⟩ := mem_written.1 hm
  obtain ⟨i, hi⟩ := List.mem_iff_getElem?.1 hr
  have hlength : names.length = rows.length := by
    simpa using congrArg List.length h.heads
  have hlt : i < names.length := hlength ▸ (List.getElem?_eq_some_iff.1 hi).1
  exact ⟨names[i], List.getElem_mem hlt, n, w,
    h.findNamed_eq (List.getElem?_eq_getElem hlt) hi, rfl⟩

theorem readObject_eq {read : Members → Checked α} {a : α} (h : WrittenAs names rows)
    (hread : read (written rows) = .ok a) :
    readObject (fun ms => (read ms).closed names ms) (.map (written rows)) = .ok a :=
  Checked.closed_eq_ok.2 ⟨hread, h.otherMembers_eq_nil⟩

end WrittenAs

end

/-! ### Rows that give back what they were made from -/

/-- A row that is read as the given result, whether it was written or left out. -/
def ReadsBack (absent : α) (read : Value → Checked α) (v : Option Value) (a : α) : Prop :=
  (v.map read).getD (.ok absent) = .ok a

section

variable {rows : List (String × Option Value)} {names : List (List String)} {ns : List String}
  {n : String} {v : Option Value} {w : Value} {read : Value → Checked α} {a absent : α}
  {f : α → Value}

theorem WrittenAs.defaulted_eq (h : WrittenAs names rows) (i : Nat) (hn : names[i]? = some ns)
    (hr : rows[i]? = some (n, v)) (hv : ReadsBack absent read v a) :
    defaulted (written rows) ns absent read = .ok a := by
  unfold defaulted
  rw [h.findNamed_eq hn hr]
  cases v with
  | none => exact hv
  | some w => exact Checked.within_eq_ok.2 hv

theorem WrittenAs.required_eq (h : WrittenAs names rows) (i : Nat) (hn : names[i]? = some ns)
    (hr : rows[i]? = some (n, some w)) (hw : read w = .ok a) :
    required (written rows) ns read = .ok a := by
  unfold required
  rw [h.findNamed_eq hn hr]
  exact Checked.within_eq_ok.2 hw

theorem WrittenAs.optional_eq {o : Option α} (h : WrittenAs names rows) (i : Nat)
    (hn : names[i]? = some ns) (hr : rows[i]? = some (n, o.map f)) (hnull : ∀ a, f a ≠ .null)
    (hread : ∀ a, o = some a → read (f a) = .ok a) :
    optional (written rows) ns read = .ok o := by
  refine h.defaulted_eq i hn hr ?_
  cases o with
  | none => rfl
  | some a => exact (nullable_of_ne (hnull a)).trans (Checked.map_eq_ok.2 ⟨a, hread a rfl, rfl⟩)

theorem readList_map {as : List α} (hread : ∀ a ∈ as, read (f a) = .ok a) :
    readList read (.list (as.map f)) = .ok as :=
  Checked.sequence_eq_ok.2 (by rw [List.map_map]; exact List.map_congr_left hread)

end

/-- The row of a text, which is left out when it is empty. -/
def textRow (s : String) : Option Value :=
  if s = "" then none else some (.str s)

/-- The row of a flag, which is left out when it is not set. -/
def flagRow (b : Bool) : Option Value :=
  if b then some (.bool true) else none

/-- The row of a list, which is left out when it is empty. -/
def listRow (vs : List Value) : Option Value :=
  if vs.isEmpty then none else some (.list vs)

theorem readsBack_textRow (s : String) : ReadsBack "" readText (textRow s) s := by
  unfold ReadsBack textRow
  split_ifs with h
  · rw [h]
    rfl
  · rfl

theorem readsBack_flagRow (b : Bool) : ReadsBack false readFlag (flagRow b) b := by
  cases b <;> rfl

theorem readsBack_listRow {read : Value → Checked α} {f : α → Value} {as : List α}
    (hread : ∀ a ∈ as, read (f a) = .ok a) :
    ReadsBack [] (readList read) (listRow (as.map f)) as := by
  unfold ReadsBack listRow
  split_ifs with h
  · rw [List.isEmpty_iff, List.map_eq_nil_iff] at h
    rw [h]
    rfl
  · exact readList_map hread

theorem readText_str (s : String) : readText (.str s) = .ok s :=
  rfl

theorem readFlag_bool (b : Bool) : readFlag (.bool b) = .ok b :=
  rfl

theorem readChoice_name (c : Category) : readChoice Category.ofName? (.str c.name) = .ok c := by
  cases c <;> rfl

/-! ### Authors and labels -/

/-- The rows of an author. -/
def Author.rows (a : Author) : List (String × Option Value) :=
  [("name", textRow a.name), ("email", textRow a.email)]

theorem Author.toValue_eq (a : Author) : a.toValue = .map (written a.rows) := by
  simp [toValue, rows, written, Value.object, textMember, textRow]

theorem Author.writtenAs (a : Author) : WrittenAs authorNames a.rows :=
  ⟨rfl, by decide⟩

theorem readAuthor_toValue (a : Author) : readAuthor a.toValue = .ok a := by
  rw [a.toValue_eq]
  refine a.writtenAs.readObject_eq ?_
  rw [a.writtenAs.defaulted_eq 0 rfl rfl (readsBack_textRow a.name),
    a.writtenAs.defaulted_eq 1 rfl rfl (readsBack_textRow a.email)]
  rfl

/-- The rows of a label's colors. -/
def LabelColor.rows (c : LabelColor) : List (String × Option Value) :=
  [("background", some (.str c.background)), ("text", some (.str c.text))]

theorem LabelColor.toValue_eq (c : LabelColor) : c.toValue = .map (written c.rows) :=
  rfl

theorem LabelColor.writtenAs (c : LabelColor) : WrittenAs colorNames c.rows :=
  ⟨rfl, by decide⟩

theorem readColor_toValue (c : LabelColor) : readColor c.toValue = .ok c := by
  rw [c.toValue_eq]
  refine c.writtenAs.readObject_eq ?_
  rw [c.writtenAs.required_eq 0 rfl rfl (readText_str c.background),
    c.writtenAs.required_eq 1 rfl rfl (readText_str c.text)]
  rfl

/-- The rows of a label. -/
def LabelDecl.rows (l : LabelDecl) : List (String × Option Value) :=
  [("name", some (.str l.name)), ("color", l.color.map LabelColor.toValue)]

theorem LabelDecl.toValue_eq (l : LabelDecl) : l.toValue = .map (written l.rows) := by
  simp [toValue, rows, written, Value.object, memberOf]

theorem LabelDecl.writtenAs (l : LabelDecl) : WrittenAs labelNames l.rows :=
  ⟨rfl, by decide⟩

theorem readLabel_toValue (l : LabelDecl) : readLabel l.toValue = .ok l := by
  rw [l.toValue_eq]
  refine l.writtenAs.readObject_eq ?_
  rw [l.writtenAs.required_eq 0 rfl rfl (readText_str l.name),
    l.writtenAs.optional_eq 1 rfl rfl (fun _ => Value.noConfusion) fun c _ => readColor_toValue c]
  rfl

/-! ### Expressions -/

namespace FilterNode

theorem toValues_eq_map (ns : List FilterNode) : toValues ns = ns.map toValue := by
  induction ns with
  | nil => rfl
  | cons n ns ih => rw [toValues, ih, List.map_cons]

/-- The rows of a filter node. -/
def rows (n : FilterNode) : List (String × Option Value) :=
  [("and", n.all.map fun ms => .list (ms.map toValue)),
    ("or", n.any.map fun ms => .list (ms.map toValue)), ("not", n.negated.map toValue),
    ("from", n.fields.sender.map Value.str), ("to", n.fields.recipient.map Value.str),
    ("cc", n.fields.cc.map Value.str), ("bcc", n.fields.bcc.map Value.str),
    ("replyto", n.fields.replyTo.map Value.str), ("subject", n.fields.subject.map Value.str),
    ("list", n.fields.list.map Value.str), ("has", n.fields.has.map Value.str),
    ("query", n.fields.query.map Value.str), ("isRaw", flagRow n.raw)]

theorem nodesMember_eq (name : String) (o : Option (List FilterNode)) :
    nodesMember name o = memberOf name (o.map fun ns => .list (ns.map toValue)) := by
  cases o with
  | none => rfl
  | some ns => rw [nodesMember, toValues_eq_map]; rfl

theorem nodeMember_eq (name : String) (o : Option FilterNode) :
    nodeMember name o = memberOf name (o.map toValue) := by
  cases o <;> rfl

theorem toValue_eq (n : FilterNode) : n.toValue = .map (written n.rows) := by
  obtain ⟨all, any, negated, fields, raw⟩ := n
  simp [toValue, rows, written, Value.object, nodesMember_eq, nodeMember_eq, flagMember, flagRow,
    FieldMatches.members]

theorem toValue_ne_null (n : FilterNode) : n.toValue ≠ .null := by
  rw [toValue_eq]
  exact Value.noConfusion

theorem writtenAs (n : FilterNode) : WrittenAs nodeNames n.rows :=
  ⟨rfl, by decide⟩

end FilterNode

theorem readNodes_eq_map (vs : List Value) : readNodes vs = vs.map readNode := by
  induction vs with
  | nil => rw [readNodes, List.map_nil]
  | cons v vs ih => rw [readNodes, ih, List.map_cons]

/-- The reading of a filter node, member by member. -/
theorem readNode_map (ms : Members) :
    readNode (.map ms) =
      ((((((optional ms ["and", "and_"] (readList readNode)).map FilterNode.mk).ap
        (optional ms ["or", "or_"] (readList readNode))).ap
        (optional ms ["not", "not_"] readNode)).ap (readFieldMatches ms)).ap
        (defaulted ms ["isRaw", "is_raw"] false readFlag)).closed nodeNames ms := by
  rw [readNode]
  refine congrArg _ (congrArg₂ _ (congrArg₂ _ (congrArg₂ _ (congrArg₂ _ (congrArg _ ?all) ?any)
    ?negated) rfl) rfl)
  case all | any =>
    dsimp only
    split
    case h_1 h =>
      rw [optional_of_findNamed h, readNodes_eq_map]
      rfl
    case h_2 h =>
      rw [optional_of_findNamed h]
      rfl
    case h_3 hlist hnull h =>
      rw [optional_of_findNamed h, nullable_of_ne hnull, readList_of_ne hlist]
      rfl
    case h_4 h => rw [optional_of_findNamed_eq_none h]
  case negated =>
    split
    case h_1 h =>
      rw [optional_of_findNamed h]
      rfl
    case h_2 hnull h => rw [optional_of_findNamed h, nullable_of_ne hnull]
    case h_3 h => rw [optional_of_findNamed_eq_none h]

theorem readFieldMatches_rows (n : FilterNode) :
    readFieldMatches (written n.rows) = .ok n.fields := by
  have htext (i : Nat) {names : List String} {name : String} {o : Option String}
      (hn : nodeNames[i]? = some names) (hr : n.rows[i]? = some (name, o.map Value.str)) :
      optional (written n.rows) names readText = .ok o :=
    n.writtenAs.optional_eq i hn hr (by simp) fun s _ => readText_str s
  rw [readFieldMatches, htext 3 rfl rfl, htext 4 rfl rfl, htext 5 rfl rfl, htext 6 rfl rfl,
    htext 7 rfl rfl, htext 8 rfl rfl, htext 9 rfl rfl, htext 10 rfl rfl, htext 11 rfl rfl]
  rfl

/-- **An expression is read back** from its document, however deep it is. -/
theorem readNode_toValue (n : FilterNode) : readNode n.toValue = .ok n := by
  induction n using FilterNode.induct with
  | node n hall hany hnegated =>
    have hrows := n.writtenAs
    rw [n.toValue_eq, readNode_map]
    refine Checked.closed_eq_ok.2 ⟨?_, hrows.otherMembers_eq_nil⟩
    rw [hrows.optional_eq 0 rfl rfl (by simp)
        fun ms hms => readList_map fun m hm => hall m (hms ▸ hm),
      hrows.optional_eq 1 rfl rfl (by simp)
        fun ms hms => readList_map fun m hm => hany m (hms ▸ hm),
      hrows.optional_eq 2 rfl rfl FilterNode.toValue_ne_null hnegated,
      readFieldMatches_rows n, hrows.defaulted_eq 12 rfl rfl (readsBack_flagRow n.raw)]
    cases n
    rfl

/-! ### Actions and rules -/

/-- The rows of a rule's actions. -/
def Actions.rows (a : Actions) : List (String × Option Value) :=
  [("archive", flagRow a.archive), ("delete", flagRow a.delete), ("markRead", flagRow a.markRead),
    ("star", flagRow a.star), ("markSpam", a.markSpam.map Value.bool),
    ("markImportant", a.markImportant.map Value.bool),
    ("category", a.category.map fun c => .str c.name),
    ("labels", listRow (a.labels.map Value.str)), ("forward", a.forward.map Value.str)]

theorem Actions.toValue_eq (a : Actions) : a.toValue = .map (written a.rows) := by
  simp [toValue, rows, written, Value.object, flagMember, flagRow, listMember, listRow]

theorem Actions.writtenAs (a : Actions) : WrittenAs actionNames a.rows :=
  ⟨rfl, by decide⟩

theorem readActions_toValue (a : Actions) : readActions a.toValue = .ok a := by
  have hrows := a.writtenAs
  rw [a.toValue_eq]
  refine hrows.readObject_eq ?_
  rw [hrows.defaulted_eq 0 rfl rfl (readsBack_flagRow a.archive),
    hrows.defaulted_eq 1 rfl rfl (readsBack_flagRow a.delete),
    hrows.defaulted_eq 2 rfl rfl (readsBack_flagRow a.markRead),
    hrows.defaulted_eq 3 rfl rfl (readsBack_flagRow a.star),
    hrows.optional_eq 4 rfl rfl (by simp) fun b _ => readFlag_bool b,
    hrows.optional_eq 5 rfl rfl (by simp) fun b _ => readFlag_bool b,
    hrows.optional_eq 6 rfl rfl (by simp) fun c _ => readChoice_name c,
    hrows.defaulted_eq 7 rfl rfl (readsBack_listRow fun s _ => readText_str s),
    hrows.optional_eq 8 rfl rfl (by simp) fun s _ => readText_str s]
  rfl

/-- The rows of a rule. -/
def RuleDecl.rows (r : RuleDecl) : List (String × Option Value) :=
  [("filter", some r.filter.toValue), ("actions", some r.actions.toValue)]

theorem RuleDecl.toValue_eq (r : RuleDecl) : r.toValue = .map (written r.rows) :=
  rfl

theorem RuleDecl.writtenAs (r : RuleDecl) : WrittenAs ruleNames r.rows :=
  ⟨rfl, by decide⟩

theorem readRule_toValue (r : RuleDecl) : readRule r.toValue = .ok r := by
  rw [r.toValue_eq]
  refine r.writtenAs.readObject_eq ?_
  rw [r.writtenAs.required_eq 0 rfl rfl (readNode_toValue r.filter),
    r.writtenAs.required_eq 1 rfl rfl (readActions_toValue r.actions)]
  rfl

/-! ### Configs -/

/-- The rows of a config. -/
def Config.rows (c : Config) : List (String × Option Value) :=
  [("version", some (.str configVersion)), ("author", c.author.map Author.toValue),
    ("labels", listRow (c.labels.map LabelDecl.toValue)),
    ("rules", listRow (c.rules.map RuleDecl.toValue))]

theorem Config.toValue_eq (c : Config) : c.toValue = .map (written c.rows) := by
  simp [toValue, rows, written, Value.object, memberOf, listMember, listRow]

theorem Config.writtenAs (c : Config) : WrittenAs configNames c.rows :=
  ⟨rfl, by decide⟩

theorem readVersion_configVersion : readVersion (.str configVersion) = .ok () :=
  rfl

theorem readConfig_toValue (c : Config) : readConfig c.toValue = .ok c := by
  have hrows := c.writtenAs
  rw [c.toValue_eq]
  refine hrows.readObject_eq ?_
  rw [hrows.required_eq 0 rfl rfl readVersion_configVersion,
    hrows.optional_eq 1 rfl rfl (by simp [Author.toValue_eq]) fun a _ => readAuthor_toValue a,
    hrows.defaulted_eq 2 rfl rfl (readsBack_listRow fun l _ => readLabel_toValue l),
    hrows.defaulted_eq 3 rfl rfl (readsBack_listRow fun r _ => readRule_toValue r)]
  rfl

theorem Config.version_rows (c : Config) :
    Value.member? "version" (written c.rows) = some (.str configVersion) := by
  rw [rows, written_cons_some, member?_cons_str, if_pos rfl]

/-- **Every config is loaded back from its document.**  The document passes the checks, and what is
loaded from it is the config itself: what was at its default comes back although it was left out,
and empty texts, empty lists of nodes, empty nodes and flags that are explicitly off stay what they
are. -/
theorem Config.load_document (c : Config) (source : String) :
    readConfig c.toValue = .ok c ∧ ofDocument source c.toValue = .ok c := by
  have hread := readConfig_toValue c
  refine ⟨hread, ?_⟩
  rw [c.toValue_eq] at hread ⊢
  simp only [ofDocument, c.version_rows, Option.getD_some, hread, if_true]

end MailRules
