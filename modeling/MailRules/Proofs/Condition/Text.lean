import MailRules.Condition.Query
import MailRules.Proofs.Condition.Leaves

/-!
# Reading search notation back

The search expression of a condition tells what the condition is.

* `words`, `Leaf.argChars` and `Condition.text` are search notation as lists of characters, and
  total; `query_eq` says that what is `Spelled` has its text as its search expression.
* A piece of notation ends where it ends, whatever follows: if two texts are the same, and each is a
  piece followed by something that can follow one (`Stops`), then the pieces and what follows are
  the same.  This is `argTerm_inj` for arguments, `words_inj` for several terms, `argChars_inj` for
  the arguments of a leaf and `relaxed_inj` for conditions.
* Notation leaves out how a single argument is grouped, and so does `relaxed`.  Nothing else is lost
  if every leaf names its field (`Transparent`): this is `query_unique`.  Where the grouping follows
  from the operation of the node, as `Legible` says, it is lost at the root only (`text_inj`).
-/

namespace MailRules

/-! ### Texts and what follows them -/

/-- A text of characters of one kind ends where a character of another kind follows. -/
theorem append_inj_of_head {α : Type} {p : α → Bool} {s t r r' : List α} (hs : ∀ x ∈ s, p x = true)
    (ht : ∀ x ∈ t, p x = true) (hr : ∀ x ∈ r.head?, p x = false)
    (hr' : ∀ x ∈ r'.head?, p x = false) (h : s ++ r = t ++ r') : s = t ∧ r = r' := by
  have htake : ∀ {u q : List α}, (∀ x ∈ u, p x = true) → (∀ x ∈ q.head?, p x = false) →
      (u ++ q).takeWhile p = u := by
    intro u q hu hq
    rw [List.takeWhile_append_of_pos hu]
    cases q with
    | nil => simp
    | cons x q => simp [hq x rfl]
  obtain rfl : s = t := by rw [← htake hs hr, h, htake ht hr']
  exact ⟨rfl, List.append_cancel_left h⟩

/-- What can follow a term: nothing, another term, or the end of a group. -/
def Stops (r : List Char) : Prop := ∀ x ∈ r.head?, x = ' ' ∨ x = ')' ∨ x = '\x7d'

/-- What can follow the last of several terms: nothing, or the end of a group. -/
def Ends (r : List Char) : Prop := ∀ x ∈ r.head?, x = ')' ∨ x = '\x7d'

theorem Ends.stops {r : List Char} (h : Ends r) : Stops r := fun x hx => .inr (h x hx)

theorem ends_nil : Ends [] := by simp [Ends]

/-- Terms in a row. -/
def words (ts : List (List Char)) : List Char := [' '].intercalate ts

/-- Terms in a row, with a space before each of them. -/
def spaced (ts : List (List Char)) : List Char := ts.flatMap fun t => ' ' :: t

theorem words_cons (t : List Char) (ts : List (List Char)) : words (t :: ts) = t ++ spaced ts := by
  induction ts generalizing t with
  | nil => simp [words, spaced, List.intercalate]
  | cons u ts ih =>
    have hu := ih u
    simp only [words, List.intercalate] at hu ⊢
    simp [hu, spaced]

theorem spaced_eq {ts : List (List Char)} (h : ts ≠ []) : spaced ts = ' ' :: words ts := by
  obtain ⟨t, ts, rfl⟩ := List.exists_cons_of_ne_nil h
  rw [words_cons]
  rfl

theorem words_append {ts us : List (List Char)} (hts : ts ≠ []) (hus : us ≠ []) :
    words (ts ++ us) = words ts ++ ' ' :: words us := by
  obtain ⟨t, ts, rfl⟩ := List.exists_cons_of_ne_nil hts
  rw [List.cons_append, words_cons, words_cons, ← spaced_eq hus]
  simp [spaced]

theorem words_eq_nil_iff {ts : List (List Char)} (h : ∀ t ∈ ts, t ≠ []) :
    words ts = [] ↔ ts = [] := by
  cases ts with
  | nil => simp [words, List.intercalate]
  | cons t ts => simp [words_cons, h t]

section

variable {α β : Type} {t : α → List Char} {f : α → β}

/-- Terms in a row end where they end if each term does; what is read of a term is `f`. -/
theorem spaced_inj {xs ys : List α} {r r' : List Char}
    (ht : ∀ x ∈ xs, ∀ y ∈ ys, ∀ {q q'}, Stops q → Stops q' → t x ++ q = t y ++ q' →
      f x = f y ∧ q = q')
    (hr : Ends r) (hr' : Ends r') (h : spaced (xs.map t) ++ r = spaced (ys.map t) ++ r') :
    xs.map f = ys.map f ∧ r = r' := by
  have hstops : ∀ {zs : List α} {q : List Char}, Ends q → Stops (spaced (zs.map t) ++ q) := by
    intro zs q hq
    cases zs with
    | nil => exact hq.stops
    | cons z zs => simp [Stops, spaced]
  -- no term begins where the other row has ended
  have hnil : ∀ {z : α} {zs : List α} {q q' : List Char}, Ends q →
      q ≠ spaced ((z :: zs).map t) ++ q' := by
    rintro z zs q q' hq rfl
    have := hq ' ' (by simp [spaced])
    simp at this
  induction xs generalizing ys with
  | nil =>
    cases ys with
    | nil => exact ⟨rfl, h⟩
    | cons y ys => exact absurd h (hnil hr)
  | cons x xs ih =>
    cases ys with
    | nil => exact absurd h.symm (hnil hr')
    | cons y ys =>
      have hcons : t x ++ (spaced (xs.map t) ++ r) = t y ++ (spaced (ys.map t) ++ r') := by
        simpa [spaced] using h
      obtain ⟨hxy, hrest⟩ := ht x List.mem_cons_self y List.mem_cons_self (hstops hr) (hstops hr')
        hcons
      obtain ⟨hmap, rfl⟩ := ih (fun x hx y hy => ht x (List.mem_cons_of_mem _ hx) y
        (List.mem_cons_of_mem _ hy)) hrest
      exact ⟨by rw [List.map_cons, List.map_cons, hxy, hmap], rfl⟩

theorem words_inj {xs ys : List α} {r r' : List Char} (hxs : xs ≠ []) (hys : ys ≠ [])
    (ht : ∀ x ∈ xs, ∀ y ∈ ys, ∀ {q q'}, Stops q → Stops q' → t x ++ q = t y ++ q' →
      f x = f y ∧ q = q')
    (hr : Ends r) (hr' : Ends r') (h : words (xs.map t) ++ r = words (ys.map t) ++ r') :
    xs.map f = ys.map f ∧ r = r' := by
  refine spaced_inj ht hr hr' ?_
  rw [spaced_eq (by simpa using hxs), spaced_eq (by simpa using hys), List.cons_append,
    List.cons_append, h]

/-- What does not begin as the end of a group is no end with anything behind it. -/
theorem not_ends_append {s : List Char} (h : ¬Ends s) (r : List Char) : ¬Ends (s ++ r) := by
  cases s with
  | nil => exact absurd ends_nil h
  | cons x s => simpa [Ends] using h

/-- `words_inj` for rows that may be empty, if no term begins as the end of a group. -/
theorem words_inj_of_begin {xs ys : List α} {r r' : List Char} (hxs : ∀ x ∈ xs, ¬Ends (t x))
    (hys : ∀ y ∈ ys, ¬Ends (t y))
    (ht : ∀ x ∈ xs, ∀ y ∈ ys, ∀ {q q'}, Stops q → Stops q' → t x ++ q = t y ++ q' →
      f x = f y ∧ q = q')
    (hr : Ends r) (hr' : Ends r') (h : words (xs.map t) ++ r = words (ys.map t) ++ r') :
    xs.map f = ys.map f ∧ r = r' := by
  have hnil : ∀ {z : α} {zs : List α} {q q' : List Char}, ¬Ends (t z) → Ends q →
      words [] ++ q ≠ words ((z :: zs).map t) ++ q' := by
    rintro z zs q q' hz hq rfl
    rw [List.map_cons, words_cons, List.append_assoc] at hq
    exact not_ends_append hz _ hq
  rcases xs with _ | ⟨x, xs⟩ <;> rcases ys with _ | ⟨y, ys⟩
  · exact ⟨rfl, h⟩
  · exact absurd h (hnil (hys y List.mem_cons_self) hr)
  · exact absurd h.symm (hnil (hxs x List.mem_cons_self) hr')
  · exact words_inj (List.cons_ne_nil _ _) (List.cons_ne_nil _ _) ht hr hr' h

end

/-! ### Arguments -/

/-- An argument as one search term. -/
def argTerm (s : List Char) : List Char := if needsQuotes s then '"' :: (s ++ ['"']) else s

theorem toList_quoteArg (a : String) : (quoteArg a).toList = argTerm a.toList := by
  unfold quoteArg argTerm
  split_ifs <;> simp

/-- An argument without quotation marks that is not quoted contains no term breaks. -/
theorem not_isTermBreak {s : List Char} (h : needsQuotes s = false) (hs : '"' ∉ s) :
    ∀ x ∈ s, isTermBreak x = false := by
  have hq : isQuoted s = false := by
    unfold isQuoted
    cases s with
    | nil => rfl
    | cons x s =>
      have hx : x ≠ '"' := fun heq => hs (heq ▸ List.mem_cons_self)
      simp [hx]
  simp only [needsQuotes, hq, Bool.not_false, Bool.true_and, Bool.or_eq_false_iff,
    List.any_eq_false] at h
  exact fun x hx => Bool.eq_false_iff.2 (h.1 x hx)

/-- How a term for an argument begins: not as a group does. -/
theorem head?_argTerm {s : List Char} (hne : s ≠ []) (hs : '"' ∉ s) :
    ∃ x ∈ (argTerm s).head?, x ≠ '(' ∧ x ≠ '\x7b' := by
  unfold argTerm
  split_ifs with hq
  · exact ⟨'"', rfl, by decide⟩
  · obtain ⟨x, s, rfl⟩ := List.exists_cons_of_ne_nil hne
    have hx := not_isTermBreak (Bool.eq_false_iff.2 hq) hs x List.mem_cons_self
    refine ⟨x, rfl, ?_, ?_⟩ <;> rintro rfl <;> exact absurd hx (by decide)

theorem argTerm_inj {s t r r' : List Char} (hs : s ≠ [] ∧ '"' ∉ s) (ht : t ≠ [] ∧ '"' ∉ t)
    (hr : Stops r) (hr' : Stops r') (h : argTerm s ++ r = argTerm t ++ r') : s = t ∧ r = r' := by
  -- a term that is not quoted does not begin with a quotation mark
  have hmixed : ∀ {u v q q' : List Char}, u ≠ [] → '"' ∉ u →
      u ++ q ≠ '"' :: (v ++ ['"']) ++ q' := by
    intro u v q q' hne hu heq
    obtain ⟨x, u, rfl⟩ := List.exists_cons_of_ne_nil hne
    exact hu ((List.cons.inj heq).1 ▸ List.mem_cons_self)
  unfold argTerm at h
  split_ifs at h with hqs hqt hqt
  · have hmark : ∀ {u : List Char}, '"' ∉ u → ∀ x ∈ u, (x != '"') = true := fun hu x hx =>
      bne_iff_ne.2 fun heq => hu (heq ▸ hx)
    have hrest : s ++ '"' :: r = t ++ '"' :: r' := by simpa using h
    obtain ⟨hst, hrr⟩ := append_inj_of_head (hmark hs.2) (hmark ht.2) (by simp) (by simp) hrest
    exact ⟨hst, (List.cons.inj hrr).2⟩
  · exact absurd h.symm (hmixed ht.1 ht.2)
  · exact absurd h (hmixed hs.1 hs.2)
  · have hbreak : ∀ {q : List Char}, Stops q → ∀ x ∈ q.head?, (!isTermBreak x) = false := by
      intro q hq x hx
      rcases hq x hx with rfl | rfl | rfl <;> rfl
    have hplain : ∀ {u : List Char}, ¬needsQuotes u = true → '"' ∉ u →
        ∀ x ∈ u, (!isTermBreak x) = true := fun hu hu' x hx => by
      simp [not_isTermBreak (Bool.eq_false_iff.2 hu) hu' x hx]
    exact append_inj_of_head (hplain hqs hs.2) (hplain hqt ht.2) (hbreak hr) (hbreak hr') h

/-! ### Leaves -/

/-- A group of terms, or the negation of one. -/
def Operation.enclose (s : List Char) : Operation → List Char
  | .or => '\x7b' :: (s ++ ['\x7d'])
  | .and => '(' :: (s ++ [')'])
  | .not => '-' :: s
  | .unset => s

/-- An operation has as many children as it takes. -/
theorem Operation.Takes.cases {op : Operation} {n : Nat} (h : op.Takes n) :
    (op = .and ∨ op = .or) ∨ (op = .not ∧ n = 1) := by
  cases op with
  | unset => cases h
  | and => exact .inl (.inl rfl)
  | or => exact .inl (.inr rfl)
  | not => exact .inr ⟨rfl, h⟩

/-- What is enclosed by an operation is what a group of terms is. -/
theorem groupTerms_eq {op : Operation} (h : op ≠ .unset) (q : String) :
    ∃ s, groupTerms q op = .ok s ∧ s.toList = op.enclose q.toList := by
  cases op with
  | unset => exact absurd rfl h
  | _ => exact ⟨_, rfl, by simp [Operation.enclose]⟩

/-- A group tells its operation, and what it encloses ends where the group does. -/
theorem enclose_inj {o o' : Operation} {s s' r r' : List Char} (ho : o = .and ∨ o = .or)
    (ho' : o' = .and ∨ o' = .or) (h : o.enclose s ++ r = o'.enclose s' ++ r') :
    o = o' ∧ ∃ x, (x = ')' ∨ x = '\x7d') ∧ s ++ x :: r = s' ++ x :: r' := by
  rcases ho with rfl | rfl <;> rcases ho' with rfl | rfl <;> simp [Operation.enclose] at h
  · exact ⟨rfl, ')', .inl rfl, h⟩
  · exact ⟨rfl, '\x7d', .inr rfl, h⟩

theorem ends_cons {x : Char} (h : x = ')' ∨ x = '\x7d') (r : List Char) : Ends (x :: r) := by
  simpa [Ends] using h

namespace Leaf

/-- The arguments of a leaf as one term. -/
def argChars (l : Leaf) : List Char :=
  let text := words (l.args.map fun a => argTerm a.toList)
  if 1 < l.args.length then l.grouping.enclose text else text

/-- A leaf that search notation tells the arguments of: they are not empty, free of quotation marks
and not in search notation already. -/
structure Worded (l : Leaf) : Prop where
  /-- The leaf is no query. -/
  field : l.field ≠ .query
  /-- The arguments are not in search notation already. -/
  raw : l.raw = false
  /-- No argument is empty or has a quotation mark. -/
  args : ∀ a ∈ l.args, a ≠ "" ∧ '"' ∉ a.toList

/-- A leaf that search notation tells the field of as well: the arguments come after its name. -/
structure Plain (l : Leaf) : Prop extends Worded l where
  named : l.field.isBare = false

theorem closed_worded : Closed Worded where
  group _ _ h := ⟨h.field, h.raw, h.args⟩
  merge t l hf ht hl := by
    refine ⟨ht.field, by simp [ht.raw, hl.raw], fun a ha => ?_⟩
    rcases List.mem_append.1 ha with ha | ha
    · exact ht.args a ha
    · exact hl.args a ha

theorem closed_plain : Closed Plain where
  group l op h := ⟨closed_worded.group l op h.toWorded, h.named⟩
  merge t l hf ht hl := ⟨closed_worded.merge t l hf ht.toWorded hl.toWorded, ht.named⟩

/-- A leaf without the grouping that a single argument does not need. -/
def ungrouped (l : Leaf) : Leaf :=
  if l.args.length = 1 then { l with grouping := .unset } else l

section

variable {l k : Leaf} {r r' : List Char}

theorem argChars_of_one {a : String} (h : l.args = [a]) : l.argChars = argTerm a.toList := by
  simp [argChars, h, words, List.intercalate]

theorem argChars_of_several (h : 1 < l.args.length) :
    l.argChars = l.grouping.enclose (words (l.args.map fun a => argTerm a.toList)) := by
  simp [argChars, h]

theorem ungrouped_of_one {a : String} (h : l.args = [a]) :
    l.ungrouped = { l with grouping := .unset } := by
  simp [ungrouped, h]

/-- There is one argument, or there are several. -/
theorem args_cases (h : l.Meaningful) : (∃ a, l.args = [a]) ∨ 1 < l.args.length := by
  rcases Nat.lt_or_ge 1 l.args.length with hlen | hlen
  · exact .inr hlen
  · have hpos := List.length_pos_iff.2 h.1
    exact .inl (List.length_eq_one_iff.1 (by omega))

theorem grouping_ne_unset (h : l.Meaningful) (hlen : 1 < l.args.length) : l.grouping ≠ .unset := by
  rcases h.2 hlen with hg | hg <;> simp [hg]

theorem eq_of_ungrouped (h : l.ungrouped = k.ungrouped)
    (hg : l.args.length = 1 → k.args.length = 1 → l.grouping = k.grouping) : l = k := by
  have hargs : ∀ m : Leaf, m.ungrouped.args = m.args := fun m => by
    unfold ungrouped
    split_ifs <;> rfl
  have hlk : l.args = k.args := by rw [← hargs l, h, hargs k]
  unfold ungrouped at h
  rw [hlk] at h hg
  split_ifs at h with hlen
  · obtain ⟨hf, -, -, hraw⟩ := Leaf.mk.inj h
    show (⟨l.field, l.grouping, l.args, l.raw⟩ : Leaf) = ⟨k.field, k.grouping, k.args, k.raw⟩
    rw [hf, hlk, hraw, hg hlen hlen]
  · exact h

namespace Worded

theorem chars (hl : l.Worded) {a : String} (ha : a ∈ l.args) : a.toList ≠ [] ∧ '"' ∉ a.toList :=
  ⟨fun hnil => (hl.args a ha).1 (String.toList_eq_nil_iff.1 hnil), (hl.args a ha).2⟩

/-- Several arguments can be read back from a row of their terms. -/
theorem args_inj (hl : l.Worded) (hk : k.Worded) (hne : l.args ≠ []) (hne' : k.args ≠ [])
    (hr : Ends r) (hr' : Ends r')
    (h : words (l.args.map fun a => argTerm a.toList) ++ r =
      words (k.args.map fun a => argTerm a.toList) ++ r') : l.args = k.args ∧ r = r' := by
  have hword := words_inj (f := id) hne hne' (fun a ha b hb q q' hq hq' hab => by
    obtain ⟨hab, hqq⟩ := argTerm_inj (hl.chars ha) (hk.chars hb) hq hq' hab
    exact ⟨String.toList_injective hab, hqq⟩) hr hr' h
  simpa using hword

/-- A term for one argument is no group. -/
theorem argTerm_ne_enclose (hl : l.Worded) {a : String} (ha : a ∈ l.args) {o : Operation}
    {s : List Char} (ho : o = .and ∨ o = .or) : argTerm a.toList ++ r ≠ o.enclose s ++ r' := by
  obtain ⟨x, hx, hne⟩ := head?_argTerm (hl.chars ha).1 (hl.chars ha).2
  intro h
  have hhead := congrArg List.head? h
  have hnil : argTerm a.toList ≠ [] := fun hnil => by simp [hnil] at hx
  rw [List.head?_append_of_ne_nil _ hnil, Option.mem_def.1 hx] at hhead
  rcases ho with rfl | rfl <;> simp [Operation.enclose] at hhead
  · exact hne.1 hhead
  · exact hne.2 hhead

theorem argChars_ne_nil (hl : l.Worded) (hm : l.Meaningful) : l.argChars ≠ [] := by
  rcases args_cases hm with ⟨a, ha⟩ | hlen
  · have hal : a ∈ l.args := by simp [ha]
    obtain ⟨x, hx, -⟩ := head?_argTerm (hl.chars hal).1 (hl.chars hal).2
    rw [argChars_of_one ha]
    rintro hnil
    simp [hnil] at hx
  · rw [argChars_of_several hlen]
    rcases hm.2 hlen with hg | hg <;> simp [hg, Operation.enclose]

/-- **The arguments of a leaf can be read back**, and how several of them are grouped. -/
theorem argChars_inj (hl : l.Worded) (hk : k.Worded) (hml : l.Meaningful) (hmk : k.Meaningful)
    (hr : Stops r) (hr' : Stops r') (hf : l.field = k.field)
    (h : l.argChars ++ r = k.argChars ++ r') : l.ungrouped = k.ungrouped ∧ r = r' := by
  rcases args_cases hml with ⟨a, ha⟩ | hlen <;> rcases args_cases hmk with ⟨b, hb⟩ | hlen'
  · have hal : a ∈ l.args := by simp [ha]
    have hbk : b ∈ k.args := by simp [hb]
    rw [argChars_of_one ha, argChars_of_one hb] at h
    obtain ⟨hab, rfl⟩ := argTerm_inj (hl.chars hal) (hk.chars hbk) hr hr' h
    rw [ungrouped_of_one ha, ungrouped_of_one hb, hf, ha, hb, String.toList_injective hab, hl.raw,
      hk.raw]
    exact ⟨rfl, rfl⟩
  · rw [argChars_of_one ha, argChars_of_several hlen'] at h
    exact absurd h (hl.argTerm_ne_enclose (by simp [ha]) (hmk.2 hlen'))
  · rw [argChars_of_several hlen, argChars_of_one hb] at h
    exact absurd h.symm (hk.argTerm_ne_enclose (by simp [hb]) (hml.2 hlen))
  · rw [argChars_of_several hlen, argChars_of_several hlen'] at h
    obtain ⟨hg, x, hx, h⟩ := enclose_inj (hml.2 hlen) (hmk.2 hlen') h
    obtain ⟨hargs, hrest⟩ := hl.args_inj hk hml.1 hmk.1 (ends_cons hx r) (ends_cons hx r') h
    have hlk : (⟨l.field, l.grouping, l.args, l.raw⟩ : Leaf) =
        ⟨k.field, k.grouping, k.args, k.raw⟩ := by
      rw [hf, hg, hargs, hl.raw, hk.raw]
    exact ⟨congrArg ungrouped hlk, (List.cons.inj hrest).2⟩

end Worded

end

end Leaf

/-! ### Conditions -/

/-- A leaf as a search expression.  Matches of any kind of term stand without the name of a
field. -/
def Leaf.chars (l : Leaf) : List Char :=
  if l.field.isBare then l.argChars else l.field.name.toList ++ ':' :: l.argChars

theorem Field.name_injective {f g : Field} (h : f.name.toList = g.name.toList) : f = g := by
  cases f <;> cases g <;> first | rfl | exact absurd h (by decide)

/-- Names of fields contain no colon, and do not begin as groups or negations do. -/
theorem Field.name_chars (f : Field) :
    (∀ x ∈ f.name.toList, (x != ':') = true) ∧
      ∃ x ∈ f.name.toList.head?, x ≠ '(' ∧ x ≠ '\x7b' ∧ x ≠ '-' := by
  have hall : f.name.toList.all (· != ':') = true := by cases f <;> rfl
  exact ⟨List.all_eq_true.1 hall, by cases f <;> exact ⟨_, rfl, by decide⟩⟩

theorem Field.not_ends_name (f : Field) : ¬Ends f.name.toList := by
  intro h
  cases f <;> exact absurd (h _ rfl) (by decide)

theorem Leaf.Plain.chars_eq {l : Leaf} (hl : l.Plain) :
    l.chars = l.field.name.toList ++ ':' :: l.argChars := by
  simp [Leaf.chars, hl.named]

/-- **A leaf can be read back** but for the grouping that a single argument does not need. -/
theorem Leaf.Plain.chars_inj {l k : Leaf} {r r' : List Char} (hl : l.Plain) (hk : k.Plain)
    (hml : l.Meaningful) (hmk : k.Meaningful) (hr : Stops r) (hr' : Stops r')
    (h : l.chars ++ r = k.chars ++ r') : l.ungrouped = k.ungrouped ∧ r = r' := by
  have h' : l.field.name.toList ++ ':' :: (l.argChars ++ r) =
      k.field.name.toList ++ ':' :: (k.argChars ++ r') := by
    simpa [hl.chars_eq, hk.chars_eq] using h
  obtain ⟨hname, hrest⟩ := append_inj_of_head l.field.name_chars.1 k.field.name_chars.1
    (by simp) (by simp) h'
  exact hl.argChars_inj hk.toWorded hml hmk hr hr' (Field.name_injective hname)
    (List.cons.inj hrest).2

/-- Terms that are not empty are joined to words. -/
theorem toList_joinTerms {ss : List String} (h : ∀ s ∈ ss, s ≠ "") :
    (joinTerms ss).toList = words (ss.map String.toList) := by
  have hfilter : ss.filter (· ≠ "") = ss := List.filter_eq_self.2 fun s hs => by simp [h s hs]
  rw [joinTerms, hfilter, String.toList_intercalate]
  rfl

namespace Leaf.Worded

variable {l : Leaf}

theorem argText_eq (hl : l.Worded) (hm : l.Meaningful) :
    ∃ s, l.argText = .ok s ∧ s.toList = l.argChars := by
  have hterms : (" ".intercalate l.terms).toList =
      words (l.args.map fun a => argTerm a.toList) := by
    have hmap : l.terms = l.args.map quoteArg := by simp [terms, hl.field, hl.raw]
    rw [String.toList_intercalate, hmap, List.map_map]
    exact congrArg _ (List.map_congr_left fun a _ => toList_quoteArg a)
  by_cases hlen : 1 < l.args.length
  · obtain ⟨s, hs, hst⟩ := groupTerms_eq (grouping_ne_unset hm hlen) (" ".intercalate l.terms)
    exact ⟨s, by simp [argText, hlen, hs], by rw [hst, hterms, argChars_of_several hlen]⟩
  · exact ⟨" ".intercalate l.terms, by simp [argText, hlen], by rw [hterms]; simp [argChars, hlen]⟩

theorem query_eq (hl : l.Worded) (hm : l.Meaningful) :
    ∃ s, l.query = .ok s ∧ s.toList = l.chars := by
  obtain ⟨s, hs, hst⟩ := hl.argText_eq hm
  refine ⟨_, bind_eq_ok_iff.2 ⟨s, hs, rfl⟩, ?_⟩
  unfold Leaf.chars
  split_ifs
  · exact hst
  · simp [hst]

end Leaf.Worded

namespace Condition

mutual

/-- The search expression of a condition. -/
def text : Condition → List Char
  | .leaf l => l.chars
  | .node op cs => op.enclose (words (texts cs))

/-- The search expressions of a list of conditions. -/
def texts : List Condition → List (List Char)
  | [] => []
  | c :: cs => c.text :: texts cs

end

theorem texts_eq_map (cs : List Condition) : texts cs = cs.map text := by
  induction cs with
  | nil => rfl
  | cons c cs ih => rw [texts, ih, List.map_cons]

@[simp] theorem text_leaf (l : Leaf) : (leaf l).text = l.chars := by
  rw [text]

@[simp] theorem text_node (op : Operation) (cs : List Condition) :
    (node op cs).text = op.enclose (words (cs.map text)) := by
  rw [text, texts_eq_map]

/-! ### Texts are search expressions -/

/-- What can be put into words: the leaves are, and operations have as many children as they
take. -/
def Spelled : Condition → Prop
  | .leaf l => l.Worded ∧ l.Meaningful
  | .node op cs => op.Takes cs.length

section

variable {c : Condition}

theorem text_ne_nil (h : Spelled c) : c.text ≠ [] := by
  cases c with
  | leaf l =>
    rw [text_leaf, Leaf.chars]
    split_ifs
    · exact h.1.argChars_ne_nil h.2
    · simp
  | node op cs =>
    rw [text_node]
    rcases Operation.Takes.cases h with (rfl | rfl) | ⟨rfl, -⟩ <;> simp [Operation.enclose]

/-- The search expressions of some conditions are their texts if that of each is. -/
theorem queryAll_eq {cs : List Condition}
    (h : ∀ c ∈ cs, ∃ s, c.query = .ok s ∧ s.toList = c.text) :
    ∃ ss, queryAll cs = .ok ss ∧ ss.map String.toList = cs.map text := by
  induction cs with
  | nil => exact ⟨[], by rw [queryAll], rfl⟩
  | cons c cs ih =>
    obtain ⟨s, hs, hst⟩ := h c List.mem_cons_self
    obtain ⟨ss, hss, hsst⟩ := ih fun c hc => h c (List.mem_cons_of_mem _ hc)
    exact ⟨s :: ss, by rw [queryAll, hs, hss]; rfl, by simp [hst, hsst]⟩

/-- **What can be put into words has a search expression, which is its text.** -/
theorem query_eq (h : Everywhere Spelled c) : ∃ s, c.query = .ok s ∧ s.toList = c.text := by
  induction h with
  | leaf h =>
    rw [query, text_leaf]
    exact h.1.query_eq h.2
  | @node op cs h hcs ih =>
    obtain ⟨ss, hss, hmap⟩ := queryAll_eq ih
    have hne : ∀ s ∈ ss, s ≠ "" := by
      rintro s hs rfl
      obtain ⟨c, hc, htext⟩ := List.mem_map.1 (hmap ▸ List.mem_map_of_mem (f := String.toList) hs)
      exact text_ne_nil (hcs c hc).root htext
    have hop : op ≠ .unset := by
      rintro rfl
      exact h
    obtain ⟨s, hs, hst⟩ := groupTerms_eq hop (joinTerms ss)
    refine ⟨s, by rw [query, hss]; exact hs, ?_⟩
    rw [hst, toList_joinTerms hne, hmap, text_node]

end

/-! ### Reading texts back -/

/-- What search notation shows but for the grouping of single arguments: the leaves are plain, and
operations have as many children as they take. -/
def Transparent : Condition → Prop
  | .leaf l => l.Plain ∧ l.Meaningful
  | .node op cs => op.Takes cs.length

/-- What search notation can be read back to: the leaves are plain, operations have children, and
leaves with a single argument have the grouping that their node gives them. -/
def Legible : Condition → Prop
  | .leaf l => l.Plain ∧ l.Meaningful
  | .node op cs => op.Takes cs.length ∧ cs ≠ [] ∧
      ∀ c ∈ cs, c.Grouped (if op = .not then .unset else op)

mutual

/-- A condition without the groupings that leaves with a single argument do not need. -/
def relaxed : Condition → Condition
  | .leaf l => .leaf l.ungrouped
  | .node op cs => .node op (relaxedAll cs)

/-- `relaxed` on every member of a list. -/
def relaxedAll : List Condition → List Condition
  | [] => []
  | c :: cs => c.relaxed :: relaxedAll cs

end

theorem relaxedAll_eq_map (cs : List Condition) : relaxedAll cs = cs.map relaxed := by
  induction cs with
  | nil => rfl
  | cons c cs ih => rw [relaxedAll, ih, List.map_cons]

@[simp] theorem relaxed_leaf (l : Leaf) : (leaf l).relaxed = leaf l.ungrouped := by
  rw [relaxed]

@[simp] theorem relaxed_node (op : Operation) (cs : List Condition) :
    (node op cs).relaxed = node op (cs.map relaxed) := by
  rw [relaxed, relaxedAll_eq_map]

/-- A condition without the grouping that it does not need as a leaf with a single argument. -/
def ungrouped : Condition → Condition
  | .leaf l => .leaf l.ungrouped
  | .node op cs => .node op cs

section

variable {c d : Condition} {cs ds : List Condition} {o : Operation} {r r' : List Char}

theorem Transparent.spelled (h : Transparent c) : Spelled c := by
  cases c with
  | leaf l => exact ⟨h.1.toWorded, h.2⟩
  | node op cs => exact h

theorem Legible.transparent (h : Legible c) : Transparent c := by
  cases c with
  | leaf l => exact h
  | node op cs => exact h.1

theorem Legible.spelled (h : Legible c) : Spelled c := h.transparent.spelled

/-- Nothing begins as the end of a group. -/
theorem not_ends_text (h : Transparent c) : ¬Ends c.text := by
  cases c with
  | leaf l =>
    rw [text_leaf, h.1.chars_eq]
    exact not_ends_append l.field.not_ends_name _
  | node op cs =>
    rw [text_node]
    rcases Operation.Takes.cases h with (rfl | rfl) | ⟨rfl, -⟩ <;> simp [Operation.enclose, Ends]

/-- A leaf does not begin as a node does. -/
theorem chars_ne_text_node {l : Leaf} {op : Operation} (hl : l.Plain) (h : op.Takes cs.length) :
    l.chars ++ r ≠ (node op cs).text ++ r' := by
  obtain ⟨x, hx, hne⟩ := l.field.name_chars.2
  intro heq
  have hhead := congrArg List.head? heq
  have hleaf : (l.chars ++ r).head? = some x := by
    have hnil : l.field.name.toList ≠ [] := fun hnil => by simp [hnil] at hx
    simp [hl.chars_eq, List.head?_append_of_ne_nil _ hnil, Option.mem_def.1 hx]
  rw [hleaf, text_node] at hhead
  cases op with
  | unset => cases h
  | and => simp [Operation.enclose] at hhead; exact hne.1 hhead
  | or => simp [Operation.enclose] at hhead; exact hne.2.1 hhead
  | not => simp [Operation.enclose] at hhead; exact hne.2.2 hhead

/-- **A condition can be read back from its search expression**, whatever follows, but for the
grouping of leaves with a single argument. -/
theorem relaxed_inj (hc : Everywhere Transparent c) (hd : Everywhere Transparent d) (hr : Stops r)
    (hr' : Stops r') (h : c.text ++ r = d.text ++ r') : c.relaxed = d.relaxed ∧ r = r' := by
  induction c generalizing d r r' with
  | leaf l =>
    have hl := everywhere_leaf.1 hc
    cases d with
    | leaf k =>
      have hk := everywhere_leaf.1 hd
      rw [text_leaf, text_leaf] at h
      obtain ⟨hlk, hrest⟩ := hl.1.chars_inj hk.1 hl.2 hk.2 hr hr' h
      rw [relaxed_leaf, relaxed_leaf, hlk]
      exact ⟨rfl, hrest⟩
    | node op ds =>
      rw [text_leaf] at h
      exact absurd h (chars_ne_text_node hl.1 hd.root)
  | node op cs ih =>
    obtain ⟨htakes, hcs⟩ := everywhere_node.1 hc
    cases d with
    | leaf k =>
      rw [text_leaf] at h
      exact absurd h.symm (chars_ne_text_node (everywhere_leaf.1 hd).1 htakes)
    | node op' ds =>
      obtain ⟨htakes', hds⟩ := everywhere_node.1 hd
      have hchild : ∀ c ∈ cs, ∀ d ∈ ds, ∀ {q q'}, Stops q → Stops q' →
          c.text ++ q = d.text ++ q' → c.relaxed = d.relaxed ∧ q = q' :=
        fun c hc d hd _ _ hq hq' => ih c hc (hcs c hc) (hds d hd) hq hq'
      suffices hsame : op = op' ∧ cs.map relaxed = ds.map relaxed ∧ r = r' by
        obtain ⟨rfl, hmap, rfl⟩ := hsame
        rw [relaxed_node, relaxed_node, hmap]
        exact ⟨rfl, rfl⟩
      rw [text_node, text_node] at h
      rcases Operation.Takes.cases htakes with hop | ⟨rfl, hlen⟩ <;>
        rcases Operation.Takes.cases htakes' with hop' | ⟨rfl, hlen'⟩
      · obtain ⟨rfl, x, hx, h⟩ := enclose_inj hop hop' h
        obtain ⟨hmap, hrest⟩ := words_inj_of_begin (fun c hc => not_ends_text (hcs c hc).root)
          (fun d hd => not_ends_text (hds d hd).root) hchild (ends_cons hx r) (ends_cons hx r') h
        exact ⟨rfl, hmap, (List.cons.inj hrest).2⟩
      · rcases hop with rfl | rfl <;> simp [Operation.enclose] at h
      · rcases hop' with rfl | rfl <;> simp [Operation.enclose] at h
      · obtain ⟨c, rfl⟩ := List.length_eq_one_iff.1 hlen
        obtain ⟨d, rfl⟩ := List.length_eq_one_iff.1 hlen'
        have htext : c.text ++ r = d.text ++ r' := by
          simpa [Operation.enclose, words, List.intercalate] using h
        obtain ⟨hcd, hrest⟩ := hchild c List.mem_cons_self d List.mem_cons_self hr hr' htext
        exact ⟨rfl, by simp [hcd], hrest⟩

/-! ### Groupings that are known -/

/-- What is left out by `ungrouped` is known where the grouping is. -/
theorem eq_of_ungrouped (hc : c.Grouped o) (hd : d.Grouped o) (h : c.ungrouped = d.ungrouped) :
    c = d := by
  cases c with
  | node op cs =>
    cases d with
    | node op' ds => exact h
    | leaf k => cases h
  | leaf l =>
    cases d with
    | node op ds => cases h
    | leaf k =>
      rw [Leaf.eq_of_ungrouped (Condition.leaf.inj h) fun hl hk => (hc hl).trans (hd hk).symm]

theorem eq_of_map_ungrouped (hc : ∀ c ∈ cs, c.Grouped o) (hd : ∀ d ∈ ds, d.Grouped o)
    (h : cs.map ungrouped = ds.map ungrouped) : cs = ds := by
  induction cs generalizing ds with
  | nil => simpa [eq_comm] using h
  | cons c cs ih =>
    cases ds with
    | nil => cases h
    | cons d ds =>
      obtain ⟨hcd, hrest⟩ := List.cons.inj h
      rw [eq_of_ungrouped (hc c List.mem_cons_self) (hd d List.mem_cons_self) hcd,
        ih (fun c h => hc c (List.mem_cons_of_mem _ h)) (fun d h => hd d (List.mem_cons_of_mem _ h))
          hrest]

/-- Inside of a legible condition all groupings are known. -/
theorem ungrouped_of_relaxed (hc : Everywhere Legible c) (hd : Everywhere Legible d)
    (h : c.relaxed = d.relaxed) : c.ungrouped = d.ungrouped := by
  induction c generalizing d with
  | leaf l =>
    cases d with
    | leaf k => rwa [relaxed_leaf, relaxed_leaf] at h
    | node op ds => simp at h
  | node op cs ih =>
    cases d with
    | leaf k => simp at h
    | node op' ds =>
      obtain ⟨⟨-, -, hgroup⟩, hcs⟩ := everywhere_node.1 hc
      obtain ⟨⟨-, -, hgroup'⟩, hds⟩ := everywhere_node.1 hd
      rw [relaxed_node, relaxed_node] at h
      obtain ⟨rfl, hmap⟩ := Condition.node.inj h
      refine congrArg (node op) (eq_of_map_ungrouped hgroup hgroup' ?_)
      -- of the children, the groupings at their roots are left
      refine List.ext_getElem (by simpa using congrArg List.length hmap) fun i hi hi' => ?_
      rw [List.getElem_map, List.getElem_map]
      refine ih _ (List.getElem_mem _) (hcs _ (List.getElem_mem _)) (hds _ (List.getElem_mem _)) ?_
      have hread := List.getElem_of_eq hmap (by simpa using hi)
      rwa [List.getElem_map, List.getElem_map] at hread

/-- A legible condition can be read back but for the grouping at its root. -/
theorem text_inj (hc : Everywhere Legible c) (hd : Everywhere Legible d) (hr : Stops r)
    (hr' : Stops r') (h : c.text ++ r = d.text ++ r') : c.ungrouped = d.ungrouped ∧ r = r' := by
  obtain ⟨hcd, hrest⟩ := relaxed_inj (hc.imp fun _ => Legible.transparent)
    (hd.imp fun _ => Legible.transparent) hr hr' h
  exact ⟨ungrouped_of_relaxed hc hd hcd, hrest⟩

/-! ### Uniqueness -/

/-- Groupings of single arguments do not show. -/
theorem text_relaxed (c : Condition) : c.relaxed.text = c.text := by
  have hleaf : ∀ l : Leaf, l.ungrouped.chars = l.chars := by
    intro l
    unfold Leaf.ungrouped
    split_ifs with hlen
    · simp [Leaf.chars, Leaf.argChars, hlen]
    · rfl
  induction c with
  | leaf l => rw [relaxed_leaf, text_leaf, text_leaf, hleaf]
  | node op cs ih =>
    have hmap : (cs.map relaxed).map text = cs.map text := by
      rw [List.map_map]
      exact List.map_congr_left ih
    rw [relaxed_node, text_node, text_node, hmap]

/-- **Search expressions are uniquely readable.**  Conditions that search notation shows have search
expressions, and these are the same exactly if the conditions are, but for the grouping of leaves
with a single argument. -/
theorem query_unique (hc : Everywhere Transparent c) (hd : Everywhere Transparent d) :
    ∃ s t, c.query = .ok s ∧ d.query = .ok t ∧ (s = t ↔ c.relaxed = d.relaxed) := by
  obtain ⟨s, hs, hst⟩ := query_eq (hc.imp fun _ => Transparent.spelled)
  obtain ⟨t, ht, htt⟩ := query_eq (hd.imp fun _ => Transparent.spelled)
  refine ⟨s, t, hs, ht, fun h => ?_, fun h => ?_⟩
  · refine (relaxed_inj hc hd ends_nil.stops ends_nil.stops ?_).1
    rw [← hst, ← htt, h]
  · refine String.toList_injective ?_
    rw [hst, htt, ← text_relaxed c, h, text_relaxed d]

end

/-- A condition with a quoted argument, groups of both kinds and a group of nothing. -/
def nestedGroups (g : Operation) : Condition :=
  .node .and [.leaf { field := .sender, grouping := g, args := ["a b"] },
    .node .not [.node .or [.leaf { field := .subject, grouping := .or, args := ["c", "d"] },
      .node .and []]]]

theorem transparent_nestedGroups (g : Operation) : Everywhere Transparent (nestedGroups g) := by
  have hsender : Transparent (.leaf { field := .sender, grouping := g, args := ["a b"] }) :=
    ⟨⟨⟨by simp, rfl, by simp⟩, rfl⟩, by simp [Leaf.Meaningful]⟩
  have hsubject : Transparent (.leaf { field := .subject, grouping := .or, args := ["c", "d"] }) :=
    ⟨⟨⟨by simp, rfl, by simp⟩, rfl⟩, by simp [Leaf.Meaningful]⟩
  have hor : Everywhere Transparent (.node .or
      [.leaf { field := .subject, grouping := .or, args := ["c", "d"] }, .node .and []]) :=
    .node trivial (by simpa using ⟨hsubject, .node trivial (by simp)⟩)
  exact .node trivial (by simpa using ⟨hsender, .node rfl (by simpa using hor)⟩)

/-- The grouping of the quoted argument does not show. -/
theorem query_unique_nestedGroups :
    (∀ g, Everywhere Transparent (nestedGroups g)) ∧
      ∃ s t, (nestedGroups .and).query = .ok s ∧ (nestedGroups .or).query = .ok t ∧
        (s = t ↔ (nestedGroups .and).relaxed = (nestedGroups .or).relaxed) :=
  ⟨transparent_nestedGroups,
    query_unique (transparent_nestedGroups .and) (transparent_nestedGroups .or)⟩

end Condition

end MailRules
