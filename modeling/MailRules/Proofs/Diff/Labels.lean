import MailRules.Diff.Labels
import MailRules.Proofs.Diff.Ascending
import MailRules.Proofs.Sorting
import Mathlib.Data.List.Nodup
import Mathlib.Tactic.SplitIfs

/-!
# The difference of labels by name

* `mergeLabels_eq` says what a merge of lists in order of names is, and `diffLabels_eq` what the
  difference is where no side has a name twice.
* `LabelDiff.Exact` is what a difference has to say, apart from how it is found.  There is only one
  (`LabelDiff.Exact.unique`), and `diffLabels_exact` says that merging gives it.
* `removedInUse?_eq_none` says what is safe to remove.
-/

namespace MailRules

variable {us ls : List Label}

/-- The declaration that a label of an account does not satisfy, with the label. -/
def unsatisfied? (ls : List Label) (u : Label) : Option LabelChange :=
  (ls.find? fun l => l.name = u.name && !u.satisfies l).map (LabelChange.mk u)

theorem unsatisfied?_cons_of_ne {l u : Label} (h : l.name ≠ u.name) :
    unsatisfied? (l :: ls) u = unsatisfied? ls u := by
  simp [unsatisfied?, h]

theorem unsatisfied?_eq_none {u : Label} (h : ∀ l ∈ ls, l.name ≠ u.name) :
    unsatisfied? ls u = none := by
  simp only [unsatisfied?, Option.map_eq_none_iff, List.find?_eq_none]
  intro l hl
  simp [h l hl]

/-- **A merge of labels in order of their names** finds the names that only one of them has, and
the labels that have to change. -/
theorem mergeLabels_eq (hu : Ascending Label.name us) (hl : Ascending Label.name ls) :
    mergeLabels us ls =
      { added := without Label.name ls us
        removed := without Label.name us ls
        modified := us.filterMap (unsatisfied? ls) } := by
  fun_induction mergeLabels us ls with
  | case1 ls => simp [without]
  | case2 us =>
    have hnone : us.filterMap (unsatisfied? []) = [] :=
      List.filterMap_eq_nil_iff.2 fun u _ => rfl
    rw [hnone]
    simp [without]
  -- the first label comes before all declarations, and so is not among them
  | case3 u us l ls hlt d ih =>
    have hls : ∀ k ∈ l :: ls, u.name < k.name := hl.lt_of_mem hlt
    have hnone : unsatisfied? (l :: ls) u = none :=
      unsatisfied?_eq_none fun k hk => (hls k hk).ne'
    simp only [d, ih hu.tail hl, without_cons_of_lt hlt hl, without_cons_right hls,
      List.filterMap_cons, hnone]
  -- the first declaration comes before all labels
  | case4 u us l ls _ hlt d ih =>
    have hus : ∀ k ∈ u :: us, l.name < k.name := hu.lt_of_mem hlt
    have hmod : (u :: us).filterMap (unsatisfied? (l :: ls)) =
        (u :: us).filterMap (unsatisfied? ls) :=
      List.filterMap_congr fun k hk => unsatisfied?_cons_of_ne (hus k hk).ne
    simp only [d, ih hu hl.tail, without_cons_of_lt hlt hu, without_cons_right hus, hmod]
  -- both have the same name, which no other has, and the label is as it is declared
  | case5 u us l ls hul hlu d hs ih =>
    have heq : u.name = l.name := le_antisymm (not_lt.1 hlu) (not_lt.1 hul)
    have hmod : us.filterMap (unsatisfied? (l :: ls)) = us.filterMap (unsatisfied? ls) :=
      List.filterMap_congr fun k hk =>
        unsatisfied?_cons_of_ne (heq ▸ (List.pairwise_cons.1 hu).1 k hk).ne
    have hnone : unsatisfied? ls u = none :=
      unsatisfied?_eq_none fun k hk => (heq ▸ (List.pairwise_cons.1 hl).1 k hk).ne'
    have hu' : unsatisfied? (l :: ls) u = none := by
      rw [← hnone]
      simp [unsatisfied?, hs]
    simp only [d, ih hu.tail hl.tail, without_cons_cons heq hu, without_cons_cons heq.symm hl,
      List.filterMap_cons, hu', hmod]
  -- the same, but the label has to change
  | case6 u us l ls hul hlu d hs ih =>
    have heq : u.name = l.name := le_antisymm (not_lt.1 hlu) (not_lt.1 hul)
    have hmod : us.filterMap (unsatisfied? (l :: ls)) = us.filterMap (unsatisfied? ls) :=
      List.filterMap_congr fun k hk =>
        unsatisfied?_cons_of_ne (heq ▸ (List.pairwise_cons.1 hu).1 k hk).ne
    have hu' : unsatisfied? (l :: ls) u = some ⟨u, l⟩ := by
      simp [unsatisfied?, hs, heq]
    simp only [d, ih hu.tail hl.tail, without_cons_cons heq hu, without_cons_cons heq.symm hl,
      List.filterMap_cons, hu', hmod]

/-! ### Names that occur once -/

theorem mem_byName {l : Label} : l ∈ byName ls ↔ l ∈ ls := List.mem_mergeSort

theorem byName_ascending (h : (ls.map Label.name).Nodup) : Ascending Label.name (byName ls) := by
  have hperm : (byName ls).Perm ls := List.mergeSort_perm _ _
  have hne : (byName ls).Pairwise fun l m => l.name ≠ m.name :=
    List.pairwise_map.1 ((hperm.map Label.name).nodup_iff.2 h)
  exact (pairwise_mergeSort_key Label.name ls).imp₂ (fun _ _ => lt_of_le_of_ne) hne

/-- **The difference where no name occurs twice.** -/
theorem diffLabels_eq (hu : (us.map Label.name).Nodup) (hl : (ls.map Label.name).Nodup) :
    diffLabels us ls =
      { added := without Label.name (byName ls) (byName us)
        removed := without Label.name (byName us) (byName ls)
        modified := (byName us).filterMap (unsatisfied? (byName ls)) } :=
  mergeLabels_eq (byName_ascending hu) (byName_ascending hl)

/-- Which labels change. -/
theorem mem_unsatisfied {c : LabelChange} (hl : (ls.map Label.name).Nodup) :
    c ∈ (byName us).filterMap (unsatisfied? (byName ls)) ↔
      c.old ∈ us ∧ c.new ∈ ls ∧ c.new.name = c.old.name ∧ c.old.satisfies c.new = false := by
  rw [List.mem_filterMap]
  constructor
  · rintro ⟨u, hu, hc⟩
    obtain ⟨l, hf, rfl⟩ := Option.map_eq_some_iff.1 hc
    have hp := List.find?_some hf
    simp only [Bool.and_eq_true, decide_eq_true_eq, Bool.not_eq_true'] at hp
    exact ⟨mem_byName.1 hu, mem_byName.1 (List.mem_of_find?_eq_some hf), hp⟩
  · obtain ⟨u, l⟩ := c
    rintro ⟨hu, hm, hn, hs⟩
    refine ⟨u, mem_byName.2 hu, Option.map_eq_some_iff.2 ⟨l, ?_, rfl⟩⟩
    have hex : ((byName ls).find? fun k => k.name = u.name && !u.satisfies k).isSome := by
      rw [List.find?_isSome]
      exact ⟨l, mem_byName.2 hm, by simpa using ⟨hn, hs⟩⟩
    obtain ⟨k, hk⟩ := Option.isSome_iff_exists.1 hex
    have hp := List.find?_some hk
    simp only [Bool.and_eq_true, decide_eq_true_eq] at hp
    -- the label that is found has the name, and so is the one
    rw [hk, List.inj_on_of_nodup_map hl (mem_byName.1 (List.mem_of_find?_eq_some hk)) hm
      (hp.1.trans hn.symm)]

/-- A label of the same name needs a change if it lacks the color it is declared with. -/
theorem Label.satisfies_eq_false_iff {u l : Label} (h : u.name = l.name) :
    u.satisfies l = false ↔ l.color ≠ none ∧ u.color ≠ l.color := by
  cases hl : l.color <;> simp [Label.satisfies, h, hl]

/-! ### Exactness -/

/-- What a difference of the labels of an account and the declared ones has to say: which names only
one side has, and which labels lack the color that they are declared with.  Each is said once, in
order of the names. -/
structure LabelDiff.Exact (us ls : List Label) (d : LabelDiff) : Prop where
  /-- What is declared under a name that the account has not. -/
  mem_added : ∀ l, l ∈ d.added ↔ l ∈ ls ∧ ∀ u ∈ us, u.name ≠ l.name
  /-- What the account has under a name that is not declared. -/
  mem_removed : ∀ u, u ∈ d.removed ↔ u ∈ us ∧ ∀ l ∈ ls, l.name ≠ u.name
  /-- What both have, but with a color that is declared and another. -/
  mem_modified : ∀ c, c ∈ d.modified ↔ c.old ∈ us ∧ c.new ∈ ls ∧ c.old.name = c.new.name ∧
    c.new.color ≠ none ∧ c.old.color ≠ c.new.color
  /-- Labels to be added are in order of their names. -/
  added_ascending : Ascending Label.name d.added
  /-- Labels to be removed are, too. -/
  removed_ascending : Ascending Label.name d.removed
  /-- Changes are, too. -/
  modified_ascending : Ascending (fun c => c.old.name) d.modified

/-- The names that a difference is about. -/
def LabelDiff.names (d : LabelDiff) : List String :=
  d.added.map Label.name ++ (d.removed.map Label.name ++ d.modified.map fun c => c.old.name)

namespace LabelDiff.Exact

variable {us' ls' : List Label} {d d' : LabelDiff}

/-- The three lists have no name in common. -/
theorem names_nodup (h : d.Exact us ls) : d.names.Nodup := by
  refine List.nodup_append'.2 ⟨h.added_ascending.nodup, List.nodup_append'.2
    ⟨h.removed_ascending.nodup, h.modified_ascending.nodup, ?_⟩, ?_⟩
  · intro n hr hm
    obtain ⟨u, hu, rfl⟩ := List.mem_map.1 hr
    obtain ⟨c, hc, hcu⟩ := List.mem_map.1 hm
    obtain ⟨-, hl, hname, -⟩ := (h.mem_modified c).1 hc
    exact ((h.mem_removed u).1 hu).2 _ hl (hname.symm.trans hcu)
  · intro n ha hn
    obtain ⟨l, hl, rfl⟩ := List.mem_map.1 ha
    have hnone := ((h.mem_added l).1 hl).2
    rcases List.mem_append.1 hn with hr | hm
    · obtain ⟨u, hu, hul⟩ := List.mem_map.1 hr
      exact hnone u ((h.mem_removed u).1 hu).1 hul
    · obtain ⟨c, hc, hcl⟩ := List.mem_map.1 hm
      exact hnone c.old ((h.mem_modified c).1 hc).1 hcl

/-- There is one exact difference only, whatever the order of the labels. -/
theorem unique (h : d.Exact us ls) (h' : d'.Exact us' ls') (hu : ∀ u, u ∈ us ↔ u ∈ us')
    (hl : ∀ l, l ∈ ls ↔ l ∈ ls') : d = d' := by
  have hadded : d.added = d'.added := h.added_ascending.eq_of_mem_iff h'.added_ascending fun l => by
    simp only [h.mem_added, h'.mem_added, hu, hl]
  have hremoved : d.removed = d'.removed :=
    h.removed_ascending.eq_of_mem_iff h'.removed_ascending fun u => by
      simp only [h.mem_removed, h'.mem_removed, hu, hl]
  have hmodified : d.modified = d'.modified :=
    h.modified_ascending.eq_of_mem_iff h'.modified_ascending fun c => by
      simp only [h.mem_modified, h'.mem_modified, hu, hl]
  show (⟨d.added, d.removed, d.modified⟩ : LabelDiff) = ⟨d'.added, d'.removed, d'.modified⟩
  rw [hadded, hremoved, hmodified]

end LabelDiff.Exact

/-- Where no side has a name twice, merging in order of the names gives the exact difference. -/
theorem exact_diffLabels (hu : (us.map Label.name).Nodup) (hl : (ls.map Label.name).Nodup) :
    (diffLabels us ls).Exact us ls := by
  rw [diffLabels_eq hu hl]
  refine ⟨?_, ?_, fun c => ?_, (byName_ascending hl).without _, (byName_ascending hu).without _, ?_⟩
  · simp only [mem_without, mem_byName, implies_true]
  · simp only [mem_without, mem_byName, implies_true]
  · rw [mem_unsatisfied hl]
    refine and_congr_right fun _ => and_congr_right fun _ => ?_
    rw [eq_comm (a := c.new.name)]
    exact and_congr_right Label.satisfies_eq_false_iff
  · refine (byName_ascending hu).filterMap _ fun u v huv c hc c' hc' => ?_
    -- a change is about the label that it is found for
    have hold : ∀ {w : Label} {e : LabelChange}, e ∈ unsatisfied? (byName ls) w → e.old = w := by
      intro w e he
      obtain ⟨l, -, rfl⟩ := Option.map_eq_some_iff.1 he
      rfl
    show c.old.name < c'.old.name
    rw [hold hc, hold hc']
    exact huv

/-- **The difference of labels is exact** where no side has a name twice.  Its three lists have no
name in common, and the order of the labels on either side does not matter. -/
theorem diffLabels_exact (hu : (us.map Label.name).Nodup) (hl : (ls.map Label.name).Nodup) :
    (diffLabels us ls).Exact us ls ∧ (diffLabels us ls).names.Nodup ∧
      ∀ us' ls', us'.Perm us → ls'.Perm ls → diffLabels us' ls' = diffLabels us ls := by
  have hexact := exact_diffLabels hu hl
  refine ⟨hexact, hexact.names_nodup, fun us' ls' hus hls => ?_⟩
  have hexact' := exact_diffLabels ((hus.map Label.name).nodup_iff.2 hu)
    ((hls.map Label.name).nodup_iff.2 hl)
  exact hexact'.unique hexact (fun _ => hus.mem_iff) fun _ => hls.mem_iff

/-- Labels whose names begin alike, without colors. -/
def nestedLabels : List Label := [{ name := "é/a", id := "1" }, { name := "é", id := "2" }]

/-- Declarations of the inner label, with a color, and of another one below the same label. -/
def nestedDeclarations : List Label :=
  [{ name := "é/a", color := some ⟨"#fff", "#000"⟩ }, { name := "é/ab" }]

theorem diffLabels_exact_nested :
    (nestedLabels.map Label.name).Nodup ∧ (nestedDeclarations.map Label.name).Nodup ∧
      (diffLabels nestedLabels nestedDeclarations).Exact nestedLabels nestedDeclarations ∧
      (diffLabels nestedLabels nestedDeclarations).names.Nodup ∧
      diffLabels nestedLabels.reverse nestedDeclarations.reverse =
        diffLabels nestedLabels nestedDeclarations := by
  have hu : (nestedLabels.map Label.name).Nodup := by decide
  have hl : (nestedDeclarations.map Label.name).Nodup := by decide
  obtain ⟨hexact, hnames, hperm⟩ := diffLabels_exact hu hl
  exact ⟨hu, hl, hexact, hnames, hperm _ _ (List.reverse_perm _) (List.reverse_perm _)⟩

/-! ### Labels in use -/

theorem removedInUse?_eq_none {d : LabelDiff} {fs : List Filter} :
    d.removedInUse? fs = none ↔ ∀ l ∈ d.removed, ∀ f ∈ fs, f.action.addLabel ≠ l.name := by
  simp [LabelDiff.removedInUse?, Filter.hasLabel]

/-! ### Labels that are valid -/

theorem of_validateAfter {seen : List String} (h : Label.validateAfter seen ls = .ok ()) :
    (ls.map Label.name).Nodup ∧ ∀ l ∈ ls, l.name ∉ seen := by
  induction ls generalizing seen with
  | nil => exact ⟨.nil, by simp⟩
  | cons l ls ih =>
    unfold Label.validateAfter at h
    cases hf : l.fault? seen with
    | some e =>
      rw [hf] at h
      cases h
    | none =>
      rw [hf] at h
      obtain ⟨hd, hs⟩ := ih h
      have hl : l.name ∉ seen := by
        intro hm
        unfold Label.fault? at hf
        simp only [List.contains_iff_mem.2 hm, if_true] at hf
        split_ifs at hf
      refine ⟨?_, ?_⟩
      · rw [List.map_cons, List.nodup_cons]
        refine ⟨fun hm => ?_, hd⟩
        obtain ⟨k, hk, hkl⟩ := List.mem_map.1 hm
        exact hs k hk (hkl ▸ List.mem_cons_self)
      · intro k hk
        rcases List.mem_cons.1 hk with rfl | hk
        · exact hl
        · exact fun hm => hs k hk (List.mem_cons_of_mem _ hm)

/-- Valid labels have different names. -/
theorem nodup_of_validateAll (h : Label.validateAll ls = .ok ()) : (ls.map Label.name).Nodup :=
  (of_validateAfter h).1

end MailRules
