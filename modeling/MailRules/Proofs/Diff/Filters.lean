import MailRules.Diff.Basic
import MailRules.Proofs.Diff.Ascending
import MailRules.Proofs.Sorting

/-!
# The difference of filters by content

Merging two lists in order of their digests finds what only one of them holds.

* `Filter.content` is what two filters have in common when they are the same; the digest depends
  on it alone (`digest_eq_of_same`).
* `digested` is strictly ascending and holds one filter for each digest (`digested_ascending`,
  `exists_mem_digested`).
* `mergeFilters_eq` says what a merge of such lists is, and `changedFilters_eq` what the
  difference is: `without` in both directions.
* `changedFilters_isDifference` is the difference as a set of contents; lining up for
  review keeps the members of both lists (`mem_diffFilters_added`, `mem_diffFilters_removed`).
-/

namespace MailRules

namespace Filter

/-- What a filter matches and does, whatever its id. -/
def content (f : Filter) : Criteria × Action := (f.criteria, f.action)

theorem same_iff {f g : Filter} : f.same g = true ↔ f.content = g.content := by
  simp [same, content]

theorem same_refl (f : Filter) : f.same f = true := same_iff.2 rfl

theorem same_symm {f g : Filter} (h : f.same g = true) : g.same f = true :=
  same_iff.2 (same_iff.1 h).symm

theorem same_trans {f g k : Filter} (h : f.same g = true) (h' : g.same k = true) :
    f.same k = true :=
  same_iff.2 ((same_iff.1 h).trans (same_iff.1 h'))

theorem digest_eq_of_same {f g : Filter} (h : f.same g = true) : f.digest = g.digest := by
  obtain ⟨c, a, i⟩ := f
  obtain ⟨c', a', i'⟩ := g
  simp only [same, Bool.and_eq_true, decide_eq_true_eq] at h
  obtain ⟨rfl, rfl⟩ := h
  rfl

end Filter

/-- No two different contents among some filters have the same digest. -/
def DigestsDistinguish (fs : List Filter) : Prop :=
  ∀ f ∈ fs, ∀ g ∈ fs, f.digest = g.digest → f.same g = true

/-! ### One filter for each digest -/

theorem keepLast_sublist (fs : DigestedFilters) : (keepLast fs).Sublist fs := by
  fun_induction keepLast fs with
  | case1 => exact .slnil
  | case2 => exact List.Sublist.refl _
  | case3 f g fs _ ih => exact ih.cons _
  | case4 f g fs _ ih => exact ih.cons_cons _

theorem exists_mem_keepLast {fs : DigestedFilters} {f : String × Filter} (h : f ∈ fs) :
    ∃ g ∈ keepLast fs, g.1 = f.1 := by
  fun_induction keepLast fs generalizing f with
  | case1 => cases h
  | case2 f' => exact ⟨f, h, rfl⟩
  | case3 f' g fs heq ih =>
    rcases List.mem_cons.1 h with rfl | h
    · obtain ⟨k, hk, hkg⟩ := ih List.mem_cons_self
      exact ⟨k, hk, hkg.trans heq.symm⟩
    · exact ih h
  | case4 f' g fs _ ih =>
    rcases List.mem_cons.1 h with rfl | h
    · exact ⟨f, List.mem_cons_self, rfl⟩
    · obtain ⟨k, hk, hkf⟩ := ih h
      exact ⟨k, List.mem_cons_of_mem _ hk, hkf⟩

theorem keepLast_ascending {fs : DigestedFilters} (h : fs.Pairwise fun f g => f.1 ≤ g.1) :
    Ascending Prod.fst (keepLast fs) := by
  fun_induction keepLast fs with
  | case1 => exact .nil
  | case2 => exact List.pairwise_singleton _ _
  | case3 f g fs _ ih => exact ih (List.pairwise_cons.1 h).2
  | case4 f g fs hne ih =>
    obtain ⟨hf, hfs⟩ := List.pairwise_cons.1 h
    have hfg : f.1 < g.1 := lt_of_le_of_ne (hf g List.mem_cons_self) hne
    refine List.pairwise_cons.2 ⟨fun k hk => ?_, ih hfs⟩
    -- `k` is `g` or stands behind it
    rcases List.mem_cons.1 ((keepLast_sublist _).subset hk) with rfl | hk
    · exact hfg
    · exact lt_of_lt_of_le hfg ((List.pairwise_cons.1 hfs).1 k hk)

theorem digested_ascending (fs : List Filter) : Ascending Prod.fst (digested fs) :=
  keepLast_ascending (pairwise_mergeSort_key Prod.fst _)

theorem of_mem_digested {fs : List Filter} {p : String × Filter} (h : p ∈ digested fs) :
    p.2 ∈ fs ∧ p.1 = p.2.digest := by
  have := (keepLast_sublist _).subset h
  simp only [List.mem_mergeSort, List.mem_map] at this
  obtain ⟨f, hf, rfl⟩ := this
  exact ⟨hf, rfl⟩

theorem exists_mem_digested {fs : List Filter} {f : Filter} (h : f ∈ fs) :
    ∃ p ∈ digested fs, p.1 = f.digest :=
  exists_mem_keepLast (f := (f.digest, f))
    (List.mem_mergeSort.2 (List.mem_map.2 ⟨f, h, rfl⟩))

theorem mem_keys_digested {fs : List Filter} {d : String} :
    d ∈ (digested fs).map (·.1) ↔ ∃ f ∈ fs, f.digest = d := by
  constructor
  · intro h
    obtain ⟨p, hp, rfl⟩ := List.mem_map.1 h
    obtain ⟨hm, hd⟩ := of_mem_digested hp
    exact ⟨p.2, hm, hd.symm⟩
  · rintro ⟨f, hf, rfl⟩
    obtain ⟨p, hp, hd⟩ := exists_mem_digested hf
    exact List.mem_map.2 ⟨p, hp, hd⟩

/-- Of neighbours with the same digest the last is left. -/
theorem mem_keepLast_iff {fs : DigestedFilters} {p : String × Filter}
    (h : fs.Pairwise fun f g => f.1 ≤ g.1) :
    p ∈ keepLast fs ↔ (fs.filter fun f => f.1 = p.1).getLast? = some p := by
  have hskip : ∀ {f : String × Filter} {fs : DigestedFilters}, f.1 ≠ p.1 →
      (f :: fs).filter (fun f => f.1 = p.1) = fs.filter fun f => f.1 = p.1 :=
    fun hf => List.filter_cons_of_neg (by simpa using hf)
  have htake : ∀ {f : String × Filter} {fs : DigestedFilters}, f.1 = p.1 →
      (f :: fs).filter (fun f => f.1 = p.1) = f :: fs.filter fun f => f.1 = p.1 :=
    fun hf => List.filter_cons_of_pos (by simpa using hf)
  fun_induction keepLast fs with
  | case1 => simp
  | case2 f =>
    by_cases hf : f.1 = p.1
    · simp [hf, eq_comm]
    · have hne : p ≠ f := fun heq => hf (heq ▸ rfl)
      simp [hf, hne]
  | case3 f g fs hfg ih =>
    refine (ih (List.pairwise_cons.1 h).2).trans ?_
    by_cases hf : f.1 = p.1
    · rw [htake hf, htake (hfg.symm.trans hf), List.getLast?_cons_cons]
    · rw [hskip hf]
  | case4 f g fs hfg ih =>
    obtain ⟨hfs, hsorted⟩ := List.pairwise_cons.1 h
    refine List.mem_cons.trans ((or_congr_right (ih hsorted)).trans ?_)
    by_cases hf : f.1 = p.1
    · -- all that follows comes behind
      have hlt : f.1 < g.1 := lt_of_le_of_ne (hfs g List.mem_cons_self) hfg
      have hnone : (g :: fs).filter (fun k => k.1 = p.1) = [] := by
        refine List.filter_eq_nil_iff.2 fun k hk => ?_
        have hgk : g.1 ≤ k.1 := by
          rcases List.mem_cons.1 hk with rfl | hk
          · exact le_refl _
          · exact (List.pairwise_cons.1 hsorted).1 k hk
        rw [← hf, decide_eq_true_eq]
        exact (lt_of_lt_of_le hlt hgk).ne'
      rw [htake hf, hnone]
      simp [eq_comm]
    · have hne : p ≠ f := fun heq => hf (heq ▸ rfl)
      rw [hskip hf, or_iff_right hne]

/-- **Of filters with the same digest the last is left.** -/
theorem mem_digested_iff {fs : List Filter} {f : Filter} :
    (f.digest, f) ∈ digested fs ↔
      (fs.filter fun g => g.digest = f.digest).getLast? = some f := by
  have hinj : ∀ o : Option Filter,
      o.map (fun g => (g.digest, g)) = some (f.digest, f) ↔ o = some f := fun o => by
    cases o with
    | none => simp
    | some g => simpa using fun h : g = f => congrArg Filter.digest h
  rw [digested, mem_keepLast_iff (pairwise_mergeSort_key Prod.fst _),
    filter_key_mergeSort Prod.fst, List.filter_map, List.getLast?_map, hinj]
  rfl

/-! ### Merging -/

/-- **A merge of ascending lists finds what only one of them holds.** -/
theorem mergeFilters_eq {us ls : DigestedFilters} (hu : Ascending Prod.fst us)
    (hl : Ascending Prod.fst ls) :
    mergeFilters us ls = { added := (without Prod.fst ls us).map (·.2),
                           removed := (without Prod.fst us ls).map (·.2) } := by
  fun_induction mergeFilters us ls with
  | case1 ls => simp [without]
  | case2 us => simp [without]
  | case3 u us l ls hlt d ih =>
    have hls : ∀ f ∈ l :: ls, u.1 < f.1 := hl.lt_of_mem hlt
    simp only [d, ih hu.tail hl, without_cons_of_lt hlt hl, without_cons_right hls, List.map_cons]
  | case4 u us l ls _ hlt d ih =>
    have hus : ∀ f ∈ u :: us, l.1 < f.1 := hu.lt_of_mem hlt
    simp only [d, ih hu hl.tail, without_cons_of_lt hlt hu, without_cons_right hus, List.map_cons]
  | case5 u us l ls hul hlu ih =>
    have heq : u.1 = l.1 := le_antisymm (not_lt.1 hlu) (not_lt.1 hul)
    rw [ih hu.tail hl.tail, without_cons_cons heq hu, without_cons_cons heq.symm hl]

/-- The filters whose content only the first of two lists holds, by digest and in order of their
digests. -/
def onlyIn (fs gs : List Filter) : List Filter :=
  (without Prod.fst (digested fs) (digested gs)).map (·.2)

theorem changedFilters_eq (existing declared : List Filter) :
    changedFilters existing declared =
      { added := onlyIn declared existing, removed := onlyIn existing declared } :=
  mergeFilters_eq (digested_ascending _) (digested_ascending _)

/-! ### What only one list holds -/

variable {fs gs : List Filter}

theorem mem_without_digested {p : String × Filter} :
    p ∈ without Prod.fst (digested fs) (digested gs) ↔
      p ∈ digested fs ∧ ∀ g ∈ gs, g.digest ≠ p.1 := by
  simp only [without, List.mem_filter, decide_eq_true_eq, mem_keys_digested, not_exists, not_and,
    ne_eq]

theorem of_mem_onlyIn {f : Filter} (h : f ∈ onlyIn fs gs) :
    f ∈ fs ∧ ∀ g ∈ gs, f.same g = false := by
  obtain ⟨p, hp, rfl⟩ := List.mem_map.1 h
  obtain ⟨hp, hg⟩ := mem_without_digested.1 hp
  obtain ⟨hf, hd⟩ := of_mem_digested hp
  refine ⟨hf, fun g hgs => Bool.eq_false_iff.2 fun hs => hg g hgs ?_⟩
  rw [hd, Filter.digest_eq_of_same hs]

/-- Which filters are found: the last of each digest, if no filter of the other list has it. -/
theorem mem_onlyIn_iff {f : Filter} :
    f ∈ onlyIn fs gs ↔ (fs.filter fun g => g.digest = f.digest).getLast? = some f ∧
      ∀ g ∈ gs, g.digest ≠ f.digest := by
  rw [← mem_digested_iff]
  constructor
  · intro h
    obtain ⟨p, hp, rfl⟩ := List.mem_map.1 h
    obtain ⟨hp, hg⟩ := mem_without_digested.1 hp
    obtain ⟨-, hd⟩ := of_mem_digested hp
    rw [← hd]
    exact ⟨hp, hg⟩
  · rintro ⟨hf, hg⟩
    exact List.mem_map.2 ⟨_, mem_without_digested.2 ⟨hf, hg⟩, rfl⟩

theorem onlyIn_pairwise (fs gs : List Filter) :
    (onlyIn fs gs).Pairwise fun f g => f.digest ≠ g.digest := by
  refine List.pairwise_map.2 (((digested_ascending fs).filter _).imp_of_mem ?_)
  intro p q hp hq hlt
  rw [← (of_mem_digested (List.mem_filter.1 hp).1).2,
    ← (of_mem_digested (List.mem_filter.1 hq).1).2]
  exact hlt.ne

theorem exists_mem_onlyIn {f : Filter} (hd : DigestsDistinguish (fs ++ gs)) (hf : f ∈ fs)
    (hg : ∀ g ∈ gs, f.same g = false) : ∃ g ∈ onlyIn fs gs, f.same g = true := by
  obtain ⟨p, hp, hpf⟩ := exists_mem_digested hf
  obtain ⟨hm, hpd⟩ := of_mem_digested hp
  refine ⟨p.2, List.mem_map.2 ⟨p, mem_without_digested.2 ⟨hp, fun g hgs hgp => ?_⟩, rfl⟩, ?_⟩
  · have hsame := hd f (List.mem_append_left _ hf) g (List.mem_append_right _ hgs)
      (hpf.symm.trans hgp.symm)
    rw [hg g hgs] at hsame
    exact Bool.false_ne_true hsame
  · exact hd f (List.mem_append_left _ hf) p.2 (List.mem_append_left _ hm) (hpf.symm.trans hpd)

theorem countP_onlyIn {f : Filter} (hd : DigestsDistinguish (fs ++ gs)) (hf : f ∈ fs)
    (hg : ∀ g ∈ gs, f.same g = false) : (onlyIn fs gs).countP f.same = 1 := by
  apply le_antisymm
  · -- two members that are the same as `f` would have the same digest
    rw [List.countP_eq_length_filter]
    have hp : ((onlyIn fs gs).filter f.same).Pairwise fun _ _ => False := by
      refine ((onlyIn_pairwise fs gs).filter _).imp_of_mem ?_
      intro a b ha hb hne
      exact hne (Filter.digest_eq_of_same
        (Filter.same_trans (Filter.same_symm (List.mem_filter.1 ha).2) (List.mem_filter.1 hb).2))
    cases hl : (onlyIn fs gs).filter f.same with
    | nil => simp
    | cons a l =>
      rw [hl] at hp
      cases l with
      | nil => simp
      | cons b l => exact ((List.pairwise_cons.1 hp).1 b List.mem_cons_self).elim
  · obtain ⟨g, hm, hs⟩ := exists_mem_onlyIn hd hf hg
    exact List.countP_pos_iff.2 ⟨g, hm, hs⟩

/-! ### Order of the lists -/

theorem keys_without_of_perm {fs' gs' : List Filter} (hf : fs'.Perm fs) (hg : gs'.Perm gs) :
    (without Prod.fst (digested fs') (digested gs')).map (·.1) =
      (without Prod.fst (digested fs) (digested gs)).map (·.1) := by
  have hasc : ∀ fs gs : List Filter,
      ((without Prod.fst (digested fs) (digested gs)).map (·.1)).Pairwise (· < ·) := fun fs gs =>
    List.pairwise_map.2 ((digested_ascending fs).filter _)
  have hmem : ∀ (fs gs : List Filter) (d : String),
      d ∈ (without Prod.fst (digested fs) (digested gs)).map (·.1) ↔
        (∃ f ∈ fs, f.digest = d) ∧ ∀ g ∈ gs, g.digest ≠ d := by
    intro fs gs d
    rw [← mem_keys_digested, List.mem_map, List.mem_map]
    constructor
    · rintro ⟨p, hp, rfl⟩
      obtain ⟨hp, hg⟩ := mem_without_digested.1 hp
      exact ⟨⟨p, hp, rfl⟩, hg⟩
    · rintro ⟨⟨p, hp, rfl⟩, hg⟩
      exact ⟨p, mem_without_digested.2 ⟨hp, hg⟩, rfl⟩
  refine List.Pairwise.eq_of_mem_iff (hasc fs' gs') (hasc fs gs) fun d => ?_
  rw [hmem, hmem]
  simp only [hf.mem_iff, hg.mem_iff]

/-- Where the digests of two lists agree and fix the contents, the contents agree. -/
theorem map_content_eq {ps qs : DigestedFilters} (hk : ps.map (·.1) = qs.map (·.1))
    (hc : ∀ p ∈ ps, ∀ q ∈ qs, p.1 = q.1 → p.2.content = q.2.content) :
    (ps.map (·.2)).map Filter.content = (qs.map (·.2)).map Filter.content := by
  induction ps generalizing qs with
  | nil =>
    cases qs with
    | nil => rfl
    | cons q qs => cases hk
  | cons p ps ih =>
    cases qs with
    | nil => cases hk
    | cons q qs =>
      obtain ⟨hpq, hks⟩ := List.cons.inj hk
      have htl := ih hks fun p' hp' q' hq' =>
        hc p' (List.mem_cons_of_mem _ hp') q' (List.mem_cons_of_mem _ hq')
      simp only [List.map_cons, htl, hc p List.mem_cons_self q List.mem_cons_self hpq]

theorem onlyIn_of_perm {fs' gs' : List Filter} (hd : DigestsDistinguish fs) (hf : fs'.Perm fs)
    (hg : gs'.Perm gs) :
    (onlyIn fs' gs').map Filter.content = (onlyIn fs gs).map Filter.content := by
  refine map_content_eq (keys_without_of_perm hf hg) fun p hp q hq hpq => ?_
  obtain ⟨hpf, hpd⟩ := of_mem_digested (mem_without_digested.1 hp).1
  obtain ⟨hqf, hqd⟩ := of_mem_digested (mem_without_digested.1 hq).1
  exact Filter.same_iff.1 (hd _ (hf.mem_iff.1 hpf) _ hqf (hpd.symm.trans (hpq.trans hqd)))

theorem DigestsDistinguish.subset {fs gs : List Filter} (h : DigestsDistinguish gs)
    (hs : fs ⊆ gs) : DigestsDistinguish fs :=
  fun f hf g hg => h f (hs hf) g (hs hg)

/-- **The difference is the difference of the contents.**  Nothing is added that an account holds,
nothing is removed that is declared, and neither list holds a content twice; where digests
distinguish the filters, nothing is left out, and the order of the two lists does not matter. -/
theorem changedFilters_isDifference (existing declared : List Filter) :
    (∀ f ∈ (changedFilters existing declared).added,
      f ∈ declared ∧ ∀ g ∈ existing, f.same g = false) ∧
    (∀ f ∈ (changedFilters existing declared).removed,
      f ∈ existing ∧ ∀ g ∈ declared, f.same g = false) ∧
    (changedFilters existing declared).added.Pairwise (fun f g => f.same g = false) ∧
    (changedFilters existing declared).removed.Pairwise (fun f g => f.same g = false) ∧
    (DigestsDistinguish (existing ++ declared) →
      (∀ f ∈ declared, (∀ g ∈ existing, f.same g = false) →
        (changedFilters existing declared).added.countP f.same = 1) ∧
      (∀ f ∈ existing, (∀ g ∈ declared, f.same g = false) →
        (changedFilters existing declared).removed.countP f.same = 1) ∧
      ∀ existing' declared', existing'.Perm existing → declared'.Perm declared →
        (changedFilters existing' declared').added.map Filter.content =
            (changedFilters existing declared).added.map Filter.content ∧
          (changedFilters existing' declared').removed.map Filter.content =
            (changedFilters existing declared).removed.map Filter.content) := by
  have hne : ∀ {f g : Filter}, f.digest ≠ g.digest → f.same g = false := fun h =>
    Bool.eq_false_iff.2 fun hs => h (Filter.digest_eq_of_same hs)
  simp only [changedFilters_eq]
  refine ⟨fun f => of_mem_onlyIn, fun f => of_mem_onlyIn, (onlyIn_pairwise _ _).imp hne,
    (onlyIn_pairwise _ _).imp hne, fun hd => ?_⟩
  have hd' : DigestsDistinguish (declared ++ existing) :=
    hd.subset (by intro f hf; simpa [or_comm] using hf)
  refine ⟨fun f => countP_onlyIn hd', fun f => countP_onlyIn hd, ?_⟩
  intro existing' declared' he hc
  exact ⟨onlyIn_of_perm (hd'.subset (List.subset_append_left _ _)) hc he,
    onlyIn_of_perm (hd.subset (List.subset_append_left _ _)) he hc⟩

/-- A filter under some id. -/
def archivedUnder (id : String) : Filter where
  criteria := { query := "a" }
  action := { archive := true }
  id := id

/-- Two declarations of one content against an empty account: it is added once, and the order of
the declarations does not matter. -/
theorem changedFilters_declared_twice :
    DigestsDistinguish ([] ++ [archivedUnder "", archivedUnder "1"]) ∧
      (changedFilters [] [archivedUnder "", archivedUnder "1"]).added.countP
          (archivedUnder "").same = 1 ∧
      (changedFilters [] [archivedUnder "1", archivedUnder ""]).added.map Filter.content =
        (changedFilters [] [archivedUnder "", archivedUnder "1"]).added.map Filter.content := by
  have hd : DigestsDistinguish ([] ++ [archivedUnder "", archivedUnder "1"]) := by
    intro a ha b hb _
    simp only [List.nil_append, List.mem_cons, List.not_mem_nil, or_false] at ha hb
    rcases ha with rfl | rfl <;> rcases hb with rfl | rfl <;> rfl
  obtain ⟨hadd, -, hperm⟩ :=
    (changedFilters_isDifference [] [archivedUnder "", archivedUnder "1"]).2.2.2.2 hd
  refine ⟨hd, hadd _ (by simp) (by simp), ?_⟩
  exact (hperm [] [archivedUnder "1", archivedUnder ""] (.refl _) (.swap _ _ _)).1

/-! ### Order for review -/

theorem mem_selectFirst {ps : List Nat} {f : Filter} : f ∈ selectFirst ps fs ↔ f ∈ fs := by
  simp only [selectFirst, List.mem_append, List.mem_filterMap, List.mem_map, List.mem_filter]
  constructor
  · rintro (⟨i, -, hi⟩ | ⟨p, ⟨hp, -⟩, rfl⟩)
    · exact List.mem_of_getElem? hi
    · exact List.fst_mem_of_mem_zipIdx hp
  · intro hf
    obtain ⟨i, hi, rfl⟩ := List.getElem_of_mem hf
    by_cases hps : i ∈ ps
    · exact .inl ⟨i, hps, List.getElem?_eq_getElem hi⟩
    · refine .inr ⟨(fs[i], i), ⟨?_, by simpa using hps⟩, rfl⟩
      simp [List.mk_mem_zipIdx_iff_getElem?, hi]

theorem mem_diffFilters_added {existing declared : List Filter} {f : Filter} :
    f ∈ (diffFilters existing declared).added ↔ f ∈ onlyIn declared existing := by
  simp only [diffFilters, changedFilters_eq]
  split_ifs
  · rfl
  · simp only [lineUpSimilar, lineUp, mem_selectFirst]

theorem mem_diffFilters_removed {existing declared : List Filter} {f : Filter} :
    f ∈ (diffFilters existing declared).removed ↔ f ∈ onlyIn existing declared := by
  simp only [diffFilters, changedFilters_eq]
  split_ifs
  · rfl
  · simp only [lineUpSimilar, lineUp, mem_selectFirst]

/-- Where each side has what the other has, there is no difference. -/
theorem diffFilters_isEmpty {existing declared : List Filter}
    (hd : ∀ f ∈ declared, ∃ g ∈ existing, f.same g = true)
    (he : ∀ g ∈ existing, ∃ f ∈ declared, g.same f = true) :
    (diffFilters existing declared).isEmpty = true := by
  have hnone : ∀ {fs gs : List Filter}, (∀ f ∈ fs, ∃ g ∈ gs, f.same g = true) →
      ∀ f, f ∉ onlyIn fs gs := by
    intro fs gs h f hf
    obtain ⟨hfs, hno⟩ := of_mem_onlyIn hf
    obtain ⟨g, hg, hs⟩ := h f hfs
    rw [hno g hg] at hs
    cases hs
  have hadded : (diffFilters existing declared).added = [] :=
    List.eq_nil_iff_forall_not_mem.2 fun f hf => hnone hd f (mem_diffFilters_added.1 hf)
  have hremoved : (diffFilters existing declared).removed = [] :=
    List.eq_nil_iff_forall_not_mem.2 fun g hg => hnone he g (mem_diffFilters_removed.1 hg)
  rw [FilterDiff.isEmpty, hadded, hremoved]
  rfl

/-- A filter that is to be removed is one that the account holds and that is not declared. -/
theorem of_mem_diff_removed {existing declared : MailConfig} {f : Filter}
    (h : f ∈ (diff declared existing).filters.removed) :
    f ∈ existing.filters ∧ ∀ g ∈ declared.filters, f.same g = false :=
  of_mem_onlyIn (mem_diffFilters_removed.1 h)

end MailRules
