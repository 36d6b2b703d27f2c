import MailRules.Account.Apply
import MailRules.Proofs.Account.Exchange
import MailRules.Proofs.Account.Work
import MailRules.Proofs.Diff.Filters
import Mathlib.Data.List.Induction
import Mathlib.Logic.Function.Basic

/-!
# Accounts that can be imported in part

Stored filters that no config can say are refused one by one, and the others are imported as if they
were alone.

* `Imported` are the filters of the entries that are not refused, `ImportFailure.Reports` is what a
  failure says of the others: their ids in order of first appearance, each with the reason of the
  last entry of that id.
* `importReasons_append` is one more entry.  Its effect on the ids and on the reasons
  (`keys_putReason`, `of_mem_putReason`) carries both parts of `Reports` through all entries
  (`keys_importReasons`, `lastRefused_of_mem`).
* `Session.Lists` are sessions that can list their account; `Client.outcome_fetch` is what fetching
  then comes to.
* `import_partitions` puts this together, and says that nothing is deleted that was refused.
-/

namespace MailRules

/-! ### One more reason -/

section

variable {id : String} {fault : ImportFault} {es : List (String × ImportFault)}
  {p : String × ImportFault}

theorem keys_putReason : (ImportFailure.putReason id fault es).map Prod.fst =
    if id ∈ es.map Prod.fst then es.map Prod.fst else es.map Prod.fst ++ [id] := by
  induction es with
  | nil => simp [ImportFailure.putReason]
  | cons e es ih =>
    unfold ImportFailure.putReason
    by_cases he : e.1 = id
    · simp [he]
    · have he' : ¬id = e.1 := fun h => he h.symm
      rw [if_neg he, List.map_cons, ih]
      by_cases hid : id ∈ es.map Prod.fst <;> simp [he', hid]

/-- Where ids are not repeated, a new reason takes the place of the old one. -/
theorem of_mem_putReason (hes : (es.map Prod.fst).Nodup)
    (hp : p ∈ ImportFailure.putReason id fault es) : p = (id, fault) ∨ p ∈ es ∧ p.1 ≠ id := by
  induction es with
  | nil => exact .inl (List.mem_singleton.1 hp)
  | cons e es ih =>
    obtain ⟨he, hes⟩ := List.nodup_cons.1 (List.map_cons ▸ hes)
    unfold ImportFailure.putReason at hp
    split_ifs at hp with hid
    · rcases List.mem_cons.1 hp with rfl | hp
      · exact .inl rfl
      · refine .inr ⟨List.mem_cons_of_mem e hp, fun hpid => he ?_⟩
        rw [hid, ← hpid]
        exact List.mem_map_of_mem hp
    · rcases List.mem_cons.1 hp with rfl | hp
      · exact .inr ⟨List.mem_cons_self, hid⟩
      · rcases ih hes hp with h | ⟨h, hne⟩
        · exact .inl h
        · exact .inr ⟨List.mem_cons_of_mem e h, hne⟩

end

/-! ### Entries that are refused -/

section

variable {m : LabelMap} {rs : List RemoteFilter} {r : RemoteFilter}

/-- Some filters are those of the entries that are not refused, in the order of the entries. -/
def Imported (m : LabelMap) (rs : List RemoteFilter) (fs : List Filter) : Prop :=
  List.Forall₂ (fun r f => r.imported m = .ok f) (rs.filter fun r => (r.imported m).isOk) fs

/-- The ids of the entries that are refused, in order of first appearance.  A missing id counts as
empty. -/
def refusedIds (m : LabelMap) (rs : List RemoteFilter) : List String :=
  ((rs.filter fun r => !(r.imported m).isOk).map fun r => r.id.getD "").eraseDups

/-- The last entry that is refused under an id is refused for a reason. -/
def LastRefused (m : LabelMap) (rs : List RemoteFilter) (id : String) (fault : ImportFault) :
    Prop :=
  ∃ before r after, rs = before ++ r :: after ∧ r.id.getD "" = id ∧
    r.imported m = .error fault ∧
    ∀ r' ∈ after, r'.id.getD "" = id → ∃ f, r'.imported m = .ok f

/-- What a failure says about entries some of which are refused. -/
structure ImportFailure.Reports (m : LabelMap) (rs : List RemoteFilter) (e : ImportFailure) :
    Prop where
  /-- Some entry is refused. -/
  refused : ∃ r ∈ rs, ∃ fault, r.imported m = .error fault
  /-- All others are imported, in order. -/
  filters : Imported m rs e.filters
  /-- Ids are given in the order in which they are first refused. -/
  ids : e.errors.map Prod.fst = refusedIds m rs
  /-- The reason is that of the last entry refused under the id. -/
  reasons : ∀ p ∈ e.errors, LastRefused m rs p.1 p.2

theorem isOk_iff {ε α : Type} {x : Except ε α} : x.isOk = true ↔ ∃ a, x = .ok a := by
  cases x <;> simp [Except.isOk, Except.toBool]

/-- Where no entry is refused, all entries are imported. -/
theorem imported_iff_forall₂ {fs : List Filter} (h : ∀ r ∈ rs, ∃ f, r.imported m = .ok f) :
    Imported m rs fs ↔ List.Forall₂ (fun r f => r.imported m = .ok f) rs fs := by
  have hself : (rs.filter fun r => (r.imported m).isOk) = rs :=
    List.filter_eq_self.2 fun r hr => isOk_iff.2 (h r hr)
  rw [Imported, hself]

theorem imported_importable (m : LabelMap) (rs : List RemoteFilter) :
    Imported m rs (importable m rs) := by
  unfold Imported importable
  induction rs with
  | nil => exact .nil
  | cons r rs ih =>
    cases hr : r.imported m with
    | error e => simpa [hr, Except.isOk, Except.toBool, Except.toOption] using ih
    | ok f => simpa [hr, Except.isOk, Except.toBool, Except.toOption] using ih

theorem importReasons_append : importReasons m (rs ++ [r]) = match r.imported m with
    | .error fault => ImportFailure.putReason (r.id.getD "") fault (importReasons m rs)
    | .ok _ => importReasons m rs := by
  unfold importReasons
  rw [List.foldl_append]
  rfl

theorem refusedIds_append : refusedIds m (rs ++ [r]) = match r.imported m with
    | .error _ => if r.id.getD "" ∈ refusedIds m rs then refusedIds m rs
      else refusedIds m rs ++ [r.id.getD ""]
    | .ok _ => refusedIds m rs := by
  unfold refusedIds
  cases hr : r.imported m with
  | ok f => simp [hr, Except.isOk, Except.toBool]
  | error e =>
    have hlast : [r].filter (fun r => !(r.imported m).isOk) = [r] := by
      simp [hr, Except.isOk, Except.toBool]
    rw [List.filter_append, hlast, List.map_append, List.map_singleton, List.eraseDups_append]
    simp only [List.mem_eraseDups]
    split_ifs with hid <;> simp [List.removeAll, hid, List.eraseDups_cons]

/-- **The ids of a failure** are those of the entries that are refused. -/
theorem keys_importReasons (m : LabelMap) (rs : List RemoteFilter) :
    (importReasons m rs).map Prod.fst = refusedIds m rs := by
  induction rs using List.reverseRecOn with
  | nil => rfl
  | append_singleton rs r ih =>
    rw [importReasons_append, refusedIds_append]
    cases r.imported m with
    | ok f => exact ih
    | error fault => rw [keys_putReason, ih]

theorem nodup_importReasons (m : LabelMap) (rs : List RemoteFilter) :
    ((importReasons m rs).map Prod.fst).Nodup := by
  induction rs using List.reverseRecOn with
  | nil => exact List.nodup_nil
  | append_singleton rs r ih =>
    rw [importReasons_append]
    cases r.imported m with
    | ok f => exact ih
    | error fault =>
      rw [keys_putReason]
      split_ifs with hid
      · exact ih
      · rw [← List.concat_eq_append]
        exact ih.concat hid

/-- **The reason of a failure for an id** is that of the last entry. -/
theorem lastRefused_of_mem {p : String × ImportFault} (h : p ∈ importReasons m rs) :
    LastRefused m rs p.1 p.2 := by
  induction rs using List.reverseRecOn with
  | nil => cases h
  | append_singleton rs r ih =>
    -- an entry that is refused before stays the last one, unless the new one takes its place
    have hkeep : p ∈ importReasons m rs →
        (r.id.getD "" = p.1 → ∃ f, r.imported m = .ok f) → LastRefused m (rs ++ [r]) p.1 p.2 := by
      intro hp hr
      obtain ⟨before, r', after, rfl, hid, hfault, hafter⟩ := ih hp
      refine ⟨before, r', after ++ [r], by simp, hid, hfault, fun x hx => ?_⟩
      rcases List.mem_append.1 hx with hx | hx
      · exact hafter x hx
      · exact List.mem_singleton.1 hx ▸ hr
    rw [importReasons_append] at h
    cases hr : r.imported m with
    | ok f =>
      rw [hr] at h
      exact hkeep h fun _ => ⟨f, hr⟩
    | error fault =>
      rw [hr] at h
      rcases of_mem_putReason (nodup_importReasons m rs) h with rfl | ⟨hp, hne⟩
      · exact ⟨rs, r, [], rfl, rfl, hr, by simp⟩
      · exact hkeep hp fun hid => absurd hid.symm hne

/-- There are reasons if an entry is refused. -/
theorem importReasons_isEmpty_iff :
    (importReasons m rs).isEmpty = true ↔ ∀ r ∈ rs, ∃ f, r.imported m = .ok f := by
  have hnil : importReasons m rs = [] ↔ refusedIds m rs = [] := by
    rw [← keys_importReasons, List.map_eq_nil_iff]
  rw [List.isEmpty_iff, hnil, List.eq_nil_iff_forall_not_mem]
  simp only [refusedIds, List.mem_eraseDups, ← List.eq_nil_iff_forall_not_mem,
    List.map_eq_nil_iff, List.filter_eq_nil_iff, Bool.not_eq_true', Bool.not_eq_false, isOk_iff]

/-- Filters are imported one by one if no entry is refused. -/
theorem importAll_eq_ok_iff {fs : List Filter} :
    importAll m rs = .ok fs ↔ List.Forall₂ (fun r f => r.imported m = .ok f) rs fs := by
  have hall : (importReasons m rs).isEmpty = true →
      List.Forall₂ (fun r f => r.imported m = .ok f) rs (importable m rs) := fun hempty =>
    (imported_iff_forall₂ (importReasons_isEmpty_iff.1 hempty)).1 (imported_importable m rs)
  have hunique : Relator.RightUnique fun (r : RemoteFilter) f => r.imported m = .ok f :=
    fun r f g hf hg => Except.ok.inj (hf.symm.trans hg)
  simp only [importAll]
  constructor
  · intro h
    split_ifs at h with hempty
    exact Except.ok.inj h ▸ hall hempty
  · intro h
    have hempty : (importReasons m rs).isEmpty = true :=
      importReasons_isEmpty_iff.2 (exists_forall₂_iff.1 ⟨fs, h⟩)
    rw [if_pos hempty, List.right_unique_forall₂' hunique (hall hempty) h]

theorem reports_of_importAll {e : ImportFailure} (h : importAll m rs = .error e) :
    e.Reports m rs := by
  simp only [importAll] at h
  split_ifs at h with hempty
  obtain rfl := Except.error.inj h
  refine ⟨?_, imported_importable m rs, keys_importReasons m rs, fun p => lastRefused_of_mem⟩
  by_contra hnone
  refine hempty (importReasons_isEmpty_iff.2 fun r hr => ?_)
  cases hx : r.imported m with
  | ok f => exact ⟨f, rfl⟩
  | error fault => exact absurd ⟨r, hr, fault, hx⟩ hnone

end

namespace Imported

variable {m : LabelMap} {rs : List RemoteFilter} {fs : List Filter}

/-- There are no filters if every entry is refused. -/
theorem isEmpty_iff (h : Imported m rs fs) :
    fs.isEmpty = true ↔ ∀ r ∈ rs, ∃ fault, r.imported m = .error fault := by
  have hnil : fs = [] ↔ (rs.filter fun r => (r.imported m).isOk) = [] := by
    rw [← List.length_eq_zero_iff, ← List.length_eq_zero_iff, h.length_eq]
  rw [List.isEmpty_iff, hnil, List.filter_eq_nil_iff]
  refine forall₂_congr fun r _ => ?_
  cases r.imported m <;> simp [Except.isOk, Except.toBool]

/-- **What is deleted was imported.**  A plan for the imported filters deletes by ids of entries
that are not refused. -/
theorem of_deleteFilters (h : Imported m rs fs) {declared : MailConfig} {ls : List Label}
    {removeLabels : Bool} {ids : List String}
    (hids : .deleteFilters ids ∈
      (diff declared { labels := ls, filters := fs }).steps removeLabels) :
    ∀ id ∈ ids, ∃ r ∈ rs, r.id.getD "" = id ∧ ∃ f, r.imported m = .ok f := by
  intro id hid
  have hremoved : ids =
      (diff declared { labels := ls, filters := fs }).filters.removed.map (·.id) := by
    unfold Plan.steps at hids
    have := (List.mem_filter.1 hids).1
    cases removeLabels <;> simpa using this
  obtain ⟨f, hf, rfl⟩ := List.mem_map.1 (hremoved ▸ hid)
  obtain ⟨r, hr, hrf⟩ := (exists_mem_of_forall₂ h).2 f (of_mem_diff_removed hf).1
  exact ⟨r, (List.mem_filter.1 hr).1, (id_of_imported hrf).symm, f, hrf⟩

end Imported

/-! ### Listing that is not stopped -/

/-- At least the given number of requests of each kind are let through. -/
def Session.Allows (s : Session) (n : Method → Nat) : Prop :=
  ∀ f ∈ s.failures, n f.method ≤ f.after

/-- A request that is let through leaves one less of its kind. -/
theorem nextFailure_of_allows {fs : List ExpectedFailure} {n : Method → Nat} {k : Method}
    (h : ∀ f ∈ fs, n f.method ≤ f.after) (hk : 0 < n k) :
    (nextFailure k fs).1 = none ∧
      ∀ f ∈ (nextFailure k fs).2, Function.update n k (n k - 1) f.method ≤ f.after := by
  induction fs with
  | nil => exact ⟨rfl, by simp [nextFailure]⟩
  | cons f fs ih =>
    obtain ⟨hf, hfs⟩ := List.forall_mem_cons.1 h
    obtain ⟨hnone, hrest⟩ := ih hfs
    unfold nextFailure
    split_ifs with hfk
    · rw [hfk] at hf
      cases hafter : f.after with
      | zero => omega
      | succ a =>
        refine ⟨hnone, List.forall_mem_cons.2 ⟨?_, hrest⟩⟩
        simp only [hfk, Function.update_self]
        omega
    · refine ⟨hnone, List.forall_mem_cons.2 ⟨?_, hrest⟩⟩
      rwa [Function.update_of_ne hfk]

/-- A session that can list the labels and the stored filters of its account.  Filters are listed
by the names of labels, so that these are listed twice. -/
structure Session.Lists (s : Session) (ls : List Label) (rs : List RemoteFilter) : Prop where
  /-- The labels can be read. -/
  labels : s.account.userLabels = some ls
  /-- The filters can be read. -/
  filters : Entry.readAll readRemoteFilter s.account.filters = some rs
  /-- No failure is due. -/
  passes : s.Allows fun
    | .listLabels => 2
    | .listFilters => 1
    | _ => 0

namespace Client

variable {s : Session} {n : Method → Nat} {ls : List Label} {rs : List RemoteFilter}

theorem outcome_pass_of_allows {k : Method} (call : RemoteCall) (h : s.Allows n) (hk : 0 < n k) :
    ∃ fs, (pass k call).outcome s = (.ok (), { s with failures := fs }) ∧
      ({ s with failures := fs } : Session).Allows (Function.update n k (n k - 1)) := by
  obtain ⟨hnone, hrest⟩ := nextFailure_of_allows h hk
  exact ⟨_, by rw [outcome_pass, hnone], hrest⟩

theorem outcome_readEntries {α : Type} {read : Value → Checked α} {es : List (Entry α)}
    {xs : List α} (h : Entry.readAll read es = some xs) :
    (readEntries read es).outcome s = (.ok xs, s) := by
  unfold readEntries
  induction Entry.readAll_eq_some.1 h with
  | nil => rfl
  | cons he hes ih =>
    rw [List.mapM_cons, he, outcome_bind]
    show (_ >>= _ : Client _).outcome s = _
    rw [outcome_bind, ih (Entry.readAll_eq_some.2 hes)]
    rfl

theorem outcome_listLabels (h : s.Allows n) (hn : 0 < n .listLabels)
    (hls : s.account.userLabels = some ls) :
    ∃ fs, listLabels.outcome s = (.ok ls, { s with failures := fs }) ∧
      ({ s with failures := fs } : Session).Allows
        (Function.update n .listLabels (n .listLabels - 1)) := by
  obtain ⟨fs, hpass, hallows⟩ := outcome_pass_of_allows .listLabels h hn
  obtain ⟨xs, hxs, rfl⟩ := Option.map_eq_some_iff.1 hls
  refine ⟨fs, ?_, hallows⟩
  unfold listLabels
  rw [outcome_bind, hpass]
  simp only [outcome_bind, outcome_get, outcome_readEntries hxs]
  rfl

theorem outcome_listFilters (h : s.Allows n) (hf : 0 < n .listFilters) (hl : 0 < n .listLabels)
    (hls : s.account.userLabels = some ls)
    (hrs : Entry.readAll readRemoteFilter s.account.filters = some rs) :
    ∃ fs, listFilters.outcome s =
      ((importAll (.ofLabels ls) rs).mapError SyncError.importing, { s with failures := fs }) := by
  obtain ⟨fs, hpass, hallows⟩ := outcome_pass_of_allows .listFilters h hf
  obtain ⟨fs', hlist, -⟩ := outcome_listLabels hallows (by simpa using hl) hls
  refine ⟨fs', ?_⟩
  unfold listFilters
  rw [outcome_bind, hpass]
  simp only [outcome_bind, outcome_get, outcome_readEntries hrs, hlist]
  cases importAll (.ofLabels ls) rs <;> rfl

/-- **What fetching comes to.**  Refused filters are left out, unless there are no others. -/
theorem outcome_fetch (h : s.Lists ls rs) :
    (fetch.outcome s).1 = match importAll (.ofLabels ls) rs with
      | .ok fs => .ok { labels := ls, filters := fs }
      | .error e =>
        if e.filters.isEmpty then .error (.importing e)
        else .ok { labels := ls, filters := e.filters } := by
  obtain ⟨fs, hlabels, hallows⟩ := outcome_listLabels h.passes (by decide) h.labels
  obtain ⟨fs', hfilters⟩ := outcome_listFilters hallows (by simp) (by simp) h.labels h.filters
  unfold fetch
  rw [outcome_bind, hlabels]
  simp only [outcome_bind, outcome_catch, hfilters]
  cases importAll (.ofLabels ls) rs with
  | ok fs => rfl
  | error e =>
    simp only [Except.mapError]
    split_ifs <;> rfl

/-- Fetching fails if there are entries and all of them are refused. -/
theorem fetch_error_iff (h : s.Lists ls rs) :
    (∃ e, (fetch.outcome s).1 = .error e) ↔
      rs ≠ [] ∧ ∀ r ∈ rs, ∃ fault, r.imported (.ofLabels ls) = .error fault := by
  rw [outcome_fetch h]
  cases hi : importAll (.ofLabels ls) rs with
  | ok fs =>
    refine ⟨fun ⟨e, he⟩ => (nomatch he), fun ⟨hne, hall⟩ => ?_⟩
    obtain ⟨r, hr⟩ := List.exists_mem_of_ne_nil rs hne
    obtain ⟨fault, hfault⟩ := hall r hr
    obtain ⟨f, -, hf⟩ := (exists_mem_of_forall₂ (importAll_eq_ok_iff.1 hi)).1 r hr
    rw [hfault] at hf
    cases hf
  | error e =>
    have hreports := reports_of_importAll hi
    have hne : rs ≠ [] := by
      obtain ⟨r, hr, -⟩ := hreports.refused
      exact List.ne_nil_of_mem hr
    rw [← hreports.filters.isEmpty_iff]
    by_cases hempty : e.filters.isEmpty = true <;> simp [hempty, hne]

/-- What is fetched is what can be imported. -/
theorem imported_of_fetch (h : s.Lists ls rs) {c : MailConfig}
    (hc : (fetch.outcome s).1 = .ok c) :
    c.labels = ls ∧ Imported (.ofLabels ls) rs c.filters := by
  rw [outcome_fetch h] at hc
  cases hi : importAll (.ofLabels ls) rs with
  | ok fs =>
    rw [hi] at hc
    obtain rfl := Except.ok.inj hc
    have hall := importAll_eq_ok_iff.1 hi
    exact ⟨rfl, (imported_iff_forall₂ (exists_forall₂_iff.1 ⟨fs, hall⟩)).2 hall⟩
  | error e =>
    rw [hi] at hc
    simp only at hc
    split_ifs at hc
    obtain rfl := Except.ok.inj hc
    exact ⟨rfl, (reports_of_importAll hi).filters⟩

theorem reports_of_fetch (h : s.Lists ls rs) {e : SyncError}
    (he : (fetch.outcome s).1 = .error e) :
    ∃ i, e = .importing i ∧ i.Reports (.ofLabels ls) rs := by
  rw [outcome_fetch h] at he
  cases hi : importAll (.ofLabels ls) rs with
  | ok fs =>
    rw [hi] at he
    cases he
  | error i =>
    rw [hi] at he
    simp only at he
    split_ifs at he
    exact ⟨i, (Except.error.inj he).symm, reports_of_importAll hi⟩

end Client

/-- **An import in part is a partition.**  If every entry can be imported, these are the filters;
otherwise the failure has those that can, in order, and the ids of all others in order of first
appearance, each with the reason of its last entry.  Fetching leaves out what is refused, and fails
only if there is nothing else; and whatever is declared, nothing is deleted by an id that only
refused entries have. -/
theorem import_partitions (rs : List RemoteFilter) :
    (∀ m : LabelMap,
      (∀ fs, importAll m rs = .ok fs ↔ List.Forall₂ (fun r f => r.imported m = .ok f) rs fs) ∧
      ∀ e, importAll m rs = .error e → e.Reports m rs) ∧
    ∀ (s : Session) (ls : List Label), s.Lists ls rs →
      ((∃ e, (Client.fetch.outcome s).1 = .error e) ↔
        rs ≠ [] ∧ ∀ r ∈ rs, ∃ fault, r.imported (.ofLabels ls) = .error fault) ∧
      (∀ e, (Client.fetch.outcome s).1 = .error e →
        ∃ i, e = .importing i ∧ i.Reports (.ofLabels ls) rs) ∧
      ∀ c, (Client.fetch.outcome s).1 = .ok c →
        c.labels = ls ∧ Imported (.ofLabels ls) rs c.filters ∧
        ∀ (declared : MailConfig) (removeLabels : Bool) (ids : List String),
          .deleteFilters ids ∈ (diff declared c).steps removeLabels →
          ∀ id ∈ ids, ∃ r ∈ rs, r.id.getD "" = id ∧ ∃ f, r.imported (.ofLabels ls) = .ok f := by
  refine ⟨fun m => ⟨fun fs => importAll_eq_ok_iff, fun e => reports_of_importAll⟩,
    fun s ls h => ⟨Client.fetch_error_iff h, fun e => Client.reports_of_fetch h, fun c hc => ?_⟩⟩
  have himported := (Client.imported_of_fetch h hc).2
  exact ⟨(Client.imported_of_fetch h hc).1, himported,
    fun declared removeLabels ids => Imported.of_deleteFilters himported⟩

/-- Entries three of which are refused: two of the same id, and one without an id. -/
def chattyEntries : List RemoteFilter := [
  { id := some "F1", criteria := { excludeChats := some true },
    action := { removeLabelIds := ["INBOX"] } },
  { id := some "F2", criteria := { sender := some "a" },
    action := { removeLabelIds := ["INBOX"] } },
  { action := { addLabelIds := ["Label_1"] } },
  { id := some "F1" }]

/-- One entry is left of these, and nothing else is ever deleted. -/
theorem import_partitions_chattyEntries :
    (∃ e, importAll (.ofLabels []) chattyEntries = .error e ∧ e.errors =
      [("F1", .action .nothing), ("", .action (.unknownLabel "Label_1"))]) ∧
    ∃ c, (Client.fetch.outcome { account := { filters := chattyEntries.map .stored } }).1 = .ok c ∧
      c.filters.length = 1 ∧
      ∀ ids, .deleteFilters ids ∈ (diff {} c).steps false → ∀ id ∈ ids, id = "F2" := by
  have hlists : Session.Lists { account := { filters := chattyEntries.map .stored } } []
      chattyEntries := ⟨rfl, rfl, by simp [Session.Allows]⟩
  have hkept : ∀ r ∈ chattyEntries, (r.imported (.ofLabels [])).isOk = true →
      r.id.getD "" = "F2" := by decide
  obtain ⟨herr, -, hok⟩ := (import_partitions chattyEntries).2 _ [] hlists
  refine ⟨⟨_, rfl, rfl⟩, ?_⟩
  cases hc : (Client.fetch.outcome { account := { filters := chattyEntries.map .stored } }).1 with
  | error e =>
    obtain ⟨fault, hfault⟩ := (herr.1 ⟨e, hc⟩).2 chattyEntries[1] (by simp)
    cases hfault
  | ok c =>
    obtain ⟨-, himported, hdeleted⟩ := hok c hc
    refine ⟨c, rfl, himported.length_eq.symm, fun ids hids id hid => ?_⟩
    obtain ⟨r, hr, rfl, hrf⟩ := hdeleted {} false ids hids id hid
    exact hkept r hr (isOk_iff.2 hrf)

end MailRules
