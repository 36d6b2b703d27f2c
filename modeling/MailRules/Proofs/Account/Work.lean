import MailRules.Proofs.Account.Requests
import Mathlib.Tactic.SplitIfs

/-!
# What work does to a session

Work in a session has a result and leaves a session behind.  What it does to the account can be
said by the requests it sends: it sends them in order, and stops at the first that fails.

* `Client.outcome` is the result of work and the session it leaves, with one equation for each way
  of putting work together.
* `Session.Took` says which requests the account has taken between two sessions.
* `Client.Follows` says which requests work sends if nothing fails; `Follows.bind` and
  `follows_forM` put such facts together.
* `Client.Yields` says what work finds out that sends no request; `yields_fetch` is what a fetched
  config says of an account.
-/

namespace MailRules

variable {α β : Type} {s s' s'' : Session}

/-! ### Outcomes -/

namespace Client

/-- The result of work in a session, and the session that it leaves. -/
def outcome (x : Client α) (s : Session) : Except SyncError α × Session := x.run.run s

theorem outcome_throw (e : SyncError) (s : Session) :
    (throw e : Client α).outcome s = (.error e, s) := rfl

theorem outcome_get (s : Session) : (get : Client Session).outcome s = (.ok s, s) := rfl

theorem outcome_set (s s' : Session) : (set s' : Client PUnit).outcome s = (.ok ⟨⟩, s') := rfl

theorem outcome_notify (n : Notice) (s : Session) :
    (notify n).outcome s = (.ok (), { s with notices := s.notices ++ [n] }) := rfl

theorem outcome_bind (x : Client α) (f : α → Client β) (s : Session) :
    (x >>= f).outcome s = match x.outcome s with
      | (.ok a, s') => (f a).outcome s'
      | (.error e, s') => (.error e, s') := by
  unfold outcome
  rw [ExceptT.run_bind, StateT.run_bind]
  rcases x.run.run s with ⟨r, s'⟩
  cases r <;> rfl

theorem outcome_catch (x : Client α) (h : SyncError → Client α) (s : Session) :
    (tryCatch x h).outcome s = match x.outcome s with
      | (.ok a, s') => (.ok a, s')
      | (.error e, s') => (h e).outcome s' := by
  unfold outcome
  change ((ExceptT.tryCatch x h).run).run s = match StateT.run x s with
    | (.ok a, s') => (.ok a, s')
    | (.error e, s') => (h e).run.run s'
  unfold ExceptT.tryCatch
  rw [ExceptT.run_mk, StateT.run_bind]
  rcases StateT.run x s with ⟨r, s'⟩
  cases r <;> rfl

/-- Work that succeeds consists of parts that succeed. -/
theorem outcome_bind_eq_ok {x : Client α} {f : α → Client β} {b : β}
    (h : (x >>= f).outcome s = (.ok b, s'')) :
    ∃ a s', x.outcome s = (.ok a, s') ∧ (f a).outcome s' = (.ok b, s'') := by
  rw [outcome_bind] at h
  rcases hx : x.outcome s with ⟨_ | a, s'⟩
  · rw [hx] at h
    cases h
  · rw [hx] at h
    exact ⟨a, s', rfl, h⟩

theorem outcome_pass (m : Method) (call : RemoteCall) (s : Session) :
    (pass m call).outcome s =
      (match (nextFailure m s.failures).1 with
        | some f => .error (.remote call f)
        | none => .ok (),
      { s with failures := (nextFailure m s.failures).2 }) := by
  unfold pass
  simp only [outcome_bind, outcome_get, outcome_set]
  cases (nextFailure m s.failures).1 <;> rfl

end Client

/-! ### Requests that were taken -/

/-- Between two sessions the account took some requests, and then refused at most one. -/
structure Session.Took (s : Session) (done refused : List Request) (s' : Session) : Prop where
  /-- The account took the first requests, one after the other. -/
  account : s.account.performAll done = .ok s'.account
  /-- All the requests were sent. -/
  requests : s'.requests = s.requests ++ done ++ refused
  /-- What was refused, the account then refuses. -/
  refuses : ∀ r ∈ refused, ∃ f, s'.account.perform r = .error f
  /-- The work stops at what is refused. -/
  atMostOne : refused.length ≤ 1

theorem Session.Took.append {ds ds' rs : List Request} (h : s.Took ds [] s')
    (h' : s'.Took ds' rs s'') : s.Took (ds ++ ds') rs s'' where
  account := Account.performAll_append_iff.2 ⟨_, h.account, h'.account⟩
  requests := by rw [h'.requests, h.requests]; simp
  refuses := h'.refuses
  atMostOne := h'.atMostOne

theorem Session.Took.of_eq (ha : s'.account = s.account) (hr : s'.requests = s.requests) :
    s.Took [] [] s' where
  account := by rw [ha, Account.performAll_nil]
  requests := by rw [hr]; simp
  refuses := by simp
  atMostOne := by simp

namespace Client

/-- Work that sends some requests in order, up to the first that fails. -/
def Follows (x : Client α) (s : Session) (rs : List Request) : Prop :=
  ∃ done refused, s.Took done refused (x.outcome s).2 ∧ done ++ refused <+: rs ∧
    ∀ a, (x.outcome s).1 = .ok a → done = rs ∧ refused = []

namespace Follows

variable {x : Client α} {f : α → Client β} {rs rs' : List Request}

/-- Work that neither changes the account nor sends a request. -/
theorem of_eq (ha : (x.outcome s).2.account = s.account)
    (hr : (x.outcome s).2.requests = s.requests) : x.Follows s [] :=
  ⟨[], [], .of_eq ha hr, List.prefix_rfl, fun _ _ => ⟨rfl, rfl⟩⟩

theorem pure (a : α) : (Pure.pure a : Client α).Follows s [] := of_eq rfl rfl

/-- Work that fails at once follows any requests. -/
theorem throw (e : SyncError) : (throw e : Client α).Follows s rs :=
  ⟨[], [], .of_eq rfl rfl, List.nil_prefix, fun _ h => nomatch h⟩

/-- Work that succeeds has sent all its requests. -/
theorem took (h : x.Follows s rs) {a : α} (hx : x.outcome s = (.ok a, s')) :
    s.Took rs [] s' := by
  obtain ⟨done, refused, ht, -, hok⟩ := h
  rw [hx] at ht hok
  obtain ⟨rfl, rfl⟩ := hok a rfl
  exact ht

theorem bind (h : x.Follows s rs)
    (h' : ∀ a s', x.outcome s = (.ok a, s') → s.Took rs [] s' → (f a).Follows s' rs') :
    (x >>= f).Follows s (rs ++ rs') := by
  rcases hx : x.outcome s with ⟨e | a, s'⟩
  -- the work stops in its first part
  · obtain ⟨done, refused, ht, hp, -⟩ := h
    refine ⟨done, refused, ?_, hp.trans (List.prefix_append _ _), ?_⟩
    · rwa [outcome_bind, hx, ← congrArg Prod.snd hx]
    · rw [outcome_bind, hx]
      intro a ha
      cases ha
  · have ht := h.took hx
    obtain ⟨done, refused, ht', hp, hok⟩ := h' a s' hx ht
    refine ⟨rs ++ done, refused, ?_, ?_, ?_⟩
    · rw [outcome_bind, hx]
      exact ht.append ht'
    · rw [List.append_assoc]
      exact (List.prefix_append_right_inj rs).2 hp
    · rw [outcome_bind, hx]
      intro b hb
      obtain ⟨rfl, rfl⟩ := hok b hb
      exact ⟨rfl, rfl⟩

/-- Work after some that sends nothing. -/
theorem bind_nil (h : x.Follows s [])
    (h' : ∀ a s', x.outcome s = (.ok a, s') → s'.account = s.account → (f a).Follows s' rs') :
    (x >>= f).Follows s rs' := by
  refine bind h fun a s' hx ht => h' a s' hx ?_
  have := ht.account
  rw [Account.performAll_nil] at this
  exact (Except.ok.inj this).symm

end Follows

/-- Work on every item of a list, where each takes one request. -/
theorem follows_forM {f : α → Client PUnit} {req : α → Request}
    (h : ∀ x s, (f x).Follows s [req x]) (xs : List α) (s : Session) :
    (forM xs f).Follows s (xs.map req) := by
  induction xs generalizing s with
  | nil => exact .pure _
  | cons x xs ih =>
    rw [List.forM_cons]
    exact (h x s).bind fun _ s' _ _ => ih s'

theorem follows_pass (m : Method) (call : RemoteCall) (s : Session) :
    (pass m call).Follows s [] :=
  .of_eq (by rw [outcome_pass]) (by rw [outcome_pass])

theorem follows_notify (n : Notice) (s : Session) : (notify n).Follows s [] := .of_eq rfl rfl

theorem follows_send (call : RemoteCall) (r : Request) (s : Session) :
    (send call r).Follows s [r] := by
  refine (follows_pass _ _ _).bind_nil fun _ s' _ _ => ?_
  unfold Follows
  simp only [outcome_bind, outcome_get]
  cases hp : s'.account.perform r with
  | ok account =>
    simp only [outcome_set]
    refine ⟨[r], [], ⟨?_, by simp, by simp, by simp⟩, List.prefix_rfl, fun _ _ => ⟨rfl, rfl⟩⟩
    exact Account.performAll_cons_iff.2 ⟨account, hp, Account.performAll_nil⟩
  | error f =>
    simp only [outcome_bind, outcome_set, outcome_throw]
    refine ⟨[], [r], ⟨rfl, by simp, ?_, by simp⟩, List.prefix_rfl, fun _ h => nomatch h⟩
    intro r' hr'
    rw [List.mem_singleton.1 hr']
    exact ⟨f, hp⟩

/-! ### Batches of requests -/

theorem follows_addLabels (ls : List Label) (s : Session) :
    (addLabels ls).Follows s (ls.map Label.creation) :=
  follows_forM (fun _ _ => follows_send _ _ _) ls s

theorem follows_updateLabels (ls : List Label) (s : Session) :
    (updateLabels ls).Follows s (ls.map Label.change) := by
  refine follows_forM (fun l s => ?_) ls s
  by_cases hid : l.id = ""
  · rw [if_pos hid]
    exact .throw _
  · rw [if_neg hid]
    exact follows_send _ _ _

theorem follows_deleteLabels (ids : List String) (s : Session) :
    (deleteLabels ids).Follows s (ids.map .deleteLabel) :=
  follows_forM (fun _ _ => follows_send _ _ _) ids s

theorem follows_deleteFilters (ids : List String) (s : Session) :
    (deleteFilters ids).Follows s (ids.map .deleteFilter) :=
  follows_forM (fun _ _ => follows_send _ _ _) ids s

theorem follows_createFiltersFrom (i : Nat) (rs : List RemoteFilter) (s : Session) :
    (createFiltersFrom i rs).Follows s (rs.map RemoteFilter.creation) := by
  induction rs generalizing i s with
  | nil => exact .pure _
  | cons r rs ih => exact (follows_send _ _ _).bind fun _ s' _ _ => ih (i + 1) s'

end Client

/-! ### Listing -/

namespace Account

/-- The labels that the user has in an account. -/
def userLabels (a : Account) : Option (List Label) :=
  (Entry.readAll readRemoteLabel a.labels).map (·.filterMap RemoteLabel.label?)

/-- The filters of an account that a config can say. -/
def knownFilters (a : Account) : Option (List Filter) :=
  a.userLabels.bind fun ls =>
    (Entry.readAll readRemoteFilter a.filters).map (importable (.ofLabels ls))

/-- The stored forms of filters that are to be added to an account.  Without filters there is no
need to look at its labels. -/
def exports (a : Account) (fs : List Filter) : Option (List RemoteFilter) :=
  if fs.isEmpty then some []
  else a.userLabels.bind fun ls => (exportAll (.ofLabels ls) fs).toOption

theorem exports_eq {a : Account} {fs : List Filter} {ls : List Label}
    (h : a.userLabels = some ls) : a.exports fs = (exportAll (.ofLabels ls) fs).toOption := by
  unfold exports
  split_ifs with hfs
  · rw [List.isEmpty_iff.1 hfs]
    rfl
  · rw [h, Option.bind_some]

end Account

namespace Client

/-- Work that changes nothing but the notices and the failures that lie ahead, and whose result
has a property. -/
structure Yields (x : Client α) (s : Session) (P : Except SyncError α → Prop) : Prop where
  /-- The account is as it was. -/
  account : (x.outcome s).2.account = s.account
  /-- No request was sent. -/
  requests : (x.outcome s).2.requests = s.requests
  /-- The result has the property. -/
  result : P (x.outcome s).1

namespace Yields

variable {x : Client α} {f : α → Client β} {P : Except SyncError α → Prop}
  {Q : Except SyncError β → Prop}

theorem follows (h : x.Yields s P) : x.Follows s [] := .of_eq h.account h.requests

theorem bind (h : x.Yields s P)
    (hok : ∀ a s', s'.account = s.account → P (.ok a) → (f a).Yields s' Q)
    (herr : ∀ e, P (.error e) → Q (.error e)) : (x >>= f).Yields s Q := by
  obtain ⟨ha, hr, hp⟩ := h
  rcases hx : x.outcome s with ⟨e | a, s'⟩ <;> rw [hx] at ha hr hp
  · refine ⟨?_, ?_, ?_⟩ <;> rw [outcome_bind, hx]
    · exact ha
    · exact hr
    · exact herr e hp
  · obtain ⟨ha', hr', hq⟩ := hok a s' ha hp
    refine ⟨?_, ?_, ?_⟩ <;> rw [outcome_bind, hx]
    · exact ha'.trans ha
    · exact hr'.trans hr
    · exact hq

theorem tryCatch {g : SyncError → Client α} {Q : Except SyncError α → Prop} (h : x.Yields s P)
    (hok : ∀ a, P (.ok a) → Q (.ok a))
    (herr : ∀ e s', s'.account = s.account → P (.error e) → (g e).Yields s' Q) :
    (MonadExcept.tryCatch x g).Yields s Q := by
  obtain ⟨ha, hr, hp⟩ := h
  rcases hx : x.outcome s with ⟨e | a, s'⟩ <;> rw [hx] at ha hr hp
  · obtain ⟨ha', hr', hq⟩ := herr e s' ha hp
    refine ⟨?_, ?_, ?_⟩ <;> rw [outcome_catch, hx]
    · exact ha'.trans ha
    · exact hr'.trans hr
    · exact hq
  · refine ⟨?_, ?_, ?_⟩ <;> rw [outcome_catch, hx]
    · exact ha
    · exact hr
    · exact hok a hp

theorem pure {a : α} (h : P (.ok a)) : (Pure.pure a : Client α).Yields s P := ⟨rfl, rfl, h⟩

theorem throw {e : SyncError} (h : P (.error e)) : (throw e : Client α).Yields s P := ⟨rfl, rfl, h⟩

theorem throw_bind {e : SyncError} (f : α → Client β) (h : Q (.error e)) :
    ((MonadExcept.throw e : Client α) >>= f).Yields s Q := ⟨rfl, rfl, h⟩

theorem get {P : Except SyncError Session → Prop} (h : P (.ok s)) :
    (MonadState.get : Client Session).Yields s P := ⟨rfl, rfl, h⟩

end Yields

/-- The given value, or a failure that has nothing to do with importing. -/
def Gives (v : Option α) : Except SyncError α → Prop
  | .ok a => v = some a
  | .error (.importing _) => False
  | .error _ => True

theorem yields_pass (m : Method) (call : RemoteCall) (s : Session) :
    (pass m call).Yields s (Gives (some ())) := by
  refine ⟨by rw [outcome_pass], by rw [outcome_pass], ?_⟩
  rw [outcome_pass]
  cases (nextFailure m s.failures).1 <;> trivial

/-- The failure of a step is the failure of the whole. -/
theorem Gives.error {v : Option α} {w : Option β} {e : SyncError} (h : Gives v (.error e)) :
    Gives w (.error e) := by
  cases e <;> exact h

theorem yields_readEntries (read : Value → Checked α) (es : List (Entry α)) (s : Session) :
    (readEntries read es).Yields s (Gives (Entry.readAll read es)) := by
  unfold readEntries
  induction es generalizing s with
  | nil =>
    rw [List.mapM_nil]
    exact .pure rfl
  | cons e es ih =>
    rw [List.mapM_cons]
    unfold Entry.readAll
    cases e.read read with
    | refused ps =>
      refine Yields.bind (.throw (P := Gives none) trivial) (fun a s' _ h => ?_)
        fun _ => Gives.error
      cases h
    | ok a =>
      rw [pure_bind]
      refine (ih s).bind (fun rs s' _ h => .pure ?_) fun _ => Gives.error
      rw [h]
      rfl

theorem yields_listLabels (s : Session) : listLabels.Yields s (Gives s.account.userLabels) := by
  unfold listLabels
  refine (yields_pass _ _ _).bind (fun _ s₁ h₁ _ => ?_) fun _ => Gives.error
  refine (Yields.get (P := Gives (some s₁)) rfl).bind (fun t s₂ h₂ ht => ?_) fun _ => Gives.error
  cases ht
  refine (yields_readEntries _ _ _).bind (fun rs s₃ _ hrs => .pure ?_) fun _ => Gives.error
  unfold Account.userLabels
  rw [← h₁, hrs]
  rfl

/-- What listing the filters of an account comes to. -/
def ListsFilters (a : Account) : Except SyncError (List Filter) → Prop
  | .ok fs => a.knownFilters = some fs
  | .error (.importing e) => a.knownFilters = some e.filters
  | .error _ => True

theorem ListsFilters.error {v : Option α} {a : Account} {e : SyncError}
    (h : Gives v (.error e)) : ListsFilters a (.error e) := by
  cases e with
  | importing i => exact h.elim
  | _ => trivial

theorem listsFilters_importAll {m : LabelMap} {rs : List RemoteFilter} {a : Account}
    (h : a.knownFilters = some (importable m rs)) :
    ListsFilters a (match importAll m rs with
      | .ok fs => .ok fs
      | .error e => .error (.importing e)) := by
  unfold importAll
  by_cases he : (importReasons m rs).isEmpty = true
  · rw [if_pos he]
    exact h
  · rw [if_neg he]
    exact h

theorem yields_listFilters (s : Session) : listFilters.Yields s (ListsFilters s.account) := by
  unfold listFilters
  refine (yields_pass _ _ _).bind (fun _ s₁ h₁ _ => ?_) fun _ => ListsFilters.error
  refine (Yields.get (P := Gives (some s₁)) rfl).bind (fun t s₂ h₂ ht => ?_)
    fun _ => ListsFilters.error
  cases ht
  refine (yields_readEntries _ _ _).bind (fun rs s₃ h₃ hrs => ?_) fun _ => ListsFilters.error
  refine (yields_listLabels _).bind (fun ls s₄ _ hls => ?_) fun _ => ListsFilters.error
  rw [h₃, h₂] at hls
  have hk : s.account.knownFilters = some (importable (.ofLabels ls) rs) := by
    unfold Account.knownFilters
    rw [← h₁, hls, hrs]
    rfl
  have := listsFilters_importAll hk
  cases hi : importAll (.ofLabels ls) rs with
  | ok fs =>
    rw [hi] at this
    exact .pure this
  | error e =>
    rw [hi] at this
    exact .throw this

/-- **What is fetched is what the account holds**, as far as a config can say it. -/
theorem yields_fetch (s : Session) : fetch.Yields s fun r => ∀ c, r = .ok c →
    s.account.userLabels = some c.labels ∧ s.account.knownFilters = some c.filters := by
  unfold fetch
  refine (yields_listLabels _).bind (fun ls s₁ h₁ hls => ?_) fun _ _ _ h => nomatch h
  have hs : ∀ c : MailConfig, c.labels = ls → s.account.knownFilters = some c.filters →
      s.account.userLabels = some c.labels ∧ s.account.knownFilters = some c.filters := by
    rintro c rfl hc
    exact ⟨hls, hc⟩
  -- both the attempt and its rescue return early with a config
  refine Yields.bind (P := fun r => ∀ x, r = .ok x → ∃ c : MailConfig, x = Except.error c ∧
    c.labels = ls ∧ s.account.knownFilters = some c.filters) (Yields.tryCatch
      (P := fun r => (∀ x, r = .ok x → ∃ c : MailConfig, x = Except.error c ∧
        c.labels = ls ∧ s.account.knownFilters = some c.filters) ∧
        ∀ e, r = .error e → ListsFilters s.account (.error e)) ?_ ?_ ?_) ?_ ?_
  · refine (yields_listFilters _).bind (fun fs s₂ h₂ hfs => .pure ⟨?_, ?_⟩) fun e he => ⟨?_, ?_⟩
    · rintro x hx
      cases hx
      exact ⟨_, rfl, rfl, h₁ ▸ hfs⟩
    · intro e he
      cases he
    · intro x hx
      cases hx
    · rintro e' he'
      cases he'
      exact h₁ ▸ he
  · exact fun a h => h.1
  · intro e s₂ h₂ h
    have he := h.2 e rfl
    cases e with
    | importing i =>
      by_cases hi : i.filters.isEmpty = true
      · simp only [hi, if_true]
        exact .throw_bind _ fun _ h => nomatch h
      · simp only [hi]
        refine Yields.bind (P := Gives (some ())) ⟨rfl, rfl, rfl⟩ (fun _ s₃ _ _ => .pure ?_)
          fun _ _ _ h => nomatch h
        intro x hx
        cases hx
        exact ⟨_, rfl, rfl, he⟩
    | _ => exact .throw_bind _ fun _ h => nomatch h
  · intro x s₂ h₂ h
    obtain ⟨c, rfl, hl, hf⟩ := h x rfl
    refine .pure fun c' hc => ?_
    cases hc
    exact hs c hl hf
  · intro e _ c hc
    cases hc

theorem userLabels_of_listLabels {ls : List Label}
    (h : listLabels.outcome s = (.ok ls, s')) : s.account.userLabels = some ls := by
  have hy := (yields_listLabels s).result
  rwa [h] at hy

/-- Filters are added only if all of them can be exported. -/
theorem follows_addFilters (fs : List Filter) (s : Session) :
    (addFilters fs).Follows s (((s.account.exports fs).getD []).map RemoteFilter.creation) := by
  unfold addFilters
  refine (yields_listLabels s).follows.bind_nil fun ls s' hx _ => ?_
  rw [Account.exports_eq (userLabels_of_listLabels hx)]
  cases exportAll (.ofLabels ls) fs with
  | error e => exact .throw _
  | ok rs => exact follows_createFiltersFrom _ _ _

theorem exports_of_addFilters {fs : List Filter} (h : (addFilters fs).outcome s = (.ok (), s')) :
    ∃ rs, s.account.exports fs = some rs := by
  unfold addFilters at h
  obtain ⟨ls, s₁, hls, h⟩ := outcome_bind_eq_ok h
  rw [Account.exports_eq (userLabels_of_listLabels hls)]
  cases hexp : exportAll (.ofLabels ls) fs with
  | error e =>
    rw [hexp] at h
    cases h
  | ok rs => exact ⟨rs, rfl⟩

end Client

end MailRules
