import MailRules.Proofs.Config.Document

/-!
# Nothing in a config is ignored

A document that is loaded holds no member that stands for nothing, however deep it is.

* `Place` is a kind of object in a config, and `Place.fields` are its fields: the accepted names of
  each, and the `Shape` of what stands there.
* `Accounted` says that every member of an object is named as a field, no two as the same one, and
  `Strict` that all objects in a value are accounted for.
* `ReadsStrict` says that a reading refuses a value that is not strict.  `Covers` says so of the
  readings of some fields; together with the refusal of other members it is that of an object
  (`readsStrict_object`).  `readsStrict_node` is a whole expression, `readsStrict_config` a config.
* `Value.at?` is the part of a value at a path, and `Value.modifyAt` changes it.  The objects of a
  strict value are found at the places that the same path leads to in the shape (`Strict.at?`).
-/

namespace MailRules

variable {α β : Type} {ms : Members}

/-! ### Fields of objects -/

/-- The kinds of objects in a config. -/
inductive Place where
  | config | author | label | color | rule | node | actions
  deriving DecidableEq

/-- What may stand in a field. -/
inductive Shape where
  /-- A value without fields. -/
  | plain
  /-- A list of values of one shape. -/
  | list (items : Shape)
  /-- An object of a kind. -/
  | object (p : Place)
  deriving DecidableEq

namespace Place

/-- The fields of an object: the accepted names of each, and what stands there. -/
def fields : Place → List (List String × Shape)
  | .config => [(["version"], .plain), (["author"], .object .author),
    (["labels"], .list (.object .label)), (["rules"], .list (.object .rule))]
  | .author => [(["name"], .plain), (["email"], .plain)]
  | .label => [(["name"], .plain), (["color"], .object .color)]
  | .color => [(["background"], .plain), (["text"], .plain)]
  | .rule => [(["filter"], .object .node), (["actions"], .object .actions)]
  | .node => [(["and", "and_"], .list (.object .node)), (["or", "or_"], .list (.object .node)),
    (["not", "not_"], .object .node), (["from", "from_"], .plain), (["to"], .plain),
    (["cc"], .plain), (["bcc"], .plain), (["replyto", "replyTo", "reply_to"], .plain),
    (["subject"], .plain), (["list", "list_"], .plain), (["has"], .plain), (["query"], .plain),
    (["isRaw", "is_raw"], .plain)]
  | .actions => [(["archive"], .plain), (["delete"], .plain), (["markRead", "mark_read"], .plain),
    (["star"], .plain), (["markSpam", "mark_spam"], .plain),
    (["markImportant", "mark_important"], .plain), (["category"], .plain),
    (["labels"], .list .plain), (["forward"], .plain)]

/-- The accepted names of the fields of an object. -/
def names (p : Place) : List (List String) := p.fields.map (·.1)

/-- What stands in the field of the given name. -/
def shape? (p : Place) (name : String) : Option Shape :=
  (p.fields.find? fun f => f.1.contains name).map (·.2)

section

variable {p : Place} {f : List String × Shape} {n : String} {s : Shape}

/-- No name is accepted for two fields. -/
theorem field_unique : ∀ f ∈ p.fields, ∀ g ∈ p.fields, ∀ n ∈ f.1, n ∈ g.1 → f = g := by
  cases p <;> decide

theorem shape?_eq_some : p.shape? n = some s ↔ ∃ f ∈ p.fields, n ∈ f.1 ∧ f.2 = s := by
  rw [shape?, Option.map_eq_some_iff]
  constructor
  · rintro ⟨f, hf, rfl⟩
    exact ⟨f, List.mem_of_find?_eq_some hf, by simpa using List.find?_some hf, rfl⟩
  · rintro ⟨f, hf, hn, rfl⟩
    obtain ⟨g, hg⟩ : ∃ g, (p.fields.find? fun f => f.1.contains n) = some g :=
      Option.isSome_iff_exists.1 (List.find?_isSome.2 ⟨f, hf, by simpa using hn⟩)
    have hgn : n ∈ g.1 := by simpa using List.find?_some hg
    exact ⟨g, hg, by rw [field_unique g (List.mem_of_find?_eq_some hg) f hf n hgn hn]⟩

end

end Place

/-! ### Strict values -/

/-- Whether a member of the given name stands in the field with the accepted names. -/
def Spells (ns : List String) (k : Scalar) : Prop :=
  ∃ n ∈ ns, k = .str n

/-- Every member is named as a field, and no two members of different names as the same one.  Since a
decoded mapping has one member of a name, no field has two members. -/
structure Accounted (names : List (List String)) (ms : Members) : Prop where
  accepted : ∀ m ∈ ms, ∃ ns ∈ names, Spells ns m.1
  single : ms.Pairwise fun m m' => m.1 ≠ m'.1 → ∀ ns ∈ names, ¬(Spells ns m.1 ∧ Spells ns m'.1)

/-- A value of a shape in which all objects are accounted for. -/
inductive Strict : Shape → Value → Prop
  | scalar {s : Shape} {k : Scalar} : Strict s (.scalar k)
  | list {s : Shape} {xs : List Value} (items : ∀ x ∈ xs, Strict s x) : Strict (.list s) (.list xs)
  | object {p : Place} {ms : Members} (root : Accounted p.names ms)
      (members : ∀ n v s, Value.member? n ms = some v → p.shape? n = some s → Strict s v) :
      Strict (.object p) (.map ms)

section

variable {p : Place} {s : Shape} {v : Value} {x : Checked α}

/-- A member that is not refused is the one that is read for its field. -/
theorem exists_field (h : otherMembers p.names ms = []) {m : Scalar × Value} (hm : m ∈ ms) :
    ∃ f ∈ p.fields, ∃ n v, findNamed ms f.1 = some (n, v) ∧ m.1 = .str n ∧ n ∈ f.1 := by
  obtain ⟨ns, hns, n, v, hfind, hname⟩ := otherMembers_eq_nil_iff.1 h m hm
  obtain ⟨f, hf, rfl⟩ := List.mem_map.1 hns
  exact ⟨f, hf, n, v, hfind, hname, (of_findNamed hfind).1⟩

theorem accounted_of_otherMembers (h : otherMembers p.names ms = []) : Accounted p.names ms := by
  refine ⟨fun m hm => ?_, List.pairwise_of_forall_mem_list fun m hm m' hm' hne ns hns hboth => ?_⟩
  · obtain ⟨f, hf, n, -, -, hname, hn⟩ := exists_field h hm
    exact ⟨f.1, List.mem_map_of_mem hf, n, hn, hname⟩
  · obtain ⟨g, hg, rfl⟩ := List.mem_map.1 hns
    obtain ⟨f, hf, n, v, hfind, hname, hn⟩ := exists_field h hm
    obtain ⟨f', hf', n', v', hfind', hname', hn'⟩ := exists_field h hm'
    obtain ⟨⟨k, hk, hmk⟩, k', hk', hmk'⟩ := hboth
    obtain rfl := Scalar.str.inj (hname.symm.trans hmk)
    obtain rfl := Scalar.str.inj (hname'.symm.trans hmk')
    -- both members are the one that is read for the field
    obtain rfl := Place.field_unique f hf g hg n hn hk
    obtain rfl := Place.field_unique f' hf' f hf n' hn' hk'
    rw [hfind] at hfind'
    obtain ⟨rfl, -⟩ := Prod.mk.inj (Option.some.inj hfind')
    exact hne (hname.trans hname'.symm)

/-- An object without other members is strict if what is read for its fields is. -/
theorem strict_object (h : otherMembers p.names ms = [])
    (hfields : ∀ f ∈ p.fields, ∀ n v, findNamed ms f.1 = some (n, v) → Strict f.2 v) :
    Strict (.object p) (.map ms) := by
  refine .object (accounted_of_otherMembers h) fun n v s hv hs => ?_
  obtain ⟨g, hg, hng, rfl⟩ := Place.shape?_eq_some.1 hs
  obtain ⟨f, hf, n', v', hfind, hname, hn⟩ := exists_field h (mem_of_member? hv)
  obtain rfl := Scalar.str.inj hname
  obtain rfl := Place.field_unique f hf g hg n hn hng
  have hv' := (of_findNamed hfind).2
  rw [hv] at hv'
  exact Option.some.inj hv' ▸ hfields f hf _ _ hfind

/-! ### Readings of strict values -/

/-- A reading that refuses a value unless it is strict. -/
def ReadsStrict (read : Value → Checked α) (s : Shape) (v : Value) : Prop :=
  ∀ a, read v = .ok a → Strict s v

theorem readsStrict_plain {read : Value → Checked α} (hlist : ∀ xs a, read (.list xs) ≠ .ok a)
    (hmap : ∀ ms a, read (.map ms) ≠ .ok a) (v : Value) : ReadsStrict read .plain v := by
  intro a h
  cases v with
  | scalar k => exact .scalar
  | list xs => exact absurd h (hlist xs a)
  | map ms => exact absurd h (hmap ms a)

theorem readsStrict_text : ∀ v, ReadsStrict readText .plain v :=
  readsStrict_plain nofun nofun

theorem readsStrict_flag : ∀ v, ReadsStrict readFlag .plain v :=
  readsStrict_plain nofun nofun

theorem readsStrict_choice (ofName? : String → Option α) :
    ∀ v, ReadsStrict (readChoice ofName?) .plain v :=
  readsStrict_plain nofun nofun

theorem readsStrict_version : ∀ v, ReadsStrict readVersion .plain v :=
  readsStrict_plain nofun nofun

theorem readsStrict_nullable {read : Value → Checked α} (h : ReadsStrict read s v) :
    ReadsStrict (nullable read) s v := by
  intro o ho
  unfold nullable at ho
  split at ho
  · exact .scalar
  · obtain ⟨a, ha, -⟩ := Checked.map_eq_ok.1 ho
    exact h a ha

theorem readsStrict_list {read : Value → Checked α}
    (h : ∀ xs, v = .list xs → ∀ x ∈ xs, ReadsStrict read s x) :
    ReadsStrict (readList read) (.list s) v := by
  intro as has
  cases v with
  | scalar k => exact .scalar
  | map ms => cases has
  | list xs =>
    refine .list fun x hx => ?_
    have hread := List.mem_map_of_mem (f := read) hx
    rw [Checked.sequence_eq_ok.1 has] at hread
    obtain ⟨a, -, ha⟩ := List.mem_map.1 hread
    exact h xs rfl x hx a ha.symm

/-- A reading of members that refuses them unless what is read for the given fields is strict. -/
def Covers (ms : Members) (fs : List (List String × Shape)) (x : Checked α) : Prop :=
  ∀ a, x = .ok a → ∀ f ∈ fs, ∀ n v, findNamed ms f.1 = some (n, v) → Strict f.2 v

namespace Covers

variable {fs gs : List (List String × Shape)}

theorem map (h : Covers ms fs x) (f : α → β) : Covers ms fs (x.map f) := by
  intro b hb
  obtain ⟨a, ha, -⟩ := Checked.map_eq_ok.1 hb
  exact h a ha

theorem ap {f : Checked (α → β)} (hf : Covers ms fs f) (hx : Covers ms gs x) :
    Covers ms (fs ++ gs) (f.ap x) := by
  intro b hb
  obtain ⟨g, a, hg, ha, -⟩ := Checked.ap_eq_ok.1 hb
  exact fun p hp => (List.mem_append.1 hp).elim (hf g hg p) (hx a ha p)

/-- The readings of all fields make up that of an object. -/
theorem strict {a : α} (h : Covers ms fs x) (hfs : fs = p.fields)
    (ha : x.closed p.names ms = .ok a) : Strict (.object p) (.map ms) := by
  obtain ⟨hx, hclosed⟩ := Checked.closed_eq_ok.1 ha
  exact strict_object hclosed (hfs ▸ h a hx)

end Covers

theorem covers_defaulted {ns : List String} {absent : α} {read : Value → Checked α}
    (h : ∀ n v, findNamed ms ns = some (n, v) → ReadsStrict read s v) :
    Covers ms [(ns, s)] (defaulted ms ns absent read) := by
  intro a ha f hf n v hfind
  obtain rfl := List.mem_singleton.1 hf
  rw [defaulted, hfind] at ha
  exact h n v hfind a (Checked.within_eq_ok.1 ha)

theorem covers_optional {ns : List String} {read : Value → Checked α}
    (h : ∀ n v, findNamed ms ns = some (n, v) → ReadsStrict read s v) :
    Covers ms [(ns, s)] (optional ms ns read) :=
  covers_defaulted fun n v hfind => readsStrict_nullable (h n v hfind)

theorem covers_required {ns : List String} {read : Value → Checked α}
    (h : ∀ v, ReadsStrict read s v) : Covers ms [(ns, s)] (required ms ns read) := by
  intro a ha f hf n v hfind
  obtain rfl := List.mem_singleton.1 hf
  rw [required, hfind] at ha
  exact h v a (Checked.within_eq_ok.1 ha)

theorem readsStrict_object (p : Place) {fs : List (List String × Shape)}
    {read : Members → Checked α} (h : ∀ ms, Covers ms fs (read ms)) (hfs : fs = p.fields)
    (v : Value) :
    ReadsStrict (readObject fun ms => (read ms).closed p.names ms) (.object p) v := by
  intro a ha
  obtain ⟨ms, rfl, hms⟩ := readObject_eq_ok.1 ha
  exact (h ms).strict hfs hms

end

/-! ### The parts of a config -/

section

variable {s : Shape} {ns : List String}

theorem covers_text : Covers ms [(ns, .plain)] (optional ms ns readText) :=
  covers_optional fun _ v _ => readsStrict_text v

theorem covers_flag : Covers ms [(ns, .plain)] (defaulted ms ns false readFlag) :=
  covers_defaulted fun _ v _ => readsStrict_flag v

theorem covers_items {read : Value → Checked α} (h : ∀ v, ReadsStrict read s v) :
    Covers ms [(ns, .list s)] (defaulted ms ns [] (readList read)) :=
  covers_defaulted fun _ _ _ => readsStrict_list fun _ _ x _ => h x

theorem readsStrict_author : ∀ v, ReadsStrict readAuthor (.object .author) v :=
  readsStrict_object .author
    (fun _ => ((covers_defaulted fun _ v _ => readsStrict_text v).map Author.mk).ap
      (covers_defaulted fun _ v _ => readsStrict_text v)) rfl

theorem readsStrict_color : ∀ v, ReadsStrict readColor (.object .color) v :=
  readsStrict_object .color
    (fun _ => ((covers_required readsStrict_text).map LabelColor.mk).ap
      (covers_required readsStrict_text)) rfl

theorem readsStrict_label : ∀ v, ReadsStrict readLabel (.object .label) v :=
  readsStrict_object .label
    (fun _ => ((covers_required readsStrict_text).map LabelDecl.mk).ap
      (covers_optional fun _ v _ => readsStrict_color v)) rfl

theorem covers_matches :
    Covers ms ((Place.fields .node).extract 3 12) (readFieldMatches ms) :=
  ((((((((covers_text.map FieldMatches.mk).ap covers_text).ap covers_text).ap covers_text).ap
    covers_text).ap covers_text).ap covers_text).ap covers_text).ap covers_text

/-- **An expression that is read is strict**, however deep it is. -/
theorem readsStrict_node : ∀ v, ReadsStrict readNode (.object .node) v
  | .scalar _ => fun _ _ => .scalar
  | .list _ => fun a h => by
    rw [readNode] at h
    · cases h
    · exact fun _ => Value.noConfusion
  | .map ms => fun a h => by
    have hnode : ∀ v, sizeOf v < sizeOf ms → ReadsStrict readNode (.object .node) v :=
      fun v _ => readsStrict_node v
    have hone : ∀ {ns : List String} n v, findNamed ms ns = some (n, v) →
        ReadsStrict readNode (.object .node) v :=
      fun n v hfind => hnode v (sizeOf_findNamed_lt hfind)
    have hmany : ∀ {ns : List String} n v, findNamed ms ns = some (n, v) →
        ReadsStrict (readList readNode) (.list (.object .node)) v := by
      refine fun n v hfind => readsStrict_list fun xs hv x hx => hnode x ?_
      have hv' := sizeOf_findNamed_lt hfind
      have hx' := List.sizeOf_lt_of_mem hx
      rw [hv, Value.list.sizeOf_spec] at hv'
      omega
    rw [readNode_map] at h
    exact Covers.strict (((((covers_optional hmany).map FilterNode.mk).ap
      (covers_optional hmany)).ap (covers_optional hone)).ap covers_matches |>.ap covers_flag) rfl h
termination_by v => sizeOf v

theorem readsStrict_actions : ∀ v, ReadsStrict readActions (.object .actions) v :=
  readsStrict_object .actions
    (fun _ => ((((((((covers_flag.map Actions.mk).ap covers_flag).ap covers_flag).ap
      covers_flag).ap (covers_optional fun _ v _ => readsStrict_flag v)).ap
      (covers_optional fun _ v _ => readsStrict_flag v)).ap
      (covers_optional fun _ v _ => readsStrict_choice Category.ofName? v)).ap
      (covers_items readsStrict_text)).ap covers_text) rfl

theorem readsStrict_rule : ∀ v, ReadsStrict readRule (.object .rule) v :=
  readsStrict_object .rule
    (fun _ => ((covers_required readsStrict_node).map RuleDecl.mk).ap
      (covers_required readsStrict_actions)) rfl

theorem readsStrict_config : ∀ v, ReadsStrict readConfig (.object .config) v :=
  readsStrict_object .config
    (fun _ => ((((covers_required readsStrict_version).map fun _ => Config.mk).ap
      (covers_optional fun _ v _ => readsStrict_author v)).ap
      (covers_items readsStrict_label)).ap (covers_items readsStrict_rule)) rfl

end

/-! ### Parts of a value -/

namespace Value

/-- A step into a value: to a member of a mapping or to an item of a list. -/
inductive Step where
  /-- To the member of a name. -/
  | member (name : String)
  /-- To the item at a position. -/
  | item (i : Nat)

/-- The part of a value that a step leads to. -/
def child? : Step → Value → Option Value
  | .member n, .map ms => member? n ms
  | .item i, .list xs => xs[i]?
  | _, _ => none

/-- The part of a value at a path. -/
def at? : List Step → Value → Option Value
  | [], v => some v
  | st :: π, v => (v.child? st).bind (at? π)

/-- A value with the part changed that a step leads to. -/
def modifyChild (st : Step) (f : Value → Value) (v : Value) : Value :=
  match st, v with
  | .member n, .map ms =>
    match member? n ms with
    | some w => .map (putMember (.str n) (f w) ms)
    | none => .map ms
  | .item i, .list xs => .list (xs.modify i f)
  | _, v => v

/-- A value with the part at a path changed. -/
def modifyAt : List Step → (Value → Value) → Value → Value
  | [], f, v => f v
  | st :: π, f, v => v.modifyChild st (modifyAt π f)

/-- A mapping with a further member. -/
def withMember (k : Scalar) (w : Value) : Value → Value
  | .map ms => .map (putMember k w ms)
  | v => v

theorem child?_modifyChild (st : Step) (f : Value → Value) (v : Value) :
    (v.modifyChild st f).child? st = (v.child? st).map f := by
  cases st with
  | member n =>
    cases v with
    | map ms =>
      cases h : member? n ms with
      | none => simp [modifyChild, child?, h]
      | some w => simp [modifyChild, child?, h, member?_putMember_self]
    | _ => rfl
  | item i =>
    cases v with
    | list xs => simp [modifyChild, child?]
    | _ => rfl

/-- A change at a path is found there. -/
theorem at?_modifyAt (π : List Step) (f : Value → Value) (v : Value) :
    (v.modifyAt π f).at? π = (v.at? π).map f := by
  induction π generalizing v with
  | nil => rfl
  | cons st π ih =>
    rw [modifyAt, at?, child?_modifyChild, at?]
    cases v.child? st with
    | none => rfl
    | some w => exact ih w

end Value

namespace Shape

/-- The shape of what a step leads to. -/
def child? : Value.Step → Shape → Option Shape
  | .member n, .object p => p.shape? n
  | .item _, .list s => some s
  | _, _ => none

/-- The shape of what stands at a path. -/
def at? : List Value.Step → Shape → Option Shape
  | [], s => some s
  | st :: π, s => (s.child? st).bind (at? π)

end Shape

section

variable {s : Shape} {v w : Value} {names : List (List String)} {k : Scalar}

namespace Strict

theorem child? {st : Value.Step} (h : Strict s v) (hw : v.child? st = some w) :
    ∃ t, s.child? st = some t ∧ Strict t w := by
  cases h with
  | scalar => cases st <;> cases hw
  | list items =>
    cases st with
    | member n => cases hw
    | item i => exact ⟨_, rfl, items w (List.mem_of_getElem? hw)⟩
  | @object p ms root members =>
    cases st with
    | item i => cases hw
    | member n =>
      obtain ⟨ns, hns, n', hn, hname⟩ := root.accepted _ (mem_of_member? hw)
      obtain rfl := Scalar.str.inj hname
      obtain ⟨f, hf, rfl⟩ := List.mem_map.1 hns
      have hshape : p.shape? n = some f.2 := Place.shape?_eq_some.2 ⟨f, hf, hn, rfl⟩
      exact ⟨f.2, hshape, members n w f.2 hw hshape⟩

/-- What stands at a path of a strict value is strict, and has the shape at that path. -/
theorem at? {π : List Value.Step} (h : Strict s v) (hw : v.at? π = some w) :
    ∃ t, s.at? π = some t ∧ Strict t w := by
  induction π generalizing s v with
  | nil => exact ⟨s, rfl, Option.some.inj hw ▸ h⟩
  | cons st π ih =>
    obtain ⟨u, hu, huw⟩ := Option.bind_eq_some_iff.1 hw
    obtain ⟨t, ht, hstrict⟩ := h.child? hu
    obtain ⟨t', ht', hstrict'⟩ := ih hstrict huw
    exact ⟨t', by rw [Shape.at?, ht]; exact ht', hstrict'⟩

end Strict

/-- A member with a new name is the last. -/
theorem putMember_of_new (h : ∀ m ∈ ms, m.1.sameName k = false) :
    Value.putMember k w ms = ms ++ [(k, w)] := by
  induction ms with
  | nil => rfl
  | cons m ms ih =>
    obtain ⟨hm, hms⟩ := List.forall_mem_cons.1 h
    rw [Value.putMember, if_neg (Bool.eq_false_iff.1 hm), ih hms, List.cons_append]

theorem mem_putMember_of_accounted (h : Accounted names ms) (hk : ∀ ns ∈ names, ¬Spells ns k) :
    (k, w) ∈ Value.putMember k w ms := by
  rw [putMember_of_new fun m hm => ?_]
  · exact List.mem_append_right _ List.mem_cons_self
  · obtain ⟨ns, hns, n, hn, hname⟩ := h.accepted m hm
    rw [hname, Bool.eq_false_iff, Ne, str_sameName]
    exact fun hkn => hk ns hns ⟨n, hn, hkn⟩

theorem Value.at?_scalar {π : List Value.Step} {j : Scalar} (h : (Value.scalar j).at? π = some v) :
    v = .scalar j := by
  cases π with
  | nil => exact (Option.some.inj h).symm
  | cons st π => cases st <;> cases h

/-- A member added to a mapping at a path leaves alone what is no mapping, if it has another name
where it could be taken for it. -/
theorem Value.child?_withMember {π : List Value.Step} {n : String} {j : Scalar} {os : Members}
    (hv : v.child? (.member n) = some (.scalar j)) (hos : v.at? π = some (.map os))
    (hk : π = [] → k ≠ .str n) :
    (v.modifyAt π (withMember k w)).child? (.member n) = some (.scalar j) := by
  cases v with
  | scalar i => cases hv
  | list xs => cases hv
  | map ms =>
    cases π with
    | nil => exact (member?_putMember_of_name_ne (hk rfl)).trans hv
    | cons st π =>
      obtain ⟨u, hu, huw⟩ := Option.bind_eq_some_iff.1 hos
      cases st with
      | item i => cases hu
      | member n' =>
        by_cases hn : n' = n
        · subst hn
          rw [Option.some.inj (hu.symm.trans hv)] at huw
          cases at?_scalar huw
        · have hu' : member? n' ms = some u := hu
          simp only [modifyAt, modifyChild, hu', child?]
          exact (member?_putMember_of_ne fun h => hn h.symm).trans hv

end

/-! ### Whole documents -/

namespace Config

section

variable {source : String} {v : Value} {c : Config}

theorem of_ofDocument (h : ofDocument source v = .ok c) :
    v.child? (.member "version") = some (.str configVersion) ∧ readConfig v = .ok c := by
  cases v with
  | scalar k => cases h
  | list xs => cases h
  | map ms =>
    simp only [ofDocument] at h
    split at h
    case h_2 => cases h
    case h_1 s hs =>
      split_ifs at h with hversion
      split at h
      case h_2 => cases h
      case h_1 hread =>
        cases h
        refine ⟨?_, hread⟩
        rcases Option.getD_eq_iff.1 hs with hm | ⟨-, hnull⟩
        · exact hm.trans (by rw [hversion])
        · cases hnull

theorem ofDocument_of_version (hv : v.child? (.member "version") = some (.str configVersion)) :
    ofDocument source v = (readConfig v).toExcept.mapError (.invalid source) := by
  cases v with
  | scalar k => cases hv
  | list xs => cases hv
  | map ms =>
    have hm : Value.member? "version" ms = some (.str configVersion) := hv
    simp only [ofDocument, hm, Option.getD_some, if_true]
    cases readConfig (.map ms) <;> rfl

/-- **Nothing in a config is ignored.**  In a document that is loaded, every member of every object
is named as a field of what stands there, no two as the same field; and a document with a further
member anywhere is refused, unless its name is one of those. -/
theorem ofDocument_strict (h : ofDocument source v = .ok c) {π : List Value.Step} {os : Members}
    (hos : v.at? π = some (.map os)) :
    ∃ p, (Shape.object .config).at? π = some (.object p) ∧ Accounted p.names os ∧
      ∀ k w, (∀ ns ∈ p.names, ¬Spells ns k) →
        ∃ ps, ofDocument source (v.modifyAt π (Value.withMember k w)) =
          .error (.invalid source ps) := by
  obtain ⟨hversion, hread⟩ := of_ofDocument h
  obtain ⟨t, ht, hmap⟩ := (readsStrict_config v c hread).at? hos
  cases hmap with
  | @object p _ root members =>
  refine ⟨p, ht, root, fun k w hk => ?_⟩
  have hversion' : (v.modifyAt π (Value.withMember k w)).child? (.member "version") =
      some (.str configVersion) := by
    refine Value.child?_withMember hversion hos fun hπ hkn => ?_
    subst hπ
    cases ht
    exact hk ["version"] (by decide) ⟨"version", by decide, hkn⟩
  have hos' : (v.modifyAt π (Value.withMember k w)).at? π =
      some (.map (Value.putMember k w os)) := by
    rw [Value.at?_modifyAt, hos]
    rfl
  rw [ofDocument_of_version hversion']
  cases hread' : readConfig (v.modifyAt π (Value.withMember k w)) with
  | refused ps => exact ⟨ps, rfl⟩
  | ok c' =>
    obtain ⟨t', ht', hmap'⟩ := (readsStrict_config _ c' hread').at? hos'
    cases ht.symm.trans ht'
    cases hmap' with
    | object root' _ =>
    obtain ⟨ns, hns, hspells⟩ := root'.accepted _ (mem_putMember_of_accounted root hk)
    exact absurd hspells (hk ns hns)

/-- A rule whose expression has an object in an object in a list in an object. -/
def nested : Config where
  rules := [{
    filter := { all := some [{ fields := { sender := some "a" } },
      { negated := some { fields := { subject := some "b" } } }] }
    actions := { archive := true } }]

/-- Where the innermost object of `nested` stands. -/
def innermost : List Value.Step :=
  [.member "rules", .item 0, .member "filter", .member "and", .item 1, .member "not"]

theorem ofDocument_strict_nested :
    (ofDocument "a" nested.toValue = .ok nested ∧
        nested.toValue.at? innermost = some (.map [(.str "subject", .str "b")])) ∧
      ∃ p, (Shape.object .config).at? innermost = some (.object p) ∧
        Accounted p.names [(.str "subject", .str "b")] ∧
        ∀ k w, (∀ ns ∈ p.names, ¬Spells ns k) →
          ∃ ps, ofDocument "a" (nested.toValue.modifyAt innermost (Value.withMember k w)) =
            .error (.invalid "a" ps) := by
  have hload : ofDocument "a" nested.toValue = .ok nested := by
    rw [ofDocument_of_version rfl, readConfig_toValue]
    rfl
  have hpart : nested.toValue.at? innermost = some (.map [(.str "subject", .str "b")]) := rfl
  exact ⟨⟨hload, hpart⟩, ofDocument_strict hload hpart⟩

example : (Shape.object .config).at? innermost = some (.object .node) := rfl

end

end Config

end MailRules
