/-!
# Document values

The data of a decoded document, whatever notation it was written in.

* `Scalar` is a value without parts; the names of members are scalars too.
* `Value` adds lists and mappings.  A mapping keeps its members in the order of writing.
* `Value.get?` looks a member up by name, `Value.put` adds one or replaces its value in place.
-/

namespace MailRules

/-- A calendar day. -/
structure Date where
  /-- The year. -/
  year : Nat
  /-- The month, from one. -/
  month : Nat
  /-- The day of the month, from one. -/
  day : Nat
  deriving DecidableEq

/-- A point of time.  The offset from universal time, in seconds, may be unknown. -/
structure Timestamp where
  /-- The day. -/
  date : Date
  /-- The hour. -/
  hour : Nat
  /-- The minute. -/
  minute : Nat
  /-- The second. -/
  second : Nat
  /-- The microsecond. -/
  micro : Nat
  /-- The offset from universal time in seconds, if it is known. -/
  offset : Option Int
  deriving DecidableEq

/-- A value without parts. -/
inductive Scalar where
  /-- The null value. -/
  | null
  /-- A truth value. -/
  | bool (b : Bool)
  /-- An integer. -/
  | int (i : Int)
  /-- A floating-point number. -/
  | float (x : Float)
  /-- A text. -/
  | str (s : String)
  /-- A day. -/
  | date (d : Date)
  /-- A point of time. -/
  | time (t : Timestamp)
  deriving Inhabited

/-- A decoded document or a part of one. -/
inductive Value where
  /-- A value without parts. -/
  | scalar (s : Scalar)
  /-- A list. -/
  | list (items : List Value)
  /-- A mapping, in the order it is written. -/
  | map (members : List (Scalar × Value))
  deriving Inhabited

namespace Scalar

/-- The whole number that a scalar is equal to: truth values count as one and zero. -/
def whole? : Scalar → Option Int
  | .bool b => some (if b then 1 else 0)
  | .int i => some i
  | .float x =>
    if x.isFinite && x.floor == x then
      let bits := x.toBits
      let biased := ((bits >>> 52) &&& 0x7ff).toNat
      let fraction := (bits &&& 0xfffffffffffff).toNat
      let magnitude : Nat :=
        if biased = 0 then 0
        else if 1075 ≤ biased then ((1 <<< 52) + fraction) <<< (biased - 1075)
        else ((1 <<< 52) + fraction) >>> (1075 - biased)
      some (if bits >>> 63 = 1 then -(magnitude : Int) else magnitude)
    else none
  | _ => none

/-- Whether two scalars name the same member: numbers by their value, all else by kind and
content. -/
def sameName (a b : Scalar) : Bool :=
  match a, b with
  | .null, .null => true
  | .str s, .str t => s = t
  | .date d, .date e => d = e
  | .time t, .time u => t = u
  | .float x, .float y => x == y
  | a, b => match a.whole?, b.whole? with
    | some i, some j => i = j
    | _, _ => false

end Scalar

namespace Value

/-- A text. -/
abbrev str (s : String) : Value := .scalar (.str s)
/-- A truth value. -/
abbrev bool (b : Bool) : Value := .scalar (.bool b)
/-- A whole number. -/
abbrev int (i : Int) : Value := .scalar (.int i)
/-- The absent value. -/
abbrev null : Value := .scalar .null

/-- A mapping whose names are texts. -/
def object (members : List (String × Value)) : Value :=
  .map (members.map fun m => (.str m.1, m.2))

/-- Adds a member.  A name that is there already keeps its place and takes the new value. -/
def putMember (name : Scalar) (value : Value) :
    List (Scalar × Value) → List (Scalar × Value)
  | [] => [(name, value)]
  | m :: ms => if m.1.sameName name then (m.1, value) :: ms else m :: putMember name value ms

/-- The value of the member of the given name. -/
def member? (name : String) : List (Scalar × Value) → Option Value
  | [] => none
  | (.str s, v) :: ms => if s = name then some v else member? name ms
  | _ :: ms => member? name ms

/-- The value of a mapping's member of the given name. -/
def get? (name : String) : Value → Option Value
  | .map ms => member? name ms
  | _ => none

theorem sizeOf_member?_lt {name : String} {v : Value} :
    ∀ {ms : List (Scalar × Value)}, member? name ms = some v → sizeOf v < sizeOf ms
  | [], h => by simp [member?] at h
  | (k, w) :: ms, h => by
    have ih := @sizeOf_member?_lt name v ms
    simp only [List.cons.sizeOf_spec, Prod.mk.sizeOf_spec]
    cases k <;> simp only [member?] at h
    case str s =>
      split at h
      · cases h; omega
      · have := ih h; omega
    all_goals have := ih h; omega

end Value

end MailRules
