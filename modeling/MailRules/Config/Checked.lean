import MailRules.Value.Literal
import MailRules.Text.Blank

/-!
# Checked readings of document values

Reading a value as data of a certain shape, with every refusal reported and not only the first.

* `Refusal` and `Problem` say what is refused and where.
* `Checked` is a reading that succeeded, or all its problems.
* `required`, `optional` and `defaulted` read a member under the first of its accepted names that
  is present; `noOthers` refuses every member that no name accounts for.
-/

namespace MailRules

/-- Why a value is refused. -/
inductive Refusal where
  | unknownMember | invalidName | missing | notText | notFlag | unreadableFlag | notList
  | notObject | notChoice | notInteger | unreadableInteger | fractional | wrongVersion
  deriving DecidableEq

/-- The word that a refusal is reported by. -/
def Refusal.code : Refusal → String
  | .unknownMember => "extra_forbidden" | .invalidName => "invalid_key" | .missing => "missing"
  | .notText => "string_type" | .notFlag => "bool_type" | .unreadableFlag => "bool_parsing"
  | .notList => "list_type" | .notObject => "model_type" | .notChoice => "enum"
  | .notInteger => "int_type" | .unreadableInteger => "int_parsing"
  | .fractional => "int_from_float" | .wrongVersion => "value_error"

/-- A refusal at a place, which is given from the outermost member inwards. -/
structure Problem where
  /-- The members that lead to the place. -/
  place : List String
  /-- Why the value there is refused. -/
  refusal : Refusal
  deriving DecidableEq

/-- The report of a problem. -/
def Problem.message (p : Problem) : String :=
  ".".intercalate p.place ++ ": " ++ p.refusal.code

/-- The reports of some problems, in order of their texts. -/
def problemReports (ps : List Problem) : List String :=
  (ps.map Problem.message).mergeSort (· ≤ ·)

/-- The result of reading a value. -/
inductive Checked (α : Type) where
  /-- The value has been read. -/
  | ok (a : α)
  /-- The value is refused, for these reasons. -/
  | refused (problems : List Problem)

namespace Checked

variable {α β : Type}

/-- A value refused at its own place. -/
def refuse (r : Refusal) : Checked α := .refused [⟨[], r⟩]

/-- The problems of a reading. -/
def problems : Checked α → List Problem
  | .ok _ => []
  | .refused ps => ps

/-- A reading with its result worked on. -/
def map (f : α → β) : Checked α → Checked β
  | .ok a => .ok (f a)
  | .refused ps => .refused ps

/-- Two readings, of which the first gives a function of the second; the problems of both are
kept. -/
def ap (f : Checked (α → β)) (x : Checked α) : Checked β :=
  match f, x with
  | .ok f, .ok a => .ok (f a)
  | f, x => .refused (f.problems ++ x.problems)

/-- A reading of what stands at a place. -/
def within (name : String) : Checked α → Checked α
  | .ok a => .ok a
  | .refused ps => .refused (ps.map fun p => { p with place := name :: p.place })

/-- A reading that further problems may spoil. -/
def orRefused (x : Checked α) (ps : List Problem) : Checked α :=
  match x, ps with
  | .ok a, [] => .ok a
  | x, ps => .refused (x.problems ++ ps)

/-- A reading as an `Except`. -/
def toExcept : Checked α → Except (List Problem) α
  | .ok a => .ok a
  | .refused ps => .error ps

/-- The results of a list of readings, each at its position. -/
def sequence (i : Nat) : List (Checked α) → Checked (List α)
  | [] => .ok []
  | x :: xs => ((x.within (toString i)).map List.cons).ap (sequence (i + 1) xs)

end Checked

/-! ### Members -/

/-- The members of a mapping. -/
abbrev Members := List (Scalar × Value)

/-- The first of some names under which a member is present, with its value. -/
def findNamed (ms : Members) : List String → Option (String × Value)
  | [] => none
  | n :: ns => match Value.member? n ms with
    | some v => some (n, v)
    | none => findNamed ms ns

theorem sizeOf_findNamed_lt {ms : Members} {n : String} {v : Value} :
    ∀ {names : List String}, findNamed ms names = some (n, v) → sizeOf v < sizeOf ms
  | [], h => by simp [findNamed] at h
  | m :: names, h => by
    simp only [findNamed] at h
    split at h
    · cases h; exact Value.sizeOf_member?_lt (by assumption)
    · exact sizeOf_findNamed_lt h

/-- How the name of a member is shown in a place: texts as they are, truth values as numbers,
and everything else spelled out. -/
def Scalar.placeName : Scalar → String
  | .str s => s
  | .bool b => if b then "1" else "0"
  | s => s.literal

/-- The problems of the members that no list of names accounts for: a member is accounted for if
its name is the first of a list's names to be present. -/
def otherMembers (names : List (List String)) (ms : Members) : List Problem :=
  let used := names.filterMap fun ns => (findNamed ms ns).map (·.1)
  ms.filterMap fun m => match m.1 with
    | .str s => if used.contains s then none else some ⟨[s], .unknownMember⟩
    | k => some ⟨[k.placeName], .invalidName⟩

section

variable {α : Type}

/-- A member that may be absent. -/
def defaulted (ms : Members) (names : List String) (absent : α) (read : Value → Checked α) :
    Checked α :=
  match findNamed ms names with
  | some (n, v) => (read v).within n
  | none => .ok absent

/-- A member that has to be present. -/
def required (ms : Members) (names : List String) (read : Value → Checked α) : Checked α :=
  match findNamed ms names with
  | some (n, v) => (read v).within n
  | none => (Checked.refuse .missing).within (names.headD "")

/-- A value that may be null. -/
def nullable (read : Value → Checked α) : Value → Checked (Option α)
  | .scalar .null => .ok none
  | v => (read v).map some

/-- A member that may be absent or null. -/
def optional (ms : Members) (names : List String) (read : Value → Checked α) :
    Checked (Option α) :=
  defaulted ms names none (nullable read)

/-- The items of a list, each read in the same way. -/
def readList (read : Value → Checked α) : Value → Checked (List α)
  | .list xs => Checked.sequence 0 (xs.map read)
  | _ => Checked.refuse .notList

/-- The members of a mapping, read together. -/
def readObject (read : Members → Checked α) : Value → Checked α
  | .map ms => read ms
  | _ => Checked.refuse .notObject

end

/-! ### Scalars -/

/-- A text. -/
def readText : Value → Checked String
  | .scalar (.str s) => .ok s
  | _ => Checked.refuse .notText

/-- The truth value that a word stands for, in any case. -/
def flagOfWord? (s : String) : Option Bool :=
  let w := s.toLower
  if ["0", "off", "f", "false", "n", "no"].contains w then some false
  else if ["1", "on", "t", "true", "y", "yes"].contains w then some true
  else none

/-- A truth value, also as a word, or as one or zero. -/
def readFlag : Value → Checked Bool
  | .scalar (.bool b) => .ok b
  | .scalar (.str s) => match flagOfWord? s with
    | some b => .ok b
    | none => Checked.refuse .unreadableFlag
  | .scalar s => match s.whole? with
    | some 0 => .ok false
    | some 1 => .ok true
    | some _ => Checked.refuse .unreadableFlag
    | none => Checked.refuse .notFlag
  | _ => Checked.refuse .notFlag

/-- Digits of a decimal number, with single low lines between them. -/
def digitsValue? (s : List Char) : Option Nat :=
  go s 0 false
where
  go : List Char → Nat → Bool → Option Nat
    | [], acc, afterDigit => if afterDigit then some acc else none
    | c :: cs, acc, afterDigit =>
      if c.isDigit then go cs (10 * acc + (c.toNat - '0'.toNat)) true
      else if c = '_' ∧ afterDigit ∧ !cs.isEmpty then go cs acc false
      else none

/-- The whole number that a text stands for: digits after an optional sign, between optional
blanks, with an optional fraction of zeros. -/
def integerOfText? (s : String) : Option Int :=
  let (negative, t) := match trimmed s.toList with
    | '-' :: t => (true, t)
    | '+' :: t => (false, t)
    | t => (false, t)
  let whole := t.takeWhile (· ≠ '.')
  let fraction := t.drop (whole.length + 1)
  if fraction.all (· = '0') then
    (digitsValue? whole).map fun n => if negative then -(n : Int) else n
  else none

/-- A whole number, also as a text, a truth value or a float without fraction. -/
def readInteger : Value → Checked Int
  | .scalar (.str s) => match integerOfText? s with
    | some i => .ok i
    | none => Checked.refuse .unreadableInteger
  | .scalar (.float x) => match (Scalar.float x).whole? with
    | some i => .ok i
    | none => Checked.refuse .fractional
  | .scalar s => match s.whole? with
    | some i => .ok i
    | none => Checked.refuse .notInteger
  | _ => Checked.refuse .notInteger

/-- One of some choices, by name. -/
def readChoice {α : Type} (ofName? : String → Option α) : Value → Checked α
  | .scalar (.str s) => match ofName? s with
    | some a => .ok a
    | none => Checked.refuse .notChoice
  | _ => Checked.refuse .notChoice

end MailRules
