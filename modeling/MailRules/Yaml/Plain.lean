import MailRules.Value.Literal
import MailRules.Text.Blank

/-!
# Plain scalars in YAML 1.1

A scalar without quotes stands for a number, a truth value, a date or nothing if it is written
like one, and for a text otherwise.

* `PlainKind.of` recognises the forms of YAML 1.1, in which `010` is octal, `12:30` counts
  sixties, and a float needs a point.
* `readInt`, `readFloat` and `readTimestamp` give the values; a date that no calendar has is an
  error with a text of its own.
-/

namespace MailRules

namespace Yaml

/-- What a scalar stands for. -/
inductive PlainKind where
  | null | bool | int | float | timestamp | merge | value | str
  deriving DecidableEq

/-! ### Recognition -/

/-- The rest of a text after an optional sign. -/
def dropSign : List Char → List Char
  | '+' :: cs => cs
  | '-' :: cs => cs
  | cs => cs

/-- Digits and low lines. -/
def isDigitOrLine (c : Char) : Bool :=
  c.isDigit || c = '_'

/-- Groups of sixties: one or more colons, each with one or two digits below sixty after it.
Gives what follows the longest run of groups that ends the text or stands before a point. -/
def sixties? : List Char → Option (List Char)
  | ':' :: a :: b :: cs =>
    if a.isDigit && b.isDigit then
      if a < '6' then (match cs with
        | ':' :: _ => sixties? cs
        | _ => some cs)
      else none
    else if a.isDigit then (match b with
      | ':' => sixties? (b :: cs)
      | _ => some (b :: cs))
    else none
  | [':', a] => if a.isDigit then some [] else none
  | _ => none

/-- An optional exponent with its sign, up to the end. -/
def isExponent : List Char → Bool
  | [] => true
  | e :: s :: cs =>
    (e = 'e' || e = 'E') && (s = '+' || s = '-') && !cs.isEmpty && cs.all Char.isDigit
  | _ => false

/-- Whether a text is written like a float. -/
def isFloatText (s : List Char) : Bool :=
  let u := dropSign s
  let decimal := match u with
    | c :: _ =>
      let rest := u.dropWhile isDigitOrLine
      c.isDigit && match rest with
        | '.' :: fraction => isExponent (fraction.dropWhile isDigitOrLine)
        | _ => false
    | [] => false
  let pointed := match s with
    | '.' :: c :: cs => c.isDigit && isExponent (cs.dropWhile isDigitOrLine)
    | _ => false
  let sexagesimal := match u with
    | c :: _ => c.isDigit && match sixties? (u.dropWhile isDigitOrLine) with
      | some ('.' :: fraction) => fraction.all isDigitOrLine
      | _ => false
    | [] => false
  let special := [".inf", ".Inf", ".INF"].any (·.toList = u) ||
    [".nan", ".NaN", ".NAN"].any (·.toList = s)
  decimal || pointed || sexagesimal || special

/-- Whether a text is written like a whole number. -/
def isIntText (s : List Char) : Bool :=
  let isOctal := fun c : Char => ('0' ≤ c && c ≤ '7') || c = '_'
  let isHex := fun c : Char =>
    c.isDigit || ('a' ≤ c && c ≤ 'f') || ('A' ≤ c && c ≤ 'F') || c = '_'
  match dropSign s with
  | ['0'] => true
  | '0' :: 'b' :: c :: cs => (c :: cs).all fun c => c = '0' || c = '1' || c = '_'
  | '0' :: 'x' :: c :: cs => (c :: cs).all isHex
  | '0' :: cs => cs.all isOctal
  | c :: cs =>
    c.isDigit && (cs.all isDigitOrLine || sixties? (cs.dropWhile isDigitOrLine) = some [])
  | [] => false

/-- Whether all characters are digits, and how many of them there may be. -/
def digitsBetween (least most : Nat) (cs : List Char) : Bool :=
  cs.all Char.isDigit && least ≤ cs.length && cs.length ≤ most

/-- The parts of a date or point of time as they are written. -/
structure TimestampText where
  /-- The digits of the year. -/
  year : List Char
  /-- The digits of the month. -/
  month : List Char
  /-- The digits of the day. -/
  day : List Char
  /-- The digits of hour, minute and second. -/
  time : Option (List Char × List Char × List Char) := none
  /-- The digits behind the point. -/
  fraction : List Char := []
  /-- the sign, hours and minutes of the offset; no sign stands for universal time -/
  zone : Option (Option Char × List Char × List Char) := none

/-- The digits at the beginning of a text, and the rest. -/
def spanDigits (cs : List Char) : List Char × List Char :=
  (cs.takeWhile Char.isDigit, cs.dropWhile Char.isDigit)

/-- A written offset from universal time. -/
def zone? (cs : List Char) : Option (Option (Option Char × List Char × List Char)) :=
  match cs.dropWhile fun c => c = ' ' || c = '\t' with
  | [] => if cs.isEmpty then some none else none
  | ['Z'] => some (some (none, [], []))
  | sign :: rest =>
    if sign = '+' || sign = '-' then
      let (hours, rest) := spanDigits rest
      if digitsBetween 1 2 hours then
        match rest with
        | [] => some (some (some sign, hours, []))
        | ':' :: minutes =>
          if digitsBetween 2 2 minutes then some (some (some sign, hours, minutes)) else none
        | _ => none
      else none
    else none

/-- A written time of day with an optional offset. -/
def timeOfDay? (t : TimestampText) (cs : List Char) : Option TimestampText :=
  let (hour, rest) := spanDigits cs
  if !digitsBetween 1 2 hour then none
  else match rest with
    | ':' :: m1 :: m2 :: ':' :: s1 :: s2 :: rest =>
      if [m1, m2, s1, s2].all Char.isDigit then
        let (fraction, rest) := match rest with
          | '.' :: cs => spanDigits cs
          | cs => ([], cs)
        (zone? rest).map fun zone =>
          { t with time := some (hour, [m1, m2], [s1, s2]), fraction, zone }
      else none
    | _ => none

/-- A written date, with an optional time of day after the letter `T` or blanks. -/
def timestampText? (s : List Char) : Option TimestampText :=
  let (year, rest) := spanDigits s
  match rest with
  | '-' :: rest =>
    let (month, rest) := spanDigits rest
    match rest with
    | '-' :: rest =>
      let (day, rest) := spanDigits rest
      if !(digitsBetween 4 4 year && digitsBetween 1 2 month && digitsBetween 1 2 day) then none
      else
        let date : TimestampText := { year, month, day }
        match rest with
        | [] => some date
        | 'T' :: rest => timeOfDay? date rest
        | 't' :: rest => timeOfDay? date rest
        | c :: rest =>
          if c = ' ' || c = '\t' then
            timeOfDay? date (rest.dropWhile fun c => c = ' ' || c = '\t')
          else none
    | _ => none
  | _ => none

/-- Whether a plain text is written like a date, for which month and day need two digits, or like
a point of time. -/
def isTimestampText (s : List Char) : Bool :=
  match timestampText? s with
  | some t => t.time.isSome || (t.month.length = 2 && t.day.length = 2)
  | none => false

/-- The words that stand for truth values. -/
def boolWords : List (String × Bool) := [
  ("yes", true), ("no", false), ("true", true), ("false", false), ("on", true), ("off", false)]

/-- A word in lower case, with a capital, and in upper case. -/
def casings (w : String) : List String :=
  [w, w.capitalize, w.toUpper]

/-- What a plain text stands for. -/
def PlainKind.of (s : List Char) : PlainKind :=
  if ["", "~", "null", "Null", "NULL"].any (·.toList = s) then .null
  else if (boolWords.flatMap (casings ·.1)).any (·.toList = s) then .bool
  else if isFloatText s then .float
  else if isIntText s then .int
  else if isTimestampText s then .timestamp
  else if s = ['<', '<'] then .merge
  else if s = ['='] then .value
  else .str

/-! ### Values -/

/-- Why a scalar of a recognised kind has no value. -/
inductive ScalarError where
  /-- A part of a date or point of time is out of range. -/
  | yearRange (year : Nat) | monthRange | dayRange | hourRange | minuteRange | secondRange
  /-- An offset is a day or more. -/
  | offsetRange (seconds : Int)
  /-- A text is no integer of the base. -/
  | notInteger (base : Nat) (text : String)
  /-- A text is no floating-point number. -/
  | notFloat (text : String)
  /-- A kind of scalar has no values. -/
  | noValue

/-- The text of the error. -/
def ScalarError.message : ScalarError → String
  | .yearRange y => s!"year {y} is out of range"
  | .monthRange => "month must be in 1..12"
  | .dayRange => "day is out of range for month"
  | .hourRange => "hour must be in 0..23"
  | .minuteRange => "minute must be in 0..59"
  | .secondRange => "second must be in 0..59"
  | .offsetRange s => "offset must be a timedelta strictly between " ++
      "-timedelta(hours=24) and timedelta(hours=24), not " ++ durationLiteral s ++ "."
  | .notInteger b t => s!"invalid literal for int() with base {b}: {quoted t}"
  | .notFloat t => s!"could not convert string to float: {quoted t}"
  | .noValue => "the scalar has no value"

/-- The value of a digit in a base up to sixteen. -/
def digitValue? (base : Nat) (c : Char) : Option Nat :=
  let v := if c.isDigit then some (c.toNat - '0'.toNat)
    else if 'a' ≤ c && c ≤ 'f' then some (c.toNat - 'a'.toNat + 10)
    else if 'A' ≤ c && c ≤ 'F' then some (c.toNat - 'A'.toNat + 10)
    else none
  v.filter (· < base)

/-- The number written by digits in a base. -/
def number? (base : Nat) (cs : List Char) : Option Nat :=
  if cs.isEmpty then none
  else cs.foldl (fun acc c => acc.bind fun n => (digitValue? base c).map (base * n + ·)) (some 0)

/-- The number written by digits; nothing written is zero. -/
def digitsNumber (cs : List Char) : Nat :=
  (number? 10 cs).getD 0

/-- The number written by digits in a base, with an optional sign and between optional blanks, or
an error. -/
def numberIn (base : Nat) (cs : List Char) : Except ScalarError Int :=
  let t := trimmed cs
  match number? base (dropSign t) with
  | some n => .ok (if t.head? = some '-' then -n else n)
  | none => .error (.notInteger base (String.ofList cs))

/-- Parts between colons. -/
def colonParts (cs : List Char) : List (List Char) :=
  cs.splitOn ':'

/-- The whole number that a text stands for. -/
def readInt (s : List Char) : Except ScalarError Int := do
  let s := s.filter (· ≠ '_')
  let sign : Int := if s.head? = some '-' then -1 else 1
  let u := dropSign s
  let n ← match u with
    | [] => .error .noValue
    | ['0'] => pure 0
    | '0' :: 'b' :: cs => numberIn 2 cs
    | '0' :: 'x' :: cs => numberIn 16 cs
    | '0' :: _ => numberIn 8 u
    | _ =>
      (colonParts u).foldlM (fun acc part => do return 60 * acc + (← numberIn 10 part)) 0
  return sign * n

/-- The float written as digits with an optional point and exponent. -/
def decimalFloat? (cs : List Char) : Option Float :=
  let whole := cs.takeWhile Char.isDigit
  let rest := cs.dropWhile Char.isDigit
  let (fraction, rest) := match rest with
    | '.' :: cs => spanDigits cs
    | cs => ([], cs)
  let digits := whole ++ fraction
  let exponent : Option Int := match rest with
    | [] => some 0
    | e :: cs =>
      if e = 'e' || e = 'E' then
        let negative := cs.head? = some '-'
        (number? 10 (dropSign cs)).map fun n => if negative then -(n : Int) else n
      else none
  if digits.isEmpty then none
  else exponent.map fun e =>
    let scale : Int := e - fraction.length
    Float.ofScientific (digitsNumber digits) (scale < 0) scale.natAbs

/-- The float written by a decimal or a word, with an optional sign and between optional blanks,
or an error. -/
def floatIn (cs : List Char) : Except ScalarError Float :=
  let t := trimmed cs
  let u := dropSign t
  let size := if ["inf", "infinity"].contains (String.ofList u) then some (1.0 / 0.0)
    else if u = "nan".toList then some (0.0 / 0.0)
    else decimalFloat? u
  match size with
  | some x => .ok (if t.head? = some '-' then -x else x)
  | none => .error (.notFloat (String.ofList cs))

/-- The float that a text stands for. -/
def readFloat (s : List Char) : Except ScalarError Float := do
  let s := (s.filter (· ≠ '_')).map Char.toLower
  let sign : Float := if s.head? = some '-' then -1.0 else 1.0
  let u := dropSign s
  if u = ".inf".toList then return sign * (1.0 / 0.0)
  else if u = ".nan".toList then return 0.0 / 0.0
  else if u.contains ':' then
    let parts ← (colonParts u).mapM floatIn
    let total := parts.reverse.foldl (fun (acc : Float × Float) x =>
      (acc.1 + x * acc.2, acc.2 * 60.0)) (0.0, 1.0)
    return sign * total.1
  else return sign * (← floatIn u)

/-- Whether a year has a leap day. -/
def isLeapYear (y : Nat) : Bool :=
  y % 4 = 0 && (y % 100 ≠ 0 || y % 400 = 0)

/-- The days of a month. -/
def daysOfMonth (y m : Nat) : Nat :=
  if m = 2 then (if isLeapYear y then 29 else 28)
  else if m = 4 || m = 6 || m = 9 || m = 11 then 30 else 31

/-- A day of the calendar. -/
def dateOf (y m d : Nat) : Except ScalarError Date :=
  if y = 0 then .error (.yearRange y)
  else if m = 0 || 12 < m then .error .monthRange
  else if d = 0 || daysOfMonth y m < d then .error .dayRange
  else .ok ⟨y, m, d⟩

/-- The seconds of a written offset. -/
def offsetOf : Option (Option Char × List Char × List Char) → Except ScalarError (Option Int)
  | none => .ok none
  | some (none, _, _) => .ok (some 0)
  | some (some sign, hours, minutes) =>
    let distance : Int := 3600 * digitsNumber hours + 60 * digitsNumber minutes
    let seconds := if sign = '-' then -distance else distance
    if 86400 ≤ distance then .error (.offsetRange seconds) else .ok (some seconds)

/-- The date or point of time that a text stands for. -/
def readTimestamp (s : List Char) : Except ScalarError Scalar :=
  match timestampText? s with
  | none => .error .noValue
  | some t =>
    let y := digitsNumber t.year
    let m := digitsNumber t.month
    let d := digitsNumber t.day
    match t.time with
    | none => return .date (← dateOf y m d)
    | some (hour, minute, second) => do
      let offset ← offsetOf t.zone
      let date ← dateOf y m d
      let hour := digitsNumber hour
      let minute := digitsNumber minute
      let second := digitsNumber second
      if 23 < hour then .error .hourRange
      else if 59 < minute then .error .minuteRange
      else if 59 < second then .error .secondRange
      else
        let six := (t.fraction ++ List.replicate 6 '0').take 6
        return .time { date, hour, minute, second, micro := digitsNumber six, offset }

/-- The truth value of a word, in any case. -/
def readBool (s : List Char) : Except ScalarError Bool :=
  match boolWords.find? (·.1.toList = s.map Char.toLower) with
  | some w => .ok w.2
  | none => .error .noValue

/-- The value of a scalar of a given kind.  Merge marks and default marks have none. -/
def readScalar (kind : PlainKind) (s : List Char) : Except ScalarError Scalar :=
  match kind with
  | .null => .ok .null
  | .bool => return .bool (← readBool s)
  | .int => return .int (← readInt s)
  | .float => return .float (← readFloat s)
  | .timestamp => readTimestamp s
  | .str => .ok (.str (String.ofList s))
  | .merge | .value => .error .noValue

end Yaml

end MailRules
