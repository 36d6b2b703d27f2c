/-!
# Shortest decimals

The shortest decimal that reads back as a given binary number, and of the shortest the nearest.

* `Binary` is a positive number `mantissa * 2 ^ exponent` with the reals that round to it.
* `Binary.shortest` tries one digit, two digits and so on; on each decimal grid only the two
  neighbours of the number can lie among those reals.
* `floatText` is the text of a float.
-/

namespace MailRules

/-- A decimal `digits * 10 ^ exponent`. -/
structure Decimal where
  /-- The digits as one number. -/
  digits : Nat
  /-- The power of ten. -/
  exponent : Int
  deriving DecidableEq

/-- A positive binary number.  Next below it the numbers may stand twice as close as next above,
which is so exactly at a power of two. -/
structure Binary where
  /-- The significant bits as one number. -/
  mantissa : Nat
  /-- The power of two. -/
  exponent : Int
  /-- Whether the next number below is half as far as the next above. -/
  narrowBelow : Bool

namespace Binary

/-- The binary number of a finite float's bits, without its sign. -/
def ofBits (bits : UInt64) : Binary :=
  let biased := ((bits >>> 52) &&& 0x7ff).toNat
  let fraction := (bits &&& 0xfffffffffffff).toNat
  if biased = 0 then ⟨fraction, -1074, false⟩
  else ⟨(1 <<< 52) + fraction, (biased : Int) - 1075, fraction = 0 && biased > 1⟩

/-- A number of quarters of the last place, as numerator and denominator. -/
def quarters (b : Binary) (n : Nat) : Nat × Nat :=
  let e := b.exponent - 2
  if 0 ≤ e then (n <<< e.toNat, 1) else (n, 1 <<< (-e).toNat)

/-- The quarters of the number, and of the bounds of what rounds to it. -/
def value (b : Binary) : Nat := 4 * b.mantissa
/-- The upper bound of what rounds to the number, in quarters. -/
def upper (b : Binary) : Nat := 4 * b.mantissa + 2
/-- The lower bound of what rounds to the number, in quarters. -/
def lower (b : Binary) : Nat := if b.narrowBelow then 4 * b.mantissa - 1 else 4 * b.mantissa - 2

/-- The least `e` of a range, tried from below, with the number below `10 ^ (e + 1)`. -/
def magnitudeFrom (num den : Nat) : Nat → Int → Int
  | 0, e => e
  | fuel + 1, e =>
    let k := e + 1
    let below :=
      if 0 ≤ k then num < den * Nat.pow 10 k.toNat else num * Nat.pow 10 (-k).toNat < den
    if below then e else magnitudeFrom num den fuel (e + 1)

/-- The decimal exponent of the first digit. -/
def magnitude (b : Binary) : Int :=
  let v := b.quarters b.value
  -- a first guess from the binary length, never too large
  let length : Int := (Nat.log2 (max v.1 1) : Int) - Nat.log2 v.2
  magnitudeFrom v.1 v.2 8 (Int.fdiv ((length - 1) * 30102) 100000 - 1)

/-- Whether `k * 10 ^ g` rounds to the number; the bounds do if the mantissa is even. -/
def accepts (b : Binary) (k : Nat) (g : Int) : Bool :=
  let lo := b.quarters b.lower
  let hi := b.quarters b.upper
  let a := if 0 ≤ g then Nat.pow 10 g.toNat else 1
  let c := if 0 ≤ g then 1 else Nat.pow 10 (-g).toNat
  let x := k * a
  if b.mantissa % 2 = 0 then lo.1 * c ≤ x * lo.2 && x * hi.2 ≤ hi.1 * c
  else lo.1 * c < x * lo.2 && x * hi.2 < hi.1 * c

/-- The candidates with the last digit at `10 ^ g`: the nearer neighbour of the number first, the
even one of two at the same distance. -/
def neighbours (b : Binary) (g : Int) : List Nat :=
  let v := b.quarters b.value
  let num := if 0 ≤ g then v.1 else v.1 * Nat.pow 10 (-g).toNat
  let den := if 0 ≤ g then v.2 * Nat.pow 10 g.toNat else v.2
  let k := num / den
  let rest := 2 * (num % den)
  if rest < den || (rest = den && k % 2 = 0) then [k, k + 1] else [k + 1, k]

/-- The first acceptable decimal among those with the given number of digits or more. -/
def shortestFrom (b : Binary) (e : Int) : Nat → Nat → Decimal
  | 0, p => ⟨(b.neighbours (e - p + 1)).headD 0, e - p + 1⟩
  | fuel + 1, p =>
    let g := e - p + 1
    match (b.neighbours g).find? (b.accepts · g) with
    | some k => ⟨k, g⟩
    | none => shortestFrom b e fuel (p + 1)

/-- The shortest decimal that reads back as the number. -/
def shortest (b : Binary) : Decimal :=
  shortestFrom b b.magnitude 17 1

/-- The nearest decimal with the given number of digits. -/
def nearest (b : Binary) (digits : Nat) : Decimal :=
  let g := b.magnitude - digits + 1
  ⟨(b.neighbours g).headD 0, g⟩

end Binary

namespace Decimal

/-- The digits of a decimal without zeros at the end. -/
def significant (d : Decimal) : List Char :=
  match (((toString d.digits).toList.reverse.dropWhile (· = '0')).reverse) with
  | [] => ['0']
  | ds => ds

/-- The exponent of the first digit. -/
def firstExponent (d : Decimal) : Int :=
  d.exponent + (toString d.digits).length - 1

end Decimal

/-- How numbers are written: positionally for exponents of the first digit from `least` to below
`bound`, otherwise with an exponent. -/
structure NumberFormat where
  /-- The least exponent that is written positionally. -/
  least : Int
  /-- The exponents from here on are written. -/
  bound : Int

/-- Numbers are written positionally from a ten-thousandth up to sixteen digits. -/
def plainNumbers : NumberFormat := ⟨-4, 16⟩

namespace NumberFormat

/-- A decimal in positional notation, with at least one digit on each side of the point. -/
def positional (digits : List Char) (e : Int) : List Char :=
  if e < 0 then '0' :: '.' :: (List.replicate (-e - 1).toNat '0' ++ digits)
  else
    let n := e.toNat + 1
    if digits.length ≤ n then digits ++ List.replicate (n - digits.length) '0' ++ ['.', '0']
    else digits.take n ++ '.' :: digits.drop n

/-- A decimal with one digit before the point and an exponent of two digits or more. -/
def scientific (digits : List Char) (e : Int) : List Char :=
  let fraction := digits.drop 1
  digits.take 1 ++ (if fraction.isEmpty then [] else '.' :: fraction) ++
    'e' :: (if e < 0 then '-' else '+') :: (if e.natAbs < 10 then ['0'] else []) ++
    (toString e.natAbs).toList

/-- The text of a positive decimal. -/
def write (fmt : NumberFormat) (d : Decimal) : String :=
  let e := d.firstExponent
  String.ofList (if fmt.least ≤ e ∧ e < fmt.bound then positional d.significant e
    else scientific d.significant e)

/-- The text of a float. -/
def text (fmt : NumberFormat) (x : Float) : String :=
  let bits := x.toBits
  let sign := if bits >>> 63 = 1 then "-" else ""
  if x.isNaN then "nan"
  else if x.isInf then sign ++ "inf"
  else
    let b := Binary.ofBits bits
    if b.mantissa = 0 then sign ++ "0.0"
    else sign ++ fmt.write b.shortest

end NumberFormat

/-- The text of a float. -/
def floatText (x : Float) : String :=
  plainNumbers.text x

end MailRules
