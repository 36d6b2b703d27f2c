/-!
# SHA-256

The digest of a byte string.  The message is padded to blocks of sixty-four bytes; every block
is expanded to a schedule of sixty-four words and worked into a state of eight.

* `Sha256.pad`, `Sha256.schedule` and `Sha256.compress` are the three steps.
* `sha256Hex` is the digest of a text's UTF-8 form in lower-case digits.
-/

namespace MailRules

namespace Sha256

/-- The first thirty-two bits of the fractional parts of the square roots of the first eight
primes. -/
def initialState : Array UInt32 := #[
  0x6a09e667, 0xbb67ae85, 0x3c6ef372, 0xa54ff53a, 0x510e527f, 0x9b05688c, 0x1f83d9ab, 0x5be0cd19]

/-- The first thirty-two bits of the fractional parts of the cube roots of the first sixty-four
primes. -/
def roundConstants : List UInt32 := [
  0x428a2f98, 0x71374491, 0xb5c0fbcf, 0xe9b5dba5, 0x3956c25b, 0x59f111f1, 0x923f82a4, 0xab1c5ed5,
  0xd807aa98, 0x12835b01, 0x243185be, 0x550c7dc3, 0x72be5d74, 0x80deb1fe, 0x9bdc06a7, 0xc19bf174,
  0xe49b69c1, 0xefbe4786, 0x0fc19dc6, 0x240ca1cc, 0x2de92c6f, 0x4a7484aa, 0x5cb0a9dc, 0x76f988da,
  0x983e5152, 0xa831c66d, 0xb00327c8, 0xbf597fc7, 0xc6e00bf3, 0xd5a79147, 0x06ca6351, 0x14292967,
  0x27b70a85, 0x2e1b2138, 0x4d2c6dfc, 0x53380d13, 0x650a7354, 0x766a0abb, 0x81c2c92e, 0x92722c85,
  0xa2bfe8a1, 0xa81a664b, 0xc24b8b70, 0xc76c51a3, 0xd192e819, 0xd6990624, 0xf40e3585, 0x106aa070,
  0x19a4c116, 0x1e376c08, 0x2748774c, 0x34b0bcb5, 0x391c0cb3, 0x4ed8aa4a, 0x5b9cca4f, 0x682e6ff3,
  0x748f82ee, 0x78a5636f, 0x84c87814, 0x8cc70208, 0x90befffa, 0xa4506ceb, 0xbef9a3f7, 0xc67178f2]

/-- A word turned right by some bits. -/
def rotr (x : UInt32) (n : UInt32) : UInt32 :=
  (x >>> n) ||| (x <<< (32 - n))

/-- The message with a one bit, zeros up to eight bytes before a block's end, and its length in
bits. -/
def pad (message : List UInt8) : List UInt8 :=
  let n := message.length
  let zeros : List UInt8 := List.replicate ((119 - n % 64) % 64) 0
  let bits : List UInt8 := (List.range 8).map fun i => UInt8.ofNat ((8 * n) >>> (8 * (7 - i)))
  message ++ 0x80 :: (zeros ++ bits)

/-- Four bytes as one word each, the most significant first. -/
def words : List UInt8 → List UInt32
  | a :: b :: c :: d :: rest =>
    ((a.toUInt32 <<< 24) ||| (b.toUInt32 <<< 16) ||| (c.toUInt32 <<< 8) ||| d.toUInt32) ::
      words rest
  | _ => []

/-- The schedule of a block: its sixteen words and forty-eight words made from those before. -/
def schedule (block : List UInt32) : Array UInt32 :=
  (List.range 48).foldl (fun w i =>
    let at' := fun k => w.getD (i + k) 0
    let x := at' 1
    let y := at' 14
    let s0 := rotr x 7 ^^^ rotr x 18 ^^^ (x >>> 3)
    let s1 := rotr y 17 ^^^ rotr y 19 ^^^ (y >>> 10)
    w.push (at' 0 + s0 + at' 9 + s1)) block.toArray

/-- One round on the eight working words. -/
def step (s : Array UInt32) (kw : UInt32 × UInt32) : Array UInt32 :=
  let at' := fun i => s.getD i 0
  let a := at' 0; let b := at' 1; let c := at' 2; let e := at' 4; let f := at' 5; let g := at' 6
  let s1 := rotr e 6 ^^^ rotr e 11 ^^^ rotr e 25
  let ch := (e &&& f) ^^^ (~~~e &&& g)
  let t1 := at' 7 + s1 + ch + kw.1 + kw.2
  let s0 := rotr a 2 ^^^ rotr a 13 ^^^ rotr a 22
  let maj := (a &&& b) ^^^ (a &&& c) ^^^ (b &&& c)
  #[t1 + s0 + maj, a, b, c, at' 3 + t1, e, f, g]

/-- Works a block into the state. -/
def compress (state : Array UInt32) (block : List UInt32) : Array UInt32 :=
  let rounds := (roundConstants.zip (schedule block).toList).foldl step state
  (state.zip rounds).map fun p => p.1 + p.2

/-- The blocks of sixteen words, worked in one after the other. -/
def blocks (fuel : Nat) (state : Array UInt32) (ws : List UInt32) : Array UInt32 :=
  match fuel with
  | 0 => state
  | n + 1 => if ws.isEmpty then state else blocks n (compress state (ws.take 16)) (ws.drop 16)

end Sha256

/-- The digest of a byte string, as eight words. -/
def sha256 (message : List UInt8) : Array UInt32 :=
  let ws := Sha256.words (Sha256.pad message)
  Sha256.blocks ws.length Sha256.initialState ws

/-- A number below `16 ^ n` in `n` lower-case digits. -/
def hexFixed : Nat → Nat → List Char
  | 0, _ => []
  | n + 1, x => hexFixed n (x / 16) ++ [Nat.digitChar (x % 16)]

/-- The digest of the UTF-8 form of a text, in lower-case digits. -/
def sha256Hex (s : String) : String :=
  String.ofList ((sha256 s.toUTF8.toList).toList.flatMap fun w => hexFixed 8 w.toNat)

end MailRules
