import Bindery.Text.Hex

/-!
# SHA-256

The 256-bit secure hash of a byte sequence, in hexadecimal. Words are 32 bits wide and arithmetic
on them wraps.
-/

namespace Bindery.Digest

/-- The fractional parts of the square roots of the first eight primes. -/
def initial : List UInt32 :=
  [0x6a09e667, 0xbb67ae85, 0x3c6ef372, 0xa54ff53a, 0x510e527f, 0x9b05688c, 0x1f83d9ab, 0x5be0cd19]

/-- The fractional parts of the cube roots of the first sixty-four primes. -/
def roundConstants : List UInt32 :=
  [0x428a2f98, 0x71374491, 0xb5c0fbcf, 0xe9b5dba5, 0x3956c25b, 0x59f111f1, 0x923f82a4, 0xab1c5ed5,
    0xd807aa98, 0x12835b01, 0x243185be, 0x550c7dc3, 0x72be5d74, 0x80deb1fe, 0x9bdc06a7, 0xc19bf174,
    0xe49b69c1, 0xefbe4786, 0x0fc19dc6, 0x240ca1cc, 0x2de92c6f, 0x4a7484aa, 0x5cb0a9dc, 0x76f988da,
    0x983e5152, 0xa831c66d, 0xb00327c8, 0xbf597fc7, 0xc6e00bf3, 0xd5a79147, 0x06ca6351, 0x14292967,
    0x27b70a85, 0x2e1b2138, 0x4d2c6dfc, 0x53380d13, 0x650a7354, 0x766a0abb, 0x81c2c92e, 0x92722c85,
    0xa2bfe8a1, 0xa81a664b, 0xc24b8b70, 0xc76c51a3, 0xd192e819, 0xd6990624, 0xf40e3585, 0x106aa070,
    0x19a4c116, 0x1e376c08, 0x2748774c, 0x34b0bcb5, 0x391c0cb3, 0x4ed8aa4a, 0x5b9cca4f, 0x682e6ff3,
    0x748f82ee, 0x78a5636f, 0x84c87814, 0x8cc70208, 0x90befffa, 0xa4506ceb, 0xbef9a3f7, 0xc67178f2]

/-- Rotation to the right. -/
def rotate (x : UInt32) (n : UInt32) : UInt32 := (x >>> n) ||| (x <<< (32 - n))

/-- The bytes of a number, most significant first. -/
def bigEndian (width n : Nat) : List UInt8 :=
  (List.range width).reverse.map fun i => UInt8.ofNat (n / Nat.pow 256 i)

/-- The message with its padding: a set bit, zeros up to the last eight bytes of a block, and the
length in bits. -/
def padded (message : List UInt8) : List UInt8 :=
  let zeros := (64 - (message.length + 9) % 64) % 64
  message ++ 0x80 :: (List.replicate zeros 0 ++ bigEndian 8 (8 * message.length))

/-- The words of a byte sequence, four bytes each. -/
def wordsOf : List UInt8 → List UInt32
  | a :: b :: c :: d :: rest =>
    ((a.toUInt32 <<< 24) ||| (b.toUInt32 <<< 16) ||| (c.toUInt32 <<< 8) ||| d.toUInt32) ::
      wordsOf rest
  | _ => []

/-- The next word of a schedule whose latest word comes first. -/
def scheduleWord (latest : List UInt32) : UInt32 :=
  let word (i : Nat) : UInt32 := (latest[i]?).getD 0
  let s0 := let x := word 14; rotate x 7 ^^^ rotate x 18 ^^^ (x >>> 3)
  let s1 := let x := word 1; rotate x 17 ^^^ rotate x 19 ^^^ (x >>> 10)
  word 15 + s0 + word 6 + s1

/-- The sixty-four words a block is expanded to. -/
def schedule (block : List UInt32) : List UInt32 :=
  ((List.range 48).foldl (fun latest _ => scheduleWord latest :: latest) block.reverse).reverse

/-- One round on the eight working words. -/
def round (state : List UInt32) (input : UInt32 × UInt32) : List UInt32 :=
  match state with
  | [a, b, c, d, e, f, g, h] =>
    let s1 := rotate e 6 ^^^ rotate e 11 ^^^ rotate e 25
    let choice := (e &&& f) ^^^ ((~~~e) &&& g)
    let t1 := h + s1 + choice + input.1 + input.2
    let s0 := rotate a 2 ^^^ rotate a 13 ^^^ rotate a 22
    let majority := (a &&& b) ^^^ (a &&& c) ^^^ (b &&& c)
    [t1 + s0 + majority, a, b, c, d + t1, e, f, g]
  | other => other

/-- The state after a block of sixteen words. -/
def compress (state block : List UInt32) : List UInt32 :=
  let worked := (roundConstants.zip (schedule block)).foldl round state
  state.zipWith (· + ·) worked

/-- Runs the compression over all blocks; `fuel` bounds their number. -/
def absorb : Nat → List UInt32 → List UInt32 → List UInt32
  | 0, state, _ => state
  | fuel + 1, state, message =>
    if message.isEmpty then state
    else absorb fuel (compress state (message.take 16)) (message.drop 16)

/-- The hash of a byte sequence as eight words. -/
def hash (message : List UInt8) : List UInt32 :=
  let blocks := wordsOf (padded message)
  absorb blocks.length initial blocks

/-- The hash of a text's UTF-8 bytes, in lower-case hexadecimal. -/
def sha256 (s : String) : String :=
  String.ofList ((hash s.toUTF8.toList).flatMap fun w => Text.hexDigits 8 w.toNat)

end Bindery.Digest
