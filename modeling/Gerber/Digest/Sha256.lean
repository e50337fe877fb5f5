import Gerber.Text

/-!
# SHA-256

The secure hash of 256 bits, by which step-and-repeat blocks are told apart.
-/

namespace Gerber.Sha256

/-- The fractional parts of the cube roots of the first 64 primes. -/
def roundConstants : List UInt32 :=
  [0x428a2f98, 0x71374491, 0xb5c0fbcf, 0xe9b5dba5, 0x3956c25b, 0x59f111f1, 0x923f82a4, 0xab1c5ed5,
    0xd807aa98, 0x12835b01, 0x243185be, 0x550c7dc3, 0x72be5d74, 0x80deb1fe, 0x9bdc06a7, 0xc19bf174,
    0xe49b69c1, 0xefbe4786, 0x0fc19dc6, 0x240ca1cc, 0x2de92c6f, 0x4a7484aa, 0x5cb0a9dc, 0x76f988da,
    0x983e5152, 0xa831c66d, 0xb00327c8, 0xbf597fc7, 0xc6e00bf3, 0xd5a79147, 0x06ca6351, 0x14292967,
    0x27b70a85, 0x2e1b2138, 0x4d2c6dfc, 0x53380d13, 0x650a7354, 0x766a0abb, 0x81c2c92e, 0x92722c85,
    0xa2bfe8a1, 0xa81a664b, 0xc24b8b70, 0xc76c51a3, 0xd192e819, 0xd6990624, 0xf40e3585, 0x106aa070,
    0x19a4c116, 0x1e376c08, 0x2748774c, 0x34b0bcb5, 0x391c0cb3, 0x4ed8aa4a, 0x5b9cca4f, 0x682e6ff3,
    0x748f82ee, 0x78a5636f, 0x84c87814, 0x8cc70208, 0x90befffa, 0xa4506ceb, 0xbef9a3f7, 0xc67178f2]

/-- The eight words of a hash at work. -/
structure State where
  a : UInt32
  b : UInt32
  c : UInt32
  d : UInt32
  e : UInt32
  f : UInt32
  g : UInt32
  h : UInt32

namespace State

/-- The fractional parts of the square roots of the first eight primes. -/
def initial : State :=
  ⟨0x6a09e667, 0xbb67ae85, 0x3c6ef372, 0xa54ff53a, 0x510e527f, 0x9b05688c, 0x1f83d9ab, 0x5be0cd19⟩

def words (s : State) : List UInt32 := [s.a, s.b, s.c, s.d, s.e, s.f, s.g, s.h]

def add (s t : State) : State :=
  ⟨s.a + t.a, s.b + t.b, s.c + t.c, s.d + t.d, s.e + t.e, s.f + t.f, s.g + t.g, s.h + t.h⟩

end State

def rotate (x : UInt32) (n : UInt32) : UInt32 := (x >>> n) ||| (x <<< (32 - n))

/-- One round with a word of the message schedule and a round constant. -/
def round (s : State) (input : UInt32 × UInt32) : State :=
  let s1 := rotate s.e 6 ^^^ rotate s.e 11 ^^^ rotate s.e 25
  let choice := (s.e &&& s.f) ^^^ (~~~s.e &&& s.g)
  let t1 := s.h + s1 + choice + input.2 + input.1
  let s0 := rotate s.a 2 ^^^ rotate s.a 13 ^^^ rotate s.a 22
  let majority := (s.a &&& s.b) ^^^ (s.a &&& s.c) ^^^ (s.b &&& s.c)
  ⟨t1 + (s0 + majority), s.a, s.b, s.c, s.d + t1, s.e, s.f, s.g⟩

/-- The next word of the message schedule, from the words before it, the latest first. -/
def nextWord (latest : List UInt32) : UInt32 :=
  let w15 := latest.getD 14 0
  let w2 := latest.getD 1 0
  let s0 := rotate w15 7 ^^^ rotate w15 18 ^^^ (w15 >>> 3)
  let s1 := rotate w2 17 ^^^ rotate w2 19 ^^^ (w2 >>> 10)
  latest.getD 15 0 + s0 + latest.getD 6 0 + s1

def schedule (block : List UInt32) : List UInt32 :=
  ((List.range 48).foldl (fun latest _ => nextWord latest :: latest) block.reverse).reverse

def compress (s : State) (block : List UInt32) : State :=
  s.add (((schedule block).zip roundConstants).foldl round s)

/-- The word that four bytes write, the highest first. -/
def wordOf (bytes : List UInt8) : UInt32 :=
  bytes.foldl (fun w b => w * 256 + b.toUInt32) 0

/-- Cuts a list into pieces of `n + 1` elements. -/
def pieces {β : Type} (n : Nat) : List β → List (List β)
  | [] => []
  | b :: rest => (b :: rest).take (n + 1) :: pieces n (rest.drop n)
termination_by list => list.length
decreasing_by
  simp only [List.length_drop, List.length_cons]
  omega

/-- The message with a mark, zeros and its length in bits, up to a whole number of blocks. -/
def padded (message : List UInt8) : List UInt8 :=
  let zeros := (119 - message.length % 64) % 64
  let bits := 8 * message.length
  message ++ 0x80 :: List.replicate zeros 0 ++
    (List.range 8).map fun k => UInt8.ofNat (bits / Nat.pow 2 (56 - 8 * k) % 256)

def hash (message : List UInt8) : List UInt32 :=
  let words := (pieces 3 (padded message)).map wordOf
  ((pieces 15 words).foldl compress State.initial).words

def hexWord (w : UInt32) : Text :=
  (List.range 8).map fun k => Nat.digitChar (w.toNat / Nat.pow 2 (28 - 4 * k) % 16)

def hexOfText (t : Text) : Text := (hash t.string.toUTF8.toList).flatMap hexWord

end Gerber.Sha256
