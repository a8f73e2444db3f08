import GraphqlOrm.Foundation.UuidText

/-!
# SHA-256

The digest of a byte string, in lowercase hexadecimal.
-/
namespace Sha256

abbrev Word : Type := BitVec 32

structure State where
  a : Word
  b : Word
  c : Word
  d : Word
  e : Word
  f : Word
  g : Word
  h : Word

def initial : State :=
  ⟨0x6a09e667, 0xbb67ae85, 0x3c6ef372, 0xa54ff53a, 0x510e527f, 0x9b05688c, 0x1f83d9ab, 0x5be0cd19⟩

def roundConstants : List Word :=
  [0x428a2f98, 0x71374491, 0xb5c0fbcf, 0xe9b5dba5, 0x3956c25b, 0x59f111f1, 0x923f82a4, 0xab1c5ed5,
   0xd807aa98, 0x12835b01, 0x243185be, 0x550c7dc3, 0x72be5d74, 0x80deb1fe, 0x9bdc06a7, 0xc19bf174,
   0xe49b69c1, 0xefbe4786, 0x0fc19dc6, 0x240ca1cc, 0x2de92c6f, 0x4a7484aa, 0x5cb0a9dc, 0x76f988da,
   0x983e5152, 0xa831c66d, 0xb00327c8, 0xbf597fc7, 0xc6e00bf3, 0xd5a79147, 0x06ca6351, 0x14292967,
   0x27b70a85, 0x2e1b2138, 0x4d2c6dfc, 0x53380d13, 0x650a7354, 0x766a0abb, 0x81c2c92e, 0x92722c85,
   0xa2bfe8a1, 0xa81a664b, 0xc24b8b70, 0xc76c51a3, 0xd192e819, 0xd6990624, 0xf40e3585, 0x106aa070,
   0x19a4c116, 0x1e376c08, 0x2748774c, 0x34b0bcb5, 0x391c0cb3, 0x4ed8aa4a, 0x5b9cca4f, 0x682e6ff3,
   0x748f82ee, 0x78a5636f, 0x84c87814, 0x8cc70208, 0x90befffa, 0xa4506ceb, 0xbef9a3f7, 0xc67178f2]

def lengthBytes (bits : Nat) : List UInt8 :=
  [56, 48, 40, 32, 24, 16, 8, 0].map fun shift => UInt8.ofNat (bits >>> shift)

/-- A one bit, zeros up to the last eight bytes of a block, and the length. -/
def pad (bytes : List UInt8) : List UInt8 :=
  bytes ++ 0x80 :: (List.replicate ((119 - bytes.length % 64) % 64) 0 ++
    lengthBytes (8 * bytes.length))

def words : List UInt8 → List Word
  | a :: b :: c :: d :: rest =>
    BitVec.ofNat 32 (((a.toNat * 256 + b.toNat) * 256 + c.toNat) * 256 + d.toNat) :: words rest
  | _ => []

def smallSigma (r s t : Nat) (x : Word) : Word := x.rotateRight r ^^^ x.rotateRight s ^^^ x >>> t

def bigSigma (r s t : Nat) (x : Word) : Word :=
  x.rotateRight r ^^^ x.rotateRight s ^^^ x.rotateRight t

def extend : Nat → List Word → List Word
  | 0, schedule => schedule
  | n + 1, schedule =>
    extend n ((smallSigma 17 19 10 (schedule.getD 1 0) + schedule.getD 6 0 +
      smallSigma 7 18 3 (schedule.getD 14 0) + schedule.getD 15 0) :: schedule)

def round (s : State) (step : Word × Word) : State :=
  let first := s.h + bigSigma 6 11 25 s.e + ((s.e &&& s.f) ^^^ (~~~s.e &&& s.g)) + step.1 + step.2
  let second := bigSigma 2 13 22 s.a + ((s.a &&& s.b) ^^^ (s.a &&& s.c) ^^^ (s.b &&& s.c))
  ⟨first + second, s.a, s.b, s.c, s.d + first, s.e, s.f, s.g⟩

def compress (s : State) (block : List Word) : State :=
  let t := (roundConstants.zip (extend 48 block.reverse).reverse).foldl round s
  ⟨s.a + t.a, s.b + t.b, s.c + t.c, s.d + t.d, s.e + t.e, s.f + t.f, s.g + t.g, s.h + t.h⟩

def digest (bytes : List UInt8) : State :=
  ((words (pad bytes)).toChunks 16).foldl compress initial

/-- `format!("{:x}", digest)`. -/
def hex (bytes : List UInt8) : String :=
  let s := digest bytes
  String.ofList ([s.a, s.b, s.c, s.d, s.e, s.f, s.g, s.h].flatMap fun word =>
    UuidText.hexDigits 8 word.toNat)

example : hex [97, 98, 99] =
    "ba7816bf8f01cfea414140de5dae2223b00361a396177a9cb410ff61f20015ad" := by decide +kernel

end Sha256
