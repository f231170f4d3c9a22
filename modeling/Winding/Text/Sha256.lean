/-!
# SHA-256

The digest of FIPS 180-4 over bytes, written as 64 lower-case hexadecimal digits. A message is
padded to whole blocks of 64 bytes; each block is stretched to 64 words that drive 64 rounds over
eight chaining words.
-/

namespace Winding.Sha256

/-- The chaining words before the first block. -/
def initial : Array UInt32 :=
  #[0x6a09e667, 0xbb67ae85, 0x3c6ef372, 0xa54ff53a, 0x510e527f, 0x9b05688c, 0x1f83d9ab, 0x5be0cd19]

/-- One constant for each round. -/
def constants : List UInt32 :=
  [0x428a2f98, 0x71374491, 0xb5c0fbcf, 0xe9b5dba5, 0x3956c25b, 0x59f111f1, 0x923f82a4, 0xab1c5ed5,
   0xd807aa98, 0x12835b01, 0x243185be, 0x550c7dc3, 0x72be5d74, 0x80deb1fe, 0x9bdc06a7, 0xc19bf174,
   0xe49b69c1, 0xefbe4786, 0x0fc19dc6, 0x240ca1cc, 0x2de92c6f, 0x4a7484aa, 0x5cb0a9dc, 0x76f988da,
   0x983e5152, 0xa831c66d, 0xb00327c8, 0xbf597fc7, 0xc6e00bf3, 0xd5a79147, 0x06ca6351, 0x14292967,
   0x27b70a85, 0x2e1b2138, 0x4d2c6dfc, 0x53380d13, 0x650a7354, 0x766a0abb, 0x81c2c92e, 0x92722c85,
   0xa2bfe8a1, 0xa81a664b, 0xc24b8b70, 0xc76c51a3, 0xd192e819, 0xd6990624, 0xf40e3585, 0x106aa070,
   0x19a4c116, 0x1e376c08, 0x2748774c, 0x34b0bcb5, 0x391c0cb3, 0x4ed8aa4a, 0x5b9cca4f, 0x682e6ff3,
   0x748f82ee, 0x78a5636f, 0x84c87814, 0x8cc70208, 0x90befffa, 0xa4506ceb, 0xbef9a3f7, 0xc67178f2]

/-- Rotation to the right by `n` places, `0 < n < 32`. -/
def rotate (x : UInt32) (n : UInt32) : UInt32 := (x >>> n) ||| (x <<< (32 - n))

def bigSigma0 (x : UInt32) : UInt32 := rotate x 2 ^^^ rotate x 13 ^^^ rotate x 22
def bigSigma1 (x : UInt32) : UInt32 := rotate x 6 ^^^ rotate x 11 ^^^ rotate x 25
def smallSigma0 (x : UInt32) : UInt32 := rotate x 7 ^^^ rotate x 18 ^^^ (x >>> 3)
def smallSigma1 (x : UInt32) : UInt32 := rotate x 17 ^^^ rotate x 19 ^^^ (x >>> 10)
def choose (x y z : UInt32) : UInt32 := (x &&& y) ^^^ (~~~x &&& z)
def majority (x y z : UInt32) : UInt32 := (x &&& y) ^^^ (x &&& z) ^^^ (y &&& z)

/-- The message, a one bit, zeros, and the bit length in eight bytes. -/
def pad (message : ByteArray) : ByteArray :=
  let zeros := (119 - message.size % 64) % 64
  let bits := message.size * 8
  let length := (List.range 8).map fun i => (bits >>> (8 * (7 - i))).toUInt8
  (0x80 :: List.replicate zeros 0 ++ length).foldl ByteArray.push message

/-- The four bytes at `i` as a word. -/
def wordAt (bytes : ByteArray) (i : Nat) : UInt32 :=
  (List.range 4).foldl (fun w k => (w <<< 8) ||| (bytes.get! (i + k)).toUInt32) 0

/-- The 64 words that a block of 64 bytes is stretched to. -/
def schedule (bytes : ByteArray) (start : Nat) : Array UInt32 :=
  let first := ((List.range 16).map fun i => wordAt bytes (start + 4 * i)).toArray
  (List.range 48).foldl
    (fun w i =>
      w.push (w[i]! + smallSigma0 w[i + 1]! + w[i + 9]! + smallSigma1 w[i + 14]!))
    first

/-- The eight working words of a round. -/
structure Working where
  a : UInt32
  b : UInt32
  c : UInt32
  d : UInt32
  e : UInt32
  f : UInt32
  g : UInt32
  h : UInt32

/-- One round with its constant and its schedule word. -/
def Working.round (s : Working) (k w : UInt32) : Working :=
  let t₁ := s.h + bigSigma1 s.e + choose s.e s.f s.g + k + w
  let t₂ := bigSigma0 s.a + majority s.a s.b s.c
  ⟨t₁ + t₂, s.a, s.b, s.c, s.d + t₁, s.e, s.f, s.g⟩

/-- The chaining words after the block at `start`. -/
def compress (bytes : ByteArray) (chain : Array UInt32) (start : Nat) : Array UInt32 :=
  let s : Working :=
    ⟨chain[0]!, chain[1]!, chain[2]!, chain[3]!, chain[4]!, chain[5]!, chain[6]!, chain[7]!⟩
  let t := (constants.zip (schedule bytes start).toList).foldl (fun s kw => s.round kw.1 kw.2) s
  #[chain[0]! + t.a, chain[1]! + t.b, chain[2]! + t.c, chain[3]! + t.d,
    chain[4]! + t.e, chain[5]! + t.f, chain[6]! + t.g, chain[7]! + t.h]

/-- The eight words of the digest. -/
def words (message : ByteArray) : Array UInt32 :=
  let padded := pad message
  (List.range (padded.size / 64)).foldl (fun chain i => compress padded chain (64 * i)) initial

/-- The eight hexadecimal digits of a word. -/
def hexWord (w : UInt32) : List Char :=
  (List.range 8).map fun i => Nat.digitChar (w.toNat >>> (4 * (7 - i)) % 16)

/-- The digest of a text's UTF-8 bytes in hexadecimal. -/
def hex (text : String) : String :=
  String.ofList ((words text.toUTF8).toList.flatMap hexWord)

end Winding.Sha256
