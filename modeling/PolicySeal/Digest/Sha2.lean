import PolicySeal.Digest.Padding
/-
  PolicySeal.Digest.Sha2 — SHA-256, SHA-384 and SHA-512 (FIPS 180-4).

  The members of the family differ in the word, the rotations, the start and the cut; one
  definition over the word serves all (`Family`). A block is worked through with a window of
  sixteen words of the schedule, the first of which belongs to the round.
-/

namespace PolicySeal.Digest

/-- The eight working words. -/
structure Working (W : Type) where
  a : W
  b : W
  c : W
  d : W
  e : W
  f : W
  g : W
  h : W

def Working.toList {W : Type} (s : Working W) : List W := [s.a, s.b, s.c, s.d, s.e, s.f, s.g, s.h]

def Working.map₂ {W : Type} (op : W → W → W) (s t : Working W) : Working W :=
  ⟨op s.a t.a, op s.b t.b, op s.c t.c, op s.d t.d, op s.e t.e, op s.f t.f, op s.g t.g, op s.h t.h⟩

structure Family (W : Type) where
  layout : Layout
  wordBytes : Nat
  constants : List W
  add : W → W → W
  bigSigma0 : W → W
  bigSigma1 : W → W
  smallSigma0 : W → W
  smallSigma1 : W → W
  choose : W → W → W → W
  majority : W → W → W → W
  ofNat : Nat → W
  toNat : W → Nat

namespace Family

variable {W : Type} (F : Family W)

/-- The word of the schedule that follows a window of sixteen. -/
def nextWord (window : List W) : List W :=
  match window with
  | [w0, w1, _, _, _, _, _, _, _, w9, _, _, _, _, w14, _] =>
    [F.add (F.add (F.smallSigma1 w14) w9) (F.add (F.smallSigma0 w1) w0)]
  | _ => []

def round (s : Working W × List W) (k : W) : Working W × List W :=
  let (v, window) := s
  match window with
  | [] => s
  | w :: rest =>
    let t1 := F.add (F.add (F.add v.h (F.bigSigma1 v.e)) (F.add (F.choose v.e v.f v.g) k)) w
    let t2 := F.add (F.bigSigma0 v.a) (F.majority v.a v.b v.c)
    (⟨F.add t1 t2, v.a, v.b, v.c, F.add v.d t1, v.e, v.f, v.g⟩, rest ++ F.nextWord window)

def words (block : Bytes) : List W := (Bytes.chunks F.wordBytes block).map fun bs => F.ofNat (Bytes.toNat bs)

def compress (s : Working W) (block : Bytes) : Working W :=
  s.map₂ F.add (F.constants.foldl F.round (s, F.words block)).1

/-- The digest from a start, cut to `length` bytes. -/
def digest (start : Working W) (length : Nat) (message : Bytes) : Bytes :=
  let last := (blocks F.layout message).foldl F.compress start
  (last.toList.flatMap fun w => Bytes.ofNat F.wordBytes (F.toNat w)).take length

end Family

/-! ## The words -/

def rotate32 (n : UInt32) (w : UInt32) : UInt32 := (w >>> n) ||| (w <<< (32 - n))
def rotate64 (n : UInt64) (w : UInt64) : UInt64 := (w >>> n) ||| (w <<< (64 - n))

/-- Cube roots of the first eighty primes, the first 64 bits after the point. -/
def cubeRoots : List UInt64 := [
  0x428a2f98d728ae22, 0x7137449123ef65cd, 0xb5c0fbcfec4d3b2f, 0xe9b5dba58189dbbc,
  0x3956c25bf348b538, 0x59f111f1b605d019, 0x923f82a4af194f9b, 0xab1c5ed5da6d8118,
  0xd807aa98a3030242, 0x12835b0145706fbe, 0x243185be4ee4b28c, 0x550c7dc3d5ffb4e2,
  0x72be5d74f27b896f, 0x80deb1fe3b1696b1, 0x9bdc06a725c71235, 0xc19bf174cf692694,
  0xe49b69c19ef14ad2, 0xefbe4786384f25e3, 0x0fc19dc68b8cd5b5, 0x240ca1cc77ac9c65,
  0x2de92c6f592b0275, 0x4a7484aa6ea6e483, 0x5cb0a9dcbd41fbd4, 0x76f988da831153b5,
  0x983e5152ee66dfab, 0xa831c66d2db43210, 0xb00327c898fb213f, 0xbf597fc7beef0ee4,
  0xc6e00bf33da88fc2, 0xd5a79147930aa725, 0x06ca6351e003826f, 0x142929670a0e6e70,
  0x27b70a8546d22ffc, 0x2e1b21385c26c926, 0x4d2c6dfc5ac42aed, 0x53380d139d95b3df,
  0x650a73548baf63de, 0x766a0abb3c77b2a8, 0x81c2c92e47edaee6, 0x92722c851482353b,
  0xa2bfe8a14cf10364, 0xa81a664bbc423001, 0xc24b8b70d0f89791, 0xc76c51a30654be30,
  0xd192e819d6ef5218, 0xd69906245565a910, 0xf40e35855771202a, 0x106aa07032bbd1b8,
  0x19a4c116b8d2d0c8, 0x1e376c085141ab53, 0x2748774cdf8eeb99, 0x34b0bcb5e19b48a8,
  0x391c0cb3c5c95a63, 0x4ed8aa4ae3418acb, 0x5b9cca4f7763e373, 0x682e6ff3d6b2b8a3,
  0x748f82ee5defb2fc, 0x78a5636f43172f60, 0x84c87814a1f0ab72, 0x8cc702081a6439ec,
  0x90befffa23631e28, 0xa4506cebde82bde9, 0xbef9a3f7b2c67915, 0xc67178f2e372532b,
  0xca273eceea26619c, 0xd186b8c721c0c207, 0xeada7dd6cde0eb1e, 0xf57d4f7fee6ed178,
  0x06f067aa72176fba, 0x0a637dc5a2c898a6, 0x113f9804bef90dae, 0x1b710b35131c471b,
  0x28db77f523047d84, 0x32caab7b40c72493, 0x3c9ebe0a15c9bebc, 0x431d67c49c100d4c,
  0x4cc5d4becb3e42b6, 0x597f299cfc657e2a, 0x5fcb6fab3ad6faec, 0x6c44198c4a475817]

def family32 : Family UInt32 where
  layout := ⟨64, 8⟩
  wordBytes := 4
  constants := (cubeRoots.take 64).map fun (w : UInt64) => (w >>> 32).toUInt32
  add := (· + ·)
  bigSigma0 w := rotate32 2 w ^^^ rotate32 13 w ^^^ rotate32 22 w
  bigSigma1 w := rotate32 6 w ^^^ rotate32 11 w ^^^ rotate32 25 w
  smallSigma0 w := rotate32 7 w ^^^ rotate32 18 w ^^^ (w >>> 3)
  smallSigma1 w := rotate32 17 w ^^^ rotate32 19 w ^^^ (w >>> 10)
  choose x y z := (x &&& y) ^^^ (~~~x &&& z)
  majority x y z := (x &&& y) ^^^ (x &&& z) ^^^ (y &&& z)
  ofNat := UInt32.ofNat
  toNat := UInt32.toNat

def family64 : Family UInt64 where
  layout := ⟨128, 16⟩
  wordBytes := 8
  constants := cubeRoots
  add := (· + ·)
  bigSigma0 w := rotate64 28 w ^^^ rotate64 34 w ^^^ rotate64 39 w
  bigSigma1 w := rotate64 14 w ^^^ rotate64 18 w ^^^ rotate64 41 w
  smallSigma0 w := rotate64 1 w ^^^ rotate64 8 w ^^^ (w >>> 7)
  smallSigma1 w := rotate64 19 w ^^^ rotate64 61 w ^^^ (w >>> 6)
  choose x y z := (x &&& y) ^^^ (~~~x &&& z)
  majority x y z := (x &&& y) ^^^ (x &&& z) ^^^ (y &&& z)
  ofNat := UInt64.ofNat
  toNat := UInt64.toNat

/-! ## The digests -/

/-- Square roots of the first eight primes. -/
def start512 : Working UInt64 := ⟨
  0x6a09e667f3bcc908, 0xbb67ae8584caa73b, 0x3c6ef372fe94f82b, 0xa54ff53a5f1d36f1,
  0x510e527fade682d1, 0x9b05688c2b3e6c1f, 0x1f83d9abfb41bd6b, 0x5be0cd19137e2179⟩

/-- Square roots of the next eight primes. -/
def start384 : Working UInt64 := ⟨
  0xcbbb9d5dc1059ed8, 0x629a292a367cd507, 0x9159015a3070dd17, 0x152fecd8f70e5939,
  0x67332667ffc00b31, 0x8eb44a8768581511, 0xdb0c2e0d64f98fa7, 0x47b5481dbefa4fa4⟩

/-- The first halves of the words of the start of SHA-512. -/
def start256 : Working UInt32 :=
  let half (w : UInt64) : UInt32 := (w >>> 32).toUInt32
  let s := start512
  ⟨half s.a, half s.b, half s.c, half s.d, half s.e, half s.f, half s.g, half s.h⟩

def sha256 (message : Bytes) : Bytes := family32.digest start256 32 message
def sha384 (message : Bytes) : Bytes := family64.digest start384 48 message
def sha512 (message : Bytes) : Bytes := family64.digest start512 64 message

end PolicySeal.Digest
