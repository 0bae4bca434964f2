import PolicySeal.Digest.Padding
/-
  PolicySeal.Digest.Sha1 — SHA-1 (FIPS 180-4), for the identifiers of keys.
-/

namespace PolicySeal.Digest.Sha1

structure Working where
  a : UInt32
  b : UInt32
  c : UInt32
  d : UInt32
  e : UInt32

def layout : Layout := ⟨64, 8⟩

def start : Working := ⟨0x67452301, 0xefcdab89, 0x98badcfe, 0x10325476, 0xc3d2e1f0⟩

def rotateLeft (n : UInt32) (w : UInt32) : UInt32 := (w <<< n) ||| (w >>> (32 - n))

/-- The function of the words and the constant of a round. -/
def mixture (s : Working) (round : Nat) : UInt32 :=
  if round < 20 then ((s.b &&& s.c) ^^^ (~~~s.b &&& s.d)) + 0x5a827999
  else if round < 40 then (s.b ^^^ s.c ^^^ s.d) + 0x6ed9eba1
  else if round < 60 then ((s.b &&& s.c) ^^^ (s.b &&& s.d) ^^^ (s.c &&& s.d)) + 0x8f1bbcdc
  else (s.b ^^^ s.c ^^^ s.d) + 0xca62c1d6

def nextWord (window : List UInt32) : List UInt32 :=
  match window with
  | [w0, _, w2, _, _, _, _, _, w8, _, _, _, _, w13, _, _] => [rotateLeft 1 (w13 ^^^ w8 ^^^ w2 ^^^ w0)]
  | _ => []

def step (s : Working × List UInt32) (round : Nat) : Working × List UInt32 :=
  let (v, window) := s
  match window with
  | [] => s
  | w :: rest =>
    (⟨rotateLeft 5 v.a + v.e + mixture v round + w, v.a, rotateLeft 30 v.b, v.c, v.d⟩, rest ++ nextWord window)

def compress (s : Working) (block : Bytes) : Working :=
  let words := (Bytes.chunks 4 block).map fun bs => UInt32.ofNat (Bytes.toNat bs)
  let (v, _) := (List.range 80).foldl step (s, words)
  ⟨s.a + v.a, s.b + v.b, s.c + v.c, s.d + v.d, s.e + v.e⟩

end Sha1

def sha1 (message : Bytes) : Bytes :=
  let s := (blocks Sha1.layout message).foldl Sha1.compress Sha1.start
  [s.a, s.b, s.c, s.d, s.e].flatMap fun w => Bytes.ofNat 4 w.toNat

end PolicySeal.Digest
