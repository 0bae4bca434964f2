import PolicySeal.Bytes
/-
  PolicySeal.Digest.Padding — a message filled up to whole blocks.

  A one bit, zeros, and the length of the message in bits in the last `lengthBytes` bytes.
-/

namespace PolicySeal.Digest

structure Layout where
  blockBytes : Nat
  lengthBytes : Nat

def zeros (l : Layout) (messageBytes : Nat) : Nat :=
  let used := (messageBytes + 1 + l.lengthBytes) % l.blockBytes
  (l.blockBytes - used) % l.blockBytes

def padding (l : Layout) (messageBytes : Nat) : Bytes :=
  0x80 :: (List.replicate (zeros l messageBytes) 0 ++ Bytes.ofNat l.lengthBytes (8 * messageBytes))

def blocks (l : Layout) (message : Bytes) : List Bytes :=
  Bytes.chunks l.blockBytes (message ++ padding l message.length)

end PolicySeal.Digest
