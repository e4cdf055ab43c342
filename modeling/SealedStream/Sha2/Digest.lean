import SealedStream.Sha2.Compression

/-!
One-shot SHA-2 digests: pad the message to whole blocks, then fold the compression function.
-/

namespace SealedStream.Sha2

/-- Bytes in a block. -/
def blockSize : Nat := 128

/-- What follows a message of `n` bytes: a one bit, zeros, and the length in bits as 16 bytes. -/
def padding (n : Nat) : Bytes :=
  0x80 :: (List.replicate ((239 - n % 128) % 128) 0 ++ Bytes.ofNatBE 16 (8 * n))

/-- Folds every whole block of `bs` into the lanes; what is left over is shorter than a block. -/
def absorb (s : Lanes) (bs : Bytes) : Lanes × Bytes :=
  let block := bs.take blockSize
  if _h : block.length = blockSize then absorb (compress s block) (bs.drop blockSize)
  else (s, bs)
termination_by bs.length
decreasing_by
  simp only [block, blockSize, List.length_take, List.length_drop] at _h ⊢
  omega

/-- The chaining value after a whole message. -/
def chain (start : Lanes) (message : Bytes) : Lanes :=
  (absorb start (message ++ padding message.length)).1

def sha512 (message : Bytes) : Bytes := (chain start512 message).toBytes

def sha384 (message : Bytes) : Bytes := (chain start384 message).toBytes.take 48

@[simp] theorem length_sha512 (message : Bytes) : (sha512 message).length = 64 := by
  simp [sha512]

@[simp] theorem length_sha384 (message : Bytes) : (sha384 message).length = 48 := by
  simp [sha384]

/-- A padded message is a whole number of blocks. -/
theorem length_padded (message : Bytes) :
    (message ++ padding message.length).length % blockSize = 0 := by
  simp only [padding, blockSize, List.length_append, List.length_cons, List.length_replicate,
    Bytes.length_ofNatBE]
  omega

end SealedStream.Sha2
