import Backplane.Data.Chunks

/-!
# `Backplane.Digest.Blocks`: messages cut for a block hash

A block hash pads its message with a one bit, zeros and the bit length,
cuts it into blocks, and folds a compression over them. The main
statement:

* `length_pad`: a padded message is a whole number of blocks.
-/

set_option autoImplicit false

namespace Backplane.Digest

/-- The `width` bytes of a number, the high one first. -/
def bigEndian (width n : Nat) : List UInt8 :=
  (List.range width).map fun i => UInt8.ofNat (n >>> (8 * (width - 1 - i)))

/-- The number that bytes write, the high one first. -/
def ofBigEndian (bytes : List UInt8) : Nat :=
  bytes.foldl (fun n b => 256 * n + b.toNat) 0

/-- The zeros between the closing bit of a message of `size` bytes and
its length. -/
def zeroCount (block width size : Nat) : Nat :=
  (block - (size + 1 + width) % block) % block

/-- The message, a one bit, zeros, and the bit length in `width` bytes. -/
def pad (block width : Nat) (message : List UInt8) : List UInt8 :=
  message ++ 0x80 :: (List.replicate (zeroCount block width message.length) 0
    ++ bigEndian width (8 * message.length))

@[simp] theorem length_bigEndian (width n : Nat) : (bigEndian width n).length = width := by
  simp [bigEndian]

/-- A padded message is a whole number of blocks. -/
theorem length_pad (block width : Nat) (hb : 0 < block) (message : List UInt8) :
    (pad block width message).length % block = 0 := by
  have hlen : (pad block width message).length
      = message.length + 1 + width + zeroCount block width message.length := by
    simp only [pad, List.length_append, List.length_cons, List.length_replicate,
      length_bigEndian]
    omega
  rw [hlen, zeroCount, Nat.add_mod, Nat.mod_mod]
  generalize message.length + 1 + width = n
  have h : n % block < block := Nat.mod_lt _ hb
  by_cases h0 : n % block = 0
  · simp [h0]
  · rw [Nat.mod_eq_of_lt (show block - n % block < block by omega),
      show n % block + (block - n % block) = block by omega, Nat.mod_self]

/-- The padded message as blocks of big-endian words, each word as its
value. -/
def wordBlocks (block width word : Nat) (message : List UInt8) : List (List Nat) :=
  (chunks block (pad block width message)).map fun b => (chunks word b).map ofBigEndian

end Backplane.Digest
