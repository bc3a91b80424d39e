import Mathlib.Data.List.Basic
import Genoh.Bytes

/-!
# SHA-256

The hash function of FIPS 180-4: padding, message schedule, compression and the
chaining over blocks, on byte strings. This is the reference that concrete
implementations are compared with.
-/
namespace Genoh.Sha256

open Genoh.Bytes

abbrev Word := BitVec 32

/-- The eight chaining words, also the eight working variables. -/
structure Work where
  a : Word
  b : Word
  c : Word
  d : Word
  e : Word
  f : Word
  g : Word
  h : Word
  deriving DecidableEq, Repr

def ch (x y z : Word) : Word := (x &&& y) ^^^ (~~~x &&& z)
def maj (x y z : Word) : Word := (x &&& y) ^^^ (x &&& z) ^^^ (y &&& z)
def bigSigma0 (x : Word) : Word := x.rotateRight 2 ^^^ x.rotateRight 13 ^^^ x.rotateRight 22
def bigSigma1 (x : Word) : Word := x.rotateRight 6 ^^^ x.rotateRight 11 ^^^ x.rotateRight 25
def smallSigma0 (x : Word) : Word := x.rotateRight 7 ^^^ x.rotateRight 18 ^^^ (x >>> 3)
def smallSigma1 (x : Word) : Word := x.rotateRight 17 ^^^ x.rotateRight 19 ^^^ (x >>> 10)

/-- The round constants, one for each of the 64 rounds. -/
def constants : List Word := [
  0x428a2f98, 0x71374491, 0xb5c0fbcf, 0xe9b5dba5, 0x3956c25b, 0x59f111f1, 0x923f82a4, 0xab1c5ed5,
  0xd807aa98, 0x12835b01, 0x243185be, 0x550c7dc3, 0x72be5d74, 0x80deb1fe, 0x9bdc06a7, 0xc19bf174,
  0xe49b69c1, 0xefbe4786, 0x0fc19dc6, 0x240ca1cc, 0x2de92c6f, 0x4a7484aa, 0x5cb0a9dc, 0x76f988da,
  0x983e5152, 0xa831c66d, 0xb00327c8, 0xbf597fc7, 0xc6e00bf3, 0xd5a79147, 0x06ca6351, 0x14292967,
  0x27b70a85, 0x2e1b2138, 0x4d2c6dfc, 0x53380d13, 0x650a7354, 0x766a0abb, 0x81c2c92e, 0x92722c85,
  0xa2bfe8a1, 0xa81a664b, 0xc24b8b70, 0xc76c51a3, 0xd192e819, 0xd6990624, 0xf40e3585, 0x106aa070,
  0x19a4c116, 0x1e376c08, 0x2748774c, 0x34b0bcb5, 0x391c0cb3, 0x4ed8aa4a, 0x5b9cca4f, 0x682e6ff3,
  0x748f82ee, 0x78a5636f, 0x84c87814, 0x8cc70208, 0x90befffa, 0xa4506ceb, 0xbef9a3f7, 0xc67178f2]

def initial : Work :=
  ⟨0x6a09e667, 0xbb67ae85, 0x3c6ef372, 0xa54ff53a, 0x510e527f, 0x9b05688c, 0x1f83d9ab, 0x5be0cd19⟩

/-- The message schedule over the sixteen words of a block. -/
def schedule (m : Nat → Word) (t : Nat) : Word :=
  if t < 16 then m t
  else smallSigma1 (schedule m (t - 2)) + schedule m (t - 7) +
    smallSigma0 (schedule m (t - 15)) + schedule m (t - 16)

def round (k w : Word) (s : Work) : Work :=
  let t1 := s.h + bigSigma1 s.e + ch s.e s.f s.g + k + w
  let t2 := bigSigma0 s.a + maj s.a s.b s.c
  ⟨t1 + t2, s.a, s.b, s.c, s.d + t1, s.e, s.f, s.g⟩

/-- The `t`-th big-endian word of a block. -/
def wordAt (block : List Byte) (t : Nat) : Word :=
  BitVec.ofNat 32 (ofBeBytes ((block.drop (4 * t)).take 4))

def rounds (w : Nat → Word) (s : Work) : Work :=
  (List.range 64).foldl (fun s t => round (constants.getD t 0) (w t) s) s

def compress (s : Work) (block : List Byte) : Work :=
  let r := rounds (schedule (wordAt block)) s
  ⟨s.a + r.a, s.b + r.b, s.c + r.c, s.d + r.d, s.e + r.e, s.f + r.f, s.g + r.g, s.h + r.h⟩

/-- The `i`-th 64-byte block of a message. -/
def block (msg : List Byte) (i : Nat) : List Byte := (msg.drop (64 * i)).take 64

/-- Chain the first `n` blocks of a message. -/
def chain (n : Nat) (msg : List Byte) : Work :=
  (List.range n).foldl (fun s i => compress s (block msg i)) initial

/-- The number of zero bytes that bring the length to eight short of a whole block. -/
def zeros (len : Nat) : Nat := (119 - len % 64) % 64

def pad (msg : List Byte) : List Byte :=
  msg ++ 0x80 :: List.replicate (zeros msg.length) 0 ++ beBytes 8 (8 * msg.length)

def digest (s : Work) : List Byte :=
  [s.a, s.b, s.c, s.d, s.e, s.f, s.g, s.h].flatMap fun x => beBytes 4 x.toNat

def hash (msg : List Byte) : List Byte :=
  digest (chain ((pad msg).length / 64) (pad msg))

theorem schedule_lt (m : Nat → Word) (t : Nat) (h : t < 16) : schedule m t = m t := by
  rw [schedule, if_pos h]

theorem schedule_ge (m : Nat → Word) (t : Nat) (h : 16 ≤ t) :
    schedule m t = smallSigma1 (schedule m (t - 2)) + schedule m (t - 7) +
      smallSigma0 (schedule m (t - 15)) + schedule m (t - 16) := by
  rw [schedule, if_neg (by omega)]

@[simp] theorem chain_zero (msg : List Byte) : chain 0 msg = initial := rfl

theorem chain_succ (n : Nat) (msg : List Byte) :
    chain (n + 1) msg = compress (chain n msg) (block msg n) := by
  rw [chain, List.range_succ, List.foldl_append]
  rfl

theorem block_append (msg more : List Byte) (i : Nat) (h : 64 * (i + 1) ≤ msg.length) :
    block (msg ++ more) i = block msg i := by
  have hlen : 64 ≤ (msg.drop (64 * i)).length := by
    rw [List.length_drop]
    omega
  rw [block, block, List.drop_append_of_le_length (by omega), List.take_append_of_le_length hlen]

/-- Later bytes do not reach the blocks already chained. -/
theorem chain_append (n : Nat) (msg more : List Byte) (h : 64 * n ≤ msg.length) :
    chain n (msg ++ more) = chain n msg := by
  induction n with
  | zero => rw [chain_zero, chain_zero]
  | succ n ih => rw [chain_succ, chain_succ, ih (by omega), block_append _ _ _ h]

@[simp] theorem digest_length (s : Work) : (digest s).length = 32 := by simp [digest]

@[simp] theorem hash_length (msg : List Byte) : (hash msg).length = 32 := by simp [hash]

end Genoh.Sha256
