/-!
The BLAKE3 digest of a sequence of bytes. The input is cut into chunks of 1024 bytes, the leaves of
a binary tree whose left branches are as large as a power of two allows; every node is compressed to
a chaining value of eight words, and the root to the digest.
-/

namespace ModuleHost.Digest.Blake3

abbrev Words (n : Nat) := Vector UInt32 n

def initial : Words 8 :=
  #v[0x6A09E667, 0xBB67AE85, 0x3C6EF372, 0xA54FF53A, 0x510E527F, 0x9B05688C, 0x1F83D9AB, 0x5BE0CD19]

def chunkStart : UInt32 := 1

def chunkEnd : UInt32 := 2

def parent : UInt32 := 4

def root : UInt32 := 8

def rotateRight (w : UInt32) (n : UInt32) : UInt32 :=
  (w >>> n) ||| (w <<< (32 - n))

def mix (s : Words 16) (a b c d : Fin 16) (x y : UInt32) : Words 16 :=
  let s := s.set a (s[a] + s[b] + x)
  let s := s.set d (rotateRight (s[d] ^^^ s[a]) 16)
  let s := s.set c (s[c] + s[d])
  let s := s.set b (rotateRight (s[b] ^^^ s[c]) 12)
  let s := s.set a (s[a] + s[b] + y)
  let s := s.set d (rotateRight (s[d] ^^^ s[a]) 8)
  let s := s.set c (s[c] + s[d])
  s.set b (rotateRight (s[b] ^^^ s[c]) 7)

def round (s m : Words 16) : Words 16 :=
  let s := mix s 0 4 8 12 m[0] m[1]
  let s := mix s 1 5 9 13 m[2] m[3]
  let s := mix s 2 6 10 14 m[4] m[5]
  let s := mix s 3 7 11 15 m[6] m[7]
  let s := mix s 0 5 10 15 m[8] m[9]
  let s := mix s 1 6 11 12 m[10] m[11]
  let s := mix s 2 7 8 13 m[12] m[13]
  mix s 3 4 9 14 m[14] m[15]

def permute (m : Words 16) : Words 16 :=
  #v[m[2], m[6], m[3], m[10], m[7], m[0], m[4], m[13], m[1], m[11], m[12], m[5], m[9], m[14], m[15],
    m[8]]

def rounds : Nat → Words 16 → Words 16 → Words 16
  | 0, s, _ => s
  | n + 1, s, m => rounds n (round s m) (permute m)

/-- What is compressed to a chaining value: one block with its place in the input. -/
structure Node where
  chain : Words 8
  block : Words 16
  counter : Nat
  length : Nat
  flags : UInt32

def Node.compress (n : Node) (extra : UInt32) : Words 8 :=
  let h := n.chain
  let low := n.counter.toUInt32
  let high := (n.counter / Nat.pow 2 32).toUInt32
  let start : Words 16 :=
    #v[h[0], h[1], h[2], h[3], h[4], h[5], h[6], h[7], initial[0], initial[1], initial[2], initial[3],
      low, high, n.length.toUInt32, n.flags ||| extra]
  let s := rounds 7 start n.block
  Vector.ofFn fun i : Fin 8 => s[i.val] ^^^ s[i.val + 8]

def Node.value (n : Node) : Words 8 :=
  n.compress 0

def word (bytes : List UInt8) : UInt32 :=
  bytes.foldr (fun b w => b.toUInt32 ||| (w <<< 8)) 0

def blockOf (bytes : List UInt8) : Words 16 :=
  Vector.ofFn fun i : Fin 16 => word ((bytes.drop (4 * i)).take 4)

def chunkFrom (counter : Nat) (chain : Words 8) (flags : UInt32) (bytes : List UInt8) : Node :=
  if bytes.length ≤ 64 then
    { chain, block := blockOf bytes, counter, length := bytes.length, flags := flags ||| chunkEnd }
  else
    let node : Node := { chain, block := blockOf (bytes.take 64), counter, length := 64, flags }
    chunkFrom counter node.value 0 (bytes.drop 64)
termination_by bytes.length
decreasing_by simp; omega

def chunk (counter : Nat) (bytes : List UInt8) : Node :=
  chunkFrom counter initial chunkStart bytes

def join (left right : Words 8) : Node :=
  { chain := initial, block := left ++ right, counter := 0, length := 64, flags := parent }

/-- The bytes of the left branch: the largest power of two of chunks that leaves some for the right. -/
def leftLength (length : Nat) : Nat :=
  1024 * Nat.pow 2 ((length - 1) / 1024).log2

theorem leftLength_pos (length : Nat) : 0 < leftLength length :=
  Nat.mul_pos (by decide) (Nat.two_pow_pos _)

theorem leftLength_lt {length : Nat} (h : 1024 < length) : leftLength length < length := by
  have hq : (length - 1) / 1024 ≠ 0 := by omega
  have : Nat.pow 2 ((length - 1) / 1024).log2 ≤ (length - 1) / 1024 := Nat.log2_self_le hq
  simp only [leftLength]
  omega

def tree (first : Nat) (bytes : List UInt8) : Node :=
  if bytes.length ≤ 1024 then chunk first bytes
  else
    let n := leftLength bytes.length
    join (tree first (bytes.take n)).value (tree (first + n / 1024) (bytes.drop n)).value
termination_by bytes.length
decreasing_by
  · have := @leftLength_lt bytes.length (by omega)
    simp only [List.length_take]
    omega
  · have := leftLength_pos bytes.length
    simp only [List.length_drop]
    omega

def hexDigit (n : Nat) : Char :=
  if n < 10 then Char.ofNat ('0'.toNat + n) else Char.ofNat ('a'.toNat + (n - 10))

def hexOfWord (w : UInt32) : List Char :=
  [(0 : UInt32), 8, 16, 24].flatMap fun shift =>
    let byte := (w >>> shift).toNat % 256
    [hexDigit (byte / 16), hexDigit (byte % 16)]

def hash (bytes : List UInt8) : String :=
  String.ofList (((tree 0 bytes).compress root).toList.flatMap hexOfWord)

end ModuleHost.Digest.Blake3

namespace ModuleHost.Digest

def ofText (text : String) : String :=
  Blake3.hash text.toUTF8.toList

end ModuleHost.Digest
