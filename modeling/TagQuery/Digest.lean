import TagQuery.Json.Printer

/-!
# Digests

The hash function BLAKE3 with a result of 256 bits. The input is cut into chunks of 1024 bytes,
which are the leaves of a binary tree; each chunk is a chain of blocks of 64 bytes.

## Main definitions

- `Digest`: eight words.
- `Digest.ofBytes`, `Digest.ofText`: the digest of an input.
- `Digest.toHex`: a digest in hexadecimal.
-/

namespace TagQuery

/-- A digest, as eight words whose least significant byte comes first. -/
structure Digest where
  words : Vector UInt32 8
  deriving DecidableEq

namespace Digest

/-! ## Compression -/

/-- Sixteen words: a block of a message, or the state of a compression. -/
abbrev Block := Vector UInt32 16

def initial : Vector UInt32 8 :=
  #v[0x6A09E667, 0xBB67AE85, 0x3C6EF372, 0xA54FF53A, 0x510E527F, 0x9B05688C, 0x1F83D9AB, 0x5BE0CD19]

/-- Turns the bits of a word to the right. -/
def rotate (x : UInt32) (n : UInt32) : UInt32 :=
  (x >>> n) ||| (x <<< (32 - n))

def mix (s : Block) (a b c d : Fin 16) (x y : UInt32) : Block :=
  let s := s.set a (s[a] + s[b] + x)
  let s := s.set d (rotate (s[d] ^^^ s[a]) 16)
  let s := s.set c (s[c] + s[d])
  let s := s.set b (rotate (s[b] ^^^ s[c]) 12)
  let s := s.set a (s[a] + s[b] + y)
  let s := s.set d (rotate (s[d] ^^^ s[a]) 8)
  let s := s.set c (s[c] + s[d])
  s.set b (rotate (s[b] ^^^ s[c]) 7)

/-- Mixes a message into the columns of the state and then into its diagonals. -/
def round (s m : Block) : Block :=
  let s := mix s 0 4 8 12 m[0] m[1]
  let s := mix s 1 5 9 13 m[2] m[3]
  let s := mix s 2 6 10 14 m[4] m[5]
  let s := mix s 3 7 11 15 m[6] m[7]
  let s := mix s 0 5 10 15 m[8] m[9]
  let s := mix s 1 6 11 12 m[10] m[11]
  let s := mix s 2 7 8 13 m[12] m[13]
  mix s 3 4 9 14 m[14] m[15]

def permute (m : Block) : Block :=
  #v[m[2], m[6], m[3], m[10], m[7], m[0], m[4], m[13], m[1], m[11], m[12], m[5], m[9], m[14], m[15],
    m[8]]

def rounds : Nat → Block → Block → Block
  | 0, s, _ => s
  | n + 1, s, m => rounds n (round s m) (permute m)

structure Node where
  chaining : Vector UInt32 8
  message : Block
  counter : UInt64
  length : UInt32
  flags : UInt32

def Node.compress (n : Node) : Vector UInt32 8 :=
  let h := n.chaining
  let start : Block :=
    #v[h[0], h[1], h[2], h[3], h[4], h[5], h[6], h[7], initial[0], initial[1], initial[2], initial[3],
      n.counter.toUInt32, (n.counter >>> 32).toUInt32, n.length, n.flags]
  let s := rounds 7 start n.message
  #v[s[0] ^^^ s[8], s[1] ^^^ s[9], s[2] ^^^ s[10], s[3] ^^^ s[11], s[4] ^^^ s[12], s[5] ^^^ s[13],
    s[6] ^^^ s[14], s[7] ^^^ s[15]]

/-- The flags of the first and the last block of a chunk, of an inner node and of the root. -/
def chunkStart : UInt32 := 1
def chunkEnd : UInt32 := 2
def innerNode : UInt32 := 4
def rootNode : UInt32 := 8

/-! ## Chunks -/

/-- The word of up to four bytes, the least significant first. -/
def wordOf (bytes : List UInt8) : UInt32 :=
  bytes.foldr (fun b w => (w <<< 8) ||| b.toUInt32) 0

/-- The block of up to 64 bytes, filled up with zeros. -/
def blockOf (bytes : List UInt8) : Block :=
  Vector.ofFn fun i => wordOf ((bytes.drop (4 * i.val)).take 4)

def blockLength : Nat := 64
def chunkLength : Nat := 1024

/-- The last compression of a chunk, after the chaining value of the blocks before `bytes`. -/
def chunkFrom (counter : UInt64) (chaining : Vector UInt32 8) (start : UInt32) (bytes : List UInt8) :
    Node :=
  if bytes.length ≤ blockLength then
    ⟨chaining, blockOf bytes, counter, bytes.length.toUInt32, start ||| chunkEnd⟩
  else
    let node : Node := ⟨chaining, blockOf (bytes.take blockLength), counter, 64, start⟩
    chunkFrom counter node.compress 0 (bytes.drop blockLength)
termination_by bytes.length
decreasing_by
  simp only [List.length_drop, blockLength] at *
  omega

def chunk (counter : UInt64) (bytes : List UInt8) : Node :=
  chunkFrom counter initial chunkStart bytes

/-! ## Trees -/

/-- The number of bytes of the left branch: the greatest power of two chunks that leaves something
for the right one. -/
def leftLength (length : Nat) : Nat :=
  chunkLength * Nat.pow 2 ((length - 1) / chunkLength).log2

theorem leftLength_pos (length : Nat) : 0 < leftLength length :=
  Nat.mul_pos (by decide) (Nat.two_pow_pos _)

/-- The left branch leaves something for the right one. -/
theorem leftLength_lt {length : Nat} (h : chunkLength < length) : leftLength length < length := by
  have hne : (length - 1) / chunkLength ≠ 0 := by
    simp only [chunkLength] at *
    omega
  have hlog := Nat.log2_self_le hne
  have hmul := Nat.mul_le_mul_left chunkLength hlog
  have hdiv := Nat.mul_div_le (length - 1) chunkLength
  simp only [leftLength, Nat.pow_eq]
  simp only [chunkLength] at *
  omega

/-- The last compression of a tree whose first chunk has the given number. -/
def tree (counter : Nat) (bytes : List UInt8) : Node :=
  if h : bytes.length ≤ chunkLength then chunk counter.toUInt64 bytes
  else
    let left := leftLength bytes.length
    have hleft : (bytes.take left).length < bytes.length := by
      have := leftLength_lt (Nat.lt_of_not_le h)
      simp only [left, List.length_take]
      omega
    have hright : (bytes.drop left).length < bytes.length := by
      have := leftLength_pos bytes.length
      simp only [chunkLength] at h
      simp only [left, List.length_drop]
      omega
    let l := (tree counter (bytes.take left)).compress
    let r := (tree (counter + left / chunkLength) (bytes.drop left)).compress
    ⟨initial, l ++ r, 0, 64, innerNode⟩
termination_by bytes.length
decreasing_by
  · exact hleft
  · exact hright

/-! ## Digests -/

def ofBytes (bytes : List UInt8) : Digest :=
  let root := tree 0 bytes
  ⟨{ root with flags := root.flags ||| rootNode }.compress⟩

def ofText (s : String) : Digest :=
  ofBytes s.toUTF8.toList

def bytesOf (w : UInt32) : List UInt8 :=
  [w.toUInt8, (w >>> 8).toUInt8, (w >>> 16).toUInt8, (w >>> 24).toUInt8]

def toBytes (d : Digest) : List UInt8 :=
  d.words.toList.flatMap bytesOf

def toHex (d : Digest) : String :=
  String.ofList (d.toBytes.flatMap fun b => Json.hexPair b.toNat)

def short (d : Digest) : String :=
  String.ofList (d.toHex.toList.take 16)

/-- The number of the first eight bytes, the least significant first. -/
def lowWord (d : Digest) : Nat :=
  d.words[0].toNat + d.words[1].toNat * Nat.pow 2 32

def ofJson (j : Json) : Digest :=
  ofText j.compact

end Digest
end TagQuery
