import Custody.Bytes

/-!
# The BLAKE3 digest

The unkeyed digest of 32 bytes. The input is cut into chunks of 1024 bytes,
each chunk into blocks of 64; a block is compressed into the state left by
the block before it. The chunks are the leaves of a binary tree whose nodes
compress the states of their two children: neighbours are joined level by
level, and an odd one out moves up unchanged.

The last compression, of a single chunk or of the root, differs from all
others by a flag, so the tree is built of **pending** compressions whose
last step is left open.
-/

namespace Custody

namespace Blake3

/-- A state of eight words. -/
abbrev Words8 := Vector UInt32 8

/-- A block, or a full compression state, of sixteen words. -/
abbrev Words16 := Vector UInt32 16

/-- The initial state. -/
def initial : Words8 :=
  #v[0x6A09E667, 0xBB67AE85, 0x3C6EF372, 0xA54FF53A,
    0x510E527F, 0x9B05688C, 0x1F83D9AB, 0x5BE0CD19]

/-- Rotation to the right. -/
def rotate (x n : UInt32) : UInt32 := (x >>> n) ||| (x <<< (32 - n))

/-- Mixes two message words into four words of the state. -/
def mix (s : Words16) (a b c d : Fin 16) (x y : UInt32) : Words16 :=
  let s := s.set a (s[a] + s[b] + x)
  let s := s.set d (rotate (s[d] ^^^ s[a]) 16)
  let s := s.set c (s[c] + s[d])
  let s := s.set b (rotate (s[b] ^^^ s[c]) 12)
  let s := s.set a (s[a] + s[b] + y)
  let s := s.set d (rotate (s[d] ^^^ s[a]) 8)
  let s := s.set c (s[c] + s[d])
  s.set b (rotate (s[b] ^^^ s[c]) 7)

/-- One round: the four columns, then the four diagonals. -/
def round (s m : Words16) : Words16 :=
  let s := mix s 0 4 8 12 m[0] m[1]
  let s := mix s 1 5 9 13 m[2] m[3]
  let s := mix s 2 6 10 14 m[4] m[5]
  let s := mix s 3 7 11 15 m[6] m[7]
  let s := mix s 0 5 10 15 m[8] m[9]
  let s := mix s 1 6 11 12 m[10] m[11]
  let s := mix s 2 7 8 13 m[12] m[13]
  mix s 3 4 9 14 m[14] m[15]

/-- The order of the message words in the next round. -/
def permute (m : Words16) : Words16 :=
  #v[m[2], m[6], m[3], m[10], m[7], m[0], m[4], m[13],
    m[1], m[11], m[12], m[5], m[9], m[14], m[15], m[8]]

/-- Several rounds, the message permuted between them. -/
def rounds : Nat → Words16 → Words16 → Words16
  | 0, s, _ => s
  | count + 1, s, m => rounds count (round s m) (permute m)

/-- Marks the first block of a chunk. -/
def firstBlock : UInt32 := 1

/-- Marks the last block of a chunk. -/
def lastBlock : UInt32 := 2

/-- Marks a node with two children. -/
def parent : UInt32 := 4

/-- Marks the last compression of all. -/
def root : UInt32 := 8

/-- **A compression still to be done.** -/
structure Pending where
  /-- The state before it. -/
  state : Words8
  /-- The block. -/
  block : Words16
  /-- The number of the chunk, zero in a node with children. -/
  counter : Nat
  /-- The number of bytes in the block. -/
  size : Nat
  /-- The marks. -/
  marks : UInt32

namespace Pending

/-- Does the compression, with further marks. -/
def finish (p : Pending) (marks : UInt32) : Words8 :=
  let h := p.state
  let s : Words16 :=
    #v[h[0], h[1], h[2], h[3], h[4], h[5], h[6], h[7],
      initial[0], initial[1], initial[2], initial[3],
      UInt32.ofNat p.counter, UInt32.ofNat (p.counter / UInt32.size),
      UInt32.ofNat p.size, p.marks ||| marks]
  let s := rounds 7 s p.block
  #v[s[0] ^^^ s[8], s[1] ^^^ s[9], s[2] ^^^ s[10], s[3] ^^^ s[11],
    s[4] ^^^ s[12], s[5] ^^^ s[13], s[6] ^^^ s[14], s[7] ^^^ s[15]]

end Pending

/-- The word at a position of a block, padded with zeros. -/
def wordAt (block : Bytes) (i : Nat) : UInt32 :=
  UInt32.ofNat (Bytes.toNat ((block.drop (4 * i)).take 4))

/-- The words of a block of at most 64 bytes. -/
def blockWords (block : Bytes) : Words16 := Vector.ofFn fun i => wordAt block i.val

/-- Cuts bytes into pieces of the given length; the last may be shorter. At
most `count` pieces are cut. -/
def pieces (length : Nat) : (count : Nat) → Bytes → List Bytes
  | 0, _ => []
  | count + 1, bytes =>
    if bytes.length ≤ length then [bytes]
    else bytes.take length :: pieces length count (bytes.drop length)

/-- Compresses the blocks of a chunk but for the last. -/
def absorb (counter : Nat) (state : Words8) (marks : UInt32) : List Bytes → Pending
  | [] => ⟨state, blockWords [], counter, 0, marks ||| lastBlock⟩
  | [block] => ⟨state, blockWords block, counter, block.length, marks ||| lastBlock⟩
  | block :: rest =>
    let pending : Pending := ⟨state, blockWords block, counter, block.length, marks⟩
    absorb counter (pending.finish 0) 0 rest

/-- The pending compression of a chunk. -/
def chunk (counter : Nat) (bytes : Bytes) : Pending :=
  absorb counter initial firstBlock (pieces 64 16 bytes)

/-- The pending compression of a node with two children. -/
def join (left right : Pending) : Pending :=
  ⟨initial, (left.finish 0) ++ (right.finish 0), 0, 64, parent⟩

/-- Joins neighbours; an odd one out stays. -/
def joinLevel : List Pending → List Pending
  | left :: right :: rest => join left right :: joinLevel rest
  | rest => rest

theorem length_joinLevel_le (nodes : List Pending) :
    (joinLevel nodes).length ≤ nodes.length := by
  fun_induction joinLevel nodes with
  | case1 left right rest ih => simp; omega
  | case2 rest => exact Nat.le_refl _

/-- Joins level by level until one node is left. -/
def joinAll : List Pending → Pending
  | [] => chunk 0 []
  | [node] => node
  | left :: right :: rest =>
    have := length_joinLevel_le rest
    joinAll (join left right :: joinLevel rest)
termination_by nodes => nodes.length

/-- The four bytes of a word. -/
def wordBytes (w : UInt32) : Bytes := Bytes.ofNat 4 w.toNat

/-- **The digest** of a sequence of bytes. -/
def digest (bytes : Bytes) : Bytes :=
  let chunks := (pieces 1024 (bytes.length + 1) bytes).zipIdx.map fun c => chunk c.2 c.1
  ((joinAll chunks).finish root).toList.flatMap wordBytes

end Blake3

end Custody
