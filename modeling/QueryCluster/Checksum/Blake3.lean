import QueryCluster.Bytes

/-!
# BLAKE3

The unkeyed hash: chunks of 1024 bytes are chained block by block, and their chaining values are
combined in a binary tree whose left subtrees are full. The digest has 32 bytes.
-/
namespace QueryCluster.Blake3

/-- Four words that are mixed side by side. -/
structure Quad where
  a : UInt32
  b : UInt32
  c : UInt32
  d : UInt32

namespace Quad

def map2 (f : UInt32 → UInt32 → UInt32) (x y : Quad) : Quad :=
  ⟨f x.a y.a, f x.b y.b, f x.c y.c, f x.d y.d⟩

def rotateWords (n : UInt32) (x : Quad) : Quad :=
  let r (w : UInt32) := (w >>> n) ||| (w <<< (32 - n))
  ⟨r x.a, r x.b, r x.c, r x.d⟩

def rotate1 (x : Quad) : Quad := ⟨x.b, x.c, x.d, x.a⟩
def rotate2 (x : Quad) : Quad := ⟨x.c, x.d, x.a, x.b⟩
def rotate3 (x : Quad) : Quad := ⟨x.d, x.a, x.b, x.c⟩
def toList (x : Quad) : List UInt32 := [x.a, x.b, x.c, x.d]

end Quad

structure State where
  r0 : Quad
  r1 : Quad
  r2 : Quad
  r3 : Quad

/-- Mixes the four columns of a state with two message words each. -/
def State.mix (s : State) (mx my : Quad) : State :=
  let add := Quad.map2 (· + ·)
  let xor := Quad.map2 (· ^^^ ·)
  let r0 := add (add s.r0 s.r1) mx
  let r3 := (xor s.r3 r0).rotateWords 16
  let r2 := add s.r2 r3
  let r1 := (xor s.r1 r2).rotateWords 12
  let r0 := add (add r0 r1) my
  let r3 := (xor r3 r0).rotateWords 8
  let r2 := add r2 r3
  let r1 := (xor r1 r2).rotateWords 7
  ⟨r0, r1, r2, r3⟩

structure Message where
  m0 : Quad
  m1 : Quad
  m2 : Quad
  m3 : Quad

/-- The order in which the next round takes the message words. -/
def Message.permute (m : Message) : Message :=
  ⟨⟨m.m0.c, m.m1.c, m.m0.d, m.m2.c⟩, ⟨m.m1.d, m.m0.a, m.m1.a, m.m3.b⟩,
   ⟨m.m0.b, m.m2.d, m.m3.a, m.m1.b⟩, ⟨m.m2.b, m.m3.c, m.m3.d, m.m2.a⟩⟩

/-- Columns are mixed with the first half of the message, diagonals with the second. -/
def State.round (s : State) (m : Message) : State :=
  let s := s.mix ⟨m.m0.a, m.m0.c, m.m1.a, m.m1.c⟩ ⟨m.m0.b, m.m0.d, m.m1.b, m.m1.d⟩
  let t : State := ⟨s.r0, s.r1.rotate1, s.r2.rotate2, s.r3.rotate3⟩
  let t := t.mix ⟨m.m2.a, m.m2.c, m.m3.a, m.m3.c⟩ ⟨m.m2.b, m.m2.d, m.m3.b, m.m3.d⟩
  ⟨t.r0, t.r1.rotate3, t.r2.rotate2, t.r3.rotate1⟩

def rounds : Nat → State → Message → State
  | 0, s, _ => s
  | n + 1, s, m => rounds n (s.round m) m.permute

/-- A chaining value: eight words. -/
structure Chain where
  lo : Quad
  hi : Quad

def initial : Chain :=
  ⟨⟨0x6a09e667, 0xbb67ae85, 0x3c6ef372, 0xa54ff53a⟩, ⟨0x510e527f, 0x9b05688c, 0x1f83d9ab, 0x5be0cd19⟩⟩

def compress (c : Chain) (m : Message) (counter : Nat) (length flags : UInt32) : Chain :=
  let tail : Quad := ⟨UInt32.ofNat counter, UInt32.ofNat (counter >>> 32), length, flags⟩
  let s := rounds 7 ⟨c.lo, c.hi, initial.lo, tail⟩ m
  ⟨Quad.map2 (· ^^^ ·) s.r0 s.r2, Quad.map2 (· ^^^ ·) s.r1 s.r3⟩

def chunkStart : UInt32 := 1
def chunkEnd : UInt32 := 2
def parent : UInt32 := 4
def root : UInt32 := 8

/-- A compression that still waits to know whether it is the last one. -/
structure Pending where
  chain : Chain
  message : Message
  counter : Nat
  length : UInt32
  flags : UInt32

def Pending.value (p : Pending) : Chain := compress p.chain p.message p.counter p.length p.flags

def Pending.digest (p : Pending) : Bytes :=
  let c := compress p.chain p.message 0 p.length (p.flags ||| root)
  (c.lo.toList ++ c.hi.toList).flatMap fun w => Bytes.ofNatLE 4 w.toNat

def word (bs : Bytes) (i : Nat) : UInt32 := UInt32.ofNat (Bytes.toNatLE ((bs.drop (4 * i)).take 4))

def quad (bs : Bytes) (i : Nat) : Quad := ⟨word bs i, word bs (i + 1), word bs (i + 2), word bs (i + 3)⟩

/-- A block of at most 64 bytes, filled up with zeros. -/
def Message.ofBlock (bs : Bytes) : Message := ⟨quad bs 0, quad bs 4, quad bs 8, quad bs 12⟩

/-- Chains the blocks of one chunk; the last block stays pending. -/
def chunkFrom (counter : Nat) (chain : Chain) (flags : UInt32) (bs : Bytes) : Pending :=
  if _h : bs.length ≤ 64 then
    ⟨chain, .ofBlock bs, counter, UInt32.ofNat bs.length, flags ||| chunkEnd⟩
  else
    chunkFrom counter (compress chain (.ofBlock (bs.take 64)) counter 64 flags) 0 (bs.drop 64)
termination_by bs.length
decreasing_by simp only [List.length_drop]; omega

def chunk (counter : Nat) (bs : Bytes) : Pending := chunkFrom counter initial chunkStart bs

def join (left right : Pending) : Pending :=
  let l := left.value
  let r := right.value
  ⟨initial, ⟨l.lo, l.hi, r.lo, r.hi⟩, 0, 64, parent⟩

/-- Bytes of the left subtree over `n` bytes: the largest full tree that leaves something over. -/
def leftBytes (n : Nat) : Nat := 1024 <<< ((n - 1) / 1024).log2

/-- The tree over bytes that begin with chunk number `counter`. -/
def tree (counter : Nat) (bs : Bytes) : Pending :=
  if h : bs.length ≤ 1024 then chunk counter bs
  else
    join (tree counter (bs.take (leftBytes bs.length)))
      (tree (counter + leftBytes bs.length / 1024) (bs.drop (leftBytes bs.length)))
termination_by bs.length
decreasing_by
  · simp only [List.length_take]
    have h1 : (bs.length - 1) / 1024 ≠ 0 := by omega
    have h2 := Nat.log2_self_le h1
    rw [leftBytes, Nat.shiftLeft_eq]
    omega
  · simp only [List.length_drop]
    have : 0 < leftBytes bs.length := by
      rw [leftBytes, Nat.shiftLeft_eq]
      exact Nat.mul_pos (by decide) (Nat.two_pow_pos _)
    omega

def digest (bs : Bytes) : Bytes := (tree 0 bs).digest

end QueryCluster.Blake3
