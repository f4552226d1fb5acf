import Pulpissimo.Lib.Sines

/-!
# MD5

A block of sixteen words is mixed into a state of four words by sixty-four operations. Each of
them adds a function of the state, a word of the block and the first bits of a sine, and rotates
the sum. What comes out is added to the state, and the next block goes on from there.
-/

namespace Pulpissimo.Md5

/-- The four words of the state. -/
@[ext]
structure Words where
  a : BitVec 32
  b : BitVec 32
  c : BitVec 32
  d : BitVec 32
  deriving DecidableEq

def initial : Words := ⟨0x67452301#32,0xEFCDAB89#32,0x98BADCFE#32,0x10325476#32⟩

/-- The functions of the four rounds. -/
def auxiliary (round : ℕ) (x y z : BitVec 32) : BitVec 32 :=
  match round with
  | 0 => x &&& y ||| ~~~x &&& z
  | 1 => x &&& z ||| y &&& ~~~z
  | 2 => x ^^^ y ^^^ z
  | _ => y ^^^ (x ||| ~~~z)

/-- The word of the block that an operation adds. -/
def place (k : ℕ) : ℕ :=
  (match k/16 with
  | 0 => k
  | 1 => 5*k+1
  | 2 => 3*k+5
  | _ => 7*k)%16

/-- How far an operation rotates. -/
def amount (k : ℕ) : ℕ :=
  (match k/16 with
  | 0 => [7,12,17,22]
  | 1 => [5,9,14,20]
  | 2 => [4,11,16,23]
  | _ => [6,10,15,21]).getD (k%4) 0

/-- The first 32 bits of a sine after the point. -/
noncomputable def sine (k : ℕ) : BitVec 32 := BitVec.ofNat 32 ⌊2^32*|Real.sin (k+1 : ℕ)|⌋₊

theorem sine_eq {k K : ℕ} (hk : k < 64) (h : Sines.Starts (k+1) K) : sine k=BitVec.ofNat 32 K := by
  rw [sine,Sines.floor_sin hk h]

section Blocks

variable (T m : ℕ → BitVec 32)

/-- One operation on a block, with the constants `T`. -/
def operation (k : ℕ) (s : Words) : Words :=
  ⟨s.d,s.b+(s.a+auxiliary (k/16) s.b s.c s.d+m (place k)+T k).rotateLeft (amount k),s.b,s.c⟩

/-- The first operations on a block. -/
def operations : ℕ → Words → Words
  | 0,s => s
  | k+1,s => operation T m k (operations k s)

def add (s t : Words) : Words := ⟨s.a+t.a,s.b+t.b,s.c+t.c,s.d+t.d⟩

/-- The state after a block. -/
def compress (s : Words) : Words := add (operations T m 64 s) s

end Blocks

/-- The state after the given blocks. -/
noncomputable def chain (ms : List (ℕ → BitVec 32)) : Words :=
  ms.foldl (fun s m => compress sine m s) initial

theorem chain_concat (ms : List (ℕ → BitVec 32)) (m : ℕ → BitVec 32) :
    chain (ms++[m])=compress sine m (chain ms) :=
  List.foldl_concat _ _ _ _

/-- The words of a state, from `a` on. -/
def join (s : Words) : BitVec 128 := s.a++s.b++s.c++s.d

end Pulpissimo.Md5
