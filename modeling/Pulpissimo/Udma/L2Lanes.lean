import Pulpissimo.Udma.ChAddrgen

/-!
# Byte lanes of the second level memory

The memory behind the channels has words of 32 or 64 bits. A datum of one, two or four bytes
is written with the byte enables of its place in the word, and it is read back from there. The
tables of both widths agree with the byte addresses wherever a datum is aligned to its size.
-/

namespace Pulpissimo.Udma.L2Lanes

open Pulpissimo.Udma.ChAddrgen

/-- `L2_DATA_WIDTH`. -/
inductive Width where
  | w32
  | w64
deriving DecidableEq

namespace Width

/-- Byte lanes of a word. -/
def lanes : Width → ℕ
  | w32 => 4
  | w64 => 8

def ALIGN_BITS : Width → ℕ
  | w32 => 2
  | w64 => 3

theorem lanes_eq (w : Width) : w.lanes=2^w.ALIGN_BITS := by cases w <;> rfl

end Width

section Code

def s_l2_be64 (size : BitVec 2) (addr : BitVec 3) : BitVec 8 :=
  if size=0 then
    if addr=0b000#3 then 0b00000001#8
    else if addr=0b001#3 then 0b00000010#8
    else if addr=0b010#3 then 0b00000100#8
    else if addr=0b011#3 then 0b00001000#8
    else if addr=0b100#3 then 0b00010000#8
    else if addr=0b101#3 then 0b00100000#8
    else if addr=0b110#3 then 0b01000000#8
    else 0b10000000#8
  else if size=1 then
    if addr.extractLsb' 1 2=0b00#2 then 0b00000011#8
    else if addr.extractLsb' 1 2=0b01#2 then 0b00001100#8
    else if addr.extractLsb' 1 2=0b10#2 then 0b00110000#8
    else 0b11000000#8
  else if size=2 then
    if addr.getLsbD 2=false then 0b00001111#8 else 0b11110000#8
  else 0b00000000#8

def s_l2_be32 (size : BitVec 2) (addr : BitVec 2) : BitVec 4 :=
  if size=0 then
    if addr=0b00#2 then 0b0001#4
    else if addr=0b01#2 then 0b0010#4
    else if addr=0b10#2 then 0b0100#4
    else 0b1000#4
  else if size=1 then
    if addr.getLsbD 1=false then 0b0011#4 else 0b1100#4
  else if size=2 then 0b1111#4
  else 0b0000#4

/-- `{hi'h0, data[n-1:0], lo'h0}`. -/
def lane (hi n lo : ℕ) (data : BitVec 32) : BitVec (hi+n+lo) := (0 : BitVec hi)++data.extractLsb' 0 n++(0 : BitVec lo)

def l2_wdata_o64 (be : BitVec 8) (data : BitVec 32) : BitVec 64 :=
  if be=0b00001111#8 then lane 32 32 0 data
  else if be=0b11110000#8 then lane 0 32 32 data
  else if be=0b00000011#8 then lane 48 16 0 data
  else if be=0b00001100#8 then lane 32 16 16 data
  else if be=0b00110000#8 then lane 16 16 32 data
  else if be=0b11000000#8 then lane 0 16 48 data
  else if be=0b00000001#8 then lane 56 8 0 data
  else if be=0b00000010#8 then lane 48 8 8 data
  else if be=0b00000100#8 then lane 40 8 16 data
  else if be=0b00001000#8 then lane 32 8 24 data
  else if be=0b00010000#8 then lane 24 8 32 data
  else if be=0b00100000#8 then lane 16 8 40 data
  else if be=0b01000000#8 then lane 8 8 48 data
  else if be=0b10000000#8 then lane 0 8 56 data
  else 0xDEADABBADEADBEEF#64

def l2_wdata_o32 (be : BitVec 4) (data : BitVec 32) : BitVec 32 :=
  if be=0b1111#4 then lane 0 32 0 data
  else if be=0b0011#4 then lane 16 16 0 data
  else if be=0b1100#4 then lane 0 16 16 data
  else if be=0b0001#4 then lane 24 8 0 data
  else if be=0b0010#4 then lane 16 8 8 data
  else if be=0b0100#4 then lane 8 8 16 data
  else if be=0b1000#4 then lane 0 8 24 data
  else 0xDEADBEEF#32

/-- `{0, rdata[lo+n-1:lo]}`. -/
def part {w : ℕ} (lo n : ℕ) (rdata : BitVec w) : BitVec 32 := (rdata.extractLsb' lo n).setWidth 32

def s_data64 (size : BitVec 2) (addr : BitVec 3) (rdata : BitVec 64) : BitVec 32 :=
  if size=0 then
    if addr=0b000#3 then part 0 8 rdata
    else if addr=0b001#3 then part 8 8 rdata
    else if addr=0b010#3 then part 16 8 rdata
    else if addr=0b011#3 then part 24 8 rdata
    else if addr=0b100#3 then part 32 8 rdata
    else if addr=0b101#3 then part 40 8 rdata
    else if addr=0b110#3 then part 48 8 rdata
    else part 56 8 rdata
  else if size=1 then
    if addr.extractLsb' 1 2=0b00#2 then part 0 16 rdata
    else if addr.extractLsb' 1 2=0b01#2 then part 16 16 rdata
    else if addr.extractLsb' 1 2=0b10#2 then part 32 16 rdata
    else part 48 16 rdata
  else if size=2 then
    if addr.getLsbD 2=false then part 0 32 rdata else part 32 32 rdata
  else 0xDEADBEEF#32

def s_data32 (size : BitVec 2) (addr : BitVec 2) (rdata : BitVec 32) : BitVec 32 :=
  if size=0 then
    if addr=0b00#2 then part 0 8 rdata
    else if addr=0b01#2 then part 8 8 rdata
    else if addr=0b10#2 then part 16 8 rdata
    else part 24 8 rdata
  else if size=1 then
    if addr.getLsbD 1=false then part 0 16 rdata else part 16 16 rdata
  else if size=2 then part 0 32 rdata
  else 0xDEADBEEF#32

def s_l2_be : (w : Width) → BitVec 2 → BitVec w.ALIGN_BITS → BitVec w.lanes
  | .w32 => s_l2_be32
  | .w64 => s_l2_be64

def l2_wdata_o : (w : Width) → BitVec w.lanes → BitVec 32 → BitVec (8*w.lanes)
  | .w32 => l2_wdata_o32
  | .w64 => l2_wdata_o64

def s_data : (w : Width) → BitVec 2 → BitVec w.ALIGN_BITS → BitVec (8*w.lanes) → BitVec 32
  | .w32 => s_data32
  | .w64 => s_data64

end Code

/-- A place in a word is a multiple of the size of the datum. -/
def Aligned {k : ℕ} (size : BitVec 2) (addr : BitVec k) : Prop := addr.toNat%toadd size=0 ∨ size=3

instance {k : ℕ} (size : BitVec 2) (addr : BitVec k) : Decidable (Aligned size addr) :=
  inferInstanceAs (Decidable (_ ∨ _))

theorem lane_getLsbD (hi n lo : ℕ) (data : BitVec 32) {k : ℕ} (hk : k < n) :
    (lane hi n lo data).getLsbD (lo+k)=data.getLsbD k := by
  rw [lane,BitVec.getLsbD_append,BitVec.getLsbD_append,BitVec.getLsbD_extractLsb']
  simp [hk]

theorem part_getLsbD {w : ℕ} (lo n : ℕ) (rdata : BitVec w) {k : ℕ} (hk : k < 32) :
    (part lo n rdata).getLsbD k=(decide (k < n) && rdata.getLsbD (lo+k)) := by
  simp [part,hk]

/-- A word that writes a datum at a place: its bytes are enabled and carry the datum. -/
structure Carries (w : Width) (size : BitVec 2) (addr : BitVec w.ALIGN_BITS) (data : BitVec 32)
    (be : BitVec w.lanes) (wdata : BitVec (8*w.lanes)) : Prop where
  enables : ∀ L, L < w.lanes →
    (be.getLsbD L=true ↔ addr.toNat ≤ L ∧ L < addr.toNat+toadd size)
  bits : ∀ k, k < 8*toadd size → wdata.getLsbD (8*addr.toNat+k)=data.getLsbD k

theorem enables64 : ∀ (size : BitVec 2) (addr : BitVec 3), Aligned size addr → ∀ L, L < 8 →
    ((s_l2_be64 size addr).getLsbD L=true ↔ addr.toNat ≤ L ∧ L < addr.toNat+toadd size) := by
  decide +kernel

theorem enables32 : ∀ size addr : BitVec 2, Aligned size addr → ∀ L, L < 4 →
    ((s_l2_be32 size addr).getLsbD L=true ↔ addr.toNat ≤ L ∧ L < addr.toNat+toadd size) := by
  decide +kernel

/-- The places of data in a word of 64 bits. -/
theorem aligned64_cases : ∀ (size : BitVec 2) (addr : BitVec 3), Aligned size addr →
    (size=0 ∧ (addr=0 ∨ addr=1 ∨ addr=2 ∨ addr=3 ∨ addr=4 ∨ addr=5 ∨ addr=6 ∨ addr=7)) ∨
      (size=1 ∧ (addr=0 ∨ addr=2 ∨ addr=4 ∨ addr=6)) ∨ (size=2 ∧ (addr=0 ∨ addr=4)) ∨ size=3 := by
  decide +kernel

/-- The places of data in a word of 32 bits. -/
theorem aligned32_cases : ∀ size addr : BitVec 2, Aligned size addr →
    (size=0 ∧ (addr=0 ∨ addr=1 ∨ addr=2 ∨ addr=3)) ∨ (size=1 ∧ (addr=0 ∨ addr=2)) ∨
      (size=2 ∧ addr=0) ∨ size=3 := by
  decide +kernel

theorem bits64 (size : BitVec 2) (addr : BitVec 3) (h : Aligned size addr) (data : BitVec 32)
    {k : ℕ} (hk : k < 8*toadd size) :
    (l2_wdata_o64 (s_l2_be64 size addr) data).getLsbD (8*addr.toNat+k)=data.getLsbD k := by
  rcases aligned64_cases size addr h with ⟨rfl,haddr⟩ | ⟨rfl,haddr⟩ | ⟨rfl,haddr⟩ | rfl
  · rcases haddr with rfl | rfl | rfl | rfl | rfl | rfl | rfl | rfl
    all_goals exact lane_getLsbD _ 8 _ data hk
  · rcases haddr with rfl | rfl | rfl | rfl
    all_goals exact lane_getLsbD _ 16 _ data hk
  · rcases haddr with rfl | rfl
    all_goals exact lane_getLsbD _ 32 _ data hk
  · exact absurd hk (Nat.not_lt_zero k)

theorem bits32 (size addr : BitVec 2) (h : Aligned size addr) (data : BitVec 32) {k : ℕ}
    (hk : k < 8*toadd size) :
    (l2_wdata_o32 (s_l2_be32 size addr) data).getLsbD (8*addr.toNat+k)=data.getLsbD k := by
  rcases aligned32_cases size addr h with ⟨rfl,haddr⟩ | ⟨rfl,haddr⟩ | ⟨rfl,rfl⟩ | rfl
  · rcases haddr with rfl | rfl | rfl | rfl
    all_goals exact lane_getLsbD _ 8 _ data hk
  · rcases haddr with rfl | rfl
    all_goals exact lane_getLsbD _ 16 _ data hk
  · exact lane_getLsbD _ 32 _ data hk
  · exact absurd hk (Nat.not_lt_zero k)

/-- An aligned datum is written to its own bytes, in both widths. -/
theorem carries_of_aligned : ∀ (w : Width) (size : BitVec 2) (addr : BitVec w.ALIGN_BITS) (data : BitVec 32),
    Aligned size addr →
    Carries w size addr data (s_l2_be w size addr) (l2_wdata_o w (s_l2_be w size addr) data)
  | .w32,size,addr,data,h => ⟨enables32 size addr h,fun _ => bits32 size addr h data⟩
  | .w64,size,addr,data,h => ⟨enables64 size addr h,fun _ => bits64 size addr h data⟩

/-- The datum of a place in a word. -/
def Reads (w : Width) (size : BitVec 2) (addr : BitVec w.ALIGN_BITS) (rdata : BitVec (8*w.lanes))
    (data : BitVec 32) : Prop :=
  ∀ k, k < 32 → data.getLsbD k=(decide (k < 8*toadd size) && rdata.getLsbD (8*addr.toNat+k))

theorem reads64 (size : BitVec 2) (addr : BitVec 3) (h : Aligned size addr) (hsize : size≠3)
    (rdata : BitVec 64) : Reads .w64 size addr rdata (s_data64 size addr rdata) := by
  intro k hk
  rcases aligned64_cases size addr h with ⟨rfl,haddr⟩ | ⟨rfl,haddr⟩ | ⟨rfl,haddr⟩ | rfl
  · rcases haddr with rfl | rfl | rfl | rfl | rfl | rfl | rfl | rfl
    all_goals exact part_getLsbD _ 8 rdata hk
  · rcases haddr with rfl | rfl | rfl | rfl
    all_goals exact part_getLsbD _ 16 rdata hk
  · rcases haddr with rfl | rfl
    all_goals exact part_getLsbD _ 32 rdata hk
  · exact absurd rfl hsize

theorem reads32 (size addr : BitVec 2) (h : Aligned size addr) (hsize : size≠3)
    (rdata : BitVec 32) : Reads .w32 size addr rdata (s_data32 size addr rdata) := by
  intro k hk
  rcases aligned32_cases size addr h with ⟨rfl,haddr⟩ | ⟨rfl,haddr⟩ | ⟨rfl,rfl⟩ | rfl
  · rcases haddr with rfl | rfl | rfl | rfl
    all_goals exact part_getLsbD _ 8 rdata hk
  · rcases haddr with rfl | rfl
    all_goals exact part_getLsbD _ 16 rdata hk
  · exact part_getLsbD _ 32 rdata hk
  · exact absurd rfl hsize

/-- An aligned datum is read from its own bytes and zero-extended, in both widths. -/
theorem reads_of_aligned : ∀ (w : Width) (size : BitVec 2) (addr : BitVec w.ALIGN_BITS)
    (rdata : BitVec (8*w.lanes)), Aligned size addr → size≠3 →
    Reads w size addr rdata (s_data w size addr rdata)
  | .w32,size,addr,rdata,h,hsize => reads32 size addr h hsize rdata
  | .w64,size,addr,rdata,h,hsize => reads64 size addr h hsize rdata

end Pulpissimo.Udma.L2Lanes
