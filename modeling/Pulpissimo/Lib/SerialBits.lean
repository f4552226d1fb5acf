import Mathlib.Data.BitVec
import Mathlib.Data.List.GetD
import Pulpissimo.Lib.Bits

/-!
# Words on a serial line

A word goes over a line one bit at a time, lowest bit first. The receiver
shifts every bit in at the top of its register, so a word that is no longer than
the register ends up in its upper bits. Both ends may run a checksum register
over the bits.
-/

namespace Pulpissimo.SerialBits

open Pulpissimo.Bits

variable {n w : ℕ}

/-- Bits of a word in the order of the line. -/
def bits (v : BitVec n) : List Bool := (List.range n).map v.getLsbD

@[simp] theorem length_bits (v : BitVec n) : (bits v).length=n := by
  rw [bits,List.length_map,List.length_range]

theorem getD_bits (v : BitVec n) (i : ℕ) : (bits v).getD i false=v.getLsbD i := by
  rcases Nat.lt_or_ge i n with hi | hi
  · rw [List.getD_eq_getElem _ _ ((length_bits v).symm ▸ hi)]
    simp [bits]
  · rw [List.getD_eq_default _ _ ((length_bits v).symm ▸ hi),BitVec.getLsbD_of_ge v i hi]

/-- A register with a new bit at the top and the others one place down. -/
def shiftIn (r : BitVec n) (b : Bool) : BitVec n :=
  ofBits fun i => if i.val+1=n then b else r.getLsbD (i.val+1)

theorem getLsbD_shiftIn (r : BitVec n) (b : Bool) {i : ℕ} (hi : i<n) :
    (shiftIn r b).getLsbD i=if i+1=n then b else r.getLsbD (i+1) :=
  getLsbD_ofBits_lt _ hi

/-- The top bit is the last one that was shifted in. -/
theorem getLsbD_shiftIn_top (r : BitVec (n+1)) (b : Bool) : (shiftIn r b).getLsbD n=b := by
  rw [getLsbD_shiftIn r b (Nat.lt_succ_self n),if_pos rfl]

/-- A register holds its old upper bits and above them those that were shifted in. -/
theorem getLsbD_foldl_shiftIn (r : BitVec n) (bs : List Bool) {i : ℕ} (hi : i<n) :
    (bs.foldl shiftIn r).getLsbD i=
      if i+bs.length<n then r.getLsbD (i+bs.length) else bs.getD (i+bs.length-n) false := by
  induction bs generalizing r with
  | nil => exact (if_pos hi).symm
  | cons b bs ih =>
    rw [List.foldl_cons,ih,List.length_cons]
    rcases Nat.lt_trichotomy (i+bs.length+1) n with hlt | heq | hgt
    · have hmid : i+bs.length<n := Nat.lt_of_succ_lt hlt
      rw [if_pos hmid,←Nat.add_assoc,if_pos hlt,getLsbD_shiftIn r b hmid,
        if_neg (Nat.ne_of_lt hlt)]
    · have hmid : i+bs.length<n := by omega
      have hlast : ¬i+(bs.length+1)<n := by omega
      have hzero : i+(bs.length+1)-n=0 := by omega
      rw [if_pos hmid,if_neg hlast,hzero,getLsbD_shiftIn r b hmid,if_pos heq,List.getD_cons_zero]
    · have hmid : ¬i+bs.length<n := by omega
      have hlast : ¬i+(bs.length+1)<n := by omega
      have hsucc : i+(bs.length+1)-n=i+bs.length-n+1 := by omega
      rw [if_neg hmid,if_neg hlast,hsucc,List.getD_cons_succ]

/-- A word that was shifted in is in the upper bits. -/
theorem extract_foldl_shiftIn (r : BitVec n) (v : BitVec w) (hw : w≤n) :
    ((bits v).foldl shiftIn r).extractLsb' (n-w) w=v := by
  apply BitVec.eq_of_getLsbD_eq
  intro i hi
  have hplace : n-w+i<n := by omega
  have hold : ¬n-w+i+(bits v).length<n := by
    rw [length_bits]
    omega
  have hindex : n-w+i+(bits v).length-n=i := by
    rw [length_bits]
    omega
  rw [BitVec.getLsbD_extractLsb',getLsbD_foldl_shiftIn _ _ hplace,if_neg hold,hindex,getD_bits,
    decide_eq_true hi,Bool.true_and]

/-- One bit through a checksum register that is shifted towards its lowest bit. -/
def crcStep (poly crc : BitVec n) (b : Bool) : BitVec n :=
  if b != crc.getLsbD 0 then crc >>> 1 ^^^ poly else crc >>> 1

/-- The CRC-32 register over some bits, with the polynomial in reflected form. -/
def crc32 (bs : List Bool) : BitVec 32 := bs.foldl (crcStep 0xEDB88320#32) (BitVec.allOnes 32)

end Pulpissimo.SerialBits
