import Mathlib.Tactic.IntervalCases
import Pulpissimo.Lib.Bits
import Pulpissimo.Lib.Crc
import Pulpissimo.Lib.Indices
import Pulpissimo.Lib.Machine

/-!
# The data lines of the SD interface

`sdio_txrx_data` with four `sdio_crc16`. One counter gives the lengths of all phases, in bytes
while a block is shifted and in cycles elsewhere, and it is narrower than the block size. The
checksums are enabled unless a state turns them off, and no state clears them.
-/

namespace Pulpissimo.Udma.SdioData

open Pulpissimo.Bits Pulpissimo.Machine

def STATUS_RSP_TIMEOUT : BitVec 7 := 0b000001#7

inductive Fsm where
  | ST_IDLE | ST_WAIT | ST_TX_START | ST_TX_STOP | ST_TX_SHIFT | ST_TX_CRC | ST_TX_END
  | ST_TX_CRCSTAT | ST_TX_BUSY | ST_RX_START | ST_RX_STOP | ST_RX_SHIFT | ST_RX_CRC
deriving DecidableEq

/-- Registers. -/
structure State where
  r_state : Fsm
  r_status : BitVec 7
  r_data : BitVec 32
  r_cnt : BitVec 9
  r_cnt_running : Bool
  /-- The counter counts bytes. -/
  r_cnt_byte : Bool
  r_cnt_block : BitVec 8
  r_byte_in_word : BitVec 2
  r_bit_cnt : BitVec 3
  r_crc : Fin 4 → BitVec 16
  /-- Output register, written in the middle of a cycle. -/
  r_sddata : BitVec 4

/-- Values after reset. -/
def reset : State := ⟨.ST_IDLE,0,0,0x1FF#9,false,false,0,0,0,fun _ => 0,0⟩

/-- One cycle of inputs. -/
structure Input where
  clr_stat_i : Bool
  data_start_i : Bool
  data_block_size_i : BitVec 10
  data_block_num_i : BitVec 8
  data_rwn_i : Bool
  data_quad_i : Bool
  in_data_if_data_i : BitVec 32
  in_data_if_valid_i : Bool
  sddata_i : BitVec 4

/-- The state machine's signals in one cycle, with their defaults. -/
structure Comb where
  s_state : Fsm
  s_status : BitVec 7
  s_cnt_block : BitVec 8
  s_sddata : BitVec 4 := 0
  s_sddata_oen : Bool := true
  s_crc_shift : Bool := false
  s_crc_en : Bool := true
  s_crc_clr : Bool := false
  s_crc_intx : Bool := false
  s_cnt_start : Bool := false
  s_cnt_target : BitVec 9 := 0
  s_cnt_byte : Bool := false
  s_status_sample : Bool := false
  s_busy : Bool := true
  s_clk_en : Bool := true
  s_rx_en : Bool := false
  s_eot : Bool := false
  s_cnt_block_upd : Bool := false
  s_in_data_ready : Bool := false
  s_out_data_valid : Bool := false

section Code

variable (s : State) (i : Input)

def s_bit_cnt_target : BitVec 3 := if i.data_quad_i then 1 else 7

def s_cnt_byte_evnt : Bool := s.r_bit_cnt==s_bit_cnt_target i

def s_cnt_done : Bool := if s.r_cnt_byte then s.r_cnt==0 && s_cnt_byte_evnt s i else s.r_cnt==0

def s_lastbitofword : Bool := s_cnt_byte_evnt s i && s.r_byte_in_word==3

def s_cnt_block_done : Bool := s.r_cnt_block==0

/-- Lowest bit of the nibble, or the bit, that is on the lines. -/
def place : ℕ :=
  if i.data_quad_i then 8*s.r_byte_in_word.toNat+(if s.r_bit_cnt=0 then 4 else 0)
  else 8*s.r_byte_in_word.toNat+(7-s.r_bit_cnt.toNat)

/-- The register with what is on the lines at its place. -/
def s_datain : BitVec 32 :=
  if i.data_quad_i then
    ofBits fun k => if place s i ≤ k.val ∧ k.val < place s i+4
      then i.sddata_i.getLsbD (k.val-place s i) else s.r_data.getLsbD k
  else setBit s.r_data (place s i) (i.sddata_i.getLsbD 0)

/-- The nibble, or the bit, that goes out. -/
def s_dataout : BitVec 4 :=
  if i.data_quad_i then s.r_data.extractLsb' (place s i) 4
  else (BitVec.ofBool (s.r_data.getLsbD (place s i))).setWidth 4

/-- The highest bits of the checksums. -/
def s_crc_out : BitVec 4 := ofBits fun l => (s.r_crc l).getLsbD 15

/-- The state machine. -/
def comb : Comb :=
  let c : Comb := { s_state := s.r_state, s_status := s.r_status, s_cnt_block := s.r_cnt_block }
  match s.r_state with
  | .ST_IDLE =>
    if i.data_start_i then
      { c with
        s_busy := false, s_cnt_block_upd := true, s_cnt_block := i.data_block_num_i
        s_state := if i.data_rwn_i then .ST_RX_START else .ST_TX_START }
    else { c with s_busy := false, s_clk_en := false }
  | .ST_TX_START =>
    { c with
      s_sddata := 0, s_sddata_oen := false, s_state := .ST_TX_SHIFT, s_cnt_start := true
      s_cnt_byte := true, s_cnt_target := i.data_block_size_i.setWidth 9, s_in_data_ready := true }
  | .ST_TX_SHIFT =>
    let c := { c with
      s_in_data_ready := s_lastbitofword s i, s_sddata := s_dataout s i, s_sddata_oen := false }
    if s_cnt_done s i then
      { c with
        s_in_data_ready := false, s_state := .ST_TX_CRC, s_cnt_start := true, s_cnt_target := 15 }
    else c
  | .ST_TX_CRC =>
    let c := { c with
      s_sddata := s_crc_out s, s_sddata_oen := false, s_crc_shift := true, s_crc_en := false }
    if s_cnt_done s i then { c with s_state := .ST_TX_END } else c
  | .ST_TX_END =>
    { c with
      s_sddata := 0xF, s_sddata_oen := false, s_crc_en := false, s_state := .ST_TX_CRCSTAT
      s_cnt_start := true, s_cnt_target := 7 }
  | .ST_TX_CRCSTAT =>
    if s_cnt_done s i then
      { c with s_cnt_start := true, s_cnt_target := 0x1FF, s_state := .ST_TX_BUSY }
    else c
  | .ST_TX_BUSY =>
    if s_cnt_done s i then { c with s_state := .ST_IDLE }
    else if i.sddata_i.getLsbD 0 then
      if s_cnt_block_done s then { c with s_eot := true, s_state := .ST_IDLE }
      else
        { c with
          s_cnt_block_upd := true, s_cnt_block := s.r_cnt_block-1, s_state := .ST_TX_START }
    else c
  | .ST_RX_START =>
    if !i.sddata_i.getLsbD 0 then
      { c with
        s_cnt_start := true, s_cnt_byte := true, s_cnt_target := i.data_block_size_i.setWidth 9
        s_state := .ST_RX_SHIFT }
    else if s_cnt_done s i then
      { c with
        s_status := s.r_status ||| STATUS_RSP_TIMEOUT, s_status_sample := true
        s_state := .ST_IDLE }
    else c
  | .ST_RX_SHIFT =>
    let c := { c with
      s_rx_en := true, s_out_data_valid := s_lastbitofword s i, s_crc_intx := true }
    if s_cnt_done s i then
      { c with s_state := .ST_RX_CRC, s_cnt_start := true, s_cnt_target := 15 }
    else c
  | .ST_RX_CRC =>
    let c := { c with s_out_data_valid := s_lastbitofword s i, s_crc_intx := true }
    if s_cnt_done s i then
      if s_cnt_block_done s then { c with s_eot := true, s_state := .ST_IDLE }
      else
        { c with
          s_cnt_block_upd := true, s_cnt_block := s.r_cnt_block-1, s_state := .ST_RX_START }
    else c
  | .ST_WAIT => if s_cnt_done s i then { c with s_eot := true, s_state := .ST_IDLE } else c
  | .ST_TX_STOP => c
  | .ST_RX_STOP => c

/-- Next value of one checksum, `sdio_crc16`. -/
def crc16 (r_crc : BitVec 16) (data_i shift_i clr_i sample_i : Bool) : BitVec 16 :=
  let fb := data_i ^^ r_crc.getLsbD 15
  if sample_i then
    ofBits fun k => match k.val with
      | 0 => fb
      | 5 => r_crc.getLsbD 4 ^^ fb
      | 12 => r_crc.getLsbD 11 ^^ fb
      | k => r_crc.getLsbD (k-1)
  else if clr_i then 0
  else if shift_i then r_crc <<< 1
  else r_crc

/-- The lane is in use. -/
def active (l : Fin 4) : Bool := l==0 || i.data_quad_i

def s_crc_in : BitVec 4 := if (comb s i).s_crc_intx then i.sddata_i else (comb s i).s_sddata

/-- One clock edge, with the edge of the output register in the middle of the cycle before it. -/
def step : State :=
  let c := comb s i
  let crc_in := s_crc_in s i
  { r_state := if i.clr_stat_i then .ST_IDLE else c.s_state
    r_status := if i.clr_stat_i then 0 else c.s_status
    r_data :=
      if i.clr_stat_i then 0
      else if c.s_in_data_ready then i.in_data_if_data_i
      else if c.s_rx_en then s_datain s i
      else s.r_data
    r_cnt :=
      if c.s_cnt_start then c.s_cnt_target
      else if s_cnt_done s i then 0x1FF
      else if s.r_cnt_running && (!s.r_cnt_byte || s_cnt_byte_evnt s i) then s.r_cnt-1
      else s.r_cnt
    r_cnt_running :=
      if c.s_cnt_start then true else if s_cnt_done s i then false else s.r_cnt_running
    r_cnt_byte :=
      if c.s_cnt_start then c.s_cnt_byte else if s_cnt_done s i then false else s.r_cnt_byte
    r_cnt_block := if c.s_cnt_block_upd then c.s_cnt_block else s.r_cnt_block
    r_byte_in_word :=
      if c.s_cnt_start then 0
      else if s_cnt_done s i then 0
      else if s.r_cnt_running && (!s.r_cnt_byte || s_cnt_byte_evnt s i) && s.r_cnt_byte then
        s.r_byte_in_word+1
      else s.r_byte_in_word
    r_bit_cnt :=
      if s.r_cnt_byte then if s_cnt_byte_evnt s i then 0 else s.r_bit_cnt+1 else s.r_bit_cnt
    r_crc := fun l => crc16 (s.r_crc l) (crc_in.getLsbD l) (active i l && c.s_crc_shift)
      (active i l && c.s_crc_clr) (active i l && c.s_crc_en)
    r_sddata := c.s_sddata }

def busy_o : Bool := (comb s i).s_busy

def sdclk_en_o : Bool := (comb s i).s_clk_en

def data_last_o : Bool := busy_o s i && s_cnt_block_done s

def in_data_if_ready_o : Bool := (comb s i).s_in_data_ready

def out_data_if_valid_o : Bool := (comb s i).s_out_data_valid

def out_data_if_data_o : BitVec 32 := s_datain s i

def eot_o : Bool := (comb s i).s_eot

def status_o : BitVec 6 := s.r_status.setWidth 6

/-- The lines as they stand at the end of a cycle: the output register has taken its new value. -/
def sddata_o : BitVec 4 := (comb s i).s_sddata

/-- Output enable of a lane, low while the lane is driven. -/
def sddata_oen_o (l : Fin 4) : Bool := if active i l then (comb s i).s_sddata_oen else true

end Code

/-- Lower coefficients of `x^16+x^12+x^5+1`. -/
def gen16 : BitVec 16 := 0x1021#16

/-- The checksum's register is a division by its polynomial. -/
theorem crc16_sample (r : BitVec 16) (b shift clr : Bool) :
    crc16 r b shift clr true=Crc.step gen16 r b := by
  apply BitVec.eq_of_getLsbD_eq
  intro k hk
  rw [Crc.getLsbD_step _ _ _ hk,crc16,if_pos rfl,getLsbD_ofBits_lt _ hk]
  interval_cases k <;> simp [gen16,Bool.xor_comm]

theorem crc16_shift (r : BitVec 16) (b : Bool) : crc16 r b true false false=r <<< 1 := rfl

theorem crc16_hold (r : BitVec 16) (b : Bool) : crc16 r b false false false=r := rfl

section Counting

/-- Cycles for a byte. -/
def per (quad : Bool) : ℕ := if quad then 2 else 8

theorem per_pos (quad : Bool) : 0 < per quad := by cases quad <;> decide

/-- The counter runs in cycles, with `n` to go. -/
structure Counts (n : ℕ) (s : State) : Prop where
  cnt : s.r_cnt.toNat=n
  running : s.r_cnt_running=true
  cycles : s.r_cnt_byte=false
  bit : s.r_bit_cnt=0

/-- The `n`th cycle of a block of `size+1` bytes. -/
structure Place (quad : Bool) (size n : ℕ) (s : State) : Prop where
  cnt : s.r_cnt.toNat+n/per quad=size
  running : s.r_cnt_running=true
  bytes : s.r_cnt_byte=true
  byte : s.r_byte_in_word.toNat=n/per quad%4
  bit : s.r_bit_cnt.toNat=n%per quad

variable {s : State} {i : Input} {n size : ℕ} {quad : Bool}

theorem Counts.done (h : Counts n s) : s_cnt_done s i=decide (n=0) := by
  rw [s_cnt_done,h.cycles,if_neg Bool.false_ne_true,Bool.eq_iff_iff,beq_iff_eq,decide_eq_true_iff,
    ←h.cnt,←BitVec.toNat_inj]
  rfl

theorem Counts.start (hstart : (comb s i).s_cnt_start=true) (hcycles : (comb s i).s_cnt_byte=false)
    (hbit : (step s i).r_bit_cnt=0) : Counts (comb s i).s_cnt_target.toNat (step s i) := by
  refine ⟨?_,?_,?_,hbit⟩ <;> simp [step,hstart,hcycles]

/-- Without the byte count the bit count stands. -/
theorem bit_cnt_stands (hcycles : s.r_cnt_byte=false) : (step s i).r_bit_cnt=s.r_bit_cnt := by
  simp [step,hcycles]

theorem Counts.next (h : Counts (n+1) s) (hstart : (comb s i).s_cnt_start=false) :
    Counts n (step s i) := by
  have hdone : s_cnt_done s i=false := by
    rw [h.done]
    exact decide_eq_false (Nat.succ_ne_zero n)
  have hcnt := h.cnt
  refine ⟨?_,?_,?_,(bit_cnt_stands h.cycles).trans h.bit⟩
  · simp only [step,hstart,hdone,h.running,h.cycles,Bool.false_eq_true,if_false,Bool.not_false,
      Bool.true_or,Bool.and_true,if_true]
    rw [BitVec.toNat_sub_of_le (by rw [BitVec.le_def,hcnt]; exact Nat.succ_le_succ (Nat.zero_le n)),
      hcnt]
    rfl
  · simp only [step,hstart,hdone,h.running,Bool.false_eq_true,if_false]
  · simp only [step,hstart,hdone,h.cycles,Bool.false_eq_true,if_false]

theorem Place.evnt (h : Place quad size n s) (hi : i.data_quad_i=quad) :
    s_cnt_byte_evnt s i=decide ((n+1)%per quad=0) := by
  have hbit := h.bit
  rw [s_cnt_byte_evnt,Bool.eq_iff_iff,beq_iff_eq,decide_eq_true_iff,←BitVec.toNat_inj,hbit,
    s_bit_cnt_target,hi]
  unfold per
  cases quad with
  | true =>
    change n%2=1 ↔ (n+1)%2=0
    omega
  | false =>
    change n%8=7 ↔ (n+1)%8=0
    omega

theorem Place.done (h : Place quad size n s) (hi : i.data_quad_i=quad) :
    s_cnt_done s i=decide (n+1=per quad*(size+1)) := by
  have hcnt := h.cnt
  rw [s_cnt_done,h.bytes,if_pos rfl,h.evnt hi,Bool.eq_iff_iff,Bool.and_eq_true,beq_iff_eq,
    decide_eq_true_iff,decide_eq_true_iff,←BitVec.toNat_inj]
  change s.r_cnt.toNat=0 ∧ _ ↔ _
  unfold per at hcnt ⊢
  cases quad with
  | true =>
    change _+n/2=size at hcnt
    change _ ∧ (n+1)%2=0 ↔ n+1=2*(size+1)
    omega
  | false =>
    change _+n/8=size at hcnt
    change _ ∧ (n+1)%8=0 ↔ n+1=8*(size+1)
    omega

theorem Place.last (h : Place quad size n s) (hi : i.data_quad_i=quad) :
    s_lastbitofword s i=decide ((n+1)%(4*per quad)=0) := by
  have hbyte := h.byte
  rw [s_lastbitofword,h.evnt hi,Bool.eq_iff_iff,Bool.and_eq_true,beq_iff_eq,decide_eq_true_iff,
    decide_eq_true_iff,←BitVec.toNat_inj,hbyte]
  unfold per
  cases quad with
  | true =>
    change (n+1)%2=0 ∧ n/2%4=3 ↔ (n+1)%(4*2)=0
    omega
  | false =>
    change (n+1)%8=0 ∧ n/8%4=3 ↔ (n+1)%(4*8)=0
    omega

/-- One cycle more of a block. -/
theorem Place.next (h : Place quad size n s) (hi : i.data_quad_i=quad)
    (hn : n+1 < per quad*(size+1)) (hstart : (comb s i).s_cnt_start=false) :
    Place quad size (n+1) (step s i) := by
  have hdone : s_cnt_done s i=false := by
    rw [h.done hi]
    exact decide_eq_false (Nat.ne_of_lt hn)
  have hcnt := h.cnt
  have hbyte := h.byte
  have hbit := h.bit
  have hevnt := h.evnt hi
  have hper : per quad=2 ∨ per quad=8 := by
    unfold per
    cases quad
    · exact Or.inr rfl
    · exact Or.inl rfl
  by_cases hend : (n+1)%per quad=0
  · rw [decide_eq_true hend] at hevnt
    have hpos : 0 < s.r_cnt.toNat := by
      rcases hper with h | h <;> rw [h] at hcnt hend hn <;> omega
    have hsub : (s.r_cnt-1).toNat=s.r_cnt.toNat-1 :=
      BitVec.toNat_sub_of_le (BitVec.le_def.mpr hpos)
    have hadd : (s.r_byte_in_word+1).toNat=(s.r_byte_in_word.toNat+1)%4 := BitVec.toNat_add _ _
    refine ⟨?_,?_,?_,?_,?_⟩
    · simp only [step,hstart,hdone,h.running,h.bytes,hevnt,Bool.false_eq_true,if_false,
        Bool.not_true,Bool.or_true,Bool.and_true,if_true]
      rw [hsub]
      rcases hper with h | h <;> rw [h] at hcnt hend hn ⊢ <;> omega
    · simp only [step,hstart,hdone,h.running,Bool.false_eq_true,if_false]
    · simp only [step,hstart,hdone,h.bytes,Bool.false_eq_true,if_false]
    · simp only [step,hstart,hdone,h.running,h.bytes,hevnt,Bool.false_eq_true,if_false,
        Bool.not_true,Bool.or_true,Bool.and_true,if_true]
      rw [hadd]
      rcases hper with h | h <;> rw [h] at hbyte hend ⊢ <;> omega
    · simp only [step,h.bytes,hevnt,if_true]
      exact hend.symm
  · rw [decide_eq_false hend] at hevnt
    have hadd : (s.r_bit_cnt+1).toNat=(s.r_bit_cnt.toNat+1)%8 := BitVec.toNat_add _ _
    refine ⟨?_,?_,?_,?_,?_⟩
    · simp only [step,hstart,hdone,h.running,h.bytes,hevnt,Bool.false_eq_true,if_false,
        Bool.not_true,Bool.or_false,Bool.and_false]
      rcases hper with h | h <;> rw [h] at hcnt hend ⊢ <;> omega
    · simp only [step,hstart,hdone,h.running,Bool.false_eq_true,if_false]
    · simp only [step,hstart,hdone,h.bytes,Bool.false_eq_true,if_false]
    · simp only [step,hstart,hdone,h.running,h.bytes,hevnt,Bool.false_eq_true,if_false,
        Bool.not_true,Bool.or_false,Bool.and_false,Bool.false_and]
      rcases hper with h | h <;> rw [h] at hbyte hend ⊢ <;> omega
    · simp only [step,h.bytes,hevnt,if_true,Bool.false_eq_true,if_false]
      rw [hadd]
      rcases hper with h | h <;> rw [h] at hbit hend ⊢ <;> omega

/-- The first cycle of a block. -/
theorem Place.start (hstart : (comb s i).s_cnt_start=true) (hbytes : (comb s i).s_cnt_byte=true)
    (hbit : (step s i).r_bit_cnt=0) :
    Place quad (comb s i).s_cnt_target.toNat 0 (step s i) := by
  refine ⟨?_,?_,?_,?_,?_⟩
  · simp [step,hstart]
  · simp [step,hstart]
  · simp [step,hstart,hbytes]
  · simp [step,hstart]
  · rw [hbit,Nat.zero_mod]
    rfl

end Counting

end Pulpissimo.Udma.SdioData
