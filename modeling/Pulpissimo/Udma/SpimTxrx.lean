import Mathlib.Data.BitVec
import Pulpissimo.Lib.Bits

/-!
# The shift registers of the SPI master

`udma_spim_txrx` sends and receives words bit by bit or nibble by nibble. A transfer is cut in
chunks of 32 bits and a last one, which a counter of bits and one of chunks go through on either
side. Bytes go with the lowest one first unless the order is a custom one. The receiver does not
look at its counter in its first cycle.
-/

namespace Pulpissimo.Udma.SpimTxrx

inductive TxFsm where
  | TX_IDLE | TX_SEND | TX_WAIT_DATA
deriving DecidableEq

inductive RxFsm where
  | RX_IDLE | RX_RECEIVE
deriving DecidableEq

/-- Counters of a transfer, `r_tx_counter_*` and `r_rx_counter_*` with their `is_last`. -/
structure Counter where
  lo : BitVec 5
  hi : BitVec 11
  last : BitVec 5
  is_last : Bool
deriving DecidableEq

/-- Registers. -/
structure State where
  tx_state : TxFsm
  rx_state : RxFsm
  r_tx_counter : Counter
  r_rx_counter : Counter
  r_tx_shift_reg : BitVec 32
  r_rx_shift_reg : BitVec 32
  r_tx_counter_bits : BitVec 5
  r_rx_counter_bits : BitVec 5
  r_rx_clken : Bool
  r_is_ful : Bool
  r_customsize : Bool

/-- Values after reset. -/
def reset : State :=
  ⟨.TX_IDLE,.RX_IDLE,⟨0,0,0,false⟩,⟨0,0,0,false⟩,0,0,0,0,false,false,false⟩

/-- One cycle of inputs. -/
structure Input where
  tx_start_i : Bool
  tx_size_i : BitVec 16
  tx_qpi_i : Bool
  tx_customsize_i : Bool
  tx_data_i : BitVec 32
  tx_data_valid_i : Bool
  rx_start_i : Bool
  rx_size_i : BitVec 16
  rx_qpi_i : Bool
  rx_customsize_i : Bool
  /-- `spi_sdi3_i` to `spi_sdi0_i`. -/
  spi_sdi : BitVec 4

/-- Lines of a transfer. -/
def lanes (qpi : Bool) : ℕ := if qpi then 4 else 1

namespace Counter

variable (c : Counter) (qpi : Bool)

/-- The counters of a new transfer. -/
def sample (size : BitVec 16) (is_last : Bool) : Counter :=
  if size.extractLsb' 5 11=0 then ⟨size.extractLsb' 0 5,0,0,is_last⟩
  else ⟨0x1F,size.extractLsb' 5 11-1,size.extractLsb' 0 5,is_last⟩

/-- `s_tx_lo_done` and `s_rx_lo_done`. -/
def lo_done : Bool := if qpi then c.lo==3 else c.lo==0

/-- The transfer ends. -/
def done : Bool := c.lo_done qpi && c.hi==0 && c.is_last

/-- Bits that were counted. -/
def less : BitVec 5 := if qpi then c.lo-4 else c.lo-1

/-- The counters after some more bits, with `lo` as it is left at the end. -/
def next (left : BitVec 5) : Counter :=
  if c.lo_done qpi && c.hi==0 then
    if c.is_last then { c with lo := left, is_last := false }
    else { c with lo := c.last, is_last := true }
  else if c.lo_done qpi then { c with lo := 0x1F, hi := c.hi-1 }
  else { c with lo := c.less qpi }

end Counter

/-- A counter of nibbles or bits that goes back from its last value. -/
def wrap (last n : BitVec 5) : BitVec 5 := if n=last then 0 else n+1

section Tx

variable (s : State) (i : Input)

def s_tx_clken : Bool := decide (s.tx_state=.TX_SEND)

def s_tx_driving : Bool :=
  match s.tx_state with
  | .TX_IDLE => i.tx_start_i
  | _ => true

def s_spi_sdo0 : Bool :=
  s_tx_driving s i && if i.tx_qpi_i then
      if s.r_customsize then s.r_tx_shift_reg.getLsbD 28 else s.r_tx_shift_reg.getLsbD 4
    else if s.r_customsize then s.r_tx_shift_reg.getLsbD 31 else s.r_tx_shift_reg.getLsbD 7

def s_spi_sdo1 : Bool :=
  s_tx_driving s i && i.tx_qpi_i &&
    if s.r_customsize then s.r_tx_shift_reg.getLsbD 29 else s.r_tx_shift_reg.getLsbD 5

def s_spi_sdo2 : Bool :=
  s_tx_driving s i && i.tx_qpi_i &&
    if s.r_customsize then s.r_tx_shift_reg.getLsbD 30 else s.r_tx_shift_reg.getLsbD 6

def s_spi_sdo3 : Bool :=
  s_tx_driving s i && i.tx_qpi_i &&
    if s.r_customsize then s.r_tx_shift_reg.getLsbD 31 else s.r_tx_shift_reg.getLsbD 7

def tx_done_o : Bool := s_tx_clken s && s.r_tx_counter.done i.tx_qpi_i

/-- A word is asked for: at the start, at the end of a word that is not the last one, and as long as
it has not come. -/
def asks : Bool :=
  match s.tx_state with
  | .TX_IDLE => i.tx_start_i
  | .TX_SEND =>
    s.r_tx_counter.lo_done i.tx_qpi_i && (!s.r_tx_counter.done i.tx_qpi_i || i.tx_start_i)
  | .TX_WAIT_DATA => true

def tx_data_ready_o : Bool := asks s i && i.tx_data_valid_i

def tx_state_next : TxFsm :=
  if asks s i then if i.tx_data_valid_i then .TX_SEND else .TX_WAIT_DATA
  else if tx_done_o s i then .TX_IDLE
  else s.tx_state

def s_sample_tx_in : Bool :=
  match s.tx_state with
  | .TX_IDLE => i.tx_start_i
  | _ => tx_done_o s i && i.tx_start_i

/-- The register after the bits on the lines. -/
def shifted : BitVec 32 :=
  if s.r_customsize then
    if i.tx_qpi_i then s.r_tx_shift_reg.extractLsb' 0 28++0#4 else s.r_tx_shift_reg.extractLsb' 0 31++0#1
  else if i.tx_qpi_i then
    if s.r_tx_counter_bits=1 then 0#8++s.r_tx_shift_reg.extractLsb' 8 24
    else s.r_tx_shift_reg.extractLsb' 8 24++s.r_tx_shift_reg.extractLsb' 0 4++0#4
  else if s.r_tx_counter_bits=7 then 0#8++s.r_tx_shift_reg.extractLsb' 8 24
  else s.r_tx_shift_reg.extractLsb' 8 24++s.r_tx_shift_reg.extractLsb' 0 7++0#1

def s_tx_shift_reg : BitVec 32 :=
  if tx_data_ready_o s i then i.tx_data_i
  else if s_tx_clken s && !s.r_tx_counter.lo_done i.tx_qpi_i then shifted s i
  else s.r_tx_shift_reg

def s_tx_counter_bits : BitVec 5 :=
  match s.tx_state with
  | .TX_IDLE => 0
  | .TX_SEND =>
    if s.r_customsize then s.r_tx_counter_bits
    else wrap (if i.tx_qpi_i then 1 else 7) s.r_tx_counter_bits
  | .TX_WAIT_DATA => s.r_tx_counter_bits

/-- A start that comes with the end of a transfer does not set `is_last`. -/
def tx_counter_next : Counter :=
  match s.tx_state with
  | .TX_IDLE =>
    if i.tx_start_i then .sample i.tx_size_i (i.tx_size_i.extractLsb' 5 11==0) else s.r_tx_counter
  | .TX_SEND =>
    if tx_done_o s i && i.tx_start_i then .sample i.tx_size_i false
    else s.r_tx_counter.next i.tx_qpi_i s.r_tx_counter.lo
  | .TX_WAIT_DATA => s.r_tx_counter

end Tx

/-- Lowest of the bits that each case of the receiver writes, for one line. -/
def singlePlaces : List ℕ :=
  [7,6,5,4,3,2,1,0,15,14,13,12,11,10,9,8,23,22,21,20,19,18,17,16,31,30,29,28,27,26,25,24]

/-- The same for four lines. -/
def quadPlaces : List ℕ := [4,0,12,8,20,16,28,24]

/-- A register with some bits in place of those from `p` on. -/
def put {n : ℕ} (r : BitVec 32) (p : ℕ) (x : BitVec n) : BitVec 32 :=
  Bits.ofBits fun j : Fin 32 =>
    if p ≤ j.val ∧ j.val < p+n then x.getLsbD (j.val-p) else r.getLsbD j.val

section Rx

variable (s : State) (i : Input)

def s_is_ful : Bool := (i.tx_start_i && i.rx_start_i) || s.r_is_ful

/-- Bits are received: in full duplex only with those that are sent. -/
def receives : Bool :=
  decide (s.rx_state=.RX_RECEIVE) && (!s_is_ful s i || (s_is_ful s i && s_tx_clken s))

def s_rx_shift_reg : BitVec 32 :=
  if receives s i then
    if s.r_customsize then
      if i.rx_qpi_i then s.r_rx_shift_reg.extractLsb' 0 28++i.spi_sdi
      else s.r_rx_shift_reg.extractLsb' 0 31++i.spi_sdi.extractLsb' 0 1
    else if i.rx_qpi_i then
      (quadPlaces[s.r_rx_counter_bits.toNat]?).elim s.r_rx_shift_reg fun p =>
        put s.r_rx_shift_reg p i.spi_sdi
    else
      (singlePlaces[s.r_rx_counter_bits.toNat]?).elim s.r_rx_shift_reg fun p =>
        put s.r_rx_shift_reg p (i.spi_sdi.extractLsb' 0 1)
  else s.r_rx_shift_reg

def rx_data_valid_o : Bool :=
  receives s i && s.r_rx_clken && s.r_rx_counter.lo_done i.rx_qpi_i

def rx_data_o : BitVec 32 := if rx_data_valid_o s i then s_rx_shift_reg s i else 0

def rx_done_o : Bool := receives s i && s.r_rx_clken && s.r_rx_counter.done i.rx_qpi_i

def s_sample_rx_in : Bool :=
  match s.rx_state with
  | .RX_IDLE => i.rx_start_i
  | .RX_RECEIVE => rx_done_o s i && i.rx_start_i

def rx_state_next : RxFsm :=
  match s.rx_state with
  | .RX_IDLE => if i.rx_start_i then .RX_RECEIVE else .RX_IDLE
  | .RX_RECEIVE => if rx_done_o s i && !i.rx_start_i then .RX_IDLE else .RX_RECEIVE

def s_rx_counter_bits : BitVec 5 :=
  match s.rx_state with
  | .RX_IDLE => if i.rx_start_i then 0 else s.r_rx_counter_bits
  | .RX_RECEIVE =>
    if receives s i && !s.r_customsize then wrap (if i.rx_qpi_i then 7 else 31) s.r_rx_counter_bits
    else s.r_rx_counter_bits

/-- In the first cycle the counter is not looked at. -/
def rx_counter_next : Counter :=
  match s.rx_state with
  | .RX_IDLE =>
    if i.rx_start_i then .sample i.rx_size_i (i.rx_size_i.extractLsb' 5 11==0) else s.r_rx_counter
  | .RX_RECEIVE =>
    if rx_done_o s i && i.rx_start_i then .sample i.rx_size_i false
    else if receives s i then
      if s.r_rx_clken then s.r_rx_counter.next i.rx_qpi_i (s.r_rx_counter.less i.rx_qpi_i)
      else { s.r_rx_counter with lo := s.r_rx_counter.less i.rx_qpi_i }
    else s.r_rx_counter

end Rx

/-- One clock edge. -/
def step (s : State) (i : Input) : State where
  tx_state := tx_state_next s i
  rx_state := rx_state_next s i
  r_tx_counter := tx_counter_next s i
  r_rx_counter := rx_counter_next s i
  r_tx_shift_reg := s_tx_shift_reg s i
  r_rx_shift_reg := s_rx_shift_reg s i
  r_tx_counter_bits := s_tx_counter_bits s i
  r_rx_counter_bits := s_rx_counter_bits s i
  r_rx_clken := decide (s.rx_state=.RX_RECEIVE)
  r_is_ful :=
    if i.tx_start_i && i.rx_start_i then true
    else if (decide (s.tx_state=.TX_IDLE) && !i.tx_start_i) &&
        (decide (s.rx_state=.RX_IDLE) && !i.rx_start_i) then false
    else s.r_is_ful
  r_customsize :=
    if s_sample_tx_in s i || s_sample_rx_in s i then i.tx_customsize_i || i.rx_customsize_i
    else s.r_customsize

/-- The counters after `p` bits of a transfer of one bit more than `size`. -/
structure At (size p : ℕ) (c : Counter) : Prop where
  le : p ≤ size
  lo : c.lo.toNat+p%32=if p/32 < size/32 then 31 else size%32
  hi : c.hi.toNat=size/32-1-p/32
  last : p/32 < size/32 → c.last.toNat=size%32
  is_last : c.is_last=decide (size/32 ≤ p/32)

section Counter

variable {size p : ℕ} {c : Counter} {qpi : Bool}

/-- The size is in whole nibbles where there are four lines. -/
def Whole (qpi : Bool) (n : ℕ) : Prop := qpi=true → n%4=0

instance (qpi : Bool) (n : ℕ) : Decidable (Whole qpi n) := inferInstanceAs (Decidable (_ → _))

theorem at_sample (size : BitVec 16) :
    At size.toNat 0 (.sample size (size.extractLsb' 5 11==0)) := by
  have hhigh : (size.extractLsb' 5 11).toNat=size.toNat/32 := by
    have hlt := size.isLt
    rw [BitVec.extractLsb'_toNat,Nat.shiftRight_eq_div_pow]
    exact Nat.mod_eq_of_lt (by omega)
  have hlow : (size.extractLsb' 0 5).toNat=size.toNat%32 := by
    rw [BitVec.extractLsb'_toNat]
    rfl
  have hzero : size.extractLsb' 5 11=0 ↔ size.toNat/32=0 := by
    rw [←BitVec.toNat_inj,hhigh]
    rfl
  have hlast : (size.extractLsb' 5 11==0)=decide (size.toNat/32 ≤ 0/32) := by
    rw [Bool.eq_iff_iff,beq_iff_eq,hzero,decide_eq_true_iff]
    omega
  unfold Counter.sample
  by_cases hshort : size.extractLsb' 5 11=0
  · have hsmall := hzero.mp hshort
    rw [if_pos hshort]
    refine ⟨Nat.zero_le _,?_,?_,fun hlt => by omega,hlast⟩
    · rw [hlow,if_neg (by omega)]
      rfl
    · rw [hsmall]
      rfl
  · have hlarge : size.toNat/32≠0 := mt hzero.mpr hshort
    have hone : (1 : BitVec 11) ≤ size.extractLsb' 5 11 := by
      rw [BitVec.le_def,hhigh]
      exact Nat.one_le_iff_ne_zero.mpr hlarge
    rw [if_neg hshort]
    refine ⟨Nat.zero_le _,?_,?_,fun _ => hlow,hlast⟩
    · rw [if_pos (by omega)]
      rfl
    · rw [BitVec.toNat_sub_of_le hone,hhigh]
      rfl

/-- The counter of bits is at its end with the last bit of a chunk or of the transfer. -/
theorem At.lo_done_iff (h : At size p c) (hp : p%lanes qpi=0) (hsize : Whole qpi (size+1)) :
    c.lo_done qpi=true ↔ (p+lanes qpi)%32=0 ∨ p+lanes qpi=size+1 := by
  have hle := h.le
  have hlo := h.lo
  unfold Counter.lo_done lanes at *
  cases qpi with
  | false =>
    simp only [Bool.false_eq_true,if_false,beq_iff_eq] at hp ⊢
    rw [←BitVec.toNat_inj]
    have hzero : (0 : BitVec 5).toNat=0 := rfl
    rw [hzero]
    split_ifs at hlo <;> omega
  | true =>
    have hfour := hsize rfl
    simp only [if_true,beq_iff_eq] at hp ⊢
    rw [←BitVec.toNat_inj]
    have hthree : (3 : BitVec 5).toNat=3 := rfl
    rw [hthree]
    split_ifs at hlo <;> omega

theorem At.hi_iff (h : At size p c) : (c.hi==0)=true ↔ size/32 ≤ p/32+1 := by
  have hhi := h.hi
  have hzero : (0 : BitVec 11).toNat=0 := rfl
  rw [beq_iff_eq,←BitVec.toNat_inj,hhi,hzero]
  omega

/-- The transfer ends with its last bit. -/
theorem At.done_iff (h : At size p c) (hp : p%lanes qpi=0) (hsize : Whole qpi (size+1)) :
    c.done qpi=true ↔ p+lanes qpi=size+1 := by
  have hle := h.le
  have hlanes : lanes qpi=1 ∨ lanes qpi=4 := by
    unfold lanes
    cases qpi <;> simp
  rw [Counter.done,Bool.and_eq_true_iff,Bool.and_eq_true_iff,h.lo_done_iff hp hsize,h.hi_iff,
    h.is_last,decide_eq_true_iff]
  rcases hlanes with hone | hfour
  · rw [hone]
    omega
  · rw [hfour] at hp ⊢
    cases qpi with
    | false => exact absurd hfour (by decide)
    | true =>
      have hwhole := hsize rfl
      omega

/-- Inside of a chunk there are bits left to count. -/
theorem At.toNat_less (h : At size p c) (hp : p%lanes qpi=0) (hsize : Whole qpi (size+1))
    (hmid : c.lo_done qpi=false) : (c.less qpi).toNat+lanes qpi=c.lo.toNat := by
  have hle := h.le
  have hlo := h.lo
  have hlt := c.lo.isLt
  unfold Counter.lo_done at hmid
  unfold Counter.less lanes at *
  cases qpi with
  | false =>
    have hone : (1 : BitVec 5).toNat=1 := rfl
    have hne : c.lo.toNat≠0 := fun hzero => by
      rw [if_neg Bool.false_ne_true,beq_eq_false_iff_ne] at hmid
      exact hmid (BitVec.eq_of_toNat_eq hzero)
    rw [if_neg Bool.false_ne_true,if_neg Bool.false_ne_true,BitVec.toNat_sub_of_le,hone]
    · omega
    · rw [BitVec.le_def,hone]
      omega
  | true =>
    have hfour : (4 : BitVec 5).toNat=4 := rfl
    have hwhole := hsize rfl
    have hne : c.lo.toNat≠3 := fun hthree => by
      rw [if_pos rfl,beq_eq_false_iff_ne] at hmid
      exact hmid (BitVec.eq_of_toNat_eq hthree)
    rw [if_pos rfl] at hp
    have hge : 4 ≤ c.lo.toNat := by
      split_ifs at hlo <;> omega
    rw [if_pos rfl,if_pos rfl,BitVec.toNat_sub_of_le,hfour]
    · omega
    · rw [BitVec.le_def,hfour]
      exact hge

theorem lanes_cases (qpi : Bool) : (qpi=false ∧ lanes qpi=1) ∨ (qpi=true ∧ lanes qpi=4) := by
  cases qpi
  · exact .inl ⟨rfl,rfl⟩
  · exact .inr ⟨rfl,rfl⟩

/-- Inside of a chunk only the bits are counted. -/
theorem At.less (h : At size p c) (hp : p%lanes qpi=0) (hsize : Whole qpi (size+1))
    (hmid : c.lo_done qpi=false) : At size (p+lanes qpi) { c with lo := c.less qpi } := by
  have hle := h.le
  have hlo := h.lo
  have hless := h.toNat_less hp hsize hmid
  have hends := mt (h.lo_done_iff hp hsize).mpr (by rw [hmid]; exact Bool.false_ne_true)
  rw [not_or] at hends
  have hplace : (p+lanes qpi)/32=p/32 ∧ (p+lanes qpi)%32=p%32+lanes qpi := by
    rcases lanes_cases qpi with ⟨-,hlanes⟩ | ⟨-,hlanes⟩ <;> rw [hlanes] at hp hends ⊢ <;> omega
  refine ⟨?_,?_,?_,?_,?_⟩
  · rcases lanes_cases qpi with ⟨-,hlanes⟩ | ⟨hqpi,hlanes⟩
    · rw [hlanes] at hends ⊢
      omega
    · have hwhole := hsize hqpi
      rw [hlanes] at hp hends ⊢
      omega
  · rw [hplace.1,hplace.2,←hlo]
    show (c.less qpi).toNat+_=_
    omega
  · rw [hplace.1]
    exact h.hi
  · rw [hplace.1]
    exact h.last
  · rw [hplace.1]
    exact h.is_last

/-- Some more bits, up to the last ones. -/
theorem At.next (h : At size p c) (hp : p%lanes qpi=0) (hsize : Whole qpi (size+1))
    (hmore : p+lanes qpi≠size+1) (left : BitVec 5) :
    At size (p+lanes qpi) (c.next qpi left) := by
  have hle := h.le
  unfold Counter.next
  cases hdone : c.lo_done qpi with
  | false =>
    rw [Bool.false_and,if_neg Bool.false_ne_true,if_neg Bool.false_ne_true]
    exact h.less hp hsize hdone
  | true =>
    have hend : (p+lanes qpi)%32=0 := ((h.lo_done_iff hp hsize).mp hdone).resolve_right hmore
    have hinside : p+lanes qpi ≤ size+1 := by
      rcases lanes_cases qpi with ⟨-,hlanes⟩ | ⟨hqpi,hlanes⟩
      · rw [hlanes]
        omega
      · have hwhole := hsize hqpi
        rw [hlanes] at hp ⊢
        omega
    have hchunk : (p+lanes qpi)/32=p/32+1 := by
      rcases lanes_cases qpi with ⟨-,hlanes⟩ | ⟨-,hlanes⟩ <;> rw [hlanes] at hend ⊢ <;> omega
    rw [Bool.true_and]
    by_cases hhi : (c.hi==0)=true
    · -- The last of the full chunks.
      have hlast : ¬size/32 ≤ p/32 := by omega
      have hfull := h.hi_iff.mp hhi
      have hmid : ¬c.is_last=true := by
        rw [h.is_last,decide_eq_true_iff]
        exact hlast
      rw [if_pos hhi,if_neg hmid]
      refine ⟨by omega,?_,?_,fun hlt => by omega,?_⟩
      · rw [hend,hchunk,if_neg (by omega)]
        exact h.last (by omega)
      · rw [hchunk]
        show c.hi.toNat=_
        rw [h.hi]
        omega
      · rw [hchunk]
        exact (decide_eq_true hfull).symm
    · have hnot := mt h.hi_iff.mpr hhi
      have hone : (1 : BitVec 11).toNat=1 := rfl
      have hsub : (c.hi-1).toNat=c.hi.toNat-1 := by
        rw [BitVec.toNat_sub_of_le,hone]
        rw [BitVec.le_def,hone,h.hi]
        omega
      rw [if_neg hhi,if_pos rfl]
      refine ⟨by omega,?_,?_,fun hlt => h.last (by omega),?_⟩
      · rw [hend,hchunk,if_pos (by omega)]
        rfl
      · rw [hchunk]
        show (c.hi-1).toNat=_
        rw [hsub,h.hi]
        omega
      · rw [hchunk]
        show c.is_last=_
        rw [h.is_last,decide_eq_false (by omega),decide_eq_false (by omega)]

end Counter

end Pulpissimo.Udma.SpimTxrx
