import Pulpissimo.Lib.Bits
import Pulpissimo.Lib.Crc
import Pulpissimo.Lib.Machine

/-!
# The command line of the SD interface

`sdio_txrx_cmd` with `sdio_crc7`. A command is shifted out with its checksum, and a response is
awaited and shifted in. One counter gives the lengths of all phases. The status register has
a value to take on every error, but nothing ever stores it, the response's checksum is counted
over without a look at it, and the state that waits for the card is behind a condition
that no response type meets.
-/

namespace Pulpissimo.Udma.SdioCmd

open Pulpissimo.Bits Pulpissimo.Machine

def STATUS_RSP_TIMEOUT : BitVec 7 := 0b000001#7
def STATUS_RSP_WRONG_DIR : BitVec 7 := 0b000010#7
def STATUS_RSP_BUSY_TIMEOUT : BitVec 7 := 0b000100#7

def RSP_TYPE_NULL : BitVec 3 := 0b000#3
def RSP_TYPE_48_CRC : BitVec 3 := 0b001#3
def RSP_TYPE_48_NOCRC : BitVec 3 := 0b010#3
def RSP_TYPE_136 : BitVec 3 := 0b011#3
def RSP_TYPE_48_BSY : BitVec 3 := 0b100#3

inductive Fsm where
  | ST_IDLE | ST_WAIT | ST_WAIT_BUSY | ST_TX_START | ST_TX_STOP | ST_TX_DIR | ST_TX_SHIFT
  | ST_TX_CRC | ST_RX_START | ST_RX_STOP | ST_RX_DIR | ST_RX_SHIFT | ST_RX_CRC
deriving DecidableEq

/-- Registers. -/
structure State where
  r_state : Fsm
  r_cmd : BitVec 38
  r_rsp : BitVec 136
  r_cnt : BitVec 8
  r_cnt_running : Bool
  r_status : BitVec 7
  r_crc : BitVec 7
  /-- Output register, written in the middle of a cycle. -/
  r_sdcmd : Bool
  r_sdcmd_oen : Bool

/-- Values after reset. -/
def reset : State := ⟨.ST_IDLE,0,0,0xFF#8,false,0,0,true,true⟩

/-- One cycle of inputs. -/
structure Input where
  clr_stat_i : Bool
  cmd_start_i : Bool
  cmd_op_i : BitVec 6
  cmd_arg_i : BitVec 32
  cmd_rsp_type_i : BitVec 3
  busy_i : Bool
  sdcmd_i : Bool

/-- What a response type asks for. -/
structure Rsp where
  s_rsp_en : Bool
  s_rsp_crc : Bool
  s_rsp_len : BitVec 8
  s_rsp_bsy : Bool

/-- Decoder of the response type. -/
def rsp (cmd_rsp_type_i : BitVec 3) : Rsp :=
  if cmd_rsp_type_i=RSP_TYPE_48_CRC then ⟨true,true,37#8,false⟩
  else if cmd_rsp_type_i=RSP_TYPE_48_BSY then ⟨true,true,37#8,true⟩
  else if cmd_rsp_type_i=RSP_TYPE_48_NOCRC then ⟨true,false,37#8,false⟩
  else if cmd_rsp_type_i=RSP_TYPE_136 then ⟨true,false,133#8,false⟩
  else ⟨false,false,0xFF#8,false⟩

/-- The state machine's signals in one cycle, with their defaults. -/
structure Comb where
  s_state : Fsm
  s_status : BitVec 7
  s_sdcmd : Bool := true
  s_sdcmd_oen : Bool := true
  s_shift_cmd : Bool := false
  s_shift_resp : Bool := false
  s_crc_shift : Bool := false
  s_crc_en : Bool := false
  s_crc_intx : Bool := false
  s_crc_clr : Bool := false
  s_cnt_start : Bool := false
  s_cnt_target : BitVec 8 := 0#8
  s_status_sample : Bool := false
  s_eot : Bool := false
  s_clk_en : Bool := true
  s_start_write : Bool := false
  s_start_read : Bool := false

section Code

variable (s : State) (i : Input)

def s_cnt_done : Bool := s.r_cnt==0#8

/-- The state machine. -/
def comb : Comb :=
  let rsp := rsp i.cmd_rsp_type_i
  let c : Comb := { s_state := s.r_state, s_status := s.r_status }
  match s.r_state with
  | .ST_IDLE =>
    if i.cmd_start_i then { c with s_state := .ST_TX_START }
    else { c with s_clk_en := false }
  | .ST_TX_START =>
    { c with s_sdcmd := false, s_sdcmd_oen := false, s_crc_clr := true, s_state := .ST_TX_DIR }
  | .ST_TX_DIR =>
    { c with
      s_sdcmd := true, s_sdcmd_oen := false, s_crc_en := true, s_cnt_start := true
      s_cnt_target := 37#8, s_state := .ST_TX_SHIFT }
  | .ST_TX_SHIFT =>
    let c := { c with
      s_sdcmd := s.r_cmd.getLsbD 37, s_sdcmd_oen := false, s_shift_cmd := true, s_crc_en := true }
    if s_cnt_done s then
      { c with s_state := .ST_TX_CRC, s_cnt_start := true, s_cnt_target := 6#8 }
    else c
  | .ST_TX_CRC =>
    let c := { c with
      s_sdcmd := s.r_crc.getLsbD 6, s_sdcmd_oen := false, s_crc_shift := true, s_crc_en := true }
    if s_cnt_done s then { c with s_state := .ST_TX_STOP } else c
  | .ST_TX_STOP =>
    let c := { c with s_sdcmd := true, s_sdcmd_oen := false, s_start_read := true }
    if rsp.s_rsp_en then
      { c with
        s_cnt_start := true, s_cnt_target := 37#8, s_sdcmd_oen := true, s_state := .ST_RX_START }
    else { c with s_cnt_start := true, s_cnt_target := 7#8, s_state := .ST_WAIT }
  | .ST_RX_START =>
    if !i.sdcmd_i then { c with s_state := .ST_RX_DIR }
    else if s_cnt_done s then
      { c with
        s_status := s.r_status ||| STATUS_RSP_TIMEOUT, s_status_sample := true
        s_state := .ST_IDLE }
    else c
  | .ST_RX_DIR =>
    if !i.sdcmd_i then
      { c with s_cnt_start := true, s_cnt_target := rsp.s_rsp_len, s_state := .ST_RX_SHIFT }
    else
      { c with
        s_status := s.r_status ||| STATUS_RSP_WRONG_DIR, s_status_sample := true
        s_state := .ST_IDLE }
  | .ST_RX_SHIFT =>
    let c := { c with s_shift_resp := true, s_crc_en := true }
    if s_cnt_done s then
      if rsp.s_rsp_crc then
        { c with s_state := .ST_RX_CRC, s_cnt_start := true, s_cnt_target := 7#8 }
      else if rsp.s_rsp_bsy then
        { c with s_cnt_start := true, s_cnt_target := 0xFF#8, s_state := .ST_WAIT_BUSY }
      else { c with s_cnt_start := true, s_cnt_target := 7#8, s_state := .ST_WAIT }
    else c
  | .ST_RX_CRC =>
    if s_cnt_done s then { c with s_cnt_start := true, s_cnt_target := 7#8, s_state := .ST_WAIT }
    else c
  | .ST_WAIT_BUSY =>
    if !i.busy_i then { c with s_cnt_start := true, s_cnt_target := 7#8, s_state := .ST_WAIT }
    else if s_cnt_done s then
      { c with
        s_status := s.r_status ||| STATUS_RSP_BUSY_TIMEOUT, s_status_sample := true
        s_cnt_start := true, s_cnt_target := 7#8, s_state := .ST_WAIT }
    else c
  | .ST_WAIT =>
    if s_cnt_done s then { c with s_eot := true, s_start_write := true, s_state := .ST_IDLE } else c
  | .ST_RX_STOP => c

/-- Next value of the checksum, `sdio_crc7`. -/
def crc7 (r_crc : BitVec 7) (data_i shift_i clr_i sample_i : Bool) : BitVec 7 :=
  let fb := data_i ^^ r_crc.getLsbD 6
  if sample_i then
    ofBits fun k => match k.val with
      | 0 => fb
      | 3 => r_crc.getLsbD 2 ^^ fb
      | k => r_crc.getLsbD (k-1)
  else if clr_i then 0
  else if shift_i then r_crc <<< 1
  else r_crc

/-- One clock edge, with the edge of the output registers in the middle of the cycle before it. -/
def step : State :=
  let c := comb s i
  let s_crc_in := if c.s_crc_intx then i.sdcmd_i else c.s_sdcmd
  { r_state := if i.clr_stat_i then .ST_IDLE else c.s_state
    r_status := if i.clr_stat_i then 0 else s.r_status
    r_cmd :=
      if i.clr_stat_i then 0
      else if i.cmd_start_i then i.cmd_op_i++i.cmd_arg_i
      else if c.s_shift_cmd then s.r_cmd <<< 1
      else s.r_cmd
    r_rsp :=
      if i.clr_stat_i then 0
      else if c.s_shift_resp then (s.r_rsp.setWidth 135).concat i.sdcmd_i
      else s.r_rsp
    r_cnt :=
      if c.s_cnt_start then c.s_cnt_target
      else if s_cnt_done s then 0xFF#8
      else if s.r_cnt_running then s.r_cnt-1#8
      else s.r_cnt
    r_cnt_running :=
      if c.s_cnt_start then true else if s_cnt_done s then false else s.r_cnt_running
    r_crc := crc7 s.r_crc s_crc_in c.s_crc_shift c.s_crc_clr c.s_crc_en
    r_sdcmd := c.s_sdcmd
    r_sdcmd_oen := c.s_sdcmd_oen }

def eot_o : Bool := (comb s i).s_eot

def rsp_data_o : BitVec 128 := s.r_rsp.extractLsb' 1 128

def sdcmd_o : Bool := s.r_sdcmd

def sdcmd_oen_o : Bool := s.r_sdcmd_oen

end Code

/-- Lower coefficients of `x^7+x^3+1`. -/
def gen7 : BitVec 7 := 0b0001001#7

/-- The checksum's register is a division by its polynomial. -/
theorem crc7_sample (r : BitVec 7) (b shift clr : Bool) :
    crc7 r b shift clr true=Crc.step gen7 r b := by
  have hall : ∀ (r : BitVec 7) (b : Bool), crc7 r b false false true=Crc.step gen7 r b := by
    decide +kernel
  exact hall r b

/-- A cycle without a start or a clear. -/
structure Calm (i : Input) : Prop where
  clr : i.clr_stat_i=false
  start : i.cmd_start_i=false

/-- The counter runs, with `n` to go. -/
structure Counts (n : ℕ) (s : State) : Prop where
  cnt : s.r_cnt.toNat=n
  running : s.r_cnt_running=true

section Phases

variable {s : State} {i : Input} {n j : ℕ}

theorem Counts.done (h : Counts n s) : s_cnt_done s=decide (n=0) := by
  rw [s_cnt_done,Bool.eq_iff_iff,beq_iff_eq,decide_eq_true_iff,←h.cnt,←BitVec.toNat_inj]
  rfl

theorem Counts.start (hstart : (comb s i).s_cnt_start=true) :
    Counts (comb s i).s_cnt_target.toNat (step s i) := by
  constructor <;> simp [step,hstart]

theorem Counts.next (h : Counts (n+1) s) (hstart : (comb s i).s_cnt_start=false) :
    Counts n (step s i) := by
  have hdone : s_cnt_done s=false := by
    rw [h.done]
    exact decide_eq_false (Nat.succ_ne_zero n)
  have hcnt := h.cnt
  have hlt := s.r_cnt.isLt
  constructor
  · simp only [step,hstart,hdone,h.running,Bool.false_eq_true,if_false,if_true]
    rw [BitVec.toNat_sub_of_le (by rw [BitVec.le_def,hcnt]; exact Nat.succ_le_succ (Nat.zero_le n)),
      hcnt]
    rfl
  · simp only [step,hstart,hdone,h.running,Bool.false_eq_true,if_false]

/-- The command is out but for the last `38-j` bits. -/
structure TxShift (cmd : BitVec 38) (j : ℕ) (s : State) : Prop where
  state : s.r_state=.ST_TX_SHIFT
  counts : Counts (37-j) s
  word : s.r_cmd=cmd <<< j
  crc : s.r_crc=Crc.crc gen7 (false::true::Crc.msbs cmd j)

/-- The checksum is out but for the last `7-j` bits. -/
structure TxCrc (v : BitVec 7) (j : ℕ) (s : State) : Prop where
  state : s.r_state=.ST_TX_CRC
  counts : Counts (6-j) s
  crc : s.r_crc=v <<< j

/-- The register holds the last `j` bits that came in. -/
def Holds (bit : ℕ → Bool) (j : ℕ) (s : State) : Prop :=
  ∀ m, m < j → s.r_rsp.getLsbD m=bit (j-1-m)

/-- A response of `len+1` bits is being received. -/
structure RxShift (len : ℕ) (bit : ℕ → Bool) (j : ℕ) (s : State) : Prop where
  state : s.r_state=.ST_RX_SHIFT
  counts : Counts (len-j) s
  data : Holds bit j s

/-- A state that the machine leaves when the counter is at zero, while it holds a response. -/
structure Passes (f : Fsm) (r : BitVec 136) (k : ℕ) (s : State) : Prop where
  state : s.r_state=f
  counts : Counts k s
  data : s.r_rsp=r

theorem TxShift.line {cmd : BitVec 38} (h : TxShift cmd j s) (hj : j ≤ 37) :
    (step s i).r_sdcmd=cmd.getLsbD (37-j) ∧ (step s i).r_sdcmd_oen=false := by
  have hbit : s.r_cmd.getLsbD 37=cmd.getLsbD (37-j) := by
    rw [h.word,BitVec.getLsbD_shiftLeft,decide_eq_false (by omega : ¬37 < j)]
    rfl
  rw [←hbit]
  cases hdone : s_cnt_done s <;> simp [step,comb,h.state,hdone]

/-- The command and its checksum move on by one bit. -/
theorem TxShift.moves {cmd : BitVec 38} (h : TxShift cmd j s) (hj : j ≤ 37) (hi : Calm i) :
    (step s i).r_cmd=cmd <<< (j+1) ∧
      (step s i).r_crc=Crc.crc gen7 (false::true::Crc.msbs cmd (j+1)) := by
  have hbit : s.r_cmd.getLsbD 37=cmd.getLsbD (37-j) := by
    rw [h.word,BitVec.getLsbD_shiftLeft,decide_eq_false (by omega : ¬37 < j)]
    rfl
  have hcrc : Crc.crc gen7 (false::true::Crc.msbs cmd (j+1))=
      Crc.step gen7 s.r_crc (cmd.getLsbD (37-j)) := by
    rw [h.crc,←Crc.crc_concat,Crc.msbs_succ]
    rfl
  have hword : cmd <<< (j+1)=s.r_cmd <<< 1 := by
    rw [h.word,←BitVec.shiftLeft_add]
  rw [hcrc,hword,←hbit]
  cases hdone : s_cnt_done s <;>
    simp [step,comb,h.state,hdone,hi.clr,hi.start,crc7_sample]

theorem TxShift.next {cmd : BitVec 38} (h : TxShift cmd j s) (hj : j < 37) (hi : Calm i) :
    TxShift cmd (j+1) (step s i) := by
  obtain ⟨n,hn⟩ : ∃ n,37-j=n+1 := ⟨37-j-1,by omega⟩
  have hcounts : Counts (n+1) s := hn ▸ h.counts
  have hdone : s_cnt_done s=false := hcounts.done
  have hplace : 37-(j+1)=n := by omega
  refine ⟨?_,?_,(h.moves (by omega) hi).1,(h.moves (by omega) hi).2⟩
  · simp [step,comb,h.state,hdone,hi.clr]
  · rw [hplace]
    exact hcounts.next (by simp [comb,h.state,hdone])

theorem TxShift.last {cmd : BitVec 38} (h : TxShift cmd 37 s) (hi : Calm i) :
    TxCrc (Crc.crc gen7 (false::true::Crc.msbs cmd 38)) 0 (step s i) := by
  have hdone : s_cnt_done s=true := h.counts.done
  have hstart : (comb s i).s_cnt_start=true ∧ (comb s i).s_cnt_target=6#8 := by
    simp [comb,h.state,hdone]
  refine ⟨?_,?_,?_⟩
  · simp [step,comb,h.state,hdone,hi.clr]
  · have hcounts := Counts.start hstart.1
    rw [hstart.2] at hcounts
    exact hcounts
  · rw [(h.moves (Nat.le_refl 37) hi).2,BitVec.shiftLeft_zero]

theorem TxCrc.line {v : BitVec 7} (h : TxCrc v j s) (hj : j ≤ 6) :
    (step s i).r_sdcmd=v.getLsbD (6-j) ∧ (step s i).r_sdcmd_oen=false := by
  have hbit : s.r_crc.getLsbD 6=v.getLsbD (6-j) := by
    rw [h.crc,BitVec.getLsbD_shiftLeft,decide_eq_false (by omega : ¬6 < j)]
    rfl
  rw [←hbit]
  cases hdone : s_cnt_done s <;> simp [step,comb,h.state,hdone]

/-- The checksum's own highest bit as input makes its step a shift. -/
theorem step_own (v : BitVec 7) : Crc.step gen7 v (v.getLsbD 6)=v <<< 1 := by
  rw [Crc.step,Bool.xor_self]
  rfl

theorem TxCrc.next {v : BitVec 7} (h : TxCrc v j s) (hj : j < 6) (hi : Calm i) :
    TxCrc v (j+1) (step s i) := by
  obtain ⟨n,hn⟩ : ∃ n,6-j=n+1 := ⟨6-j-1,by omega⟩
  have hcounts : Counts (n+1) s := hn ▸ h.counts
  have hdone : s_cnt_done s=false := hcounts.done
  have hplace : 6-(j+1)=n := by omega
  refine ⟨?_,?_,?_⟩
  · simp [step,comb,h.state,hdone,hi.clr]
  · rw [hplace]
    exact hcounts.next (by simp [comb,h.state,hdone])
  · have hcrc : (step s i).r_crc=s.r_crc <<< 1 := by
      rw [←step_own]
      simp [step,comb,h.state,hdone,crc7_sample]
    rw [hcrc,h.crc,←BitVec.shiftLeft_add]

theorem TxCrc.last {v : BitVec 7} (h : TxCrc v 6 s) (hi : Calm i) :
    (step s i).r_state=.ST_TX_STOP := by
  have hdone : s_cnt_done s=true := h.counts.done
  simp [step,comb,h.state,hdone,hi.clr]

/-- The end bit. Where a response is expected the output is already off. -/
theorem stop_line (h : s.r_state=.ST_TX_STOP) :
    (step s i).r_sdcmd=true ∧ (step s i).r_sdcmd_oen=(rsp i.cmd_rsp_type_i).s_rsp_en := by
  cases hen : (rsp i.cmd_rsp_type_i).s_rsp_en <;> simp [step,comb,h,hen]

theorem stop_wait (h : s.r_state=.ST_TX_STOP) (hi : Calm i)
    (hen : (rsp i.cmd_rsp_type_i).s_rsp_en=false) : Passes .ST_WAIT s.r_rsp 7 (step s i) := by
  have hstart : (comb s i).s_cnt_start=true ∧ (comb s i).s_cnt_target=7#8 := by
    simp [comb,h,hen]
  have hcounts := Counts.start hstart.1
  rw [hstart.2] at hcounts
  refine ⟨?_,hcounts,?_⟩ <;> simp [step,comb,h,hen,hi.clr]

theorem stop_start (h : s.r_state=.ST_TX_STOP) (hi : Calm i)
    (hen : (rsp i.cmd_rsp_type_i).s_rsp_en=true) :
    (step s i).r_state=.ST_RX_START ∧ Counts 37 (step s i) := by
  have hstart : (comb s i).s_cnt_start=true ∧ (comb s i).s_cnt_target=37#8 := by
    simp [comb,h,hen]
  have hcounts := Counts.start hstart.1
  rw [hstart.2] at hcounts
  refine ⟨?_,hcounts⟩
  simp [step,comb,h,hen,hi.clr]

/-- No start bit yet. -/
theorem start_high (h : s.r_state=.ST_RX_START) (hcnt : Counts (n+1) s) (hi : Calm i)
    (hline : i.sdcmd_i=true) : (step s i).r_state=.ST_RX_START ∧ Counts n (step s i) := by
  have hdone : s_cnt_done s=false := hcnt.done
  refine ⟨?_,hcnt.next (by simp [comb,h,hdone,hline])⟩
  simp [step,comb,h,hdone,hline,hi.clr]

/-- No start bit in time. -/
theorem start_timeout (h : s.r_state=.ST_RX_START) (hcnt : Counts 0 s) (hline : i.sdcmd_i=true) :
    (step s i).r_state=.ST_IDLE := by
  have hdone : s_cnt_done s=true := hcnt.done
  simp [step,comb,h,hdone,hline]

theorem start_low (h : s.r_state=.ST_RX_START) (hi : Calm i) (hline : i.sdcmd_i=false) :
    (step s i).r_state=.ST_RX_DIR := by
  simp [step,comb,h,hline,hi.clr]

theorem dir_high (h : s.r_state=.ST_RX_DIR) (hline : i.sdcmd_i=true) :
    (step s i).r_state=.ST_IDLE := by
  simp [step,comb,h,hline]

theorem dir_low (h : s.r_state=.ST_RX_DIR) (hi : Calm i) (hline : i.sdcmd_i=false)
    (bit : ℕ → Bool) :
    RxShift (rsp i.cmd_rsp_type_i).s_rsp_len.toNat bit 0 (step s i) := by
  have hstart : (comb s i).s_cnt_start=true ∧
      (comb s i).s_cnt_target=(rsp i.cmd_rsp_type_i).s_rsp_len := by
    simp [comb,h,hline]
  have hcounts := Counts.start hstart.1
  rw [hstart.2] at hcounts
  refine ⟨?_,hcounts,fun m hm => absurd hm (Nat.not_lt_zero m)⟩
  simp [step,comb,h,hline,hi.clr]

/-- A bit of the response is shifted in. -/
theorem RxShift.holds {len : ℕ} {bit : ℕ → Bool} (h : RxShift len bit j s) (hj : j < 136)
    (hi : Calm i) (hline : i.sdcmd_i=bit j) : Holds bit (j+1) (step s i) := by
  have hrsp : (step s i).r_rsp=(s.r_rsp.setWidth 135).concat i.sdcmd_i := by
    cases hdone : s_cnt_done s <;> cases hcrc : (rsp i.cmd_rsp_type_i).s_rsp_crc <;>
      cases hbsy : (rsp i.cmd_rsp_type_i).s_rsp_bsy <;>
      simp [step,comb,h.state,hdone,hcrc,hbsy,hi.clr]
  intro m hm
  rw [hrsp,BitVec.getLsbD_concat]
  cases m with
  | zero =>
    rw [if_pos rfl,hline]
    rfl
  | succ m =>
    rw [if_neg (Nat.succ_ne_zero m),Nat.add_sub_cancel,BitVec.getLsbD_setWidth,
      decide_eq_true (by omega),Bool.true_and,h.data m (by omega)]
    congr 1
    omega

theorem RxShift.next {len : ℕ} {bit : ℕ → Bool} (h : RxShift len bit j s) (hlen : len < 136)
    (hj : j < len) (hi : Calm i) (hline : i.sdcmd_i=bit j) :
    RxShift len bit (j+1) (step s i) := by
  obtain ⟨n,hn⟩ : ∃ n,len-j=n+1 := ⟨len-j-1,by omega⟩
  have hcounts : Counts (n+1) s := hn ▸ h.counts
  have hdone : s_cnt_done s=false := hcounts.done
  have hplace : len-(j+1)=n := by omega
  refine ⟨?_,?_,h.holds (by omega) hi hline⟩
  · simp [step,comb,h.state,hdone,hi.clr]
  · rw [hplace]
    exact hcounts.next (by simp [comb,h.state,hdone])

/-- After the last bit the machine counts over a checksum or waits. The state that would wait
for the card is not entered: the only type that asks for it has a checksum. -/
theorem RxShift.last {len : ℕ} {bit : ℕ → Bool} (h : RxShift len bit len s) (hi : Calm i) :
    Passes (if (rsp i.cmd_rsp_type_i).s_rsp_crc=true then .ST_RX_CRC else .ST_WAIT)
      (step s i).r_rsp 7 (step s i) := by
  have hdone : s_cnt_done s=true := by
    rw [h.counts.done,Nat.sub_self]
    rfl
  have hbsy : (rsp i.cmd_rsp_type_i).s_rsp_crc=false →
      (rsp i.cmd_rsp_type_i).s_rsp_bsy=false := by
    unfold rsp
    split_ifs <;> simp
  have hstart : (comb s i).s_cnt_start=true ∧ (comb s i).s_cnt_target=7#8 := by
    cases hcrc : (rsp i.cmd_rsp_type_i).s_rsp_crc with
    | true => simp [comb,h.state,hdone,hcrc]
    | false => simp [comb,h.state,hdone,hcrc,hbsy hcrc]
  have hcounts := Counts.start hstart.1
  rw [hstart.2] at hcounts
  refine ⟨?_,hcounts,rfl⟩
  cases hcrc : (rsp i.cmd_rsp_type_i).s_rsp_crc with
  | true => simp [step,comb,h.state,hdone,hcrc,hi.clr]
  | false => simp [step,comb,h.state,hdone,hcrc,hbsy hcrc,hi.clr]

theorem Passes.next {f : Fsm} {r : BitVec 136} (h : Passes f r (n+1) s)
    (hf : f=.ST_WAIT ∨ f=.ST_RX_CRC) (hi : Calm i) :
    Passes f r n (step s i) ∧ eot_o s i=false := by
  have hdone : s_cnt_done s=false := h.counts.done
  have hstart : (comb s i).s_cnt_start=false := by
    rcases hf with rfl | rfl <;> simp [comb,h.state,hdone]
  refine ⟨⟨?_,h.counts.next hstart,?_⟩,?_⟩
  · rcases hf with rfl | rfl <;> simp [step,comb,h.state,hdone,hi.clr]
  · rw [←h.data]
    rcases hf with rfl | rfl <;> simp [step,comb,h.state,hdone,hi.clr]
  · rcases hf with rfl | rfl <;> simp [eot_o,comb,h.state,hdone]

theorem Passes.crc_last {r : BitVec 136} (h : Passes .ST_RX_CRC r 0 s) (hi : Calm i) :
    Passes .ST_WAIT r 7 (step s i) := by
  have hdone : s_cnt_done s=true := h.counts.done
  have hstart : (comb s i).s_cnt_start=true ∧ (comb s i).s_cnt_target=7#8 := by
    simp [comb,h.state,hdone]
  have hcounts := Counts.start hstart.1
  rw [hstart.2] at hcounts
  refine ⟨?_,hcounts,?_⟩
  · simp [step,comb,h.state,hdone,hi.clr]
  · rw [←h.data]
    simp [step,comb,h.state,hdone,hi.clr]

theorem Passes.wait_last {r : BitVec 136} (h : Passes .ST_WAIT r 0 s) :
    (step s i).r_state=.ST_IDLE ∧ eot_o s i=true := by
  have hdone : s_cnt_done s=true := h.counts.done
  constructor <;> simp [step,eot_o,comb,h.state,hdone]

theorem idle_stays (h : s.r_state=.ST_IDLE) (hi : Calm i) : (step s i).r_state=.ST_IDLE := by
  simp [step,comb,h,hi.start]

/-- Only the last state of a command raises the end of transfer. -/
theorem eot_of_state (h : s.r_state≠.ST_WAIT) : eot_o s i=false := by
  unfold eot_o comb
  cases hs : s.r_state <;> simp only <;> first | exact absurd hs h | rfl | (split_ifs <;> rfl)

end Phases

end Pulpissimo.Udma.SdioCmd
