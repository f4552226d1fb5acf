import Pulpissimo.Lib.BitClock

/-!
# The UART's transmitter

`udma_uart_tx`. A frame is a start bit, the data from the lowest bit on, a parity bit if
there is one, and the stop bits. The state machine moves on with a pulse that
comes a cycle after the divider has reached its limit. Where the block is
disabled only the state machine goes back: the bit counter keeps its value.
-/

namespace Pulpissimo.Udma.UartTx

open Pulpissimo.BitClock

/-- Configuration of both directions. -/
structure Cfg where
  cfg_div_i : BitVec 16
  cfg_parity_en_i : Bool
  cfg_bits_i : BitVec 2
  cfg_stop_bits_i : Bool

inductive Fsm where
  | IDLE | START_BIT | DATA | PARITY | STOP_BIT_FIRST | STOP_BIT_LAST
deriving DecidableEq

/-- Registers. -/
structure State where
  CS : Fsm
  reg_data : BitVec 8
  reg_bit_count : BitVec 3
  parity_bit : Bool
  baud_cnt : BitVec 16
  bit_done : Bool

/-- Values after reset. -/
def reset : State := ⟨.IDLE,0xFF#8,0#3,false,0#16,false⟩

/-- One cycle of inputs. -/
structure Input where
  cfg_en_i : Bool
  tx_data_i : BitVec 8
  tx_valid_i : Bool

/-- Number of data bits less one. -/
def s_target_bits (cfg : Cfg) : BitVec 3 :=
  if cfg.cfg_bits_i=0 then 4#3
  else if cfg.cfg_bits_i=1 then 5#3
  else if cfg.cfg_bits_i=2 then 6#3
  else 7#3

section Code

variable (cfg : Cfg) (s : State) (i : Input)

def busy_o : Bool := decide (s.CS≠.IDLE)

def tx_ready_o : Bool := decide (s.CS=.IDLE) && i.cfg_en_i

def tx_o : Bool :=
  match s.CS with
  | .START_BIT => false
  | .DATA => s.reg_data.getLsbD 0
  | .PARITY => s.parity_bit
  | _ => true

def baudgen_en : Bool := decide (s.CS≠.IDLE)

def NS : Fsm :=
  match s.CS with
  | .IDLE => if i.tx_valid_i then .START_BIT else .IDLE
  | .START_BIT => if s.bit_done then .DATA else .START_BIT
  | .DATA =>
    if s.bit_done && s.reg_bit_count==s_target_bits cfg then
      if cfg.cfg_parity_en_i then .PARITY else .STOP_BIT_FIRST
    else .DATA
  | .PARITY => if s.bit_done then .STOP_BIT_FIRST else .PARITY
  | .STOP_BIT_FIRST =>
    if s.bit_done then if cfg.cfg_stop_bits_i then .STOP_BIT_LAST else .IDLE
    else .STOP_BIT_FIRST
  | .STOP_BIT_LAST => if s.bit_done then .IDLE else .STOP_BIT_LAST

def sampleData : Bool :=
  match s.CS with
  | .IDLE => i.tx_valid_i
  | .DATA => s.bit_done && s.reg_bit_count != s_target_bits cfg
  | _ => false

def reg_bit_count_next : BitVec 3 :=
  match s.CS with
  | .DATA =>
    if s.bit_done then
      if s.reg_bit_count==s_target_bits cfg then 0#3 else s.reg_bit_count+1#3
    else s.reg_bit_count
  | _ => s.reg_bit_count

def reg_data_next : BitVec 8 :=
  match s.CS with
  | .IDLE => if i.tx_valid_i then i.tx_data_i else s.reg_data >>> 1 ||| 0x80#8
  | _ => s.reg_data >>> 1 ||| 0x80#8

def parity_bit_next : Bool :=
  match s.CS with
  | .START_BIT => false
  | .DATA => s.parity_bit ^^ s.reg_data.getLsbD 0
  | _ => s.parity_bit

/-- One clock edge. -/
def step : State where
  CS := if i.cfg_en_i then NS cfg s i else .IDLE
  reg_data := if sampleData cfg s i then reg_data_next s i else s.reg_data
  reg_bit_count := reg_bit_count_next cfg s
  parity_bit := if s.bit_done then parity_bit_next s else s.parity_bit
  baud_cnt :=
    if baudgen_en s then if s.baud_cnt=cfg.cfg_div_i then 0#16 else s.baud_cnt+1#16 else 0#16
  bit_done := if baudgen_en s then decide (s.baud_cnt=cfg.cfg_div_i) else false

end Code

namespace Cfg

variable (cfg : Cfg)

/-- Cycles of a bit. -/
def P : ℕ := cfg.cfg_div_i.toNat+1

/-- Data bits. -/
def N : ℕ := (s_target_bits cfg).toNat+1

/-- First stop bit, counted from the start bit. -/
def stop : ℕ := cfg.N+1+cfg.cfg_parity_en_i.toNat

/-- Bits of a frame. -/
def bits : ℕ := cfg.stop+1+cfg.cfg_stop_bits_i.toNat

end Cfg

/-- Parity of the first `n` bits. -/
def parityOf (d : BitVec 8) : ℕ → Bool
  | 0 => false
  | n+1 => parityOf d n ^^ d.getLsbD n

/-- Level of the line in bit `k` of the frame of a byte. -/
def level (cfg : Cfg) (d : BitVec 8) (k : ℕ) : Bool :=
  if k=0 then false
  else if k ≤ cfg.N then d.getLsbD (k-1)
  else if k < cfg.stop then parityOf d cfg.N
  else true

/-- State of the machine in bit `k` of a frame. -/
def stage (cfg : Cfg) (k : ℕ) : Fsm :=
  if k=0 then .START_BIT
  else if k ≤ cfg.N then .DATA
  else if k < cfg.stop then .PARITY
  else if k=cfg.stop then .STOP_BIT_FIRST
  else if k < cfg.bits then .STOP_BIT_LAST
  else .IDLE

/-- The transmitter in bit `k` of the frame of a byte, with the data bits up to this one out. -/
structure Sends (cfg : Cfg) (d : BitVec 8) (k : ℕ) (s : State) : Prop where
  stage : s.CS=stage cfg k
  count : s.reg_bit_count.toNat=if k ≤ cfg.N then k-1 else 0
  data : k ≤ cfg.N → ∀ j, j+(k-1) < 8 → s.reg_data.getLsbD j=d.getLsbD (j+(k-1))
  parity : 0 < k → s.parity_bit=parityOf d (min (k-1) cfg.N)

theorem Cfg.N_bounds (cfg : Cfg) : 5 ≤ cfg.N ∧ cfg.N ≤ 8 := by
  unfold Cfg.N s_target_bits
  split_ifs <;> decide

section Frame

variable {cfg : Cfg} {d : BitVec 8} {k : ℕ} {s : State} {i : Input}

/-- The line carries the frame. -/
theorem Sends.line (h : Sends cfg d k s) : tx_o s=level cfg d k := by
  unfold tx_o level
  rw [h.stage,UartTx.stage]
  by_cases hk : k=0
  · rw [if_pos hk,if_pos hk]
  · rw [if_neg hk,if_neg hk]
    by_cases hN : k ≤ cfg.N
    · rw [if_pos hN,if_pos hN]
      have hdata := h.data hN 0 (by have := cfg.N_bounds; omega)
      rw [Nat.zero_add] at hdata
      exact hdata
    · rw [if_neg hN,if_neg hN]
      by_cases hstop : k < cfg.stop
      · rw [if_pos hstop,if_pos hstop]
        have hparity := h.parity (Nat.pos_of_ne_zero hk)
        rw [Nat.min_eq_right (by omega)] at hparity
        exact hparity
      · rw [if_neg hstop,if_neg hstop]
        split_ifs <;> rfl

theorem stage_idle_iff : stage cfg k=.IDLE ↔ cfg.bits ≤ k := by
  have hN := cfg.N_bounds
  have hstop : cfg.stop=cfg.N+1+cfg.cfg_parity_en_i.toNat := rfl
  have hbits : cfg.bits=cfg.stop+1+cfg.cfg_stop_bits_i.toNat := rfl
  unfold stage
  split_ifs <;> simp <;> omega

theorem Sends.busy (h : Sends cfg d k s) : busy_o s=true ↔ k < cfg.bits := by
  rw [busy_o,h.stage,decide_eq_true_iff,Ne,stage_idle_iff,Nat.not_le]

theorem step_CS (hen : i.cfg_en_i=true) : (step cfg s i).CS=NS cfg s i := if_pos hen

/-- Without the pulse the transmitter stays in its bit. -/
theorem Sends.stay (h : Sends cfg d k s) (hen : i.cfg_en_i=true) (hk : k < cfg.bits)
    (hdone : s.bit_done=false) : Sends cfg d k (step cfg s i) := by
  have hbusy : s.CS≠.IDLE := by
    rw [h.stage,Ne,stage_idle_iff]
    exact Nat.not_le.mpr hk
  have hNS : NS cfg s i=s.CS := by
    unfold NS
    cases hcs : s.CS <;> simp [hdone]
    exact absurd hcs hbusy
  have hsample : sampleData cfg s i=false := by
    unfold sampleData
    cases hcs : s.CS <;> simp [hdone]
    exact absurd hcs hbusy
  have hcount : reg_bit_count_next cfg s=s.reg_bit_count := by
    unfold reg_bit_count_next
    cases s.CS <;> simp [hdone]
  refine ⟨?_,?_,?_,?_⟩
  · rw [step_CS hen,hNS]
    exact h.stage
  · rw [step,hcount]
    exact h.count
  · rw [step,hsample,if_neg Bool.false_ne_true]
    exact h.data
  · rw [step,hdone,if_neg Bool.false_ne_true]
    exact h.parity

theorem getLsbD_shift (r : BitVec 8) {j : ℕ} (hj : j+1 < 8) :
    (r >>> 1 ||| 0x80#8).getLsbD j=r.getLsbD (j+1) := by
  have hlow : (0x80#8).getLsbD j=false := by
    have hall : ∀ j, j < 7 → (0x80#8).getLsbD j=false := by decide
    exact hall j (by omega)
  rw [BitVec.getLsbD_or,hlow,Bool.or_false,BitVec.getLsbD_ushiftRight,Nat.add_comm]

/-- After the start bit come the data. -/
theorem Sends.next_start (h : Sends cfg d 0 s) (hen : i.cfg_en_i=true) (hdone : s.bit_done=true) :
    Sends cfg d 1 (step cfg s i) := by
  have hN := cfg.N_bounds
  have hcs : s.CS=.START_BIT := h.stage
  have hcount := h.count
  rw [if_pos (Nat.zero_le _)] at hcount
  refine ⟨?_,?_,?_,?_⟩
  · rw [step_CS hen,UartTx.stage,if_neg (by decide),if_pos (by omega)]
    simp only [NS,hcs,hdone,if_true]
  · simp only [step,reg_bit_count_next,hcs]
    rw [if_pos (by omega),hcount]
  · intro _ j hj
    simp only [step,sampleData,hcs,Bool.false_eq_true,if_false]
    exact h.data (Nat.zero_le _) j hj
  · intro _
    simp only [step,hdone,if_true,parity_bit_next,hcs]
    rfl

/-- After a data bit that is not the last one comes the next one. -/
theorem Sends.next_data (h : Sends cfg d k s) (hen : i.cfg_en_i=true) (hdone : s.bit_done=true)
    (hk : 0 < k) (hlast : k < cfg.N) : Sends cfg d (k+1) (step cfg s i) := by
  have hN := cfg.N_bounds
  have hcs : s.CS=.DATA := by
    rw [h.stage,UartTx.stage,if_neg (by omega),if_pos (by omega)]
  have hcount := h.count
  rw [if_pos (by omega)] at hcount
  have hne : s.reg_bit_count≠s_target_bits cfg := by
    rw [Ne,←BitVec.toNat_inj,hcount]
    unfold Cfg.N at hlast
    omega
  refine ⟨?_,?_,?_,?_⟩
  · rw [step_CS hen,UartTx.stage,if_neg (by omega),if_pos (by omega)]
    simp only [NS,hcs,hdone,Bool.true_and,beq_iff_eq,if_neg hne]
  · simp only [step,reg_bit_count_next,hcs,hdone,if_true,beq_iff_eq,if_neg hne]
    rw [if_pos (by omega),BitVec.toNat_add,hcount]
    simp
    omega
  · intro _ j hj
    simp only [step,sampleData,hcs,hdone,bne_iff_ne.mpr hne,Bool.true_and,if_true,reg_data_next]
    rw [getLsbD_shift _ (by omega),h.data (by omega) (j+1) (by omega)]
    congr 1
    omega
  · intro _
    simp only [step,hdone,if_true,parity_bit_next,hcs]
    have hdata := h.data (by omega) 0 (by omega)
    rw [h.parity hk,hdata,Nat.zero_add,Nat.min_eq_left (by omega),Nat.min_eq_left (by omega)]
    obtain ⟨m,rfl⟩ : ∃ m,k=m+1 := ⟨k-1,by omega⟩
    rfl

/-- After the last data bit come the parity bit or the stop bits. -/
theorem Sends.next_last (h : Sends cfg d cfg.N s) (hen : i.cfg_en_i=true) (hdone : s.bit_done=true) :
    Sends cfg d (cfg.N+1) (step cfg s i) := by
  have hN := cfg.N_bounds
  have hcs : s.CS=.DATA := by
    rw [h.stage,UartTx.stage,if_neg (by omega),if_pos (by omega)]
  have hcount := h.count
  rw [if_pos (by omega)] at hcount
  have heq : s.reg_bit_count=s_target_bits cfg := by
    rw [←BitVec.toNat_inj,hcount]
    rfl
  refine ⟨?_,?_,fun hle => by omega,?_⟩
  · rw [step_CS hen,UartTx.stage,if_neg (by omega),if_neg (by omega)]
    simp only [NS,hcs,hdone,Bool.true_and,beq_iff_eq,if_pos heq]
    cases hpar : cfg.cfg_parity_en_i with
    | false =>
      have hstop : cfg.stop=cfg.N+1 := by
        rw [Cfg.stop,hpar]
        rfl
      rw [if_neg Bool.false_ne_true,hstop,if_neg (Nat.lt_irrefl _),if_pos rfl]
    | true =>
      have hstop : cfg.stop=cfg.N+1+1 := by
        rw [Cfg.stop,hpar]
        rfl
      rw [hstop,if_pos (Nat.lt_succ_self _),if_pos rfl]
  · simp only [step,reg_bit_count_next,hcs,hdone,if_true,beq_iff_eq,if_pos heq]
    rw [if_neg (by omega)]
    rfl
  · intro _
    simp only [step,hdone,if_true,parity_bit_next,hcs]
    have hdata := h.data (by omega) 0 (by omega)
    rw [h.parity (by omega),hdata,Nat.zero_add,Nat.min_eq_left (by omega),Nat.add_sub_cancel,
      Nat.min_self]
    obtain ⟨m,hm⟩ : ∃ m,cfg.N=m+1 := ⟨cfg.N-1,by omega⟩
    rw [hm]
    rfl

/-- After the data the stages follow one another. -/
theorem Sends.next_end (h : Sends cfg d k s) (hen : i.cfg_en_i=true) (hdone : s.bit_done=true)
    (hlast : cfg.N < k) (hk : k < cfg.bits) : Sends cfg d (k+1) (step cfg s i) := by
  have hstop : cfg.stop=cfg.N+1+cfg.cfg_parity_en_i.toNat := rfl
  have hbits : cfg.bits=cfg.stop+1+cfg.cfg_stop_bits_i.toNat := rfl
  have hparity1 : cfg.cfg_parity_en_i.toNat ≤ 1 := Bool.toNat_le _
  have hcount := h.count
  rw [if_neg (by omega)] at hcount
  have hparity := h.parity (by omega)
  rw [Nat.min_eq_right (by omega)] at hparity
  have hcs := h.stage
  rw [UartTx.stage,if_neg (by omega),if_neg (by omega)] at hcs
  have hrest : s.CS≠.DATA ∧ s.CS≠.START_BIT := by
    rw [hcs]
    split_ifs <;> decide
  refine ⟨?_,?_,fun hle => by omega,fun _ => ?_⟩
  · rw [step_CS hen,UartTx.stage,if_neg (by omega),if_neg (by omega)]
    by_cases hpar : k < cfg.stop
    · rw [if_pos hpar] at hcs
      simp only [NS,hcs,hdone,if_true]
      rw [if_neg (by omega),if_pos (by omega)]
    · rw [if_neg hpar] at hcs
      by_cases hfirst : k=cfg.stop
      · rw [if_pos hfirst] at hcs
        have hpast : ¬k+1 < cfg.stop ∧ ¬k+1=cfg.stop := by omega
        simp only [NS,hcs,hdone,if_true,if_neg hpast.1,if_neg hpast.2]
        rw [hbits,←hfirst]
        cases cfg.cfg_stop_bits_i with
        | false =>
          rw [Bool.toNat_false,Nat.add_zero,if_neg Bool.false_ne_true,if_neg (Nat.lt_irrefl (k+1))]
        | true => rw [Bool.toNat_true,if_pos rfl,if_pos (Nat.lt_add_one (k+1))]
      · rw [if_neg hfirst,if_pos hk] at hcs
        simp only [NS,hcs,hdone,if_true]
        have hstops : cfg.cfg_stop_bits_i.toNat ≤ 1 := Bool.toNat_le _
        rw [if_neg (by omega),if_neg (by omega),if_neg (by omega)]
  · have hkeep : reg_bit_count_next cfg s=s.reg_bit_count := by
      unfold reg_bit_count_next
      split
      · rename_i hdata
        exact absurd hdata hrest.1
      · rfl
    show (reg_bit_count_next cfg s).toNat=_
    rw [hkeep,if_neg (by omega)]
    exact hcount
  · have hkeep : parity_bit_next s=s.parity_bit := by
      unfold parity_bit_next
      split
      · rename_i hstart
        exact absurd hstart hrest.2
      · rename_i hdata
        exact absurd hdata hrest.1
      · rfl
    show (if s.bit_done=true then parity_bit_next s else s.parity_bit)=_
    rw [hdone,if_pos rfl,hkeep,hparity,Nat.min_eq_right (by omega)]

/-- With the pulse the transmitter goes on to the next bit. -/
theorem Sends.next (h : Sends cfg d k s) (hen : i.cfg_en_i=true) (hk : k < cfg.bits)
    (hdone : s.bit_done=true) : Sends cfg d (k+1) (step cfg s i) := by
  rcases Nat.eq_zero_or_pos k with rfl | hpos
  · exact h.next_start hen hdone
  · rcases Nat.lt_trichotomy k cfg.N with hlt | rfl | hgt
    · exact h.next_data hen hdone hpos hlt
    · exact h.next_last hen hdone
    · exact h.next_end hen hdone hgt hk

/-- An idle transmitter that is offered a byte begins its frame. -/
theorem Sends.start (hidle : s.CS=.IDLE) (hcount : s.reg_bit_count=0#3) (hen : i.cfg_en_i=true)
    (hvalid : i.tx_valid_i=true) : Sends cfg i.tx_data_i 0 (step cfg s i) := by
  refine ⟨?_,?_,fun _ j _ => ?_,fun h => absurd h (Nat.lt_irrefl 0)⟩
  · rw [step_CS hen]
    simp only [NS,hidle,hvalid,if_true]
    rfl
  · simp only [step,reg_bit_count_next,hidle,hcount,if_pos (Nat.zero_le _)]
    rfl
  · simp only [step,sampleData,hidle,hvalid,if_true,reg_data_next]
    rfl

end Frame

end Pulpissimo.Udma.UartTx
