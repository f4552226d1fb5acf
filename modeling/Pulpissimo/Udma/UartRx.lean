import Pulpissimo.Udma.UartTx

/-!
# The UART's receiver

`udma_uart_rx`. A falling edge starts the divider with half its limit, so that
the pulses come inside the bits. The byte is offered in a state of its own after its last
bit, while the divider goes on.
-/

namespace Pulpissimo.Udma.UartRx

open Pulpissimo.BitClock Pulpissimo.Udma.UartTx

inductive Fsm where
  | IDLE | START_BIT | DATA | SAVE_DATA | PARITY | STOP_BIT
deriving DecidableEq

/-- Registers. -/
structure State where
  CS : Fsm
  reg_data : BitVec 8
  reg_bit_count : BitVec 3
  parity_bit : Bool
  reg_rx_sync : BitVec 3
  baud_cnt : BitVec 16
  bit_done : Bool
  err_o : Bool

/-- Values after reset. -/
def reset : State := ⟨.IDLE,0xFF#8,0#3,false,0b111#3,0#16,false,false⟩

/-- One cycle of inputs. -/
structure Input where
  cfg_en_i : Bool
  rx_i : Bool
  rx_ready_i : Bool
  err_clr_i : Bool

section Code

variable (cfg : Cfg) (s : State) (i : Input)

def s_rx_fall : Bool := !s.reg_rx_sync.getLsbD 1 && s.reg_rx_sync.getLsbD 2

def rx_valid_o : Bool := decide (s.CS=.SAVE_DATA)

def rx_data_o : BitVec 8 := s.reg_data

def baudgen_en : Bool :=
  match s.CS with
  | .IDLE => s_rx_fall s
  | _ => true

def start_bit : Bool :=
  match s.CS with
  | .IDLE => s_rx_fall s
  | .START_BIT => true
  | _ => false

def NS : Fsm :=
  match s.CS with
  | .IDLE => if s_rx_fall s then .START_BIT else .IDLE
  | .START_BIT => if s.bit_done then .DATA else .START_BIT
  | .DATA => if s.bit_done && s.reg_bit_count==s_target_bits cfg then .SAVE_DATA else .DATA
  | .SAVE_DATA =>
    if i.rx_ready_i then if cfg.cfg_parity_en_i then .PARITY else .STOP_BIT else .SAVE_DATA
  | .PARITY => if s.bit_done then .STOP_BIT else .PARITY
  | .STOP_BIT => if s.bit_done then .IDLE else .STOP_BIT

def sampleData : Bool :=
  match s.CS with
  | .DATA => s.bit_done
  | _ => false

def reg_bit_count_next : BitVec 3 :=
  match s.CS with
  | .DATA =>
    if s.bit_done then
      if s.reg_bit_count==s_target_bits cfg then 0#3 else s.reg_bit_count+1#3
    else s.reg_bit_count
  | _ => s.reg_bit_count

/-- The data with the bit from the line at the top of as many bits as there are. -/
def reg_data_next : BitVec 8 :=
  let b := BitVec.ofBool (s.reg_rx_sync.getLsbD 2)
  match s.CS with
  | .DATA =>
    if cfg.cfg_bits_i=0 then (b++s.reg_data.extractLsb' 1 4).setWidth 8
    else if cfg.cfg_bits_i=1 then (b++s.reg_data.extractLsb' 1 5).setWidth 8
    else if cfg.cfg_bits_i=2 then (b++s.reg_data.extractLsb' 1 6).setWidth 8
    else (b++s.reg_data.extractLsb' 1 7).setWidth 8
  | _ => s.reg_data

def parity_bit_next : Bool :=
  match s.CS with
  | .START_BIT => false
  | .DATA => s.parity_bit ^^ s.reg_rx_sync.getLsbD 2
  | _ => s.parity_bit

def set_error : Bool :=
  decide (s.CS=.PARITY) && s.bit_done && s.parity_bit != s.reg_rx_sync.getLsbD 2

/-- Limit of the divider, the half of it in a start bit. -/
def limit : BitVec 16 := if start_bit s then cfg.cfg_div_i >>> 1 else cfg.cfg_div_i

/-- One clock edge. -/
def step : State where
  CS := if i.cfg_en_i then NS cfg s i else .IDLE
  reg_data := if sampleData s then reg_data_next cfg s else s.reg_data
  reg_bit_count := reg_bit_count_next cfg s
  parity_bit := if s.bit_done then parity_bit_next s else s.parity_bit
  reg_rx_sync := if i.cfg_en_i then (s.reg_rx_sync.setWidth 2).concat i.rx_i else 0b111#3
  baud_cnt :=
    if baudgen_en s then if s.baud_cnt=limit cfg s then 0#16 else s.baud_cnt+1#16 else 0#16
  bit_done := if baudgen_en s then decide (s.baud_cnt=limit cfg s) else false
  err_o := if i.err_clr_i then false else if set_error s then true else s.err_o

end Code

/-- Half of the divider. -/
def half (cfg : Cfg) : ℕ := cfg.cfg_div_i.toNat/2

/-- State of the machine when `m` bits after the start bit were sampled. -/
def stage (cfg : Cfg) (m : ℕ) (taken : Bool) : Fsm :=
  if m < cfg.N then .DATA
  else if taken=false then .SAVE_DATA
  else if m+1 < cfg.stop then .PARITY
  else if m < cfg.stop then .STOP_BIT
  else .IDLE

/-- The receiver when it has sampled `m` bits of the frame of a byte after the start bit, before
or after the byte was taken. -/
structure Gets (cfg : Cfg) (d : BitVec 8) (m : ℕ) (taken : Bool) (s : State) : Prop where
  stage : s.CS=stage cfg m taken
  count : s.reg_bit_count.toNat=if m < cfg.N then m else 0
  data : 0 < m → m ≤ cfg.N → ∀ j, j < 8 → cfg.N-m ≤ j →
    s.reg_data.getLsbD j=(decide (j < cfg.N) && d.getLsbD (j-(cfg.N-m)))
  parity : s.parity_bit=parityOf d (min m cfg.N)
  before : taken=false → m ≤ cfg.N
  after : taken=true → cfg.N ≤ m

section Frame

variable {cfg : Cfg} {d : BitVec 8} {m : ℕ} {taken : Bool} {s : State} {i : Input}

theorem step_CS (hen : i.cfg_en_i=true) : (step cfg s i).CS=NS cfg s i := if_pos hen

theorem getLsbD_shifted (b : Bool) (r : BitVec 8) (n : ℕ) {j : ℕ} (hj : j < 8) :
    ((BitVec.ofBool b++r.extractLsb' 1 n).setWidth 8).getLsbD j=
      if j < n then r.getLsbD (j+1) else decide (j=n) && b := by
  rw [BitVec.getLsbD_setWidth,decide_eq_true hj,Bool.true_and,BitVec.getLsbD_append]
  split_ifs with hn
  · rw [BitVec.getLsbD_extractLsb',decide_eq_true hn,Bool.true_and,Nat.add_comm]
  · rw [BitVec.getLsbD_ofBool]
    congr 1
    exact decide_eq_decide.mpr (by omega)

/-- The data are shifted in at the top of their bits. -/
theorem getLsbD_reg_data_next (hcs : s.CS=.DATA) {j : ℕ} (hj : j < 8) :
    (reg_data_next cfg s).getLsbD j=if j+1 < cfg.N then s.reg_data.getLsbD (j+1)
      else decide (j+1=cfg.N) && s.reg_rx_sync.getLsbD 2 := by
  have hN : (j+1 < cfg.N ↔ j < (s_target_bits cfg).toNat) ∧
      (j+1=cfg.N ↔ j=(s_target_bits cfg).toNat) := by
    rw [Cfg.N]
    omega
  simp only [hN]
  unfold reg_data_next s_target_bits
  rw [hcs]
  simp only
  by_cases h0 : cfg.cfg_bits_i=0
  · simp only [if_pos h0]
    exact getLsbD_shifted _ _ 4 hj
  · by_cases h1 : cfg.cfg_bits_i=1
    · simp only [if_neg h0,if_pos h1]
      exact getLsbD_shifted _ _ 5 hj
    · by_cases h2 : cfg.cfg_bits_i=2
      · simp only [if_neg h0,if_neg h1,if_pos h2]
        exact getLsbD_shifted _ _ 6 hj
      · simp only [if_neg h0,if_neg h1,if_neg h2]
        exact getLsbD_shifted _ _ 7 hj

/-- Without the pulse the receiver stays where it is, unless the byte is taken. -/
theorem Gets.stay (h : Gets cfg d m taken s) (hen : i.cfg_en_i=true) (hm : m < cfg.stop)
    (hdone : s.bit_done=false) (htake : s.CS=.SAVE_DATA → i.rx_ready_i=false) :
    Gets cfg d m taken (step cfg s i) := by
  have hbusy : s.CS≠.IDLE := by
    rw [h.stage,UartRx.stage]
    split_ifs <;> decide
  have hNS : NS cfg s i=s.CS := by
    unfold NS
    cases hcs : s.CS <;> simp [hdone]
    · exact absurd hcs hbusy
    · intro hready
      exact absurd ((htake hcs).symm.trans hready) Bool.false_ne_true
  have hsample : sampleData s=false := by
    unfold sampleData
    cases s.CS <;> simp [hdone]
  have hcount : reg_bit_count_next cfg s=s.reg_bit_count := by
    unfold reg_bit_count_next
    cases s.CS <;> simp [hdone]
  refine ⟨?_,?_,?_,?_,h.before,h.after⟩
  · rw [step_CS hen,hNS]
    exact h.stage
  · rw [step,hcount]
    exact h.count
  · rw [step,hsample,if_neg Bool.false_ne_true]
    exact h.data
  · rw [step,hdone,if_neg Bool.false_ne_true]
    exact h.parity

/-- The offered byte is the one of the frame. -/
theorem Gets.offer (h : Gets cfg d m taken s) (hcs : s.CS=.SAVE_DATA) :
    m=cfg.N ∧ taken=false ∧ rx_data_o s=(d.setWidth cfg.N).setWidth 8 := by
  have hN := cfg.N_bounds
  have hstage := h.stage.symm.trans hcs
  unfold UartRx.stage at hstage
  by_cases hm : m < cfg.N
  · rw [if_pos hm] at hstage
    cases hstage
  · cases taken with
    | true =>
      rw [if_neg hm,if_neg (by decide)] at hstage
      split_ifs at hstage
    | false =>
      obtain rfl : m=cfg.N := Nat.le_antisymm (h.before rfl) (Nat.not_lt.mp hm)
      refine ⟨rfl,rfl,BitVec.eq_of_getLsbD_eq fun j hj => ?_⟩
      have hdata := h.data (by omega) (Nat.le_refl _) j hj (by omega)
      rw [rx_data_o,hdata,Nat.sub_self,Nat.sub_zero,BitVec.getLsbD_setWidth,
        BitVec.getLsbD_setWidth,decide_eq_true hj,Bool.true_and]

/-- The byte is taken. -/
theorem Gets.take (h : Gets cfg d m taken s) (hen : i.cfg_en_i=true) (hdone : s.bit_done=false)
    (hcs : s.CS=.SAVE_DATA) (hready : i.rx_ready_i=true) : Gets cfg d m true (step cfg s i) := by
  obtain ⟨rfl,-,-⟩ := h.offer hcs
  refine ⟨?_,?_,?_,?_,fun h => (nomatch h),fun _ => Nat.le_refl _⟩
  · rw [step_CS hen,UartRx.stage,if_neg (Nat.lt_irrefl _),if_neg (by decide)]
    simp only [NS,hcs,hready,if_true]
    cases hpar : cfg.cfg_parity_en_i with
    | false =>
      have hstop : cfg.stop=cfg.N+1 := by
        rw [Cfg.stop,hpar]
        rfl
      rw [if_neg Bool.false_ne_true,hstop,if_neg (Nat.lt_irrefl _),if_pos (Nat.lt_succ_self _)]
    | true =>
      have hstop : cfg.stop=cfg.N+1+1 := by
        rw [Cfg.stop,hpar]
        rfl
      rw [hstop,if_pos (Nat.lt_succ_self _),if_pos rfl]
  · simp only [step,reg_bit_count_next,hcs]
    exact h.count
  · simp only [step,sampleData,hcs,Bool.false_eq_true,if_false]
    exact h.data
  · simp only [step,hdone,Bool.false_eq_true,if_false]
    exact h.parity

/-- A data bit is sampled. -/
theorem Gets.next_data (h : Gets cfg d m taken s) (hen : i.cfg_en_i=true) (hm : m < cfg.N)
    (hdone : s.bit_done=true) (hline : s.reg_rx_sync.getLsbD 2=level cfg d (m+1)) :
    Gets cfg d (m+1) taken (step cfg s i) := by
  have hN := cfg.N_bounds
  have htaken : taken=false := by
    cases taken with
    | false => rfl
    | true => exact absurd (h.after rfl) (Nat.not_le.mpr hm)
  have hcs : s.CS=.DATA := by
    rw [h.stage,UartRx.stage,if_pos hm]
  have hcount := h.count
  rw [if_pos hm] at hcount
  have hbit : s.reg_rx_sync.getLsbD 2=d.getLsbD m := by
    rw [hline,level,if_neg (Nat.succ_ne_zero m),if_pos (by omega),Nat.add_sub_cancel]
  have hlast : s.reg_bit_count=s_target_bits cfg ↔ m+1=cfg.N := by
    rw [←BitVec.toNat_inj,hcount,Cfg.N]
    omega
  refine ⟨?_,?_,?_,?_,fun _ => hm,fun ht => nomatch htaken.symm.trans ht⟩
  · rw [step_CS hen,UartRx.stage,htaken]
    simp only [NS,hcs,hdone,Bool.true_and,beq_iff_eq,hlast]
    by_cases heq : m+1=cfg.N
    · rw [if_pos heq,if_neg (by omega),if_pos trivial]
    · rw [if_neg heq,if_pos (by omega)]
  · simp only [step,reg_bit_count_next,hcs,hdone,if_true,beq_iff_eq,hlast]
    by_cases heq : m+1=cfg.N
    · rw [if_pos heq,if_neg (by omega)]
      rfl
    · rw [if_neg heq,if_pos (by omega),BitVec.toNat_add,hcount]
      simp
      omega
  · intro _ _ j hj hplace
    simp only [step,sampleData,hcs,hdone,if_true]
    rw [getLsbD_reg_data_next hcs hj]
    rcases Nat.lt_trichotomy (j+1) cfg.N with hlt | heq | hgt
    · rw [if_pos hlt,h.data (by omega) (by omega) (j+1) (by omega) (by omega),
        decide_eq_true hlt,decide_eq_true (by omega : j < cfg.N)]
      congr 2
      omega
    · have hindex : j-(cfg.N-(m+1))=m := by omega
      rw [if_neg (by omega),decide_eq_true heq,decide_eq_true (by omega : j < cfg.N),hbit,hindex]
    · rw [if_neg (by omega),decide_eq_false (by omega),decide_eq_false (by omega)]
      rfl
  · simp only [step,hdone,if_true,parity_bit_next,hcs]
    rw [h.parity,hbit,Nat.min_eq_left (by omega),Nat.min_eq_left (by omega)]
    rfl

/-- After the data the stages follow one another, and the parity is the one of the data. -/
theorem Gets.next_end (h : Gets cfg d m true s) (hen : i.cfg_en_i=true) (hm : m < cfg.stop)
    (hdone : s.bit_done=true) (hline : s.reg_rx_sync.getLsbD 2=level cfg d (m+1)) :
    Gets cfg d (m+1) true (step cfg s i) ∧ set_error s=false := by
  have hN := cfg.N_bounds
  have hle : cfg.N ≤ m := h.after rfl
  have hcs := h.stage
  rw [UartRx.stage,if_neg (by omega),if_neg (by decide)] at hcs
  have hcount := h.count
  rw [if_neg (by omega)] at hcount
  have hparity := h.parity
  rw [Nat.min_eq_right hle] at hparity
  have hrest : s.CS≠.DATA ∧ s.CS≠.START_BIT := by
    rw [hcs]
    split_ifs <;> decide
  have hparity_next : parity_bit_next s=s.parity_bit := by
    unfold parity_bit_next
    split
    · rename_i hstart
      exact absurd hstart hrest.2
    · rename_i hdata
      exact absurd hdata hrest.1
    · rfl
  have hcount_next : reg_bit_count_next cfg s=s.reg_bit_count := by
    unfold reg_bit_count_next
    split
    · rename_i hdata
      exact absurd hdata hrest.1
    · rfl
  refine ⟨⟨?_,?_,fun _ hle' => by omega,?_,fun h => (nomatch h),fun _ => by omega⟩,?_⟩
  · rw [step_CS hen,UartRx.stage,if_neg (by omega),if_neg (by decide)]
    by_cases hpar : m+1 < cfg.stop
    · rw [if_pos hpar] at hcs
      have hstop : cfg.stop ≤ cfg.N+1+1 := Nat.add_le_add_left (Bool.toNat_le _) _
      simp only [NS,hcs,hdone,if_true]
      rw [if_neg (by omega),if_pos (by omega)]
    · rw [if_neg hpar,if_pos hm] at hcs
      simp only [NS,hcs,hdone,if_true]
      rw [if_neg (by omega),if_neg (by omega)]
  · show (reg_bit_count_next cfg s).toNat=_
    rw [hcount_next,if_neg (by omega)]
    exact hcount
  · show (if s.bit_done=true then parity_bit_next s else s.parity_bit)=_
    rw [hdone,if_pos rfl,hparity_next,hparity,Nat.min_eq_right (by omega)]
  · unfold set_error
    by_cases hpar : m+1 < cfg.stop
    · have hbit : s.reg_rx_sync.getLsbD 2=parityOf d cfg.N := by
        rw [hline,level,if_neg (Nat.succ_ne_zero m),if_neg (by omega),if_pos hpar]
      rw [hbit,hparity,bne_self_eq_false,Bool.and_false]
    · rw [if_neg hpar,if_pos hm] at hcs
      rw [hcs]
      rfl

/-- With the pulse the receiver samples the next bit. -/
theorem Gets.next (h : Gets cfg d m taken s) (hen : i.cfg_en_i=true) (hm : m < cfg.stop)
    (hdone : s.bit_done=true) (htaken : m=cfg.N → taken=true)
    (hline : s.reg_rx_sync.getLsbD 2=level cfg d (m+1)) :
    Gets cfg d (m+1) taken (step cfg s i) ∧ set_error s=false := by
  rcases Nat.lt_trichotomy m cfg.N with hlt | heq | hgt
  · refine ⟨h.next_data hen hlt hdone hline,?_⟩
    rw [set_error,h.stage,UartRx.stage,if_pos hlt]
    rfl
  · obtain rfl := htaken heq
    exact h.next_end hen hm hdone hline
  · cases taken with
    | true => exact h.next_end hen hm hdone hline
    | false => exact absurd (h.before rfl) (Nat.not_le.mpr hgt)

/-- Behind the first stop bit the receiver is idle, until the line falls. -/
theorem Gets.idle (h : Gets cfg d m taken s) (hm : cfg.stop ≤ m) :
    s.CS=.IDLE ∧ s.reg_bit_count=0#3 ∧ taken=true := by
  have hstop : cfg.N < cfg.stop := by
    unfold Cfg.stop
    omega
  have htaken : taken=true := by
    cases taken with
    | true => rfl
    | false => exact absurd (h.before rfl) (by omega)
  have hcount := h.count
  rw [if_neg (by omega)] at hcount
  refine ⟨?_,BitVec.eq_of_toNat_eq hcount,htaken⟩
  rw [h.stage,UartRx.stage,htaken,if_neg (by omega),if_neg (by decide),if_neg (by omega),
    if_neg (by omega)]

theorem step_idle (hcs : s.CS=.IDLE) (hfall : s_rx_fall s=false) :
    (step cfg s i).CS=.IDLE ∧ (step cfg s i).reg_bit_count=s.reg_bit_count ∧
      (step cfg s i).reg_data=s.reg_data ∧ (step cfg s i).parity_bit=s.parity_bit ∧
      (step cfg s i).baud_cnt=0#16 ∧ (step cfg s i).bit_done=false := by
  simp [step,NS,reg_bit_count_next,sampleData,parity_bit_next,baudgen_en,hcs,hfall]

theorem Gets.rest (h : Gets cfg d m taken s) (hm : cfg.stop ≤ m) (hfall : s_rx_fall s=false)
    {n : ℕ} (hn : cfg.stop ≤ n) : Gets cfg d n taken (step cfg s i) := by
  obtain ⟨hcs,hcount,rfl⟩ := h.idle hm
  obtain ⟨hcs',hcount',-,hparity',-,-⟩ := @step_idle cfg s i hcs hfall
  have hstop : cfg.N < cfg.stop := by
    unfold Cfg.stop
    omega
  have hparity := h.parity
  rw [Nat.min_eq_right (by omega)] at hparity
  refine ⟨?_,?_,fun _ hle => by omega,?_,fun h => (nomatch h),fun _ => by omega⟩
  · rw [hcs',UartRx.stage,if_neg (by omega),if_neg (by decide),if_neg (by omega),if_neg (by omega)]
  · rw [hcount',hcount,if_neg (by omega)]
    rfl
  · rw [hparity',hparity,Nat.min_eq_right (by omega)]

/-- The falling edge of a start bit starts the divider. -/
theorem step_fall (hen : i.cfg_en_i=true) (hcs : s.CS=.IDLE) (hfall : s_rx_fall s=true) :
    (step cfg s i).CS=.START_BIT ∧ (step cfg s i).reg_bit_count=s.reg_bit_count ∧
      (step cfg s i).baud_cnt=(if s.baud_cnt=cfg.cfg_div_i >>> 1 then 0#16 else s.baud_cnt+1#16) ∧
      (step cfg s i).bit_done=decide (s.baud_cnt=cfg.cfg_div_i >>> 1) := by
  simp [step,NS,reg_bit_count_next,baudgen_en,limit,start_bit,hen,hcs,hfall]

theorem step_start (hen : i.cfg_en_i=true) (hcs : s.CS=.START_BIT) :
    (step cfg s i).CS=(if s.bit_done=true then .DATA else .START_BIT) ∧
      (step cfg s i).reg_bit_count=s.reg_bit_count ∧
      (step cfg s i).baud_cnt=(if s.baud_cnt=cfg.cfg_div_i >>> 1 then 0#16 else s.baud_cnt+1#16) ∧
      (step cfg s i).bit_done=decide (s.baud_cnt=cfg.cfg_div_i >>> 1) := by
  simp [step,NS,reg_bit_count_next,baudgen_en,limit,start_bit,hen,hcs]

/-- In a frame the divider runs with its own limit. -/
theorem step_ticks (hcs : s.CS≠.IDLE) (hstart : s.CS≠.START_BIT) :
    (step cfg s i).baud_cnt=(if s.baud_cnt=cfg.cfg_div_i then 0#16 else s.baud_cnt+1#16) ∧
      (step cfg s i).bit_done=decide (s.baud_cnt=cfg.cfg_div_i) := by
  have hlimit : limit cfg s=cfg.cfg_div_i := by
    unfold limit start_bit
    cases hcs' : s.CS <;> first | rfl | exact absurd hcs' hcs | exact absurd hcs' hstart
  have hgen : baudgen_en s=true := by
    unfold baudgen_en
    cases hcs' : s.CS <;> first | rfl | exact absurd hcs' hcs
  simp only [step,hlimit,hgen,if_true,and_self]

/-- A byte is offered where it was not taken or where the last data bit ends. -/
theorem save_cases (h : (step cfg s i).CS=.SAVE_DATA) :
    s.CS=.SAVE_DATA ∧ i.rx_ready_i=false ∨ s.CS=.DATA ∧ s.bit_done=true := by
  have hNS : NS cfg s i=.SAVE_DATA := by
    have h' : (if i.cfg_en_i=true then NS cfg s i else .IDLE)=.SAVE_DATA := h
    split_ifs at h'
    exact h'
  unfold NS at hNS
  cases hcs : s.CS <;> rw [hcs] at hNS <;> simp only at hNS <;> split_ifs at hNS
  · rename_i hlast
    exact .inr ⟨rfl,(Bool.and_eq_true_iff.mp hlast).1⟩
  · rename_i hready
    exact .inl ⟨rfl,Bool.eq_false_of_not_eq_true hready⟩

/-- In the middle of the start bit the receiver turns to the data. -/
theorem Gets.start (hen : i.cfg_en_i=true) (hcs : s.CS=.START_BIT) (hcount : s.reg_bit_count=0#3)
    (hdone : s.bit_done=true) : Gets cfg d 0 false (step cfg s i) := by
  have hN := cfg.N_bounds
  refine ⟨?_,?_,fun h => absurd h (Nat.lt_irrefl 0),?_,fun _ => Nat.zero_le _,fun h => nomatch h⟩
  · rw [step_CS hen,UartRx.stage,if_pos (by omega)]
    simp only [NS,hcs,hdone,if_true]
  · simp only [step,reg_bit_count_next,hcs,hcount]
    split_ifs <;> rfl
  · simp only [step,hdone,if_true,parity_bit_next,hcs,Nat.zero_min]
    rfl

theorem set_error_of_stage (hcs : s.CS≠.PARITY) : set_error s=false := by
  rw [set_error,decide_eq_false hcs]
  rfl

end Frame

end Pulpissimo.Udma.UartRx
