import Mathlib.Data.BitVec
import Pulpissimo.AdvDbg.LintModule
import Pulpissimo.Lib.Machine

/-!
# Bursts of the debug unit

A burst command is shifted in and taken at an update. The next scan moves its
words: a read sends them behind a ready bit and sends their checksum behind
them, a write takes them behind a start bit and compares the checksum that
follows. Here these runs are followed bit by bit and word by word.
-/

namespace Pulpissimo.AdvDbg.LintBurst

open Pulpissimo.Machine Pulpissimo.Bits Pulpissimo.SerialBits Pulpissimo.AdvDbg.LintBiu
  Pulpissimo.AdvDbg.LintModule

variable {w : Width}

/-- One cycle of the JTAG clock. -/
structure Cycle (w : Width) where
  /-- Serial data. -/
  tdi_i : Bool
  /-- The TAP captures. -/
  capture_dr_i : Bool
  /-- The TAP shifts. -/
  shift_dr_i : Bool
  /-- The TAP updates. -/
  update_dr_i : Bool
  /-- The debug unit is selected. -/
  debug_select_i : Bool
  /-- The bus module is selected. -/
  module_select_i : Bool
  /-- The bus has answered the last access. -/
  biu_ready : Bool
  /-- Data of the bus unit before that. -/
  stale : BitVec 64
  /-- Data with which the bus will answer an access made now. -/
  rdata : BitVec w.bits

/-- An access and the data of its answer. -/
structure Access (w : Width) where
  /-- Its address. -/
  address : BitVec 32
  /-- Its byte enables. -/
  enables : BitVec w.bytes
  /-- Data of a write. -/
  data : BitVec w.bits
  /-- It is a write. -/
  write : Bool
  /-- Data of the answer. -/
  rdata : BitVec w.bits

/-- The module and a bus unit that has the answer to the last read. -/
structure System (w : Width) where
  /-- The module. -/
  regs : State
  /-- Data of the last read, moved to the bottom. -/
  answer : BitVec 64

/-- Data of an answer, moved to the bottom. -/
def Access.answer (a : Access w) : BitVec 64 := (swapped_data_out w a.enables a.rdata).setWidth 64

section Code

variable (s : System w) (c : Cycle w)

/-- Inputs of the module. -/
def System.input : Input :=
  ⟨c.tdi_i,c.capture_dr_i,c.shift_dr_i,c.update_dr_i,c.debug_select_i,c.module_select_i,
    c.biu_ready,if c.biu_ready then s.answer else c.stale⟩

/-- Outputs of the control machine. -/
def System.out : Control := control s.regs (s.input c)

/-- The access that the bus unit latches. -/
def System.access : Access w :=
  let enables := be_dec w (word_size_bytes s.regs.operation) s.regs.address_counter
  ⟨s.regs.address_counter,enables,swapped_data_i w enables (data_to_biu s.regs (s.input c)),
    !rd_op s.regs.operation,c.rdata⟩

/-- Accesses of a cycle: that of a strobe, if the bus unit is ready for it. -/
def System.accesses : List (Access w) :=
  if (s.out c).biu_strobe && c.biu_ready then [s.access c] else []

/-- Serial output. -/
def System.tdo : Bool := module_tdo_o s.regs (s.input c)

/-- One cycle. -/
def System.step : System w where
  regs := LintModule.step s.regs (s.input c)
  answer :=
    if (s.out c).biu_strobe && c.biu_ready && rd_op s.regs.operation then (s.access c).answer
    else s.answer

/-- The bus has answered by the time when the module makes an access or takes data. -/
def InTime : Prop :=
  ((s.out c).biu_strobe || (s.out c).out_reg_ld_en && !(s.out c).out_reg_data_sel)=true →
    c.biu_ready=true

end Code

/-- A bus that is always ready has answered in time. -/
theorem inTime_of_ready {s : System w} {cs : List (Cycle w)} (h : ∀ c ∈ cs,c.biu_ready=true) :
    Meets System.step InTime s cs := by
  induction cs generalizing s with
  | nil => exact trivial
  | cons c cs ih =>
    exact ⟨fun _ => h c List.mem_cons_self,ih fun d hd => h d (List.mem_cons_of_mem c hd)⟩

/-- Accesses of a run. -/
def log (s : System w) (cs : List (Cycle w)) : List (Access w) :=
  (driven System.step System.accesses s cs).flatten

/-- Serial output of a run. -/
def output (s : System w) (cs : List (Cycle w)) : List Bool := driven System.step System.tdo s cs

theorem log_cons (s : System w) (c : Cycle w) (cs : List (Cycle w)) :
    log s (c::cs)=s.accesses c++log (s.step c) cs := rfl

theorem log_append (s : System w) (cs ds : List (Cycle w)) :
    log s (cs++ds)=log s cs++log (after System.step s cs) ds := by
  unfold log
  rw [driven_append,List.flatten_append]

theorem output_cons (s : System w) (c : Cycle w) (cs : List (Cycle w)) :
    output s (c::cs)=s.tdo c::output (s.step c) cs := rfl

theorem output_append (s : System w) (cs ds : List (Cycle w)) :
    output s (cs++ds)=output s cs++output (after System.step s cs) ds :=
  driven_append _ _ _ _ _

/-- The access is the one that the bus unit latches for the strobe. -/
theorem access_asked (s : System w) (c : Cycle w) (t : LintBiu.State ⟨32,w⟩)
    (e : Moment ⟨32,w⟩) (ha : e.addr_i=s.regs.address_counter)
    (hz : e.word_size_i=word_size_bytes s.regs.operation)
    (hd : e.data_i=data_to_biu s.regs (s.input c)) (hr : e.rd_wrn_i=rd_op s.regs.operation) :
    (asked t e).enables=(s.access c).enables ∧ (asked t e).address=(s.access c).address ∧
      (asked t e).write=(s.access c).write ∧
      ((s.access c).write=true → (asked t e).data=(s.access c).data) := by
  unfold asked LintBiu.be System.access
  dsimp only
  rw [ha,hz,hd,hr,BitVec.setWidth_eq]
  refine ⟨rfl,rfl,rfl,fun hwrite => ?_⟩
  rw [Bool.not_eq_true'] at hwrite
  rw [hwrite]
  rfl

section Checksum

/-- The table of the checksum unit is that of the CRC-32 register. -/
theorem new_crc_eq (crc : BitVec 32) (b : Bool) :
    new_crc crc b=crcStep 0xEDB88320#32 crc b := by
  have hpoly : ∀ i<32, (0xEDB88320#32).getLsbD i=decide (i ∈ taps) := by decide
  apply BitVec.eq_of_getLsbD_eq
  intro i hi
  unfold new_crc crcStep
  rw [getLsbD_ofBits_lt _ hi]
  dsimp only
  cases hb : b != crc.getLsbD 0 with
  | true =>
    have hxor : (b ^^ crc.getLsbD 0)=true := hb
    rw [if_pos rfl,BitVec.getLsbD_xor,BitVec.getLsbD_ushiftRight,hpoly i hi,hxor,Nat.add_comm 1 i]
    by_cases htap : i ∈ taps
    · rw [if_pos htap,decide_eq_true htap]
    · rw [if_neg htap,decide_eq_false htap,Bool.xor_false]
  | false =>
    have hxor : (b ^^ crc.getLsbD 0)=false := hb
    rw [if_neg Bool.false_ne_true,BitVec.getLsbD_ushiftRight,hxor,Bool.xor_false,ite_self,
      Nat.add_comm 1 i]

end Checksum

section Counters

/-- Bits of a word of the current command. -/
def wordBits (operation : BitVec 4) : ℕ := (word_size_bits operation).toNat+1

theorem wordBits_le (operation : BitVec 4) : wordBits operation≤64 := (word_size_bits operation).isLt

/-- Bytes of a word of a burst command. -/
def wordBytes (operation : BitVec 4) : ℕ := 2^((operation.toNat-1)%4)

/-- The table of the bits is right for every burst command. -/
theorem wordBits_eq {operation : BitVec 4}
    (h : burst_read operation=true ∨ burst_write operation=true) :
    wordBits operation=8*wordBytes operation := by
  revert operation
  decide

/-- That of the bytes is right for all of them but one. -/
theorem word_size_bytes_eq {operation : BitVec 4}
    (h : burst_read operation=true ∨ burst_write operation=true)
    (hne : operation≠DBG_LINT_CMD_BREAD64) :
    word_size_bytes operation=BitVec.ofNat 4 (wordBytes operation) := by
  revert operation
  decide

variable {s : State} {k left : ℕ}

/-- The bit counter is at the last bit of a word when one bit is left. -/
theorem bit_count_max_eq (hcount : s.bit_count=BitVec.ofNat 6 k) (hk : k<wordBits s.operation) :
    bit_count_max s=decide (k+1=wordBits s.operation) := by
  have hle := wordBits_le s.operation
  have hlt : k<2^6 := by omega
  unfold bit_count_max
  rw [hcount,Bool.eq_iff_iff,beq_iff_eq,decide_eq_true_iff,←BitVec.toNat_inj,BitVec.toNat_ofNat,
    Nat.mod_eq_of_lt hlt]
  unfold wordBits
  omega

theorem word_count_zero_eq (hwords : s.word_count=BitVec.ofNat 16 left) (hleft : left<2^16) :
    word_count_zero s=decide (left=0) := by
  unfold word_count_zero
  rw [hwords,Bool.eq_iff_iff,beq_iff_eq,decide_eq_true_iff,←BitVec.toNat_inj,BitVec.toNat_ofNat,
    Nat.mod_eq_of_lt hleft]
  rfl

theorem decremented_eq (hwords : s.word_count=BitVec.ofNat 16 (left+1)) :
    decremented_word_count s=BitVec.ofNat 16 left := by
  unfold decremented_word_count
  rw [hwords,BitVec.ofNat_add]
  exact BitVec.add_sub_cancel _ _

/-- Another read is made when there are at least two words to come. -/
theorem read_more_eq (hwords : s.word_count=BitVec.ofNat 16 (left+1)) (hleft : left+1<2^16) :
    read_more s=decide (left≠0) := by
  have hlt : left<2^16 := by omega
  have hzero : (BitVec.ofNat 16 left==0#16)=decide (left=0) := by
    rw [Bool.eq_iff_iff,beq_iff_eq,decide_eq_true_iff,←BitVec.toNat_inj,BitVec.toNat_ofNat,
      Nat.mod_eq_of_lt hlt]
    rfl
  unfold read_more
  rw [decremented_eq hwords,word_count_zero_eq hwords hleft,hzero,
    decide_eq_false (Nat.succ_ne_zero left),Bool.not_false,Bool.and_true,decide_not]

theorem read_more_zero (hwords : s.word_count=BitVec.ofNat 16 0) : read_more s=false := by
  unfold read_more
  rw [word_count_zero_eq hwords (by decide),decide_eq_true rfl,Bool.not_true,Bool.and_false]

end Counters

section Cycle

variable (s : System w) (c : Cycle w)

/-- Input shift register after a cycle. -/
def System.shifted : BitVec 64 :=
  if c.debug_select_i && c.shift_dr_i then shiftIn s.regs.data_register_i c.tdi_i
  else s.regs.data_register_i

/-- The registers after a cycle with given outputs of the control machine. -/
theorem step_regs {o : Control} (h : s.out c=o) : (s.step c).regs=
    { data_register_i := s.shifted c
      address_counter :=
        if o.addr_ct_en then
          if o.addr_sel then incremented_address s.regs else address_data_in s.regs
        else s.regs.address_counter
      bit_count :=
        if o.bit_ct_rst then 0#6
        else if o.bit_ct_en then s.regs.bit_count+1#6
        else s.regs.bit_count
      word_count :=
        if o.word_ct_en then
          if o.word_ct_sel then decremented_word_count s.regs else count_data_in s.regs
        else s.regs.word_count
      operation := if o.op_reg_en then operation_in s.regs else s.regs.operation
      data_out_shift_reg :=
        if o.out_reg_ld_en then
          if o.out_reg_data_sel then s.regs.internal_reg_error.setWidth 65
          else (if c.biu_ready then s.answer else c.stale).setWidth 65
        else if o.out_reg_shift_en then s.regs.data_out_shift_reg >>> 1
        else s.regs.data_out_shift_reg
      internal_register_select :=
        if o.regsel_ld_en then reg_select_data s.regs else s.regs.internal_register_select
      internal_reg_error := next_reg_error s.regs (s.input c)
      crc :=
        if o.crc_clr then BitVec.allOnes 32
        else if o.crc_en then
          new_crc s.regs.crc (if o.crc_in_sel then c.tdi_i else s.regs.data_out_shift_reg.getLsbD 0)
        else if o.crc_shift_en then s.regs.crc >>> 1
        else s.regs.crc
      module_state := module_next_state s.regs (s.input c) } := by
  subst h
  rfl

/-- The serial output in a cycle with given outputs of the control machine. -/
theorem tdo_of_out {o : Control} (h : s.out c=o) : s.tdo c=
    if o.tdo_output_sel=0#2 then c.biu_ready
    else if o.tdo_output_sel=1#2 then s.regs.data_out_shift_reg.getLsbD 0
    else if o.tdo_output_sel=2#2 then crc_match s.regs
    else s.regs.crc.getLsbD 0 := by
  subst h
  rfl

variable {s c}

/-- Without a strobe there is no access, and the answer stays. -/
theorem accesses_none (h : (s.out c).biu_strobe=false) :
    s.accesses c=[] ∧ (s.step c).answer=s.answer := by
  unfold System.accesses System.step
  rw [h]
  exact ⟨rfl,rfl⟩

/-- A strobe in time is an access, and that of a read brings its answer. -/
theorem accesses_some (h : (s.out c).biu_strobe=true) (ht : InTime s c) : s.accesses c=[s.access c] ∧
    (rd_op s.regs.operation=true → (s.step c).answer=(s.access c).answer) := by
  have hready : c.biu_ready=true := ht (by rw [h,Bool.true_or])
  unfold System.accesses System.step
  rw [h,hready]
  refine ⟨rfl,fun hrd => ?_⟩
  rw [hrd]
  rfl

/-- A strobe for one of `n` more words. -/
theorem accesses_more {n : ℕ} (h : (s.out c).biu_strobe=decide (n≠0)) (ht : InTime s c)
    (hrd : rd_op s.regs.operation=true) : s.accesses c=(if n=0 then [] else [s.access c]) ∧
    (n≠0 → (s.step c).answer=(s.access c).answer) := by
  by_cases hn : n=0
  · rw [if_pos hn]
    exact ⟨(accesses_none (h.trans (decide_eq_false fun hne => hne hn))).1,fun hne => absurd hn hne⟩
  · rw [if_neg hn]
    rcases accesses_some (h.trans (decide_eq_true hn)) ht with ⟨haccess,hanswer⟩
    exact ⟨haccess,fun _ => hanswer hrd⟩

/-- The address after it. -/
theorem address_more {t : State} {operation : BitVec 4} {address : BitVec 32} (n : ℕ)
    (ho : t.operation=operation) (ha : t.address_counter=address) :
    (if decide (n≠0) then incremented_address t else t.address_counter)=
      if n=0 then address else address+(word_size_bytes operation).setWidth 32 := by
  unfold incremented_address
  rw [ho,ha]
  by_cases hn : n=0
  · rw [if_pos hn,if_neg (by simp [hn])]
  · rw [if_neg hn,if_pos (by simp [hn])]

end Cycle

section Burst

variable {operation : BitVec 4}

/-- The checksum after some bits. -/
def crcLine (crc : BitVec 32) (bs : List Bool) : BitVec 32 := bs.foldl (crcStep 0xEDB88320#32) crc

theorem crcLine_append (crc : BitVec 32) (bs ds : List Bool) :
    crcLine crc (bs++ds)=crcLine (crcLine crc bs) ds := List.foldl_append

/-- Addresses of the accesses that the module makes. -/
def addresses (operation : BitVec 4) (address : BitVec 32) (n : ℕ) : List (BitVec 32) :=
  (List.range n).map fun j => address+BitVec.ofNat 32 (j*(word_size_bytes operation).toNat)

theorem addresses_succ (operation : BitVec 4) (address : BitVec 32) (n : ℕ) :
    addresses operation address (n+1)=
      address::addresses operation (address+(word_size_bytes operation).setWidth 32) n := by
  have hsize : (word_size_bytes operation).setWidth 32=
      BitVec.ofNat 32 (word_size_bytes operation).toNat := (BitVec.ofNat_toNat 32 _).symm
  unfold addresses
  rw [List.range_succ_eq_map,List.map_cons,List.map_map,Nat.zero_mul]
  refine congrArg₂ List.cons (BitVec.add_zero _) (List.map_congr_left fun j _ => ?_)
  rw [hsize,BitVec.add_assoc,←BitVec.ofNat_add]
  exact congrArg (fun n => address+BitVec.ofNat 32 n) (by rw [Nat.succ_mul,Nat.add_comm])

/-- Accesses have the byte enables and the direction of the command. -/
def Coded (operation : BitVec 4) (a : Access w) : Prop :=
  a.enables=be_dec w (word_size_bytes operation) a.address ∧ a.write= !rd_op operation

theorem coded_access {s : System w} (c : Cycle w) (h : s.regs.operation=operation) :
    Coded operation (s.access c) := by
  subst h
  exact ⟨rfl,rfl⟩

end Burst

section Start

/-- A cycle that takes a command. -/
def Updates (c : Cycle w) : Prop :=
  c.update_dr_i=true ∧ c.module_select_i=true ∧ c.shift_dr_i=false

/-- A cycle between two scans. -/
def Pauses (c : Cycle w) : Prop :=
  c.capture_dr_i=false ∧ c.shift_dr_i=false ∧ c.update_dr_i=false

/-- The first cycle of a scan. -/
def Captures (c : Cycle w) : Prop :=
  c.capture_dr_i=true ∧ c.shift_dr_i=false ∧ c.update_dr_i=false ∧ c.module_select_i=true

/-- A cycle of a scan that shifts. -/
def Shifts (c : Cycle w) : Prop :=
  c.shift_dr_i=true ∧ c.update_dr_i=false ∧ c.debug_select_i=true ∧ c.module_select_i=true

/-- A command has been taken and no word has been moved. -/
structure Begun (state : LintModule.Fsm) (operation : BitVec 4) (address : BitVec 32) (n : ℕ) (s : State) :
    Prop where
  state : s.module_state=state
  operation : s.operation=operation
  address : s.address_counter=address
  words : s.word_count=BitVec.ofNat 16 n
  count : s.bit_count=0#6
  crc : s.crc=BitVec.allOnes 32

/-- A burst command waits in the input register. -/
structure Commands (s : State) : Prop where
  idle : s.module_state=.STATE_idle
  ours : s.data_register_i.getLsbD 63=false
  words : count_data_in s≠0#16

variable {s : System w} {c : Cycle w}

/-- The update takes the command. -/
theorem Commands.update (h : Commands s.regs) {state : LintModule.Fsm}
    (hstate : module_next_state s.regs (s.input c)=state) (hburst : state≠.STATE_idle) :
    Begun state (operation_in s.regs) (address_data_in s.regs) (count_data_in s.regs).toNat
      (s.step c).regs ∧ s.accesses c=[] ∧ (s.step c).regs.data_register_i=s.shifted c := by
  have hstart : (module_next_state s.regs (s.input c) != .STATE_idle)=true := by
    rw [hstate]
    exact bne_iff_ne.mpr hburst
  have hout : s.out c=
      { addr_sel := false
        word_ct_sel := false
        out_reg_shift_en := c.module_select_i && c.shift_dr_i
        out_reg_ld_en := c.module_select_i && c.capture_dr_i
        regsel_ld_en := c.module_select_i && module_cmd s.regs && c.update_dr_i &&
          intreg_instruction s.regs
        intreg_ld_en := c.module_select_i && module_cmd s.regs && c.update_dr_i &&
          intreg_write s.regs
        addr_ct_en := true
        op_reg_en := true
        bit_ct_rst := true
        word_ct_en := true
        crc_clr := true } := by
    unfold System.out LintModule.control
    rw [h.idle]
    dsimp only
    rw [hstart]
    rfl
  refine ⟨?_,(accesses_none (by rw [hout])).1,by rw [step_regs s c hout]⟩
  rw [step_regs s c hout]
  have hwords : count_data_in s.regs=BitVec.ofNat 16 (count_data_in s.regs).toNat := by
    rw [BitVec.ofNat_toNat,BitVec.setWidth_eq]
  exact ⟨hstate,rfl,rfl,hwords,rfl,rfl⟩

end Start

end Pulpissimo.AdvDbg.LintBurst
