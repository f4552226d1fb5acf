import Mathlib.Data.Nat.Log
import Pulpissimo.Lib.Lanes

/-!
# Register file of an accelerator

`hwpe_ctrl_regfile` keeps the job registers of each context and the generic registers in one
array of latches, `hwpe_ctrl_regfile_latch`, and the mandatory registers in flip-flops. Where a
register is in the array is computed for writes and reads from the address, and once more for the
words that are shown to the accelerator.
-/

namespace Pulpissimo.Hwpe.CtrlRegfile

open Pulpissimo.Lanes

section Package

abbrev REGFILE_N_CONTEXT : ℕ := 2
abbrev REGFILE_N_EVT : ℕ := 2
abbrev REGFILE_N_REGISTERS : ℕ := 64
abbrev REGFILE_N_MANDATORY_REGS : ℕ := 7
abbrev REGFILE_N_MAX_IO_REGS : ℕ := 48
abbrev REGFILE_N_MAX_GENERIC_REGS : ℕ := 8
abbrev REGFILE_N_RESERVED_REGS : ℕ :=
  REGFILE_N_REGISTERS-REGFILE_N_MANDATORY_REGS-REGFILE_N_MAX_GENERIC_REGS-REGFILE_N_MAX_IO_REGS

/-- `$clog2` of the number of registers. -/
abbrev LOG_REGS : ℕ := 6

/-- The first generic register, and the first job register. -/
abbrev genericBase : ℕ := REGFILE_N_MANDATORY_REGS+REGFILE_N_RESERVED_REGS
abbrev jobBase : ℕ := genericBase+REGFILE_N_MAX_GENERIC_REGS

/-- Parameters of an instance. With one context the part selects of the context run backwards, so
the generate branches below are those for several. -/
structure Params where
  N_CORES : ℕ
  N_CONTEXT : ℕ
  N_IO_REGS : ℕ
  N_GENERIC_REGS : ℕ
  ID_WIDTH : ℕ

variable (p : Params)

abbrev Params.LOG_CONTEXT : ℕ := Nat.clog 2 p.N_CONTEXT

abbrev Params.SCM_ADDR_WIDTH : ℕ :=
  Nat.clog 2 (p.N_CONTEXT*p.N_IO_REGS+p.N_GENERIC_REGS+REGFILE_N_MANDATORY_REGS-2)

/-- The limits of the package. -/
structure Params.Within : Prop where
  several : 1 < p.N_CONTEXT
  context : p.N_CONTEXT ≤ REGFILE_N_CONTEXT
  io : p.N_IO_REGS ≤ REGFILE_N_MAX_IO_REGS
  generic : p.N_GENERIC_REGS ≤ REGFILE_N_MAX_GENERIC_REGS

theorem Params.Within.N_CONTEXT {p : Params} (hp : p.Within) : p.N_CONTEXT=2 :=
  Nat.le_antisymm hp.context hp.several

theorem Params.Within.pow_LOG_CONTEXT {p : Params} (hp : p.Within) : 2^p.LOG_CONTEXT=2 := by
  rw [show p.LOG_CONTEXT=1 from Nat.clog_eq_one hp.several hp.context,Nat.pow_one]

end Package

section Latch

variable {ADDR_WIDTH : ℕ}

/-- The enabled bytes of a word are replaced. -/
def merge (be : BitVec 4) (old new : BitVec 32) : BitVec 32 :=
  pack fun b : Fin 4 => if be.getLsbD b then lane 8 b new else lane 8 b old

theorem lane_merge (be : BitVec 4) (old new : BitVec 32) (b : Fin 4) :
    lane 8 b (merge be old new)=if be.getLsbD b then lane 8 b new else lane 8 b old :=
  lane_pack _ b

/-- The array of latches and its address register. Latches and register have no reset. -/
structure Latch (ADDR_WIDTH : ℕ) where
  MemContent : BitVec ADDR_WIDTH → BitVec 32
  RAddrRegxDP : BitVec ADDR_WIDTH

/-- Inputs of the array. -/
structure LatchIn (ADDR_WIDTH : ℕ) where
  clear : Bool
  ReadEnable : Bool
  ReadAddr : BitVec ADDR_WIDTH
  WriteEnable : Bool
  WriteAddr : BitVec ADDR_WIDTH
  WriteData : BitVec 32
  WriteBE : BitVec 4

namespace Latch

variable (l : Latch ADDR_WIDTH) (x : LatchIn ADDR_WIDTH)

def ReadData : BitVec 32 := l.MemContent l.RAddrRegxDP

/-- One clock edge. The latches are open behind it, for the data that was sampled at it. -/
def step : Latch ADDR_WIDTH where
  MemContent := fun a =>
    if x.clear then 0
    else if x.WriteEnable && x.WriteAddr==a then merge x.WriteBE (l.MemContent a) x.WriteData
    else l.MemContent a
  RAddrRegxDP := if x.ReadEnable then x.ReadAddr else l.RAddrRegxDP

end Latch

end Latch

/-- `regfile_in_t`. -/
structure RegfileIn where
  addr : BitVec 32
  rden : Bool
  wren : Bool
  wdata : BitVec 32
  src : BitVec 32
  be : BitVec 4

/-- `flags_regfile_t`. The contexts are as wide as the package says. -/
structure Flags where
  true_done : Bool
  full_context : Bool
  is_mandatory : Bool
  is_read : Bool
  is_contexted : Bool
  is_critical : Bool
  is_testset : Bool
  is_trigger : Bool
  pointer_context : BitVec (Nat.clog 2 REGFILE_N_CONTEXT)
  running_context : BitVec (Nat.clog 2 REGFILE_N_CONTEXT)

section Address

variable (p : Params) (is_contexted : Bool) (addr : BitVec 32)

/-- The register of an address, and its context. -/
def register : BitVec 32 := (addr.extractLsb' 0 LOG_REGS).setWidth 32
def context : BitVec 32 := (addr.extractLsb' LOG_REGS p.LOG_CONTEXT).setWidth 32

/-- The latch of an address, in 32 bits and cut to the width of the array. -/
def regfile_latch_addr : BitVec p.SCM_ADDR_WIDTH :=
  if is_contexted then
    (register addr+context p addr*BitVec.ofNat 32 p.N_IO_REGS-
      BitVec.ofNat 32 REGFILE_N_RESERVED_REGS-BitVec.ofNat 32 REGFILE_N_MAX_GENERIC_REGS+
      BitVec.ofNat 32 p.N_GENERIC_REGS-BitVec.ofNat 32 REGFILE_N_MANDATORY_REGS).setWidth _
  else
    (register addr-BitVec.ofNat 32 REGFILE_N_RESERVED_REGS-
      BitVec.ofNat 32 REGFILE_N_MANDATORY_REGS).setWidth _

def regfile_latch_rd_addr : BitVec p.SCM_ADDR_WIDTH := regfile_latch_addr p is_contexted addr
def regfile_latch_wr_addr : BitVec p.SCM_ADDR_WIDTH := regfile_latch_addr p is_contexted addr

end Address

/-- Registers. -/
structure Regs (p : Params) where
  latch : Latch p.SCM_ADDR_WIDTH
  r_first_startup : BitVec 3
  r_clear_first_startup : Bool
  regfile_mem_mandatory_dout : BitVec 32
  offload_job_id : BitVec 8
  offload_job_id_incr : Bool
  running_job_id : BitVec 8
  running_job_id_incr : Bool
  regfile_out_rdata_int : BitVec 32
  r_was_testset : Bool
  r_was_mandatory : Bool
  /-- Mandatory registers 3 and 6, a byte for each context. -/
  status : Fin p.N_CONTEXT → BitVec 8
  offloader : Fin p.N_CONTEXT → BitVec 8
  /-- Mandatory registers 4 and 5. -/
  running_job : BitVec 32
  last_context : BitVec 32
  r_finished_cnt : BitVec 2

/-- Values after reset, with what the latches hold by then. -/
def Regs.reset {p : Params} (latch : Latch p.SCM_ADDR_WIDTH) : Regs p :=
  ⟨latch,0,false,0,0,false,0,false,0,false,false,fun _ => 0,fun _ => 0,0,0,0⟩

section Code

variable {p : Params} (s : Regs p) (clear_i : Bool) (i : RegfileIn) (flags : Flags)

def clear_first_startup : Bool :=
  (s.r_first_startup.getLsbD 0 || s.r_first_startup.getLsbD 1) && !s.r_first_startup.getLsbD 2

/-- A byte for each context; the other bytes of the word are zero. -/
def bytes (f : Fin p.N_CONTEXT → BitVec 8) : BitVec 32 :=
  pack fun k : Fin 4 => if h : k.val < p.N_CONTEXT then f ⟨k,h⟩ else 0

/-- The mandatory registers. Where there is none zero is read. -/
def regfile_mem_mandatory (k : ℕ) : BitVec 32 :=
  if k=2 then s.r_finished_cnt.setWidth 32
  else if k=3 then bytes s.status
  else if k=4 then s.running_job
  else if k=5 then s.last_context
  else if k=6 then bytes s.offloader
  else 0

/-- The number of the core that accesses, as the encoder makes it. -/
def data_src_encoded (p : Params) (src : BitVec 32) : BitVec (Nat.clog 2 p.ID_WIDTH) :=
  (List.range p.ID_WIDTH).foldl
    (fun code k => if src.setWidth p.ID_WIDTH==BitVec.ofNat p.ID_WIDTH k then 1<<<k else code) 0

/-- Inputs of the array. -/
def Regs.latchIn : LatchIn p.SCM_ADDR_WIDTH :=
  ⟨clear_i || s.r_clear_first_startup,flags.is_read,
    regfile_latch_rd_addr p flags.is_contexted i.addr,!flags.is_mandatory && i.wren,
    regfile_latch_wr_addr p flags.is_contexted i.addr,i.wdata,i.be⟩

/-- The byte of a context in register 3. -/
def statusNext (k : Fin p.N_CONTEXT) : BitVec 8 :=
  if flags.pointer_context.toNat=k then
    if flags.is_trigger then 1
    else if flags.true_done && flags.running_context==flags.pointer_context then 0
    else s.status k
  else if flags.running_context.toNat=k then if flags.true_done then 0 else s.status k
  else s.status k

/-- The byte of a context in register 6. -/
def offloaderNext (k : Fin p.N_CONTEXT) : BitVec 8 :=
  if flags.pointer_context.toNat=k ∧ flags.is_trigger=true then
    (data_src_encoded p i.src).setWidth 8+1
  else s.offloader k

/-- One clock edge. -/
def Regs.step : Regs p where
  latch := s.latch.step (s.latchIn clear_i i flags)
  r_first_startup := s.r_first_startup.extractLsb' 0 2++1#1
  r_clear_first_startup := clear_first_startup s
  regfile_mem_mandatory_dout :=
    if clear_i then 0 else regfile_mem_mandatory s (register i.addr).toNat
  offload_job_id :=
    if clear_i then 0 else if s.offload_job_id_incr then s.offload_job_id+1 else s.offload_job_id
  offload_job_id_incr := flags.is_testset && !flags.is_critical && !flags.full_context
  running_job_id :=
    if clear_i then 0 else if s.running_job_id_incr then s.running_job_id+1 else s.running_job_id
  running_job_id_incr := if clear_i then false else flags.true_done
  regfile_out_rdata_int :=
    if flags.is_testset then
      if flags.is_critical then -2
      else if flags.full_context then -1
      else s.offload_job_id.setWidth 32
    else s.regfile_out_rdata_int
  r_was_testset := if clear_i then false else flags.is_testset
  r_was_mandatory := if clear_i then false else flags.is_mandatory
  status := fun k => if clear_i then 0 else statusNext s flags k
  offloader := fun k => if clear_i then 0 else offloaderNext s i flags k
  running_job := if clear_i then 0 else s.running_job_id.setWidth 32
  last_context :=
    if clear_i then 0 else if i.wren || i.rden then context p i.addr else s.last_context
  r_finished_cnt :=
    if clear_i then 0
    else if flags.is_mandatory=true ∧ (register i.addr).toNat=2 then 0
    else if flags.true_done=true ∧ s.r_finished_cnt.toNat < 2 then s.r_finished_cnt+1
    else s.r_finished_cnt

def rdata : BitVec 32 :=
  if s.r_was_testset then s.regfile_out_rdata_int
  else if !s.r_was_mandatory then s.latch.ReadData
  else s.regfile_mem_mandatory_dout

/-- The latch that is shown as job register `j` of context `i`, and as generic register `j`. -/
def jobCell (p : Params) (i j : ℕ) : BitVec p.SCM_ADDR_WIDTH :=
  BitVec.ofNat _ (i*p.N_IO_REGS+j-REGFILE_N_RESERVED_REGS-REGFILE_N_MAX_GENERIC_REGS+
    p.N_GENERIC_REGS-REGFILE_N_MANDATORY_REGS)
def genericCell (p : Params) (j : ℕ) : BitVec p.SCM_ADDR_WIDTH :=
  BitVec.ofNat _ (j-REGFILE_N_RESERVED_REGS-REGFILE_N_MANDATORY_REGS)

def regfile_mem (i j : ℕ) : BitVec 32 := s.latch.MemContent (jobCell p i j)
def regfile_mem_generic (j : ℕ) : BitVec 32 := s.latch.MemContent (genericCell p j)

/-- `reg_file`: the words that are shown to the accelerator, from number zero on. -/
def hwpe_params (running_context : BitVec (Nat.clog 2 REGFILE_N_CONTEXT)) (k : ℕ) : BitVec 32 :=
  if k < p.N_IO_REGS then regfile_mem s running_context.toNat (jobBase+k) else 0
def generic_params (k : ℕ) : BitVec 32 :=
  if k < p.N_GENERIC_REGS then regfile_mem_generic s (genericBase+k) else 0

end Code

/-- The registers that are stored: the generic ones, and the job registers of each context. -/
inductive Place (p : Params)
  | generic (k : Fin p.N_GENERIC_REGS)
  | job (c : Fin p.N_CONTEXT) (k : Fin p.N_IO_REGS)
deriving DecidableEq

/-- What register `j` of context `c` is, if there is one. -/
def named (p : Params) (c j : ℕ) : Option (Place p) :=
  if h : jobBase ≤ j ∧ j-jobBase < p.N_IO_REGS ∧ c < p.N_CONTEXT then
    some (.job ⟨c,h.2.2⟩ ⟨j-jobBase,h.2.1⟩)
  else if h : genericBase ≤ j ∧ j-genericBase < p.N_GENERIC_REGS then
    some (.generic ⟨j-genericBase,h.2⟩)
  else none

namespace Place

variable {p : Params}

/-- The latch that is shown as the register. -/
def cell : Place p → BitVec p.SCM_ADDR_WIDTH
  | generic k => genericCell p (genericBase+k)
  | job c k => jobCell p c (jobBase+k)

/-- The generic registers come first, and the contexts one after the other. -/
def number : Place p → ℕ
  | generic k => k
  | job c k => p.N_GENERIC_REGS+(c*p.N_IO_REGS+k)

theorem number_lt (q : Place p) : q.number < p.N_CONTEXT*p.N_IO_REGS+p.N_GENERIC_REGS := by
  cases q with
  | generic k => exact lt_of_lt_of_le k.isLt (Nat.le_add_left _ _)
  | job c k =>
    have hk := k.isLt
    have hblock : (c.val+1)*p.N_IO_REGS ≤ p.N_CONTEXT*p.N_IO_REGS :=
      Nat.mul_le_mul_right _ c.isLt
    rw [Nat.succ_mul] at hblock
    show p.N_GENERIC_REGS+(c*p.N_IO_REGS+k) < _
    omega

theorem number_lt_size (q : Place p) : q.number < 2^p.SCM_ADDR_WIDTH := by
  have hsize : p.N_CONTEXT*p.N_IO_REGS+p.N_GENERIC_REGS+7-2 ≤ 2^p.SCM_ADDR_WIDTH :=
    Nat.le_pow_clog Nat.one_lt_two _
  have hlt := q.number_lt
  omega

theorem number_injective : Function.Injective (number (p := p)) := by
  intro q q' h
  cases q with
  | generic k =>
    cases q' with
    | generic k' => exact congrArg generic (Fin.ext h)
    | job c' k' =>
      have hk := k.isLt
      change k.val=p.N_GENERIC_REGS+_ at h
      omega
  | job c k =>
    cases q' with
    | generic k' =>
      have hk := k'.isLt
      change p.N_GENERIC_REGS+_=k'.val at h
      omega
    | job c' k' =>
      have heq : k.val+p.N_IO_REGS*c.val=k'.val+p.N_IO_REGS*c'.val := by
        rw [Nat.mul_comm,Nat.mul_comm p.N_IO_REGS,Nat.add_comm,Nat.add_comm k'.val]
        exact Nat.add_left_cancel h
      have hmod := congrArg (·%p.N_IO_REGS) heq
      have hdiv := congrArg (·/p.N_IO_REGS) heq
      have hpos : 0 < p.N_IO_REGS := k.pos
      simp only [Nat.add_mul_mod_self_left,Nat.mod_eq_of_lt k.isLt,Nat.mod_eq_of_lt k'.isLt]
        at hmod
      simp only [Nat.add_mul_div_left _ _ hpos,Nat.div_eq_of_lt k.isLt,Nat.div_eq_of_lt k'.isLt,
        Nat.zero_add] at hdiv
      rw [Fin.ext hmod,Fin.ext hdiv]

theorem toNat_cell (q : Place p) : q.cell.toNat=q.number := by
  cases q with
  | generic k =>
    have hindex : genericBase+k.val-REGFILE_N_RESERVED_REGS-REGFILE_N_MANDATORY_REGS=k.val := by
      show 8+k.val-1-7=k.val
      omega
    show (BitVec.ofNat _ (genericBase+k.val-_-_)).toNat=k.val
    rw [hindex,BitVec.toNat_ofNat]
    exact Nat.mod_eq_of_lt (number_lt_size (generic k))
  | job c k =>
    have hindex : c.val*p.N_IO_REGS+(jobBase+k.val)-REGFILE_N_RESERVED_REGS-
        REGFILE_N_MAX_GENERIC_REGS+p.N_GENERIC_REGS-REGFILE_N_MANDATORY_REGS=
        p.N_GENERIC_REGS+(c.val*p.N_IO_REGS+k.val) := by
      show c.val*p.N_IO_REGS+(16+k.val)-1-8+p.N_GENERIC_REGS-7=_
      omega
    show (BitVec.ofNat _ (c.val*p.N_IO_REGS+(jobBase+k.val)-_-_+_-_)).toNat=_
    rw [hindex,BitVec.toNat_ofNat]
    exact Nat.mod_eq_of_lt (number_lt_size (job c k))

/-- Different registers are in different latches. -/
theorem cell_injective : Function.Injective (cell (p := p)) := by
  intro q q' h
  apply number_injective
  rw [←toNat_cell,←toNat_cell,h]

end Place

section Named

variable {p : Params} {addr : BitVec 32} {q : Place p}

/-- The registers that are named are neither mandatory nor reserved. -/
theorem genericBase_le_of_named {c j : ℕ} (h : named p c j=some q) : genericBase ≤ j := by
  unfold named at h
  split_ifs at h with hjob hgeneric
  · have hbase : 16 ≤ j := hjob.1
    exact le_trans (by decide) hbase
  · exact hgeneric.1

/-- A job register is named in its context. -/
theorem context_of_named {c j : ℕ} {d : Fin p.N_CONTEXT} {k : Fin p.N_IO_REGS}
    (h : named p c j=some (.job d k)) : d.val=c := by
  unfold named at h
  split_ifs at h with hjob hgeneric
  · injection h with hplace
    injection hplace with hcontext
    exact congrArg Fin.val hcontext.symm
  · injection h with hplace
    cases hplace

/-- The context counts only for a job register. -/
theorem named_of_named (hp : p.Within) {c d j : ℕ} (h : named p c j=some q)
    (hd : c < p.N_CONTEXT → d=c) : named p d j=some q := by
  by_cases hc : c < p.N_CONTEXT
  · rw [hd hc]
    exact h
  · unfold named at h
    rw [dif_neg (fun hjob => hc hjob.2.2)] at h
    split_ifs at h with hgeneric
    have hjob : ¬(jobBase ≤ j ∧ j-jobBase < p.N_IO_REGS ∧ d < p.N_CONTEXT) := by
      rintro ⟨hj,-⟩
      have hbase : 16 ≤ j := hj
      have hrange : j-8 < p.N_GENERIC_REGS := hgeneric.2
      have hlimit : p.N_GENERIC_REGS ≤ 8 := hp.generic
      omega
    unfold named
    rw [dif_neg hjob,dif_pos hgeneric]
    exact h

theorem register_lt (addr : BitVec 32) : (register addr).toNat < REGFILE_N_REGISTERS := by
  show (BitVec.setWidth 32 (addr.extractLsb' 0 6)).toNat < 64
  rw [BitVec.toNat_setWidth]
  exact lt_of_le_of_lt (Nat.mod_le _ _) (BitVec.isLt _)

/-- The address of a stored register leads to its latch. -/
theorem regfile_latch_addr_of_named (hp : p.Within)
    (h : named p (context p addr).toNat (register addr).toNat=some q) :
    regfile_latch_addr p (decide (jobBase ≤ (register addr).toNat)) addr=q.cell := by
  have hlt : (register addr).toNat < 64 := register_lt addr
  have hnumber := q.number_lt_size
  apply BitVec.eq_of_toNat_eq
  rw [Place.toNat_cell]
  unfold named at h
  unfold regfile_latch_addr
  split_ifs at h with hjob hgeneric
  · obtain rfl := Option.some.inj h
    have hcontext : (context p addr).toNat < 2 := lt_of_lt_of_le hjob.2.2 hp.context
    have hio : p.N_IO_REGS ≤ 48 := hp.io
    have hg : p.N_GENERIC_REGS ≤ 8 := hp.generic
    have hmul : (context p addr).toNat*p.N_IO_REGS ≤ 1*48 :=
      Nat.mul_le_mul (Nat.le_of_lt_succ hcontext) hio
    have hindex : (register addr+context p addr*BitVec.ofNat 32 p.N_IO_REGS-
        BitVec.ofNat 32 REGFILE_N_RESERVED_REGS-BitVec.ofNat 32 REGFILE_N_MAX_GENERIC_REGS+
        BitVec.ofNat 32 p.N_GENERIC_REGS-BitVec.ofNat 32 REGFILE_N_MANDATORY_REGS).toNat=
        p.N_GENERIC_REGS+((context p addr).toNat*p.N_IO_REGS+((register addr).toNat-16)) := by
      have hbase : 16 ≤ (register addr).toNat := hjob.1
      have hprod : (context p addr*BitVec.ofNat 32 p.N_IO_REGS).toNat=
          (context p addr).toNat*p.N_IO_REGS := by
        rw [BitVec.toNat_mul,BitVec.toNat_ofNat,Nat.mod_eq_of_lt (by omega : p.N_IO_REGS < 2^32),
          Nat.mod_eq_of_lt (by omega)]
      simp only [BitVec.toNat_sub,BitVec.toNat_add,hprod,BitVec.toNat_ofNat,
        REGFILE_N_RESERVED_REGS,REGFILE_N_REGISTERS,REGFILE_N_MANDATORY_REGS,
        REGFILE_N_MAX_GENERIC_REGS,REGFILE_N_MAX_IO_REGS]
      omega
    rw [if_pos (decide_eq_true hjob.1),BitVec.toNat_setWidth,hindex]
    exact Nat.mod_eq_of_lt hnumber
  · obtain rfl := Option.some.inj h
    have hbase : 8 ≤ (register addr).toNat := hgeneric.1
    have hrange : (register addr).toNat-8 < p.N_GENERIC_REGS := hgeneric.2
    have hg : p.N_GENERIC_REGS ≤ 8 := hp.generic
    have hindex : (register addr-BitVec.ofNat 32 REGFILE_N_RESERVED_REGS-
        BitVec.ofNat 32 REGFILE_N_MANDATORY_REGS).toNat=(register addr).toNat-8 := by
      simp only [BitVec.toNat_sub,BitVec.toNat_ofNat,REGFILE_N_RESERVED_REGS,
        REGFILE_N_REGISTERS,REGFILE_N_MANDATORY_REGS,REGFILE_N_MAX_GENERIC_REGS,
        REGFILE_N_MAX_IO_REGS]
      omega
    have hbelow : ¬jobBase ≤ (register addr).toNat := by
      show ¬16 ≤ _
      omega
    rw [if_neg (by rw [decide_eq_true_iff]; exact hbelow),BitVec.toNat_setWidth,hindex]
    exact Nat.mod_eq_of_lt hnumber

end Named

end Pulpissimo.Hwpe.CtrlRegfile
