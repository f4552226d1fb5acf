import Pulpissimo.Riscv.CsrFile

/-!
# CSR operations are exact

The registers are read by their implemented fields, and each operation on one of them is
compared with the read, modify and write of its bits. Ordinary registers always
hold the result. The performance registers clear the other way round: they hold it
only where the operand of a clear is what they held.
-/

namespace Pulpissimo.Riscv.CsrExact

open Pulpissimo.Machine Pulpissimo.Riscv.Decoder Pulpissimo.Riscv.CsrFile

/-- The registers by their implemented fields. The two causes have their
interrupt flag apart from their code. -/
inductive Field (n : ℕ)
  | fflags | frm | fprec | uie | mie | upie | mpie | mpp | mtvec | utvec | mepc | mcause_irq
  | mcause_code | uepc | ucause_irq | ucause_code | pcer | pcmr
  | pccr (k : Fin n)

variable {n : ℕ}

/-- Number of bits of a field. -/
def Field.width : Field n → ℕ
  | .fflags | .fprec | .mcause_code | .ucause_code => 5
  | .frm => 3
  | .uie | .mie | .upie | .mpie | .mcause_irq | .ucause_irq => 1
  | .mpp | .pcmr => 2
  | .mtvec | .utvec => 24
  | .mepc | .uepc | .pccr _ => 32
  | .pcer => n

/-- A bit of a trap field. -/
def Field.trapBit (s : CsRegisters.State) (f : Field n) (k : ℕ) : Bool :=
  match f with
  | .uie => s.mstatus_q.uie
  | .mie => s.mstatus_q.mie
  | .upie => s.mstatus_q.upie
  | .mpie => s.mstatus_q.mpie
  | .mpp => s.mstatus_q.mpp.getLsbD k
  | .mepc => s.mepc_q.getLsbD k
  | .mcause_irq => s.mcause_q.getLsbD 5
  | .mcause_code => s.mcause_q.getLsbD k
  | .uepc => s.uepc_q.getLsbD k
  | .ucause_irq => s.ucause_q.getLsbD 5
  | .ucause_code => s.ucause_q.getLsbD k
  | _ => false

/-- A field that traps and returns set. -/
def Field.isTrap : Field n → Bool
  | .uie | .mie | .upie | .mpie | .mpp | .mepc | .mcause_irq | .mcause_code | .uepc
  | .ucause_irq | .ucause_code => true
  | _ => false

/-- A field of the performance registers. -/
def Field.isPerf : Field n → Bool
  | .pcer | .pcmr | .pccr _ => true
  | _ => false

/-- A bit of a field. -/
def Field.bit (s : State n) (f : Field n) (k : ℕ) : Bool :=
  match f with
  | .fflags => s.fflags_q.getLsbD k
  | .frm => s.frm_q.getLsbD k
  | .fprec => s.fprec_q.getLsbD k
  | .mtvec => s.mtvec_reg_q.getLsbD k
  | .utvec => s.utvec_q.getLsbD k
  | .pcer => s.PCER_q.getLsbD k
  | .pcmr => s.PCMR_q.getLsbD k
  | .pccr c => (s.PCCR_q c).getLsbD k
  | f => f.trapBit s.trap k

/-- Where a field lies in the register of a number. -/
def Field.slot (p : Params) (addr : BitVec 12) (f : Field n) : Option ℕ :=
  match f with
  | .fflags => if p.FPU ∧ (addr=0x001 ∨ addr=0x003) then some 0 else none
  | .frm =>
    if p.FPU ∧ addr=0x002 then some 0 else if p.FPU ∧ addr=0x003 then some 5 else none
  | .fprec => if p.FPU ∧ addr=0x006 then some 0 else none
  | .uie => if p.PULP_SECURE ∧ (addr=0x300 ∨ addr=0x000) then some 0 else none
  | .mie => if addr=0x300 then some 3 else none
  | .upie => if p.PULP_SECURE ∧ (addr=0x300 ∨ addr=0x000) then some 4 else none
  | .mpie => if addr=0x300 then some 7 else none
  | .mpp => if p.PULP_SECURE ∧ addr=0x300 then some 11 else none
  | .mtvec => if p.PULP_SECURE ∧ addr=0x305 then some 8 else none
  | .utvec => if p.PULP_SECURE ∧ addr=0x005 then some 8 else none
  | .mepc => if addr=0x341 then some 0 else none
  | .mcause_irq => if addr=0x342 then some 31 else none
  | .mcause_code => if addr=0x342 then some 0 else none
  | .uepc => if p.PULP_SECURE ∧ addr=0x041 then some 0 else none
  | .ucause_irq => if p.PULP_SECURE ∧ addr=0x042 then some 31 else none
  | .ucause_code => if p.PULP_SECURE ∧ addr=0x042 then some 0 else none
  | .pcer => if addr=0x7A0 then some 0 else none
  | .pcmr => if addr=0x7A1 then some 0 else none
  | .pccr c => if addr=0x79F ∨ c.val<32 ∧ addr=0x780+BitVec.ofNat 12 c then some 0 else none

/-- Read, modify and write of one bit. -/
def rmw (op : CsrOp) (old w : Bool) : Bool :=
  match op with
  | .CSR_OP_NONE => old
  | .CSR_OP_WRITE => w
  | .CSR_OP_SET => old || w
  | .CSR_OP_CLEAR => old && !w

/-- Hardware loop registers: write enable, number and old value. -/
def loop (i : Input) : Option (BitVec 3 × Fin 2 × BitVec 32) :=
  match i.access.csr_addr_i.toNat with
  | 0x7B0 => some (0b001,0,i.hwlp_start_i 0)
  | 0x7B1 => some (0b010,0,i.hwlp_end_i 0)
  | 0x7B2 => some (0b100,0,i.hwlp_cnt_i 0)
  | 0x7B4 => some (0b001,1,i.hwlp_start_i 1)
  | 0x7B5 => some (0b010,1,i.hwlp_end_i 1)
  | 0x7B6 => some (0b100,1,i.hwlp_cnt_i 1)
  | _ => none

section Spec

variable (p : Params) (s : State p.N_PERF_COUNTERS) (i : Input)

/-- The effect of a cycle on a bit of a field. If the operation is on its register,
the bit is read, modified and written, unless a trap sets it; else the
hardware alone decides. -/
def BitExact (f : Field p.N_PERF_COUNTERS) (k : ℕ) : Prop :=
  match i.access.csr_op_i,f.slot p i.access.csr_addr_i with
  | .CSR_OP_NONE,_ | _,none => f.bit (step p s i) k=f.bit (step p s i.alone) k
  | op,some lo => f.bit (step p s i) k=rmw op (f.bit s k) (i.access.csr_wdata_i.getLsbD (lo+k)) ∨
      f.isTrap=true ∧ i.traps=true ∧ f.bit (step p s i) k=f.bit (step p s i.alone) k

/-- The write port of the hardware loops carries the result for their registers
and nothing else. -/
def LoopExact : Prop :=
  match i.access.csr_op_i,loop i with
  | .CSR_OP_NONE,_ | _,none => hwlp_we_o i=0
  | op,some (we,regid,old) => hwlp_we_o i=we ∧ hwlp_regid_o i=regid ∧
      ∀ k<32,(hwlp_data_o p s i).getLsbD k=
        rmw op (old.getLsbD k) (i.access.csr_wdata_i.getLsbD k)

/-- Every field holds the result of the operation. -/
structure Exact : Prop where
  /-- The registers. -/
  fields : ∀ f k,k<f.width → BitExact p s i f k
  /-- The hardware loops. -/
  loops : LoopExact p s i

/-- A clear on a performance register finds the value that it clears. -/
def ClearsAll : Prop :=
  i.access.csr_op_i=.CSR_OP_CLEAR → ∀ f : Field p.N_PERF_COUNTERS,f.isPerf=true →
    ∀ lo,f.slot p i.access.csr_addr_i=some lo → ∀ k<f.width,
      i.access.csr_wdata_i.getLsbD (lo+k)=f.bit s k

end Spec

section Read

variable (p : Params) (s : State p.N_PERF_COUNTERS) (i : Input)

/-- Numbers of the performance registers. -/
def perfAddr (a : BitVec 12) : Bool :=
  a.extractLsb' 5 7==0b0111100#7 || a==0x7A0 || a==0x7A1

/-- Other numbers read ordinary registers. -/
theorem csr_rdata_ordinary {a : BitVec 12} (ha : i.access.csr_addr_i=a) (hperf : perfAddr a=false) :
    csr_rdata_o p s i=ordinary p s i a := by
  unfold perfAddr at hperf
  rw [Bool.or_eq_false_iff,Bool.or_eq_false_iff] at hperf
  unfold csr_rdata_o csr_rdata_int is_pccr is_pcer is_pcmr
  rw [ha,hperf.1.1,hperf.1.2,hperf.2,Bool.and_false]
  rfl

/-- Bits of the status word. -/
theorem statusWord_bits (m : CsRegisters.Status) :
    (statusWord m).getLsbD 0=m.uie ∧ (statusWord m).getLsbD 3=m.mie ∧
      (statusWord m).getLsbD 4=m.upie ∧ (statusWord m).getLsbD 7=m.mpie ∧
      ∀ k<2,(statusWord m).getLsbD (11+k)=m.mpp.getLsbD k := by
  rcases m with ⟨uie,mie,upie,mpie,mpp⟩
  revert uie mie upie mpie mpp
  decide

/-- Bits of the user status word. -/
theorem userStatus_bits (m : CsRegisters.Status) :
    (0#27++BitVec.ofBool m.upie++0#3++BitVec.ofBool m.uie : BitVec 32).getLsbD 0=m.uie ∧
      (0#27++BitVec.ofBool m.upie++0#3++BitVec.ofBool m.uie : BitVec 32).getLsbD 4=m.upie := by
  rcases m with ⟨uie,mie,upie,mpie,mpp⟩
  revert uie mie upie mpie mpp
  decide

/-- Low bits of a wider word. -/
theorem low_bits {w : ℕ} (x : BitVec w) {k : ℕ} (hk : k<w) (hw : w≤32) :
    (x.setWidth 32).getLsbD k=x.getLsbD k := by
  rw [BitVec.getLsbD_setWidth,decide_eq_true (Nat.lt_of_lt_of_le hk hw),Bool.true_and]

/-- Bits of a cause word. -/
theorem causeWord_bits (c : BitVec 6) :
    (causeWord c).getLsbD 31=c.getLsbD 5 ∧ ∀ k<5,(causeWord c).getLsbD k=c.getLsbD k := by
  revert c
  decide

/-- Bits of a trap vector above its zeros. -/
theorem vector_bits (v : BitVec 24) (k : ℕ) : (v++0#8 : BitVec 32).getLsbD (8+k)=v.getLsbD k := by
  rw [BitVec.getLsbD_append,if_neg (by omega),Nat.add_sub_cancel_left]

/-- A register is read with its fields in their places. -/
theorem csr_rdata_slot (f : Field p.N_PERF_COUNTERS) (hperf : f.isPerf=false) {lo : ℕ}
    (hslot : f.slot p i.access.csr_addr_i=some lo) {k : ℕ} (hk : k<f.width) :
    (csr_rdata_o p s i).getLsbD (lo+k)=f.bit s k := by
  unfold Field.slot at hslot
  cases f with
  | pcer => exact absurd hperf nofun
  | pcmr => exact absurd hperf nofun
  | pccr c => exact absurd hperf nofun
  | fflags =>
    dsimp only at hslot
    split_ifs at hslot with h
    obtain rfl := Option.some.inj hslot
    rw [Nat.zero_add]
    rcases h with ⟨hfpu,ha | ha⟩
    · rw [csr_rdata_ordinary p s i ha rfl]
      change (if p.FPU then s.fflags_q.setWidth 32 else 0).getLsbD k=_
      rw [if_pos hfpu]
      exact low_bits _ hk (by decide)
    · rw [csr_rdata_ordinary p s i ha rfl]
      change (if p.FPU then (0#24++s.frm_q++s.fflags_q : BitVec 32) else 0).getLsbD k=_
      rw [if_pos hfpu,BitVec.getLsbD_append]
      exact if_pos hk
  | frm =>
    dsimp only at hslot
    split_ifs at hslot with h h'
    · obtain rfl := Option.some.inj hslot
      rw [Nat.zero_add,csr_rdata_ordinary p s i h.2 rfl]
      change (if p.FPU then s.frm_q.setWidth 32 else 0).getLsbD k=_
      rw [if_pos h.1]
      exact low_bits _ hk (by decide)
    · obtain rfl := Option.some.inj hslot
      rw [csr_rdata_ordinary p s i h'.2 rfl]
      change (if p.FPU then (0#24++s.frm_q++s.fflags_q : BitVec 32) else 0).getLsbD (5+k)=_
      rw [if_pos h'.1,BitVec.getLsbD_append,if_neg (by omega),Nat.add_sub_cancel_left,
        BitVec.getLsbD_append]
      exact if_pos hk
  | fprec =>
    dsimp only at hslot
    split_ifs at hslot with h
    obtain rfl := Option.some.inj hslot
    rw [Nat.zero_add,csr_rdata_ordinary p s i h.2 rfl]
    change (if p.FPU then s.fprec_q.setWidth 32 else 0).getLsbD k=_
    rw [if_pos h.1]
    exact low_bits _ hk (by decide)
  | uie =>
    dsimp only at hslot
    split_ifs at hslot with h
    obtain rfl := Option.some.inj hslot
    obtain rfl := Nat.lt_one_iff.mp hk
    rcases h.2 with ha | ha
    · rw [csr_rdata_ordinary p s i ha rfl]
      exact (statusWord_bits _).1
    · rw [csr_rdata_ordinary p s i ha rfl]
      exact (userStatus_bits _).1
  | upie =>
    dsimp only at hslot
    split_ifs at hslot with h
    obtain rfl := Option.some.inj hslot
    obtain rfl := Nat.lt_one_iff.mp hk
    rcases h.2 with ha | ha
    · rw [csr_rdata_ordinary p s i ha rfl]
      exact (statusWord_bits _).2.2.1
    · rw [csr_rdata_ordinary p s i ha rfl]
      exact (userStatus_bits _).2
  | mie =>
    dsimp only at hslot
    split_ifs at hslot with h
    obtain rfl := Option.some.inj hslot
    obtain rfl := Nat.lt_one_iff.mp hk
    rw [csr_rdata_ordinary p s i h rfl]
    exact (statusWord_bits _).2.1
  | mpie =>
    dsimp only at hslot
    split_ifs at hslot with h
    obtain rfl := Option.some.inj hslot
    obtain rfl := Nat.lt_one_iff.mp hk
    rw [csr_rdata_ordinary p s i h rfl]
    exact (statusWord_bits _).2.2.2.1
  | mpp =>
    dsimp only at hslot
    split_ifs at hslot with h
    obtain rfl := Option.some.inj hslot
    rw [csr_rdata_ordinary p s i h.2 rfl]
    exact (statusWord_bits _).2.2.2.2 k hk
  | mtvec =>
    dsimp only at hslot
    split_ifs at hslot with h
    obtain rfl := Option.some.inj hslot
    rw [csr_rdata_ordinary p s i h.2 rfl]
    change (mtvec_q p s i++0#8 : BitVec 32).getLsbD (8+k)=_
    rw [vector_bits]
    unfold mtvec_q
    rw [if_pos h.1]
    rfl
  | utvec =>
    dsimp only at hslot
    split_ifs at hslot with h
    obtain rfl := Option.some.inj hslot
    rw [csr_rdata_ordinary p s i h.2 rfl]
    exact vector_bits _ k
  | mepc =>
    dsimp only at hslot
    split_ifs at hslot with h
    obtain rfl := Option.some.inj hslot
    rw [Nat.zero_add,csr_rdata_ordinary p s i h rfl]
    rfl
  | mcause_irq =>
    dsimp only at hslot
    split_ifs at hslot with h
    obtain rfl := Option.some.inj hslot
    obtain rfl := Nat.lt_one_iff.mp hk
    rw [csr_rdata_ordinary p s i h rfl]
    exact (causeWord_bits _).1
  | mcause_code =>
    dsimp only at hslot
    split_ifs at hslot with h
    obtain rfl := Option.some.inj hslot
    rw [Nat.zero_add,csr_rdata_ordinary p s i h rfl]
    exact (causeWord_bits _).2 k hk
  | uepc =>
    dsimp only at hslot
    split_ifs at hslot with h
    obtain rfl := Option.some.inj hslot
    rw [Nat.zero_add,csr_rdata_ordinary p s i h.2 rfl]
    rfl
  | ucause_irq =>
    dsimp only at hslot
    split_ifs at hslot with h
    obtain rfl := Option.some.inj hslot
    obtain rfl := Nat.lt_one_iff.mp hk
    rw [csr_rdata_ordinary p s i h.2 rfl]
    exact (causeWord_bits _).1
  | ucause_code =>
    dsimp only at hslot
    split_ifs at hslot with h
    obtain rfl := Option.some.inj hslot
    rw [Nat.zero_add,csr_rdata_ordinary p s i h.2 rfl]
    exact (causeWord_bits _).2 k hk

end Read

section Write

/-- The value of a bit where a register is written or not. -/
def written (slot : Option ℕ) (we : Bool) (wdata : BitVec 32) (old : Bool) (k : ℕ) : Bool :=
  match slot with
  | some lo => if we then wdata.getLsbD (lo+k) else old
  | none => old

/-- Without a user mode these fields are constant. -/
def Field.isUser : Field n → Bool
  | .uie | .upie | .mpp => true
  | _ => false

/-- Bits of a cause as it is written. -/
theorem writtenCause_bits (w : BitVec 32) :
    (w.extractLsb' 31 1++w.extractLsb' 0 5 : BitVec 6).getLsbD 5=w.getLsbD 31 ∧
      ∀ k<5,(w.extractLsb' 31 1++w.extractLsb' 0 5 : BitVec 6).getLsbD k=w.getLsbD k := by
  refine ⟨?_,fun k hk => ?_⟩
  · rw [BitVec.getLsbD_append,if_neg (by decide),BitVec.getLsbD_extractLsb']
    rfl
  · rw [BitVec.getLsbD_append,if_pos hk,BitVec.getLsbD_extractLsb',decide_eq_true hk,Bool.true_and,
      Nat.zero_add]

/-- A CSR write changes the fields of its register and no others. -/
theorem trap_write (p : Params) (s : CsRegisters.State) (i : CsRegisters.Input) (f : Field n)
    (hf : f.isTrap=true) (hu : p.PULP_SECURE=true ∨ f.isUser=false) {k : ℕ} (hk : k<f.width) :
    f.trapBit (CsRegisters.write p.PULP_SECURE s i) k=
      written (f.slot p i.csr_addr_i) i.csr_we_int i.csr_wdata_int (f.trapBit s k) k := by
  unfold CsRegisters.write
  cases hwe : i.csr_we_int with
  | false => cases f.slot p i.csr_addr_i with
    | none => rfl
    | some lo => rfl
  | true =>
    have hcause := writtenCause_bits i.csr_wdata_int
    simp only [if_true]
    split
    · rename_i hnat
      have ha : i.csr_addr_i=0x300 := BitVec.eq_of_toNat_eq hnat
      cases f with
      | uie | mie | upie | mpie =>
        obtain rfl := Nat.lt_one_iff.mp hk
        simp_all [written,Field.slot,Field.trapBit,CsRegisters.Status.ofWord,Field.isUser]
      | mpp =>
        have hlow : k<2 := hk
        simp_all [written,Field.slot,Field.trapBit,CsRegisters.Status.ofWord,Field.isUser]
      | mepc | mcause_irq | mcause_code | uepc | ucause_irq | ucause_code =>
        simp [written,Field.slot,ha,Field.trapBit]
      | _ => exact absurd hf nofun
    · rename_i hnat
      have ha : i.csr_addr_i=0x341 := BitVec.eq_of_toNat_eq hnat
      cases f with
      | fflags | frm | fprec | mtvec | utvec | pcer | pcmr | pccr => exact absurd hf nofun
      | _ => simp [written,Field.slot,ha,Field.trapBit]
    · rename_i hnat
      have ha : i.csr_addr_i=0x342 := BitVec.eq_of_toNat_eq hnat
      cases f with
      | mcause_irq =>
        obtain rfl := Nat.lt_one_iff.mp hk
        simp only [Field.slot,ha,written,Field.trapBit,if_true]
        exact hcause.1
      | mcause_code =>
        simp only [Field.slot,ha,written,Field.trapBit,if_true,Nat.zero_add]
        exact hcause.2 k hk
      | fflags | frm | fprec | mtvec | utvec | pcer | pcmr | pccr => exact absurd hf nofun
      | _ => simp [written,Field.slot,ha,Field.trapBit]
    · rename_i hnat
      have ha : i.csr_addr_i=0x000 := BitVec.eq_of_toNat_eq hnat
      cases hs : p.PULP_SECURE with
      | false => cases f with
        | fflags | frm | fprec | mtvec | utvec | pcer | pcmr | pccr => exact absurd hf nofun
        | _ => simp [written,Field.slot,ha,hs,Field.trapBit]
      | true => cases f with
        | uie | upie =>
          obtain rfl := Nat.lt_one_iff.mp hk
          simp [written,Field.slot,ha,hs,Field.trapBit]
        | fflags | frm | fprec | mtvec | utvec | pcer | pcmr | pccr => exact absurd hf nofun
        | _ => simp [written,Field.slot,ha,Field.trapBit]
    · rename_i hnat
      have ha : i.csr_addr_i=0x041 := BitVec.eq_of_toNat_eq hnat
      cases hs : p.PULP_SECURE with
      | false => cases f with
        | fflags | frm | fprec | mtvec | utvec | pcer | pcmr | pccr => exact absurd hf nofun
        | _ => simp [written,Field.slot,ha,hs,Field.trapBit]
      | true => cases f with
        | fflags | frm | fprec | mtvec | utvec | pcer | pcmr | pccr => exact absurd hf nofun
        | _ => simp [written,Field.slot,ha,hs,Field.trapBit]
    · rename_i hnat
      have ha : i.csr_addr_i=0x042 := BitVec.eq_of_toNat_eq hnat
      cases hs : p.PULP_SECURE with
      | false => cases f with
        | fflags | frm | fprec | mtvec | utvec | pcer | pcmr | pccr => exact absurd hf nofun
        | _ => simp [written,Field.slot,ha,hs,Field.trapBit]
      | true => cases f with
        | ucause_irq =>
          obtain rfl := Nat.lt_one_iff.mp hk
          simp only [Field.slot,ha,hs,written,Field.trapBit,if_true,and_self]
          exact hcause.1
        | ucause_code =>
          simp only [Field.slot,ha,hs,written,Field.trapBit,if_true,and_self,Nat.zero_add]
          exact hcause.2 k hk
        | fflags | frm | fprec | mtvec | utvec | pcer | pcmr | pccr => exact absurd hf nofun
        | _ => simp [written,Field.slot,ha,Field.trapBit]
    · rename_i h300 h341 h342 h000 h041 h042
      have hne : ∀ a : BitVec 12,(i.csr_addr_i.toNat=a.toNat → False) → i.csr_addr_i≠a :=
        fun a h he => h (congrArg BitVec.toNat he)
      have n300 := hne 0x300#12 h300
      have n341 := hne 0x341#12 h341
      have n342 := hne 0x342#12 h342
      have n000 := hne 0x000#12 h000
      have n041 := hne 0x041#12 h041
      have n042 := hne 0x042#12 h042
      cases f with
      | fflags | frm | fprec | mtvec | utvec | pcer | pcmr | pccr => exact absurd hf nofun
      | _ => simp [written,Field.slot,n300,n341,n342,n000,n041,n042]

/-- Each bit of a field passes through an update, or the update fixes it. -/
def Own (f : Field n) (k : ℕ) (g : CsRegisters.State → CsRegisters.State) : Prop :=
  (∀ m,f.trapBit (g m) k=f.trapBit m k) ∨ ∀ m m',f.trapBit (g m) k=f.trapBit (g m') k

/-- A trap of machine mode fixes its fields. -/
theorem enterMachine_own (i : CsRegisters.Input) (mpie : Bool) (mpp : BitVec 2) (f : Field n)
    (k : ℕ) : Own f k (CsRegisters.enterMachine i · mpie mpp) := by
  cases f with
  | mie | mpie | mpp | mepc | mcause_irq | mcause_code => exact Or.inr fun _ _ => rfl
  | _ => exact Or.inl fun _ => rfl

/-- A trap fixes its fields. -/
theorem save_own (secure : Bool) (s : CsRegisters.State) (i : CsRegisters.Input) (f : Field n)
    (k : ℕ) : Own f k (CsRegisters.save secure s i) := by
  unfold Own CsRegisters.save
  split
  · split
    · split
      · cases f with
        | uie | upie | uepc | ucause_irq | ucause_code => exact Or.inr fun _ _ => rfl
        | _ => exact Or.inl fun _ => rfl
      · exact enterMachine_own i _ _ f k
    · exact enterMachine_own i _ _ f k
    · exact Or.inl fun _ => rfl
  · exact enterMachine_own i _ _ f k

/-- A return fixes its fields. -/
theorem restore_own (secure : Bool) (s : CsRegisters.State) (i : CsRegisters.Input) (f : Field n)
    (k : ℕ) : Own f k (CsRegisters.restore secure s i) := by
  unfold Own CsRegisters.restore
  split
  · cases f with
    | uie | upie => exact Or.inr fun _ _ => rfl
    | _ => exact Or.inl fun _ => rfl
  · split
    · split
      · split
        · cases f with
          | uie | mpie | mpp => exact Or.inr fun _ _ => rfl
          | _ => exact Or.inl fun _ => rfl
        · cases f with
          | mie | mpie | mpp => exact Or.inr fun _ _ => rfl
          | _ => exact Or.inl fun _ => rfl
        · exact Or.inl fun _ => rfl
      · cases f with
        | mie | mpie | mpp => exact Or.inr fun _ _ => rfl
        | _ => exact Or.inl fun _ => rfl
    · exact Or.inl fun _ => rfl

end Write

section TrapStep

variable (p : Params) (s : State p.N_PERF_COUNTERS) (i : Input)

/-- Traps and returns over the registers `m`. -/
def trapUpdate (m : CsRegisters.State) : CsRegisters.State :=
  if i.ctrl.csr_save_cause_i then CsRegisters.save p.PULP_SECURE s.trap i.ctrl m
  else CsRegisters.restore p.PULP_SECURE s.trap i.ctrl m

/-- Traps and returns fix their fields. -/
theorem trapUpdate_own (f : Field n) (k : ℕ) : Own f k (trapUpdate p s i) := by
  unfold Own trapUpdate
  cases i.ctrl.csr_save_cause_i with
  | true => exact save_own p.PULP_SECURE s.trap i.ctrl f k
  | false => exact restore_own p.PULP_SECURE s.trap i.ctrl f k

/-- Without them the registers pass. -/
theorem trapUpdate_quiet (h : i.traps=false) (m : CsRegisters.State) : trapUpdate p s i m=m := by
  unfold Input.traps at h
  rw [Bool.or_eq_false_iff,Bool.or_eq_false_iff] at h
  unfold trapUpdate CsRegisters.restore
  rw [h.1.1,h.1.2,h.2,Bool.and_false]
  rfl

/-- A trap field is written, then updated. -/
theorem trap_step_bit (f : Field n) (hf : f.isTrap=true)
    (hu : p.PULP_SECURE=true ∨ f.isUser=false) (k : ℕ) :
    f.trapBit (step p s i).trap k=
      f.trapBit (trapUpdate p s i (CsRegisters.write p.PULP_SECURE s.trap (trapInput p s i))) k := by
  change f.trapBit (CsRegisters.step p.PULP_SECURE s.trap (trapInput p s i)) k=_
  unfold CsRegisters.step CsRegisters.next trapUpdate
  cases hs : p.PULP_SECURE with
  | true => rfl
  | false =>
    have huser : f.isUser=false := hu.resolve_left (by rw [hs]; exact nofun)
    cases f with
    | uie | upie | mpp => exact absurd huser nofun
    | fflags | frm | fprec | mtvec | utvec | pcer | pcmr | pccr => exact absurd hf nofun
    | _ => rfl

/-- Without a user mode the user fields are constant. -/
theorem user_step_bit (hs : p.PULP_SECURE=false) (f : Field n) (hf : f.isUser=true) (k : ℕ) :
    f.trapBit (step p s i).trap k=f.trapBit (step p s i.alone).trap k := by
  change f.trapBit (CsRegisters.step p.PULP_SECURE s.trap (trapInput p s i)) k=
    f.trapBit (CsRegisters.step p.PULP_SECURE s.trap (trapInput p s i.alone)) k
  rw [hs]
  cases f with
  | uie | upie | mpp => rfl
  | _ => exact absurd hf nofun

end TrapStep

section Fields

variable (p : Params) (s : State p.N_PERF_COUNTERS) (i : Input)

/-- The word to write is the result of the operation. -/
theorem csr_wdata_int_bit (hop : i.access.csr_op_i≠.CSR_OP_NONE) (j : ℕ) :
    (csr_wdata_int p s i).getLsbD j=
      rmw i.access.csr_op_i ((csr_rdata_o p s i).getLsbD j) (i.access.csr_wdata_i.getLsbD j) := by
  unfold csr_wdata_int
  cases h : i.access.csr_op_i with
  | CSR_OP_NONE => exact absurd h hop
  | CSR_OP_WRITE => rfl
  | CSR_OP_SET =>
    rw [BitVec.getLsbD_or]
    exact Bool.or_comm _ _
  | CSR_OP_CLEAR =>
    dsimp only [rmw]
    rw [BitVec.getLsbD_and,BitVec.getLsbD_not,Bool.and_comm]
    by_cases hj : j<32
    · rw [decide_eq_true hj,Bool.true_and]
    · rw [BitVec.getLsbD_of_ge (csr_rdata_o p s i) j (Nat.le_of_not_lt hj),Bool.false_and,
        Bool.false_and]

/-- An operation writes. -/
theorem csr_we_int_eq (hop : i.access.csr_op_i≠.CSR_OP_NONE) : csr_we_int i=true := by
  unfold csr_we_int
  exact bne_iff_ne.mpr hop

/-- An operation is an access. -/
theorem csr_access_eq (hop : i.access.csr_op_i≠.CSR_OP_NONE) : i.access.csr_access_i=true := by
  cases h : i.access with
  | idle => exact absurd (congrArg Access.csr_op_i h) hop
  | instruction op addr wdata => rfl
  | debug we addr wdata => rfl

/-- A register that is written holds the result in its fields. -/
theorem written_slot (f : Field p.N_PERF_COUNTERS) (hperf : f.isPerf=false)
    (hop : i.access.csr_op_i≠.CSR_OP_NONE) {lo : ℕ} (hslot : f.slot p i.access.csr_addr_i=some lo) {k : ℕ}
    (hk : k<f.width) :
    (csr_wdata_int p s i).getLsbD (lo+k)=
      rmw i.access.csr_op_i (f.bit s k) (i.access.csr_wdata_i.getLsbD (lo+k)) := by
  rw [csr_wdata_int_bit p s i hop,csr_rdata_slot p s i f hperf hslot hk]

/-- A field without a place in the register is not touched. -/
theorem bitExact_none {f : Field p.N_PERF_COUNTERS} {k : ℕ}
    (h : i.access.csr_op_i=.CSR_OP_NONE ∨ f.slot p i.access.csr_addr_i=none) :
    BitExact p s i f k ↔ f.bit (step p s i) k=f.bit (step p s i.alone) k := by
  unfold BitExact
  rcases h with hop | hslot
  · rw [hop]
  · rw [hslot]
    cases i.access.csr_op_i with
    | _ => exact Iff.rfl

/-- A field in the register holds the result of the operation. -/
theorem bitExact_some {f : Field p.N_PERF_COUNTERS} {k lo : ℕ} (hop : i.access.csr_op_i≠.CSR_OP_NONE)
    (hslot : f.slot p i.access.csr_addr_i=some lo) :
    BitExact p s i f k ↔
      (f.bit (step p s i) k=rmw i.access.csr_op_i (f.bit s k) (i.access.csr_wdata_i.getLsbD (lo+k)) ∨
        f.isTrap=true ∧ i.traps=true ∧ f.bit (step p s i) k=f.bit (step p s i.alone) k) := by
  unfold BitExact
  rw [hslot]
  cases h : i.access.csr_op_i with
  | CSR_OP_NONE => exact absurd h hop
  | _ => exact Iff.rfl

/-- A trap field is in the registers of the traps and is not a performance field. -/
theorem isTrap_bit (f : Field p.N_PERF_COUNTERS) (hf : f.isTrap=true) :
    f.isPerf=false ∧ ∀ s' k,f.bit (n := p.N_PERF_COUNTERS) s' k=f.trapBit s'.trap k := by
  cases f with
  | fflags | frm | fprec | mtvec | utvec | pcer | pcmr | pccr => exact absurd hf nofun
  | _ => exact ⟨rfl,fun _ _ => rfl⟩

/-- The user fields do not exist without a user mode. -/
theorem user_slot (hs : p.PULP_SECURE=false) (f : Field n) (hf : f.isUser=true) (a : BitVec 12) :
    f.slot p a=none := by
  have hno : ∀ q : Prop,¬(p.PULP_SECURE=true ∧ q) := fun q h => by
    rw [hs] at h
    exact Bool.false_ne_true h.1
  cases f with
  | uie | upie | mpp => exact if_neg (hno _)
  | _ => exact absurd hf nofun

/-- The fields of the traps are exact. -/
theorem trap_exact (f : Field p.N_PERF_COUNTERS) (hf : f.isTrap=true) {k : ℕ} (hk : k<f.width) :
    BitExact p s i f k := by
  have hbit := (isTrap_bit p f hf).2
  by_cases hu : p.PULP_SECURE=true ∨ f.isUser=false
  · have hstep := trap_step_bit p s i f hf hu k
    have halone : f.trapBit (step p s i.alone).trap k=f.trapBit (trapUpdate p s i s.trap) k :=
      trap_step_bit p s i.alone f hf hu k
    have hwrite := trap_write p s.trap (trapInput p s i) f hf hu hk
    by_cases hnone : i.access.csr_op_i=.CSR_OP_NONE ∨ f.slot p i.access.csr_addr_i=none
    · rw [bitExact_none p s i hnone,hbit,hbit,hstep,halone]
      have hkeep : f.trapBit (CsRegisters.write p.PULP_SECURE s.trap (trapInput p s i)) k=
          f.trapBit s.trap k := by
        rw [hwrite]
        unfold written trapInput csr_we_int
        rcases hnone with hop | hslot
        · rw [hop]
          split
          · rfl
          · rfl
        · dsimp only
          rw [hslot]
      rcases trapUpdate_own p s i f k with hpass | hset
      · rw [hpass,hpass,hkeep]
      · exact hset _ _
    · rw [not_or] at hnone
      obtain ⟨lo,hslot⟩ := Option.ne_none_iff_exists'.mp hnone.2
      rw [bitExact_some p s i hnone.1 hslot,hbit,hbit,hbit,hstep,halone]
      have hresult : f.trapBit (CsRegisters.write p.PULP_SECURE s.trap (trapInput p s i)) k=
          rmw i.access.csr_op_i (f.trapBit s.trap k) (i.access.csr_wdata_i.getLsbD (lo+k)) := by
        rw [hwrite,←hbit s k,←written_slot p s i f (isTrap_bit p f hf).1 hnone.1 hslot hk]
        unfold written trapInput
        dsimp only
        rw [hslot,csr_we_int_eq i hnone.1]
        rfl
      -- a trap has priority over the write
      cases ht : i.traps with
      | false =>
        left
        rw [trapUpdate_quiet p s i ht,hresult]
      | true =>
        rcases trapUpdate_own p s i f k with hpass | hset
        · left
          rw [hpass,hresult]
        · exact Or.inr ⟨hf,rfl,hset _ _⟩
  · rw [not_or,Bool.not_eq_true,Bool.not_eq_false] at hu
    rw [bitExact_none p s i (Or.inr (user_slot p hu.1 f hu.2 _)),hbit,hbit]
    exact user_step_bit p s i hu.1 f hu.2 k

/-- A field is exact if it takes the word to write in its register and nothing else from
an access. -/
theorem ordinary_exact (f : Field p.N_PERF_COUNTERS) (hperf : f.isPerf=false) {k : ℕ}
    (hk : k<f.width)
    (htake : ∀ lo,csr_we_int i=true → f.slot p i.access.csr_addr_i=some lo →
      f.bit (step p s i) k=(csr_wdata_int p s i).getLsbD (lo+k))
    (hkeep : csr_we_int i=false ∨ f.slot p i.access.csr_addr_i=none →
      f.bit (step p s i) k=f.bit (step p s i.alone) k) : BitExact p s i f k := by
  by_cases hnone : i.access.csr_op_i=.CSR_OP_NONE ∨ f.slot p i.access.csr_addr_i=none
  · rw [bitExact_none p s i hnone]
    refine hkeep (hnone.imp_left fun hop => ?_)
    unfold csr_we_int
    rw [hop]
    rfl
  · rw [not_or] at hnone
    obtain ⟨lo,hslot⟩ := Option.ne_none_iff_exists'.mp hnone.2
    rw [bitExact_some p s i hnone.1 hslot]
    left
    rw [htake lo (csr_we_int_eq i hnone.1) hslot]
    exact written_slot p s i f hperf hnone.1 hslot hk

/-- Bits of a part of a word. -/
theorem part_bit (w : BitVec 32) (lo : ℕ) {len k : ℕ} (hk : k<len) :
    (w.extractLsb' lo len).getLsbD k=w.getLsbD (lo+k) := by
  rw [BitVec.getLsbD_extractLsb',decide_eq_true hk,Bool.true_and]

/-- The flags of the floating point unit are exact. -/
theorem fflags_exact {k : ℕ} (hk : k<5) : BitExact p s i .fflags k := by
  refine ordinary_exact p s i .fflags rfl hk (fun lo hwe hslot => ?_) fun hnone => ?_
  · unfold Field.slot at hslot
    dsimp only at hslot
    split_ifs at hslot with h
    obtain rfl := Option.some.inj hslot
    change (if p.FPU=true then fflags_n p s i else s.fflags_q).getLsbD k=_
    unfold fflags_n
    rw [if_pos h.1,hwe,if_pos (by simpa using h.2)]
    exact part_bit _ 0 hk
  · change (if p.FPU=true then fflags_n p s i else s.fflags_q).getLsbD k=
      (if p.FPU=true then (if i.fflags_we_i=true then i.fflags_i ||| s.fflags_q else s.fflags_q)
        else s.fflags_q).getLsbD k
    cases hfpu : p.FPU with
    | false => rfl
    | true =>
      unfold fflags_n
      rcases hnone with hwe | hslot
      · rw [hwe]
        rfl
      · simp only [Field.slot,hfpu,true_and,ite_eq_right_iff,reduceCtorEq,imp_false,not_or] at hslot
        rw [beq_false_of_ne hslot.1,beq_false_of_ne hslot.2,Bool.or_false,Bool.and_false]
        rfl

/-- The rounding mode is exact. -/
theorem frm_exact {k : ℕ} (hk : k<3) : BitExact p s i .frm k := by
  refine ordinary_exact p s i .frm rfl hk (fun lo hwe hslot => ?_) fun hnone => ?_
  · change (if p.FPU=true then frm_n p s i else s.frm_q).getLsbD k=_
    unfold Field.slot at hslot
    dsimp only at hslot
    unfold frm_n
    split_ifs at hslot with h h'
    · obtain rfl := Option.some.inj hslot
      rw [if_pos h.1,hwe,h.2]
      exact part_bit _ 0 hk
    · obtain rfl := Option.some.inj hslot
      rw [if_pos h'.1,hwe,h'.2]
      exact part_bit _ 5 hk
  · change (if p.FPU=true then frm_n p s i else s.frm_q).getLsbD k=
      (if p.FPU=true then s.frm_q else s.frm_q).getLsbD k
    cases hfpu : p.FPU with
    | false => rfl
    | true =>
      unfold frm_n
      rcases hnone with hwe | hslot
      · rw [hwe]
        rfl
      · unfold Field.slot at hslot
        dsimp only at hslot
        split_ifs at hslot with h h'
        rw [hfpu] at h h'
        rw [beq_false_of_ne fun ha => h ⟨rfl,ha⟩,beq_false_of_ne fun ha => h' ⟨rfl,ha⟩,Bool.and_false]
        rfl

/-- A field of one register that a parameter enables is exact. -/
theorem gated_exact (f : Field p.N_PERF_COUNTERS) (hperf : f.isPerf=false) {k : ℕ}
    (hk : k<f.width) (gate : Bool) (a : BitVec 12) (lo : ℕ) (old : BitVec f.width)
    (hslot : f.slot p i.access.csr_addr_i=
      if gate=true ∧ i.access.csr_addr_i=a then some lo else none)
    (hstep : ∀ j,f.bit (step p s j) k=
      (if gate && csr_we_int j && j.access.csr_addr_i==a then
        (csr_wdata_int p s j).extractLsb' lo f.width else old).getLsbD k) :
    BitExact p s i f k := by
  have halone : f.bit (step p s i.alone) k=old.getLsbD k := by
    have hidle : csr_we_int i.alone=false := rfl
    rw [hstep,hidle,Bool.and_false]
    rfl
  refine ordinary_exact p s i f hperf hk (fun lo' hwe hsome => ?_) fun hnone => ?_
  · rw [hslot] at hsome
    split_ifs at hsome with h
    obtain rfl := Option.some.inj hsome
    rw [hstep,h.1,hwe,h.2,BEq.rfl]
    exact part_bit _ lo hk
  · rw [hstep,halone]
    rcases hnone with hwe | hno
    · rw [hwe,Bool.and_false]
      rfl
    · rw [hslot] at hno
      split_ifs at hno with h
      rw [if_neg]
      rw [Bool.and_eq_true,Bool.and_eq_true]
      rintro ⟨⟨hgate,-⟩,ha⟩
      exact h ⟨hgate,beq_iff_eq.mp ha⟩

/-- Every ordinary field is exact. -/
theorem ordinaryFields_exact (f : Field p.N_PERF_COUNTERS) (hperf : f.isPerf=false) {k : ℕ}
    (hk : k<f.width) : BitExact p s i f k := by
  cases f with
  | fflags => exact fflags_exact p s i hk
  | frm => exact frm_exact p s i hk
  | fprec => exact gated_exact p s i .fprec rfl hk p.FPU 0x006 0 s.fprec_q rfl fun _ => rfl
  | mtvec =>
    exact gated_exact p s i .mtvec rfl hk p.PULP_SECURE 0x305 8 s.mtvec_reg_q rfl fun _ => rfl
  | utvec =>
    exact gated_exact p s i .utvec rfl hk p.PULP_SECURE 0x005 8 s.utvec_q rfl fun _ => rfl
  | pcer | pcmr | pccr => exact absurd hperf nofun
  | _ => exact trap_exact p s i _ rfl hk

/-- A performance register has the result exactly if a clear finds what it clears. -/
theorem perfUpdate_bit {w : ℕ} {op : CsrOp} (hop : op≠.CSR_OP_NONE) (idle old wdata : BitVec w) {k : ℕ}
    (hk : k<w) :
    (perfUpdate op idle old wdata).getLsbD k=rmw op (old.getLsbD k) (wdata.getLsbD k) ↔
      (op=.CSR_OP_CLEAR → wdata.getLsbD k=old.getLsbD k) := by
  cases op with
  | CSR_OP_NONE => exact absurd rfl hop
  | CSR_OP_WRITE => exact iff_of_true rfl nofun
  | CSR_OP_SET =>
    refine iff_of_true ?_ nofun
    change (wdata ||| old).getLsbD k=(old.getLsbD k || wdata.getLsbD k)
    rw [BitVec.getLsbD_or,Bool.or_comm]
  | CSR_OP_CLEAR =>
    change (wdata &&& ~~~old).getLsbD k=(old.getLsbD k && !wdata.getLsbD k) ↔ _
    rw [BitVec.getLsbD_and,BitVec.getLsbD_not,decide_eq_true hk,Bool.true_and]
    cases old.getLsbD k with
    | _ => cases wdata.getLsbD k with
      | _ => decide

/-- A bit of a performance field is exact exactly if a clear finds its value. -/
theorem perfField_exact (f : Field p.N_PERF_COUNTERS) (hperf : f.isPerf=true) {k : ℕ}
    (hk : k<f.width) (sel : Input → Bool) (q : Prop) [Decidable q] (idle old : BitVec f.width)
    (hold : f.bit s k=old.getLsbD k) (hidle : sel i.alone=false)
    (hslot : f.slot p i.access.csr_addr_i=if q then some 0 else none)
    (hq : i.access.csr_op_i≠.CSR_OP_NONE → (sel i=true ↔ q))
    (hstep : ∀ j,f.bit (step p s j) k=
      (if sel j=true then perfUpdate j.access.csr_op_i idle old
        (j.access.csr_wdata_i.extractLsb' 0 f.width) else idle).getLsbD k) :
    BitExact p s i f k ↔ (i.access.csr_op_i=.CSR_OP_CLEAR → ∀ lo,f.slot p i.access.csr_addr_i=some lo →
      i.access.csr_wdata_i.getLsbD (lo+k)=f.bit s k) := by
  have halone : f.bit (step p s i.alone) k=idle.getLsbD k := by
    rw [hstep,hidle]
    rfl
  by_cases hop : i.access.csr_op_i=.CSR_OP_NONE
  · rw [bitExact_none p s i (Or.inl hop),halone,hstep,hop]
    refine iff_of_true ?_ nofun
    split
    · rfl
    · rfl
  · have htrap : ¬f.isTrap=true := by
      cases f with
      | pcer | pcmr | pccr => exact nofun
      | _ => exact absurd hperf nofun
    cases hsel : sel i with
    | false =>
      have hnone : f.slot p i.access.csr_addr_i=none := by
        rw [hslot,if_neg fun h => Bool.false_ne_true (hsel.symm.trans ((hq hop).mpr h))]
      rw [bitExact_none p s i (Or.inr hnone),halone,hstep,hsel]
      refine iff_of_true rfl fun _ lo hlo => ?_
      rw [hnone] at hlo
      exact absurd hlo nofun
    | true =>
      have hsome : f.slot p i.access.csr_addr_i=some 0 := by
        rw [hslot,if_pos ((hq hop).mp hsel)]
      rw [bitExact_some p s i hop hsome,hstep,hsel,hold]
      have hupdate := perfUpdate_bit hop idle old (i.access.csr_wdata_i.extractLsb' 0 f.width) hk
      rw [part_bit _ 0 hk] at hupdate
      rw [if_pos rfl,or_iff_left fun h => htrap h.1,hupdate]
      refine forall_congr' fun _ => ⟨fun h lo hlo => ?_,fun h => h 0 hsome⟩
      rw [hsome] at hlo
      obtain rfl := Option.some.inj hlo
      exact h

/-- Numbers of the counters. -/
theorem pccr_addr (a : BitVec 12) (c : ℕ) :
    (a.extractLsb' 5 7=0b0111100#7 ∧ (a=0x79F#12 ∨ (a.extractLsb' 0 5).toNat=c)) ↔
      a=0x79F ∨ c<32 ∧ a=0x780+BitVec.ofNat 12 c := by
  have hhigh : a.extractLsb' 5 7=0b0111100#7 ↔ a.toNat/32%128=60 := by
    rw [←BitVec.toNat_inj,BitVec.extractLsb'_toNat,Nat.shiftRight_eq_div_pow]
    rfl
  have hlow : (a.extractLsb' 0 5).toNat=a.toNat%32 := by
    rw [BitVec.extractLsb'_toNat]
    rfl
  have hall : a=0x79F ↔ a.toNat=1951 := BitVec.toNat_inj.symm
  have hone : a=0x780+BitVec.ofNat 12 c ↔ a.toNat=(1920+c%4096)%4096 := by
    rw [←BitVec.toNat_inj,BitVec.toNat_add,BitVec.toNat_ofNat]
    rfl
  have hbound : a.toNat<4096 := a.isLt
  change _ ∧ (a=0x79F ∨ _) ↔ _
  rw [hhigh,hlow,hall,hone]
  omega

/-- The access is to a counter, or to all. -/
theorem pccr_selected (hop : i.access.csr_op_i≠.CSR_OP_NONE) (c : ℕ) :
    (is_pccr i && (pccr_all_sel i || pccr_index i==c))=true ↔
      i.access.csr_addr_i=0x79F ∨ c<32 ∧ i.access.csr_addr_i=0x780+BitVec.ofNat 12 c := by
  unfold is_pccr pccr_all_sel pccr_index
  rw [csr_access_eq i hop,←pccr_addr]
  simp only [Bool.true_and,Bool.and_eq_true,Bool.or_eq_true,beq_iff_eq]
  rfl

/-- The performance registers are exact exactly if a clear finds what it clears. -/
theorem perfFields_exact (f : Field p.N_PERF_COUNTERS) (hperf : f.isPerf=true) {k : ℕ}
    (hk : k<f.width) :
    BitExact p s i f k ↔ (i.access.csr_op_i=.CSR_OP_CLEAR → ∀ lo,f.slot p i.access.csr_addr_i=some lo →
      i.access.csr_wdata_i.getLsbD (lo+k)=f.bit s k) := by
  have hone : ∀ a : BitVec 12,i.access.csr_op_i≠.CSR_OP_NONE →
      ((i.access.csr_access_i && i.access.csr_addr_i==a)=true ↔ i.access.csr_addr_i=a) :=
    fun a hop => by rw [csr_access_eq i hop,Bool.true_and,beq_iff_eq]
  cases f with
  | pcer =>
    exact perfField_exact p s i .pcer rfl hk is_pcer (i.access.csr_addr_i=0x7A0) s.PCER_q s.PCER_q
      rfl rfl rfl (hone 0x7A0) fun _ => rfl
  | pcmr =>
    exact perfField_exact p s i .pcmr rfl hk is_pcmr (i.access.csr_addr_i=0x7A1) s.PCMR_q s.PCMR_q
      rfl rfl rfl (hone 0x7A1) fun _ => rfl
  | pccr c =>
    refine perfField_exact p s i (.pccr c) rfl hk
      (fun j => is_pccr j && (pccr_all_sel j || pccr_index j==c.val)) _ (counted p s c)
      (s.PCCR_q c) rfl rfl rfl (fun hop => pccr_selected i hop c) fun j => ?_
    change (PCCR_n p s j c).getLsbD k=
      (if _ then perfUpdate _ _ _ (j.access.csr_wdata_i.extractLsb' 0 32) else _).getLsbD k
    rw [BitVec.extractLsb'_eq_self]
    rfl
  | _ => exact absurd hperf nofun

/-- The registers of the hardware loops are read in their places. -/
theorem loop_some {we : BitVec 3} {regid : Fin 2} {old : BitVec 32}
    (h : loop i=some (we,regid,old)) : csr_rdata_o p s i=old ∧
      (csr_we_int i=true → hwlp_we_o i=we ∧ hwlp_regid_o i=regid) := by
  unfold loop at h
  unfold hwlp_we_o hwlp_regid_o
  split at h
  case h_7 => exact absurd h nofun
  all_goals
    rename_i hnat
    have ha := congrArg (BitVec.ofNat 12) hnat
    rw [BitVec.ofNat_toNat,BitVec.setWidth_eq] at ha
    obtain ⟨rfl,rfl,rfl⟩ := h
    refine ⟨csr_rdata_ordinary p s i ha rfl,fun hwe => ?_⟩
    rw [hwe,hnat]
    exact ⟨rfl,rfl⟩

/-- Other numbers do not write them. -/
theorem loop_none (h : loop i=none) : hwlp_we_o i=0 := by
  unfold loop at h
  unfold hwlp_we_o
  split at h
  case h_7 =>
    split
    · split
      all_goals first
        | contradiction
        | rfl
    · rfl
  all_goals exact absurd h nofun

/-- The write port of the hardware loops is exact. -/
theorem loop_exact : LoopExact p s i := by
  unfold LoopExact
  by_cases hop : i.access.csr_op_i=.CSR_OP_NONE
  · have hwe : csr_we_int i=false := by
      unfold csr_we_int
      rw [hop]
      rfl
    rw [hop]
    unfold hwlp_we_o
    rw [hwe]
    rfl
  · cases hl : loop i with
    | none =>
      have hno := loop_none i hl
      cases h : i.access.csr_op_i with
      | CSR_OP_NONE => exact absurd h hop
      | _ => exact hno
    | some entry =>
      rcases entry with ⟨we,regid,old⟩
      have hsome := loop_some p s i hl
      have hwe := hsome.2 (csr_we_int_eq i hop)
      have hdata : ∀ k<32,(hwlp_data_o p s i).getLsbD k=
          rmw i.access.csr_op_i (old.getLsbD k) (i.access.csr_wdata_i.getLsbD k) := fun k _ => by
        unfold hwlp_data_o
        rw [csr_wdata_int_bit p s i hop,hsome.1]
      cases h : i.access.csr_op_i with
      | CSR_OP_NONE => exact absurd h hop
      | _ =>
        rw [h] at hdata
        exact ⟨hwe.1,hwe.2,hdata⟩

/-- A cycle is exact exactly if a clear on a performance register finds what it clears. -/
theorem exact_iff : Exact p s i ↔ ClearsAll p s i := by
  constructor
  · intro h hclear f hperf lo hslot k hk
    exact (perfFields_exact p s i f hperf hk).mp (h.fields f k hk) hclear lo hslot
  · intro h
    refine ⟨fun f k hk => ?_,loop_exact p s i⟩
    cases hperf : f.isPerf with
    | false => exact ordinaryFields_exact p s i f hperf hk
    | true =>
      refine (perfFields_exact p s i f hperf hk).mpr fun hclear lo hslot => ?_
      exact h hclear f hperf lo hslot k hk

end Fields

/-- Over any sequence of cycles every register holds the result of each operation, and
changes by nothing else, exactly if each clear on a performance register finds the
value that it clears. -/
theorem exact_iff_clearsAll (p : Params) (s : State p.N_PERF_COUNTERS) (cycles : List Input) :
    Meets (step p) (Exact p) s cycles ↔ Meets (step p) (ClearsAll p) s cycles :=
  meets_congr fun s i => exact_iff p s i

/-- The core without options. -/
def plainCore : Params := ⟨false,false,false,0⟩

/-- A clear of the global enable in the mode register, after reset, also turns the saturation
off. -/
theorem clear_enable_loses_saturation :
    (after (step plainCore) reset [quiet (.instruction .CSR_OP_CLEAR 0x7A1 1)]).PCMR_q=0 ∧
      ¬Meets (step plainCore) (Exact plainCore) reset [quiet (.instruction .CSR_OP_CLEAR 0x7A1 1)] := by
  refine ⟨rfl,fun h => ?_⟩
  have hsat := h.1.fields .pcmr 1 (by decide)
  rcases hsat with hbit | htrap
  · exact absurd hbit (by decide)
  · exact Bool.false_ne_true htrap.1

end Pulpissimo.Riscv.CsrExact
