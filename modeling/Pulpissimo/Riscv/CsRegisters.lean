import Mathlib.Data.BitVec
import Mathlib.Tactic.SplitIfs
import Pulpissimo.Riscv.Decoder

/-!
# The RI5CY trap registers

The part of `riscv_cs_registers` that exceptions and interrupts use: the
privilege level, the status register, and the program counters and causes of
both modes, with CSR writes and with the traps that take priority over them.
-/

namespace Pulpissimo.Riscv.CsRegisters

open Pulpissimo.Riscv.Decoder

/-- The status register. -/
structure Status where
  /-- User interrupts are enabled. -/
  uie : Bool
  /-- Machine interrupts are enabled. -/
  mie : Bool
  /-- Value of `uie` before the trap. -/
  upie : Bool
  /-- Value of `mie` before the trap. -/
  mpie : Bool
  /-- Privilege level before the trap. -/
  mpp : BitVec 2

/-- Registers. -/
structure State where
  /-- Privilege level. -/
  priv_lvl_q : BitVec 2
  /-- Status register. -/
  mstatus_q : Status
  /-- Program counter of the machine trap. -/
  mepc_q : BitVec 32
  /-- Its cause. -/
  mcause_q : BitVec 6
  /-- Program counter of the user trap. -/
  uepc_q : BitVec 32
  /-- Its cause. -/
  ucause_q : BitVec 6

/-- Values after reset. -/
def reset : State := ⟨PRIV_LVL_M,⟨false,false,false,false,PRIV_LVL_M⟩,0,0,0,0⟩

/-- One cycle of inputs. -/
structure Input where
  /-- A CSR is written. -/
  csr_we_int : Bool
  /-- Its number. -/
  csr_addr_i : BitVec 12
  /-- Its new value. -/
  csr_wdata_int : BitVec 32
  /-- Program counter of IF. -/
  pc_if_i : BitVec 32
  /-- Program counter of ID. -/
  pc_id_i : BitVec 32
  /-- Save the program counter of IF. -/
  csr_save_if_i : Bool
  /-- Save the program counter of ID. -/
  csr_save_id_i : Bool
  /-- Return from machine mode. -/
  csr_restore_mret_i : Bool
  /-- Return from user mode. -/
  csr_restore_uret_i : Bool
  /-- Cause. -/
  csr_cause_i : BitVec 6
  /-- The interrupt taken is secure. -/
  csr_irq_sec_i : Bool
  /-- Save the cause. -/
  csr_save_cause_i : Bool

section Code

variable (PULP_SECURE : Bool) (s : State) (i : Input)

/-- Status from a written word. -/
def Status.ofWord (w : BitVec 32) : Status :=
  ⟨w.getLsbD 0,w.getLsbD 3,w.getLsbD 4,w.getLsbD 7,w.extractLsb' 11 2⟩

/-- CSR writes. The user registers exist only with a user mode. -/
def write : State :=
  let cause := i.csr_wdata_int.extractLsb' 31 1++i.csr_wdata_int.extractLsb' 0 5
  if i.csr_we_int then
    match i.csr_addr_i.toNat with
    | 0x300 => { s with mstatus_q := Status.ofWord i.csr_wdata_int }
    | 0x341 => { s with mepc_q := i.csr_wdata_int }
    | 0x342 => { s with mcause_q := cause }
    | 0x000 =>
      if PULP_SECURE then { s with mstatus_q := { s.mstatus_q with
        uie := i.csr_wdata_int.getLsbD 0
        upie := i.csr_wdata_int.getLsbD 4 } }
      else s
    | 0x041 => if PULP_SECURE then { s with uepc_q := i.csr_wdata_int } else s
    | 0x042 => if PULP_SECURE then { s with ucause_q := cause } else s
    | _ => s
  else s

/-- Program counter to save. -/
def exception_pc : BitVec 32 := if i.csr_save_if_i then i.pc_if_i else i.pc_id_i

/-- Entry into a trap of machine mode over the registers `n`. -/
def enterMachine (n : State) (mpie : Bool) (mpp : BitVec 2) : State := { n with
  priv_lvl_q := PRIV_LVL_M
  mstatus_q := { n.mstatus_q with
    mpie := mpie
    mie := false
    mpp := mpp }
  mepc_q := exception_pc i
  mcause_q := i.csr_cause_i }

/-- Entry into a trap. An insecure interrupt stays in user mode. -/
def save (n : State) : State :=
  if PULP_SECURE then
    match s.priv_lvl_q.toNat with
    | 0b00 =>
      if i.csr_cause_i.getLsbD 5 && !i.csr_irq_sec_i then { n with
        priv_lvl_q := PRIV_LVL_U
        mstatus_q := { n.mstatus_q with
          upie := s.mstatus_q.uie
          uie := false }
        uepc_q := exception_pc i
        ucause_q := i.csr_cause_i }
      else enterMachine i n s.mstatus_q.uie PRIV_LVL_U
    | 0b11 => enterMachine i n s.mstatus_q.mie PRIV_LVL_M
    | _ => n
  else enterMachine i n s.mstatus_q.mie PRIV_LVL_M

/-- Return from a trap. -/
def restore (n : State) : State :=
  if PULP_SECURE && i.csr_restore_uret_i then { n with
    priv_lvl_q := PRIV_LVL_U
    mstatus_q := { n.mstatus_q with
      uie := s.mstatus_q.upie
      upie := true } }
  else if i.csr_restore_mret_i then
    if PULP_SECURE then
      match s.mstatus_q.mpp.toNat with
      | 0b00 => { n with
        priv_lvl_q := PRIV_LVL_U
        mstatus_q := { n.mstatus_q with
          uie := s.mstatus_q.mpie
          mpie := true
          mpp := PRIV_LVL_U } }
      | 0b11 => { n with
        priv_lvl_q := PRIV_LVL_M
        mstatus_q := { n.mstatus_q with
          mie := s.mstatus_q.mpie
          mpie := true
          mpp := PRIV_LVL_U } }
      | _ => n
    else { n with
      priv_lvl_q := PRIV_LVL_M
      mstatus_q := { n.mstatus_q with
        mie := s.mstatus_q.mpie
        mpie := true
        mpp := PRIV_LVL_M } }
  else n

/-- Next values before the registers of a core without a user mode are fixed. -/
def next : State :=
  let n := write PULP_SECURE s i
  if i.csr_save_cause_i then save PULP_SECURE s i n else restore PULP_SECURE s i n

/-- One clock edge. Without a user mode only the machine fields change. -/
def step : State :=
  let n := next PULP_SECURE s i
  if PULP_SECURE then n
  else { n with
    priv_lvl_q := PRIV_LVL_M
    mstatus_q := ⟨false,n.mstatus_q.mie,false,n.mstatus_q.mpie,PRIV_LVL_M⟩ }

end Code

/-- The core is in machine or in user mode. -/
def Mode (s : State) : Prop := s.priv_lvl_q=PRIV_LVL_M ∨ s.priv_lvl_q=PRIV_LVL_U

section Steps

variable (PULP_SECURE : Bool) {s : State} {i : Input}

theorem write_priv (s : State) (i : Input) :
    (write PULP_SECURE s i).priv_lvl_q=s.priv_lvl_q := by
  unfold write
  split
  · split
    · rfl
    · rfl
    · rfl
    · split_ifs <;> rfl
    · split_ifs <;> rfl
    · split_ifs <;> rfl
    · rfl
  · rfl

theorem save_priv (n : State) (h : Mode s) (hn : n.priv_lvl_q=s.priv_lvl_q) :
    Mode (save PULP_SECURE s i n) := by
  unfold save
  split
  · split
    · split
      · exact Or.inr rfl
      · exact Or.inl rfl
    · exact Or.inl rfl
    · exact h.imp hn.trans hn.trans
  · exact Or.inl rfl

theorem restore_priv (n : State) (h : Mode s) (hn : n.priv_lvl_q=s.priv_lvl_q) :
    Mode (restore PULP_SECURE s i n) := by
  unfold restore
  split
  · exact Or.inr rfl
  · split
    · split
      · split
        · exact Or.inr rfl
        · exact Or.inl rfl
        · exact h.imp hn.trans hn.trans
      · exact Or.inl rfl
    · exact h.imp hn.trans hn.trans

/-- The core stays in one of the two modes. -/
theorem mode_step (h : Mode s) : Mode (step PULP_SECURE s i) := by
  have hn := write_priv PULP_SECURE s i
  have hnext : Mode (next PULP_SECURE s i) := by
    unfold next
    split
    · exact save_priv PULP_SECURE _ h hn
    · exact restore_priv PULP_SECURE _ h hn
  unfold step
  split
  · exact hnext
  · exact Or.inl rfl

/-- Without a trap or a return the mode stays. -/
theorem priv_step (hp : PULP_SECURE=false → s.priv_lvl_q=PRIV_LVL_M)
    (hsave : i.csr_save_cause_i=false) (hmret : i.csr_restore_mret_i=false)
    (huret : i.csr_restore_uret_i=false) : (step PULP_SECURE s i).priv_lvl_q=s.priv_lvl_q := by
  have hn := write_priv PULP_SECURE s i
  cases PULP_SECURE with
  | false => exact (hp rfl).symm
  | true =>
    unfold step next restore
    rw [hsave,hmret,huret]
    exact hn

/-- Machine mode is left by returns only. -/
theorem machine_stays (hM : s.priv_lvl_q=PRIV_LVL_M) (hmret : i.csr_restore_mret_i=false)
    (huret : i.csr_restore_uret_i=false) : (step true s i).priv_lvl_q=PRIV_LVL_M := by
  have hn := write_priv true s i
  unfold step next save restore
  rw [hmret,huret,hM]
  cases i.csr_save_cause_i with
  | true => rfl
  | false => exact hn.trans hM

/-- A core without a user mode is in machine mode. -/
theorem priv_machine (hp : PULP_SECURE=false) : (step PULP_SECURE s i).priv_lvl_q=PRIV_LVL_M := by
  subst hp
  rfl

/-- A trap that is not an interrupt saves its program counter and its cause for
machine mode. -/
theorem exception_step (h : Mode s) (hsave : i.csr_save_cause_i=true)
    (hif : i.csr_save_if_i=false) (hcause : i.csr_cause_i.getLsbD 5=false) :
    (step PULP_SECURE s i).mepc_q=i.pc_id_i ∧ (step PULP_SECURE s i).mcause_q=i.csr_cause_i ∧
      (step PULP_SECURE s i).priv_lvl_q=PRIV_LVL_M := by
  have hpc : exception_pc i=i.pc_id_i := if_neg (by simp [hif])
  rw [←hpc]
  unfold step next save
  rw [hsave,hcause]
  cases PULP_SECURE with
  | false => exact ⟨rfl,rfl,rfl⟩
  | true =>
    rcases h with hM | hU
    · rw [hM]
      exact ⟨rfl,rfl,rfl⟩
    · rw [hU]
      exact ⟨rfl,rfl,rfl⟩

/-- Two states agree in the registers of machine mode. -/
structure SameMachine (s' s : State) : Prop where
  priv_lvl : s'.priv_lvl_q=s.priv_lvl_q
  mie : s'.mstatus_q.mie=s.mstatus_q.mie
  mpie : s'.mstatus_q.mpie=s.mstatus_q.mpie
  mpp : s'.mstatus_q.mpp=s.mstatus_q.mpp
  mepc : s'.mepc_q=s.mepc_q
  mcause : s'.mcause_q=s.mcause_q

/-- Two states agree in the bits of the status register that belong to user mode. -/
structure SameUser (s' s : State) : Prop where
  uie : s'.mstatus_q.uie=s.mstatus_q.uie
  upie : s'.mstatus_q.upie=s.mstatus_q.upie

/-- A write of a user register changes no machine register, and the status register only
through its user view. -/
theorem write_user (hwe : i.csr_we_int=true → i.csr_addr_i.extractLsb' 8 2=0) :
    SameMachine (write PULP_SECURE s i) s ∧
      (¬(i.csr_we_int=true ∧ i.csr_addr_i=0) → SameUser (write PULP_SECURE s i) s) := by
  have hsame : SameMachine s s ∧ (¬(i.csr_we_int=true ∧ i.csr_addr_i=0) → SameUser s s) :=
    ⟨⟨rfl,rfl,rfl,rfl,rfl,rfl⟩,fun _ => ⟨rfl,rfl⟩⟩
  unfold write
  split
  · rename_i h
    have haddr := hwe h
    have hne : ∀ a : BitVec 12,a.extractLsb' 8 2≠0 → i.csr_addr_i.toNat≠a.toNat :=
      fun a ha he => ha (by rw [←BitVec.eq_of_toNat_eq he,haddr])
    split
    · exact absurd ‹_› (hne 0x300 (by decide))
    · exact absurd ‹_› (hne 0x341 (by decide))
    · exact absurd ‹_› (hne 0x342 (by decide))
    · rename_i hzero
      split
      · refine ⟨⟨rfl,rfl,rfl,rfl,rfl,rfl⟩,fun hno => absurd ⟨h,?_⟩ hno⟩
        exact BitVec.eq_of_toNat_eq hzero
      · exact hsame
    · split
      · exact ⟨⟨rfl,rfl,rfl,rfl,rfl,rfl⟩,fun _ => ⟨rfl,rfl⟩⟩
      · exact hsame
    · split
      · exact ⟨⟨rfl,rfl,rfl,rfl,rfl,rfl⟩,fun _ => ⟨rfl,rfl⟩⟩
      · exact hsame
    · exact hsame
  · exact hsame

/-- In user mode a cycle without a trap and without a machine return changes no machine
register, and the user bits only by a write of their view or a user return. -/
theorem step_user (hU : s.priv_lvl_q=PRIV_LVL_U) (hsave : i.csr_save_cause_i=false)
    (hmret : i.csr_restore_mret_i=false)
    (hwe : i.csr_we_int=true → i.csr_addr_i.extractLsb' 8 2=0) :
    SameMachine (step true s i) s ∧
      (¬(i.csr_we_int=true ∧ i.csr_addr_i=0) → i.csr_restore_uret_i=false →
        SameUser (step true s i) s) := by
  rcases write_user true hwe with ⟨hmachine,huser⟩
  unfold step next restore
  rw [hsave,hmret]
  cases i.csr_restore_uret_i with
  | true =>
    refine ⟨⟨hU.symm,hmachine.mie,hmachine.mpie,hmachine.mpp,hmachine.mepc,hmachine.mcause⟩,?_⟩
    exact fun _ h => absurd h nofun
  | false => exact ⟨hmachine,fun hno _ => huser hno⟩

end Steps

end Pulpissimo.Riscv.CsRegisters
