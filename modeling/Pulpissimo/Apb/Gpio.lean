import Mathlib.Data.BitVec
import Mathlib.Tactic.SplitIfs
import Pulpissimo.Lib.Bits
import Pulpissimo.Lib.Indices
import Pulpissimo.Lib.Machine

/-!
# The APB GPIO and its lock register

`apb_gpio` as one next-state function of its registers: the write decoder
with the direct, set and clear addresses, the clock-gated input synchronisers,
the interrupt status and the read multiplexer. The lock register gates the
direct writes of the direction and output registers. What a lock bit does
keep, and over which runs, is stated at the end.
-/

namespace Pulpissimo.Apb.Gpio

open Pulpissimo.Machine Pulpissimo.Bits

/-- The register map. `padcfg k` is `REG_PADCFG0` to `REG_PADCFG7`. -/
inductive Reg
  | paddir | padin | padout | inten | inttype0 | inttype1 | intstatus | gpioen
  | padcfg (k : Fin 8)
  | padoutset | padoutclr | gpiolock
  | unmapped
  deriving DecidableEq

/-- Decode of the five-bit register number. -/
def Reg.decode (s_apb_addr : BitVec 5) : Reg :=
  match s_apb_addr.toNat with
  | 0b00000 => .paddir
  | 0b00001 => .padin
  | 0b00010 => .padout
  | 0b00011 => .inten
  | 0b00100 => .inttype0
  | 0b00101 => .inttype1
  | 0b00110 => .intstatus
  | 0b00111 => .gpioen
  | 0b01000 => .padcfg 0
  | 0b01001 => .padcfg 1
  | 0b01010 => .padcfg 2
  | 0b01011 => .padcfg 3
  | 0b01100 => .padcfg 4
  | 0b01101 => .padcfg 5
  | 0b01110 => .padcfg 6
  | 0b01111 => .padcfg 7
  | 0b10000 => .padoutset
  | 0b10001 => .padoutclr
  | 0b10010 => .gpiolock
  | _ => .unmapped

/-- Registers of the block. -/
structure State where
  /-- Interrupt enables. -/
  r_gpio_inten : BitVec 32
  /-- Interrupt types of the low sixteen pads. -/
  r_gpio_inttype0 : BitVec 32
  /-- Interrupt types of the high sixteen pads. -/
  r_gpio_inttype1 : BitVec 32
  /-- Output values. -/
  r_gpio_out : BitVec 32
  /-- Pad directions. -/
  r_gpio_dir : BitVec 32
  /-- First synchroniser stage. -/
  r_gpio_sync0 : BitVec 32
  /-- Second synchroniser stage. -/
  r_gpio_sync1 : BitVec 32
  /-- Last stage, kept for edge detection and read as PADIN. -/
  r_gpio_in : BitVec 32
  /-- Pad clock enables. -/
  r_gpio_en : BitVec 32
  /-- Lock bits. -/
  r_gpio_lock : BitVec 32
  /-- Pending interrupts. -/
  r_status : BitVec 32
  /-- Pad configurations. -/
  gpio_padcfg : Fin 32 → BitVec 6

/-- One cycle of inputs. -/
structure Input where
  /-- Register address on the bus. -/
  PADDR : BitVec 12
  /-- Write data. -/
  PWDATA : BitVec 32
  /-- Direction, true for a write. -/
  PWRITE : Bool
  /-- Select. -/
  PSEL : Bool
  /-- Access phase. -/
  PENABLE : Bool
  /-- Pad inputs. -/
  gpio_in : BitVec 32
  /-- Test mode, which opens every clock gate. -/
  dft_cg_enable_i : Bool

/-- Register that `PADDR[6:2]` addresses. -/
def Input.reg (i : Input) : Reg := Reg.decode (i.PADDR.extractLsb' 2 5)

/-- The access that `PSEL && PENABLE && PWRITE` accepts. -/
def Input.writes (i : Input) : Bool := i.PSEL && i.PENABLE && i.PWRITE

/-- Values after reset. -/
def reset : State :=
  ⟨0,0,0,0,0,0,0,0,0,0,0,fun _ => 0b000010⟩

/-- Interrupt type bits of pad `k`: `r_gpio_inttype0` serves the low sixteen
pads and `r_gpio_inttype1` the others, two bits each. -/
def inttype (s : State) (k : ℕ) : Bool×Bool :=
  let r := if k<16 then s.r_gpio_inttype0 else s.r_gpio_inttype1
  (r.getLsbD (k%16*2),r.getLsbD (k%16*2+1))

/-- `s_is_int_all`: enabled pads whose configured edge occurred. -/
def s_is_int_all (s : State) : BitVec 32 :=
  ofBits fun k : Fin 32 =>
    let rise := s.r_gpio_sync1.getLsbD k && !s.r_gpio_in.getLsbD k
    let fall := !s.r_gpio_sync1.getLsbD k && s.r_gpio_in.getLsbD k
    let t := inttype s k
    s.r_gpio_inten.getLsbD k && s.r_gpio_en.getLsbD k &&
      ((!t.2 && t.1 && rise) || (!t.2 && !t.1 && fall) || (t.2 && !t.1 && (rise || fall)))

/-- `s_rise_int`, also the `interrupt` output. -/
def s_rise_int (s : State) : Bool := s_is_int_all s≠0

/-- Next `r_status`: new events first, else a read of the register clears it. -/
def statusNext (s : State) (i : Input) : BitVec 32 :=
  if s_rise_int s=true then s.r_status ||| s_is_int_all s
  else if i.PSEL && i.PENABLE && !i.PWRITE && i.reg==.intstatus then 0
  else s.r_status

/-- `s_clk_en` of the clock gate that serves pad `k`, opened in test mode. -/
def clockOn (s : State) (i : Input) (k : ℕ) : Bool :=
  let g := k/4*4
  s.r_gpio_en.getLsbD g || s.r_gpio_en.getLsbD (g+1) || s.r_gpio_en.getLsbD (g+2) ||
    s.r_gpio_en.getLsbD (g+3) || i.dft_cg_enable_i

/-- A register on the gated clocks takes `new` in the groups whose gate is open. -/
def gated (s : State) (i : Input) (new old : BitVec 32) : BitVec 32 :=
  ofBits fun k : Fin 32 => if clockOn s i k=true then new.getLsbD k else old.getLsbD k

/-- The registers on the ungated and gated clocks that no write reaches. -/
def sampled (s : State) (i : Input) : State :=
  { s with
    r_status := statusNext s i
    r_gpio_sync0 := gated s i i.gpio_in s.r_gpio_sync0
    r_gpio_sync1 := gated s i s.r_gpio_sync0 s.r_gpio_sync1
    r_gpio_in := gated s i s.r_gpio_sync1 s.r_gpio_in }

/-- The four pad configurations of register `k`, one byte lane each. -/
def padcfgNext (k : ℕ) (pwdata : BitVec 32) (old : Fin 32 → BitVec 6) : Fin 32 → BitVec 6 :=
  fun p => if p.val/4=k then pwdata.extractLsb' (p.val%4*8) 6 else old p

/-- The write decoder. A locked direct write of PADDIR or PADOUT stores zero;
the set and clear addresses and the lock register have no lock test. -/
def writeReg (s : State) (r : Reg) (PWDATA : BitVec 32) : State :=
  match r with
  | .paddir =>
    let pwdata_l := if s.r_gpio_lock.getLsbD 0=false then PWDATA else 0
    { s with r_gpio_dir := pwdata_l }
  | .padout =>
    let pwdata_l := if s.r_gpio_lock.getLsbD 2=false then PWDATA else 0
    { s with r_gpio_out := pwdata_l }
  | .padoutset => { s with r_gpio_out := s.r_gpio_out ||| PWDATA }
  | .padoutclr => { s with r_gpio_out := s.r_gpio_out &&& ~~~PWDATA }
  | .inten => { s with r_gpio_inten := PWDATA }
  | .inttype0 => { s with r_gpio_inttype0 := PWDATA }
  | .inttype1 => { s with r_gpio_inttype1 := PWDATA }
  | .gpioen => { s with r_gpio_en := PWDATA }
  | .gpiolock => { s with r_gpio_lock := PWDATA }
  | .padcfg k => { s with gpio_padcfg := padcfgNext k PWDATA s.gpio_padcfg }
  | .padin | .intstatus | .unmapped => s

/-- One clock edge. The sampled registers read the values before the write. -/
def step (s : State) (i : Input) : State :=
  if i.writes=true then writeReg (sampled s i) i.reg i.PWDATA else sampled s i

/-- Read value of the four pad configurations of register `k`. -/
def padcfgRead (s : State) (k : Fin 8) : BitVec 32 :=
  let c (j : Fin 4) := s.gpio_padcfg ⟨4*k+j,by omega⟩
  0#2++c 3++0#2++c 2++0#2++c 1++0#2++c 0

/-- The read multiplexer, combinational in the address. -/
def PRDATA (s : State) (i : Input) : BitVec 32 :=
  match i.reg with
  | .paddir => if s.r_gpio_lock.getLsbD 0=false then s.r_gpio_dir else 0
  | .padin => if s.r_gpio_lock.getLsbD 1=false then s.r_gpio_in else 0
  | .padout => if s.r_gpio_lock.getLsbD 2=false then s.r_gpio_out else 0
  | .inten => s.r_gpio_inten
  | .inttype0 => s.r_gpio_inttype0
  | .inttype1 => s.r_gpio_inttype1
  | .intstatus => s.r_status
  | .gpioen => s.r_gpio_en
  | .gpiolock => s.r_gpio_lock
  | .padcfg k => padcfgRead s k
  | .padoutset | .padoutclr | .unmapped => 0

/-- The registers that the lock register has a bit for. -/
inductive Locked
  | paddir | padin | padout
  deriving DecidableEq

/-- Lock bit of a register. -/
def Locked.bit : Locked → ℕ
  | .paddir => 0 | .padin => 1 | .padout => 2

/-- Value of the register that a lock bit is for. -/
def Locked.value (l : Locked) (s : State) : BitVec 32 :=
  match l with
  | .paddir => s.r_gpio_dir
  | .padin => s.r_gpio_in
  | .padout => s.r_gpio_out

/-- The lock bit is set. -/
def Locked.set (l : Locked) (s : State) : Prop := s.r_gpio_lock.getLsbD l.bit=true

instance (l : Locked) (s : State) : Decidable (l.set s) :=
  inferInstanceAs (Decidable (s.r_gpio_lock.getLsbD l.bit=true))

/-- The same cycle without a bus access. -/
def Input.quiet (i : Input) : Input := { i with PSEL := false }

/-- A cycle respects a lock when its bus access leaves the lock bit set and
the register as the same cycle without the access leaves it. -/
def Respects (l : Locked) (s : State) (i : Input) : Prop :=
  l.set (step s i) ∧ l.value (step s i)=l.value (step s i.quiet)

/-- The write of this cycle misses the lock gaps: a direct write only finds
a zero register, a set or clear write names no bit it would change, and a
write of the lock register keeps the bit. -/
def Harmless (l : Locked) (s : State) (i : Input) : Prop :=
  i.writes=true →
    (i.reg=.gpiolock → i.PWDATA.getLsbD l.bit=true) ∧
    match l with
    | .paddir => i.reg=.paddir → s.r_gpio_dir=0
    | .padin => True
    | .padout => (i.reg=.padout → s.r_gpio_out=0) ∧
      (i.reg=.padoutset → s.r_gpio_out ||| i.PWDATA=s.r_gpio_out) ∧
      (i.reg=.padoutclr → s.r_gpio_out &&& ~~~i.PWDATA=s.r_gpio_out)

/-- The sampled registers touch neither the locks nor the two registers
that software writes. -/
theorem sampled_frame (s : State) (i : Input) :
    (sampled s i).r_gpio_lock=s.r_gpio_lock ∧ (sampled s i).r_gpio_dir=s.r_gpio_dir ∧
      (sampled s i).r_gpio_out=s.r_gpio_out := ⟨rfl,rfl,rfl⟩

/-- Without an access the cycle only samples. -/
theorem step_quiet (s : State) (i : Input) : step s i.quiet=sampled s i.quiet := by
  simp [step,Input.quiet,Input.writes]

/-- No access moves the synchronised inputs. -/
theorem step_in (s : State) (i : Input) : (step s i).r_gpio_in=(step s i.quiet).r_gpio_in := by
  rw [step_quiet]
  unfold step
  split_ifs
  · cases i.reg <;> rfl
  · rfl

/-- The lock register after a cycle. -/
theorem step_lock (s : State) (i : Input) :
    (step s i).r_gpio_lock=
      if i.writes=true ∧ i.reg=.gpiolock then i.PWDATA else s.r_gpio_lock := by
  unfold step
  by_cases hw : i.writes=true
  · rw [if_pos hw]
    cases hr : i.reg <;> simp [writeReg,hw,sampled_frame]
  · rw [if_neg hw,if_neg (fun h => hw h.1)]
    rfl

/-- The direction register after a cycle. -/
theorem step_dir (s : State) (i : Input) :
    (step s i).r_gpio_dir=
      if i.writes=true ∧ i.reg=.paddir then
        (if s.r_gpio_lock.getLsbD 0=false then i.PWDATA else 0)
      else s.r_gpio_dir := by
  unfold step
  by_cases hw : i.writes=true
  · rw [if_pos hw]
    cases hr : i.reg <;> simp [writeReg,hw,sampled_frame]
  · rw [if_neg hw,if_neg (fun h => hw h.1)]
    rfl

/-- The output register after a cycle, by its three addresses. -/
theorem step_out (s : State) (i : Input) :
    (step s i).r_gpio_out=
      if i.writes=true then
        match i.reg with
        | .padout => if s.r_gpio_lock.getLsbD 2=false then i.PWDATA else 0
        | .padoutset => s.r_gpio_out ||| i.PWDATA
        | .padoutclr => s.r_gpio_out &&& ~~~i.PWDATA
        | _ => s.r_gpio_out
      else s.r_gpio_out := by
  unfold step
  by_cases hw : i.writes=true
  · rw [if_pos hw,if_pos hw]
    cases hr : i.reg <;> simp [writeReg,sampled_frame]
  · rw [if_neg hw,if_neg hw]
    rfl

/-- From a locked state a cycle respects the lock exactly when its write
misses the gaps. -/
theorem respects_iff {l : Locked} {s : State} (hl : l.set s) (i : Input) :
    Respects l s i ↔ Harmless l s i := by
  have hset : l.set (step s i) ↔
      (i.writes=true → i.reg=.gpiolock → i.PWDATA.getLsbD l.bit=true) := by
    unfold Locked.set at hl ⊢
    rw [step_lock]
    split_ifs with h
    · simp [h.1,h.2]
    · simp only [hl,true_iff]
      exact fun hw hr => absurd ⟨hw,hr⟩ h
  unfold Respects Harmless
  rw [hset]
  by_cases hw : i.writes=true
  · simp only [hw,forall_const]
    refine and_congr_right fun _ => ?_
    cases l with
    | paddir =>
      simp only [Locked.value,step_dir,step_quiet,sampled_frame,hw,true_and]
      have hbit : s.r_gpio_lock.getLsbD 0=true := hl
      by_cases hr : i.reg=.paddir
      · simp only [hr,hbit,if_true,Bool.true_eq_false,if_false,forall_const]
        exact eq_comm
      · simp [hr]
    | padin => simpa [Locked.value] using step_in s i
    | padout =>
      simp only [Locked.value,step_out,step_quiet,sampled_frame,hw,if_true]
      have hbit : s.r_gpio_lock.getLsbD 2=true := hl
      cases hr : i.reg with
      | padout =>
        simp only [hbit,Bool.true_eq_false,if_false,forall_const,reduceCtorEq,false_implies,and_true]
        exact eq_comm
      | _ => simp
  · have hd : step s i=sampled s i := by simp [step,hw]
    simp only [hw,false_implies,true_and,iff_true,Bool.false_eq_true]
    rw [hd,step_quiet]
    cases l <;> rfl

/-- Every cycle of the run respects the lock, so the lock stays and a
register without inputs of its own keeps its value. -/
theorem lock_run {l : Locked} {s : State} {is : List Input} (hl : l.set s)
    (hc : Meets step (Harmless l) s is) :
    Meets step (Respects l) s is ∧ l.set (after step s is) ∧
      (l≠.padin → l.value (after step s is)=l.value s) := by
  induction is generalizing s with
  | nil => exact ⟨trivial,hl,fun _ => rfl⟩
  | cons i is ih =>
    have hi : Respects l s i := (respects_iff hl i).mpr hc.1
    obtain ⟨hrun,hset,hval⟩ := ih hi.1 hc.2
    refine ⟨⟨hi,hrun⟩,hset,fun hne => ?_⟩
    rw [after_cons,hval hne,hi.2,step_quiet]
    cases l with
    | paddir => rfl
    | padin => exact absurd rfl hne
    | padout => rfl

/-- What a lock bit is for: from a reachable state with the bit set, no run
clears the bit or changes the register, and no access disturbs it. -/
def LockLaw (l : Locked) (boot is : List Input) : Prop :=
  let s := after step reset boot
  l.set s → Meets step (Respects l) s is ∧ l.set (after step s is) ∧
    (l≠.padin → l.value (after step s is)=l.value s)

/-- The law holds of every run after reset whose later writes miss the gaps. -/
theorem lockLaw_of_harmless (l : Locked) (boot is : List Input)
    (hc : Meets step (Harmless l) (after step reset boot) is) : LockLaw l boot is :=
  fun hl => lock_run hl hc

/-- An accepted write of a register number. -/
def Input.write (register : BitVec 5) (PWDATA : BitVec 32) : Input :=
  ⟨0#5++register++0#2,PWDATA,true,true,true,0,false⟩

/-- With the output locked, writes of other registers and repeated lock
writes keep it. -/
theorem lockLaw_run :
    LockLaw .padout [Input.write 0b00010 1,Input.write 0b10010 4]
      [Input.write 0b00011 7,Input.write 0b10010 6,Input.write 0b10000 1] :=
  lockLaw_of_harmless _ _ _ (by
    refine ⟨?_,?_,?_,trivial⟩ <;> intro _ <;> decide)

/-- With PADOUT set to one and locked, a direct write zeroes it, a clear
write clears it and a write of the lock register removes the lock. -/
theorem lockLaw_broken :
    ¬LockLaw .padout [Input.write 0b00010 1,Input.write 0b10010 4] [Input.write 0b00010 1] ∧
    ¬LockLaw .padout [Input.write 0b00010 1,Input.write 0b10010 4] [Input.write 0b10001 1] ∧
    ¬LockLaw .padout [Input.write 0b00010 1,Input.write 0b10010 4] [Input.write 0b10010 0] := by
  refine ⟨fun h => ?_,fun h => ?_,fun h => ?_⟩
  · exact absurd ((h (by decide)).2.2 (by decide)) (by decide)
  · exact absurd ((h (by decide)).2.2 (by decide)) (by decide)
  · exact absurd (h (by decide)).2.1 (by decide)

end Pulpissimo.Apb.Gpio
