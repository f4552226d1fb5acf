import Mathlib.Data.Fintype.Basic
import Pulpissimo.Soc.EventGenerator

/-!
# The registers of the event generator

The registers that software reads and writes, by their offsets. Three bits of the address are
decoded, so the registers from the ninth on are reached nowhere: an access to them goes to the
first three.
-/

namespace Pulpissimo.Soc.EventGenerator

/-- The documented registers. -/
inductive Reg where
  | EVENT | FC_MASK_MSB | FC_MASK_LSB | CL_MASK_MSB | CL_MASK_LSB | PR_MASK_MSB | PR_MASK_LSB
  | ERR_MSB | ERR_LSB | TIMER_SEL_HI | TIMER_SEL_LO
deriving DecidableEq

namespace Reg

/-- Documented number of a register. -/
def number : Reg → BitVec 4
  | EVENT => REG_EVENT
  | FC_MASK_MSB => REG_FC_MASK_MSB
  | FC_MASK_LSB => REG_FC_MASK_LSB
  | CL_MASK_MSB => REG_CL_MASK_MSB
  | CL_MASK_LSB => REG_CL_MASK_LSB
  | PR_MASK_MSB => REG_PR_MASK_MSB
  | PR_MASK_LSB => REG_PR_MASK_LSB
  | ERR_MSB => REG_ERR_MSB
  | ERR_LSB => REG_ERR_LSB
  | TIMER_SEL_HI => REG_TIMER_SEL_HI
  | TIMER_SEL_LO => REG_TIMER_SEL_LO

/-- Offset from the base address. -/
def offset (r : Reg) : ℕ := 4*r.number.toNat

variable {c : Config}

/-- The registers with a word written to one of them. The errors are not written. -/
def store (w : BitVec 32) (s : State c) : Reg → State c
  | EVENT => {s with r_apb_events := w.setWidth c.APB_EVNT_NUM}
  | FC_MASK_MSB => {s with r_fc_mask := setMsb s.r_fc_mask w}
  | FC_MASK_LSB => {s with r_fc_mask := setLsb s.r_fc_mask w}
  | CL_MASK_MSB => {s with r_cl_mask := setMsb s.r_cl_mask w}
  | CL_MASK_LSB => {s with r_cl_mask := setLsb s.r_cl_mask w}
  | PR_MASK_MSB => {s with r_pr_mask := setMsb s.r_pr_mask w}
  | PR_MASK_LSB => {s with r_pr_mask := setLsb s.r_pr_mask w}
  | ERR_MSB | ERR_LSB => s
  | TIMER_SEL_HI => {s with r_timer_sel_hi := w.setWidth 6}
  | TIMER_SEL_LO => {s with r_timer_sel_lo := w.setWidth 6}

/-- What a written word reads as. The events last one cycle, and the errors are not written. -/
def kept (w : BitVec 32) : Reg → Option (BitVec 32)
  | EVENT | ERR_MSB | ERR_LSB => none
  | TIMER_SEL_HI | TIMER_SEL_LO => some ((w.setWidth 6).setWidth 32)
  | _ => some w

/-- The register that an access to a documented one reaches. -/
def reached : Reg → Reg
  | ERR_LSB => EVENT
  | TIMER_SEL_HI => FC_MASK_MSB
  | TIMER_SEL_LO => FC_MASK_LSB
  | r => r

/-- The word that a register reads as. -/
def shown (s : State c) : Reg → BitVec 32
  | EVENT | ERR_LSB => 0
  | FC_MASK_MSB | CL_MASK_MSB | TIMER_SEL_HI => s.r_fc_mask.extractLsb' 32 32
  | FC_MASK_LSB | TIMER_SEL_LO => s.r_fc_mask.extractLsb' 0 32
  | CL_MASK_LSB => s.r_cl_mask.extractLsb' 0 32
  | PR_MASK_MSB => s.r_pr_mask.extractLsb' 32 32
  | PR_MASK_LSB => s.r_pr_mask.extractLsb' 0 32
  | ERR_MSB => s.r_err.extractLsb' 32 32

end Reg

variable {c : Config}

/-- The access writes. -/
def Writes (i : Input c) : Prop := i.PSEL=true ∧ i.PENABLE=true ∧ i.PWRITE=true

/-- The cycle without the access. -/
def quiet (i : Input c) : Input c := {i with PSEL := false}

/-- A write to a documented register changes its implemented bits and nothing else, and reads of
this register, and of all others, are as they should be. -/
structure WritesTo (s : State c) (i : Input c) (r : Reg) : Prop where
  effect : step s i=r.store i.PWDATA (step s (quiet i))
  readback : ∀ v ∈ r.kept i.PWDATA, ∀ j : Input c, j.PADDR.toNat=r.offset → PRDATA (step s i) j=v
  others : ∀ q, q ≠ r → ∀ j : Input c, j.PADDR.toNat=q.offset →
    PRDATA (step s i) j=PRDATA (step s (quiet i)) j

/-- A write does what is documented for its address, which is nothing at all where there is no
register. -/
def WriteRight (s : State c) (i : Input c) : Prop :=
  (∀ r : Reg, i.PADDR.toNat=r.offset → WritesTo s i r) ∧
    ((∀ r : Reg, i.PADDR.toNat ≠ r.offset) → step s i=step s (quiet i))

/-- The register has the word already. -/
def Reg.Has (w : BitVec 32) (s : State c) : Reg → Prop
  | .EVENT => w.setWidth c.APB_EVNT_NUM=0
  | .FC_MASK_MSB => s.r_fc_mask.extractLsb' 32 32=w
  | .FC_MASK_LSB => s.r_fc_mask.extractLsb' 0 32=w
  | .CL_MASK_MSB => s.r_cl_mask.extractLsb' 32 32=w
  | .CL_MASK_LSB => s.r_cl_mask.extractLsb' 0 32=w
  | .PR_MASK_MSB => s.r_pr_mask.extractLsb' 32 32=w
  | .PR_MASK_LSB => s.r_pr_mask.extractLsb' 0 32=w
  | .ERR_MSB | .ERR_LSB => True
  | .TIMER_SEL_HI => s.r_timer_sel_hi.setWidth 32=w
  | .TIMER_SEL_LO => s.r_timer_sel_lo.setWidth 32=w

/-- Where a write to a documented register goes right: the masks of the controller are read at two
more addresses, and the upper one in place of that of the cluster; the registers past the eighth
are not written, but others are. -/
def Reg.Fits (w : BitVec 32) (s : State c) : Reg → Prop
  | .EVENT | .CL_MASK_LSB | .PR_MASK_MSB | .PR_MASK_LSB | .ERR_MSB => True
  | .FC_MASK_MSB | .CL_MASK_MSB => Reg.FC_MASK_MSB.Has w s
  | .FC_MASK_LSB => Reg.FC_MASK_LSB.Has w s
  | .ERR_LSB => Reg.EVENT.Has w s
  | .TIMER_SEL_HI => Reg.FC_MASK_MSB.Has w s ∧ Reg.TIMER_SEL_HI.Has w s
  | .TIMER_SEL_LO => Reg.FC_MASK_LSB.Has w s ∧ Reg.TIMER_SEL_LO.Has w s

/-- Where a write goes right at its address. At one without a register, another register is
reached, which must have the word already. -/
def Fits (s : State c) (i : Input c) : Prop :=
  (∀ r : Reg, i.PADDR.toNat=r.offset → r.Fits i.PWDATA s) ∧
    ((∀ r : Reg, i.PADDR.toNat ≠ r.offset) →
      ∀ q : Reg, q.reached=q → s_apb_addr i=q.number → q.Has i.PWDATA s)

section Decode

variable (s : State c) (i : Input c)

theorem toNat_s_apb_addr : (s_apb_addr i).toNat=i.PADDR.toNat/4%8 := by
  unfold s_apb_addr
  rw [BitVec.toNat_setWidth,BitVec.extractLsb'_toNat,Nat.shiftRight_eq_div_pow]
  omega

/-- The decoded number is that of the register that is reached. -/
theorem s_apb_addr_eq {r : Reg} (hr : i.PADDR.toNat=r.offset) :
    s_apb_addr i=r.reached.number := by
  apply BitVec.eq_of_toNat_eq
  rw [toNat_s_apb_addr,hr]
  cases r <;> rfl

theorem PRDATA_eq {r : Reg} (hr : i.PADDR.toNat=r.offset) : PRDATA s i=r.shown s := by
  have haddr := s_apb_addr_eq i hr
  unfold PRDATA
  rw [haddr]
  cases r <;> rfl

/-- A write goes to the register that is reached. -/
theorem apbWrite_eq {r : Reg} (hr : s_apb_addr i=r.number) (hlow : r.reached=r) :
    apbWrite s i=r.store i.PWDATA s := by
  unfold apbWrite
  rw [hr]
  cases r <;> first | rfl | exact absurd hlow (by decide)

/-- A write is what it makes of the cycle without the access. -/
theorem step_write (h : Writes i) : step s i=apbWrite (step s (quiet i)) i := by
  obtain ⟨hsel,hen,hwrite⟩ := h
  unfold step
  rw [hsel,hen,hwrite]
  rfl

/-- The access changes no other register in its cycle. -/
theorem step_quiet : (step s (quiet i)).r_apb_events=0 ∧
    (step s (quiet i)).r_fc_mask=s.r_fc_mask ∧ (step s (quiet i)).r_cl_mask=s.r_cl_mask ∧
    (step s (quiet i)).r_pr_mask=s.r_pr_mask ∧
    (step s (quiet i)).r_timer_sel_hi=s.r_timer_sel_hi ∧
    (step s (quiet i)).r_timer_sel_lo=s.r_timer_sel_lo :=
  ⟨rfl,rfl,rfl,rfl,rfl,rfl⟩

theorem reached_reached (r : Reg) : r.reached.reached=r.reached := by cases r <;> rfl

end Decode

section Words

variable (r : BitVec 64) (w : BitVec 32)

@[simp] theorem msb_setMsb : (setMsb r w).extractLsb' 32 32=w := BitVec.extractLsb'_append_eq_left

@[simp] theorem lsb_setMsb : (setMsb r w).extractLsb' 0 32=r.extractLsb' 0 32 :=
  BitVec.extractLsb'_append_eq_right

@[simp] theorem msb_setLsb : (setLsb r w).extractLsb' 32 32=r.extractLsb' 32 32 :=
  BitVec.extractLsb'_append_eq_left

@[simp] theorem lsb_setLsb : (setLsb r w).extractLsb' 0 32=w := BitVec.extractLsb'_append_eq_right

theorem join_words : r.extractLsb' 32 32++r.extractLsb' 0 32=r := by
  apply BitVec.eq_of_toNat_eq
  rw [Bits.toNat_join,BitVec.extractLsb'_toNat,BitVec.extractLsb'_toNat,Nat.shiftRight_eq_div_pow]
  have hr := r.isLt
  omega

theorem setMsb_eq_iff : setMsb r w=r ↔ r.extractLsb' 32 32=w := by
  refine ⟨fun h => h ▸ msb_setMsb r w,fun h => ?_⟩
  rw [←h]
  exact join_words r

theorem setLsb_eq_iff : setLsb r w=r ↔ r.extractLsb' 0 32=w := by
  refine ⟨fun h => h ▸ lsb_setLsb r w,fun h => ?_⟩
  rw [←h]
  exact join_words r

end Words

section Effect

variable {s : State c} {i : Input c} {w : BitVec 32}

/-- A write leaves the registers as they are exactly if the one that is reached has the word. -/
theorem Reg.store_eq_iff {r : Reg} (hevents : s.r_apb_events=0) (hlow : r.reached=r) :
    r.store w s=s ↔ r.Has w s := by
  have hmsb := fun v : BitVec 64 => setMsb_eq_iff v w
  have hlsb := fun v : BitVec 64 => setLsb_eq_iff v w
  cases r with
  | EVENT =>
    constructor
    · intro h
      exact (congrArg State.r_apb_events h).trans hevents
    · intro h
      change {s with r_apb_events := w.setWidth c.APB_EVNT_NUM}=s
      rw [h.trans hevents.symm]
  | FC_MASK_MSB =>
    refine ⟨fun h => (hmsb _).mp (congrArg State.r_fc_mask h),fun h => ?_⟩
    change {s with r_fc_mask := setMsb s.r_fc_mask w}=s
    rw [(hmsb _).mpr h]
  | FC_MASK_LSB =>
    refine ⟨fun h => (hlsb _).mp (congrArg State.r_fc_mask h),fun h => ?_⟩
    change {s with r_fc_mask := setLsb s.r_fc_mask w}=s
    rw [(hlsb _).mpr h]
  | CL_MASK_MSB =>
    refine ⟨fun h => (hmsb _).mp (congrArg State.r_cl_mask h),fun h => ?_⟩
    change {s with r_cl_mask := setMsb s.r_cl_mask w}=s
    rw [(hmsb _).mpr h]
  | CL_MASK_LSB =>
    refine ⟨fun h => (hlsb _).mp (congrArg State.r_cl_mask h),fun h => ?_⟩
    change {s with r_cl_mask := setLsb s.r_cl_mask w}=s
    rw [(hlsb _).mpr h]
  | PR_MASK_MSB =>
    refine ⟨fun h => (hmsb _).mp (congrArg State.r_pr_mask h),fun h => ?_⟩
    change {s with r_pr_mask := setMsb s.r_pr_mask w}=s
    rw [(hmsb _).mpr h]
  | PR_MASK_LSB =>
    refine ⟨fun h => (hlsb _).mp (congrArg State.r_pr_mask h),fun h => ?_⟩
    change {s with r_pr_mask := setLsb s.r_pr_mask w}=s
    rw [(hlsb _).mpr h]
  | ERR_MSB => exact iff_of_true rfl trivial
  | ERR_LSB | TIMER_SEL_HI | TIMER_SEL_LO => exact absurd hlow (by decide)

/-- What a write has to do, in terms of the register that it reaches. -/
structure Reg.Right (r : Reg) (w : BitVec 32) (s : State c) : Prop where
  effect : r.reached.store w s=r.store w s
  readback : ∀ v ∈ r.kept w, r.shown (r.reached.store w s)=v
  others : ∀ q, q ≠ r → q.shown (r.reached.store w s)=q.shown s

theorem Reg.right_iff (r : Reg) (hevents : s.r_apb_events=0) : r.Right w s ↔ r.Fits w s := by
  have hsame : ∀ q : Reg, q.reached=q → q.Has w s → q.store w s=s := fun q hq h =>
    (q.store_eq_iff hevents hq).mpr h
  cases r with
  | EVENT => exact iff_of_true ⟨rfl,fun v hv => (nomatch hv),fun q _ => by cases q <;> rfl⟩ trivial
  | ERR_MSB => exact iff_of_true ⟨rfl,fun v hv => (nomatch hv),fun q _ => rfl⟩ trivial
  | CL_MASK_LSB | PR_MASK_MSB | PR_MASK_LSB =>
    refine iff_of_true ⟨rfl,fun v hv => ?_,fun q hq => ?_⟩ trivial
    · obtain rfl := Option.mem_some_iff.mp hv
      simp [Reg.shown,Reg.reached,Reg.store]
    · cases q <;> first | exact absurd rfl hq | simp [Reg.shown,Reg.reached,Reg.store]
  | FC_MASK_MSB =>
    constructor
    · intro h
      have hread := h.others .CL_MASK_MSB (by decide)
      change (setMsb s.r_fc_mask w).extractLsb' 32 32=_ at hread
      rw [msb_setMsb] at hread
      exact hread.symm
    · intro h
      have hstay := hsame .FC_MASK_MSB rfl h
      refine ⟨rfl,fun v hv => ?_,fun q _ => congrArg (fun s => q.shown s) hstay⟩
      obtain rfl := Option.mem_some_iff.mp hv
      exact msb_setMsb _ _
  | FC_MASK_LSB =>
    constructor
    · intro h
      have hread := h.others .TIMER_SEL_LO (by decide)
      change (setLsb s.r_fc_mask w).extractLsb' 0 32=_ at hread
      rw [lsb_setLsb] at hread
      exact hread.symm
    · intro h
      have hstay := hsame .FC_MASK_LSB rfl h
      refine ⟨rfl,fun v hv => ?_,fun q _ => congrArg (fun s => q.shown s) hstay⟩
      obtain rfl := Option.mem_some_iff.mp hv
      exact lsb_setLsb _ _
  | CL_MASK_MSB =>
    refine ⟨fun h => h.readback w rfl,fun h => ⟨rfl,fun v hv => ?_,fun q hq => ?_⟩⟩
    · obtain rfl := Option.mem_some_iff.mp hv
      exact h
    · cases q <;> first | exact absurd rfl hq | simp [Reg.shown,Reg.reached,Reg.store]
  | ERR_LSB =>
    refine ⟨fun h => (Reg.store_eq_iff hevents rfl).mp h.effect,fun h => ?_⟩
    have hstay := hsame .EVENT rfl h
    exact ⟨hstay,fun v hv => (nomatch hv),fun q _ => congrArg (fun s => q.shown s) hstay⟩
  | TIMER_SEL_HI =>
    constructor
    · intro h
      have hread := h.readback _ rfl
      change (setMsb s.r_fc_mask w).extractLsb' 32 32=_ at hread
      rw [msb_setMsb] at hread
      have htimer : s.r_timer_sel_hi=w.setWidth 6 := congrArg State.r_timer_sel_hi h.effect
      refine ⟨(setMsb_eq_iff _ _).mp (congrArg State.r_fc_mask h.effect),?_⟩
      exact (congrArg (BitVec.setWidth 32) htimer).trans hread.symm
    · rintro ⟨hmask,htimer⟩
      have hstay := hsame .FC_MASK_MSB rfl hmask
      have hkeep : w.setWidth 6=s.r_timer_sel_hi := by
        rw [←htimer,BitVec.setWidth_setWidth_of_le _ (by decide),BitVec.setWidth_eq]
      refine ⟨?_,fun v hv => ?_,fun q _ => congrArg (fun s => q.shown s) hstay⟩
      · refine hstay.trans ?_
        change s={s with r_timer_sel_hi := w.setWidth 6}
        rw [hkeep]
      · obtain rfl := Option.mem_some_iff.mp hv
        rw [hkeep]
        exact (msb_setMsb _ _).trans htimer.symm
  | TIMER_SEL_LO =>
    constructor
    · intro h
      have hread := h.readback _ rfl
      change (setLsb s.r_fc_mask w).extractLsb' 0 32=_ at hread
      rw [lsb_setLsb] at hread
      have htimer : s.r_timer_sel_lo=w.setWidth 6 := congrArg State.r_timer_sel_lo h.effect
      refine ⟨(setLsb_eq_iff _ _).mp (congrArg State.r_fc_mask h.effect),?_⟩
      exact (congrArg (BitVec.setWidth 32) htimer).trans hread.symm
    · rintro ⟨hmask,htimer⟩
      have hstay := hsame .FC_MASK_LSB rfl hmask
      have hkeep : w.setWidth 6=s.r_timer_sel_lo := by
        rw [←htimer,BitVec.setWidth_setWidth_of_le _ (by decide),BitVec.setWidth_eq]
      refine ⟨?_,fun v hv => ?_,fun q _ => congrArg (fun s => q.shown s) hstay⟩
      · refine hstay.trans ?_
        change s={s with r_timer_sel_lo := w.setWidth 6}
        rw [hkeep]
      · obtain rfl := Option.mem_some_iff.mp hv
        rw [hkeep]
        exact (lsb_setLsb _ _).trans htimer.symm

/-- A read of a register, with the other inputs of a cycle. -/
def readOf (i : Input c) (r : Reg) : Input c := {i with PADDR := BitVec.ofNat _ r.offset}

theorem toNat_readOf (hwide : 6 ≤ c.APB_ADDR_WIDTH) (r : Reg) :
    (readOf i r).PADDR.toNat=r.offset := by
  have hpow : 2^6 ≤ 2^c.APB_ADDR_WIDTH := Nat.pow_le_pow_right (by decide) hwide
  have hoffset : r.offset < 2^6 := by cases r <;> decide
  exact (BitVec.toNat_ofNat _ _).trans (Nat.mod_eq_of_lt (hoffset.trans_le hpow))

theorem writesTo_iff (hwide : 6 ≤ c.APB_ADDR_WIDTH) (h : Writes i) {r : Reg}
    (hr : i.PADDR.toNat=r.offset) :
    WritesTo s i r ↔ r.Right i.PWDATA (step s (quiet i)) := by
  have hstep : step s i=r.reached.store i.PWDATA (step s (quiet i)) := by
    rw [step_write s i h]
    exact apbWrite_eq _ i (s_apb_addr_eq i hr) (reached_reached r)
  constructor
  · intro hw
    refine ⟨hstep.symm.trans hw.effect,fun v hv => ?_,fun q hq => ?_⟩
    · rw [←hstep,←PRDATA_eq _ (readOf i r) (toNat_readOf hwide r)]
      exact hw.readback v hv _ (toNat_readOf hwide r)
    · rw [←hstep,←PRDATA_eq _ (readOf i q) (toNat_readOf hwide q),
        ←PRDATA_eq _ (readOf i q) (toNat_readOf hwide q)]
      exact hw.others q hq _ (toNat_readOf hwide q)
  · intro hw
    refine ⟨hstep.trans hw.effect,fun v hv j hj => ?_,fun q hq j hj => ?_⟩
    · rw [PRDATA_eq _ j hj,hstep]
      exact hw.readback v hv
    · rw [PRDATA_eq _ j hj,PRDATA_eq _ j hj,hstep]
      exact hw.others q hq

theorem Reg.fits_quiet (r : Reg) : r.Fits w (step s (quiet i)) ↔ r.Fits w s := by
  cases r <;> exact Iff.rfl

theorem Reg.has_quiet (r : Reg) : r.Has w (step s (quiet i)) ↔ r.Has w s := by
  cases r <;> exact Iff.rfl

/-- A number below eight is that of a register that is reached. -/
theorem exists_reached (i : Input c) : ∃ q : Reg, q.reached=q ∧ s_apb_addr i=q.number := by
  have hlow : (s_apb_addr i).toNat < 8 := by
    rw [toNat_s_apb_addr]
    exact Nat.mod_lt _ (by decide)
  have hall : ∀ v : BitVec 4, v.toNat < 8 → ∃ q ∈ [Reg.EVENT,.FC_MASK_MSB,.FC_MASK_LSB,
      .CL_MASK_MSB,.CL_MASK_LSB,.PR_MASK_MSB,.PR_MASK_LSB,.ERR_MSB],
      q.reached=q ∧ v=q.number := by decide
  obtain ⟨q,-,hq⟩ := hall _ hlow
  exact ⟨q,hq⟩

end Effect

/-- In every state, a write of every word to every address does what is documented exactly where
the address is that of the events, the lower mask of the cluster, a mask of the peripherals or the
upper errors, or the registers that are reached besides have the word already. -/
theorem writeRight_iff (hwide : 6 ≤ c.APB_ADDR_WIDTH) (s : State c) {i : Input c} (h : Writes i) :
    WriteRight s i ↔ Fits s i := by
  have hright : ∀ r : Reg, r.Right i.PWDATA (step s (quiet i)) ↔ r.Fits i.PWDATA s := fun r =>
    (r.right_iff (step_quiet s i).1).trans r.fits_quiet
  refine and_congr (forall_congr' fun r => forall_congr' fun hr =>
    (writesTo_iff hwide h hr).trans (hright r)) (forall_congr' fun _ => ?_)
  rw [step_write s i h]
  have hstore : ∀ q : Reg, q.reached=q → s_apb_addr i=q.number →
      (apbWrite (step s (quiet i)) i=step s (quiet i) ↔ q.Has i.PWDATA s) := by
    intro q hlow hq
    rw [apbWrite_eq _ i hq hlow,Reg.store_eq_iff (step_quiet s i).1 hlow,q.has_quiet]
  constructor
  · exact fun hstay q hlow hq => (hstore q hlow hq).mp hstay
  · intro hall
    obtain ⟨q,hlow,hq⟩ := exists_reached i
    exact (hstore q hlow hq).mpr (hall q hlow hq)

/-- A write of a word to an offset. -/
def write (offset : BitVec 12) (w : BitVec 32) : Input soc :=
  ⟨offset,w,true,true,true,false,0,false,false,false⟩

/-- A write of the lower mask of the cluster goes right. -/
theorem writeRight_iff_example : WriteRight (reset : State soc) (write 0x10 5) := by
  refine (writeRight_iff (by decide) reset ⟨rfl,rfl,rfl⟩).mpr ⟨fun r hr => ?_,fun hnone => ?_⟩
  · have hcl : r=.CL_MASK_LSB := by
      cases r <;> first | rfl | exact absurd hr (by decide)
    rw [hcl]
    trivial
  · exact absurd rfl (hnone .CL_MASK_LSB)

/-- A write of the selection of a timer changes the upper mask of the controller instead. -/
theorem not_writeRight_timer : ¬WriteRight (reset : State soc) (write 0x24 5) := by
  intro h
  have heffect := congrArg State.r_fc_mask (h.1 .TIMER_SEL_HI rfl).effect
  exact absurd heffect (by decide)

end Pulpissimo.Soc.EventGenerator
