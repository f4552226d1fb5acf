import Pulpissimo.Lib.Machine
import Pulpissimo.Riscv.Core

/-!
# User mode of the RI5CY core

With a user mode, what runs there changes no machine register: a CSR operation in EX is
alone there, was decoded in the mode in which it executes, and is gone before a return
lowers the privilege level. Of the status register user mode writes its own two
bits.
-/

namespace Pulpissimo.Riscv.Privilege

open Pulpissimo.Machine Pulpissimo.Riscv.Decoder Pulpissimo.Riscv.Core

section Invariant

variable (p : Params) (s : State p.csr.N_PERF_COUNTERS) (i : Input)

/-- The floating point unit returns results for operations that it holds. The dispatcher
asserts this. -/
def Answers : Prop :=
  p.cfg.FPU=true → i.id.apu_valid=true →
    s.apu_disp.expects s.idEx.apu_en_ex_o s.apu_lat_ex_o=true

/-- No other unit works in EX, and the floating point unit does not hold up the ALU port. -/
structure Alone : Prop where
  data_req : s.idEx.data_req_ex_o=false
  mult_en : s.idEx.mult_en_ex_o=false
  apu_en : s.idEx.apu_en_ex_o=false
  waiting : p.cfg.FPU=true → s.apu_disp.valid_waiting=false
  latency : p.cfg.FPU=true → s.apu_disp.valid_inflight=true → s.apu_disp.apu_lat.getLsbD 1=false

/-- What every reachable state satisfies. -/
structure Sound : Prop where
  mode : CsRegisters.Mode s.cs_registers.trap
  /-- The multiplier rests when it is not used. -/
  mult : s.idEx.mult_en_ex_o=false → s.mult.mulh_CS=.IDLE
  branch : s.idEx.branch_in_ex_o=true → s.idEx.mult_en_ex_o=false
  /-- A CSR operation is alone in EX. -/
  alone : s.idEx.csr_op_ex_o≠.CSR_OP_NONE → Alone p s
  /-- In user mode it is on a user register. -/
  user : s.cs_registers.trap.priv_lvl_q=PRIV_LVL_U → s.idEx.csr_op_ex_o≠.CSR_OP_NONE →
    s.alu_operand_b_ex_o.extractLsb' 8 2=0
  /-- It is done before the end of a flush. -/
  flushed : s.ctrl.ctrl_fsm_cs=.FLUSH_WB → s.idEx.csr_op_ex_o=.CSR_OP_NONE

/-- The ID/EX registers agree in what the invariant looks at. -/
structure SameEx (x y : IdStage.IdEx) : Prop where
  mult_en : x.mult_en_ex_o=y.mult_en_ex_o
  apu_en : x.apu_en_ex_o=y.apu_en_ex_o
  csr_op : x.csr_op_ex_o=y.csr_op_ex_o
  data_req : x.data_req_ex_o=y.data_req_ex_o
  branch : x.branch_in_ex_o=y.branch_in_ex_o

end Invariant

theorem sound_reset (p : Params) : Sound p (reset (n:=p.csr.N_PERF_COUNTERS)) where
  mode := Or.inl rfl
  mult _ := rfl
  branch := nofun
  alone h := absurd rfl h
  user := nofun
  flushed := nofun

section Step

variable {p : Params} {s : State p.csr.N_PERF_COUNTERS} {i : Input}

/-- The three things that can happen to EX: it takes the instruction in ID, it takes
nothing, or it keeps what it has. -/
inductive Moves (p : Params) (s : State p.csr.N_PERF_COUNTERS) (i : Input) : Prop
  | load (hmult : (idInput p s i).mult_multicycle_i=false)
      (hvalid : IdStage.id_valid_o p.cfg (pipe p s) (idInput p s i)=true)
      (hidEx : (step p s i).idEx=s.idEx.load (IdStage.masked p.cfg (pipe p s) (idInput p s i)))
      (hb : (step p s i).alu_operand_b_ex_o=
        if (IdStage.masked p.cfg (pipe p s) (idInput p s i)).alu_en then
          if (IdStage.masked p.cfg (pipe p s) (idInput p s i)).csr_access then imm_i_type p s
          else i.alu_operand_b
        else s.alu_operand_b_ex_o)
  | bubble (hmult : (idInput p s i).mult_multicycle_i=false)
      (hready : IdStage.ex_ready_o p.cfg (pipe p s) (idInput p s i)=true)
      (hidEx : (step p s i).idEx=s.idEx.bubble)
  | hold (hbusy : (idInput p s i).data_misaligned_i=true ∨ (idInput p s i).mult_multicycle_i=true ∨
        IdStage.ex_ready_o p.cfg (pipe p s) (idInput p s i)=false)
      (hidEx : SameEx (step p s i).idEx s.idEx)
      (hb : (idInput p s i).data_misaligned_i=false →
        (step p s i).alu_operand_b_ex_o=s.alu_operand_b_ex_o)

theorem moves (p : Params) (s : State p.csr.N_PERF_COUNTERS) (i : Input) : Moves p s i := by
  have hidEx : (step p s i).idEx=IdStage.stepIdEx p.cfg (pipe p s) (idInput p s i) := rfl
  have hb : (step p s i).alu_operand_b_ex_o=stepOperandB p s i := rfl
  have hpipe : (pipe p s).idEx=s.idEx := rfl
  unfold IdStage.stepIdEx at hidEx
  unfold stepOperandB at hb
  dsimp only at hb
  cases hmis : (idInput p s i).data_misaligned_i with
  | true =>
    rw [hmis] at hidEx
    refine .hold (Or.inl hmis) ?_ fun h => absurd (hmis.symm.trans h) nofun
    cases hready : IdStage.ex_ready_o p.cfg (pipe p s) (idInput p s i) with
    | true =>
      rw [hready] at hidEx
      rw [hidEx]
      exact ⟨rfl,rfl,rfl,rfl,rfl⟩
    | false =>
      rw [hready] at hidEx
      rw [hidEx]
      exact ⟨rfl,rfl,rfl,rfl,rfl⟩
  | false => cases hmult : (idInput p s i).mult_multicycle_i with
    | true =>
      rw [hmis,hmult] at hidEx hb
      refine .hold (Or.inr (Or.inl hmult)) ?_ fun _ => hb
      rw [hidEx]
      exact ⟨rfl,rfl,rfl,rfl,rfl⟩
    | false => cases hvalid : IdStage.id_valid_o p.cfg (pipe p s) (idInput p s i) with
      | true =>
        rw [hmis,hmult,hvalid] at hidEx hb
        exact .load hmult hvalid hidEx hb
      | false => cases hready : IdStage.ex_ready_o p.cfg (pipe p s) (idInput p s i) with
        | true =>
          rw [hmis,hmult,hvalid,hready] at hidEx
          exact .bubble hmult hready hidEx
        | false =>
          rw [hmis,hmult,hvalid,hready] at hidEx
          rw [hmis,hmult,hvalid] at hb
          refine .hold (Or.inr (Or.inr hready)) ?_ fun _ => hb
          cases haccess : (pipe p s).idEx.csr_access_ex_o with
          | _ =>
            rw [haccess] at hidEx
            rw [hidEx]
            exact ⟨rfl,rfl,rfl,rfl,rfl⟩

/-- What the core knows when an instruction leaves ID. -/
theorem id_valid_facts (hvalid : IdStage.id_valid_o p.cfg (pipe p s) (idInput p s i)=true) :
    IdStage.ex_ready_o p.cfg (pipe p s) (idInput p s i)=true ∧
      IdStage.csr_apu_stall p.cfg (pipe p s) (idInput p s i)=false ∧
      (IdStage.ctrl p.cfg (pipe p s) (idInput p s i)).halt_id_o=false := by
  unfold IdStage.id_valid_o IdStage.id_ready_o at hvalid
  rw [Bool.and_eq_true,Bool.and_eq_true,Bool.and_eq_true,Bool.not_eq_true'] at hvalid
  exact ⟨hvalid.2.2,by simpa using hvalid.2.1.2,hvalid.1⟩

/-- A ready EX lets the multiplier rest. -/
theorem mult_rests (hS : Sound p s) (hmult : (idInput p s i).mult_multicycle_i=false)
    (hready : IdStage.ex_ready_o p.cfg (pipe p s) (idInput p s i)=true) :
    (step p s i).mult.mulh_CS=.IDLE := by
  have hstep : (step p s i).mult.mulh_CS=
      (Mult.control s.mult.mulh_CS (multInput p s i
        (IdStage.ex_ready_o p.cfg (pipe p s) (idInput p s i)))).mulh_NS := rfl
  rw [hready] at hstep
  change Mult.multicycle_o s.mult (multInput p s i false)=false at hmult
  unfold Mult.multicycle_o at hmult
  cases hcs : s.mult.mulh_CS with
  | IDLE =>
    have hrest : (i.mult.operator_i==.MUL_H && s.idEx.mult_en_ex_o)=false := by
      cases hen : s.idEx.mult_en_ex_o with
      | false => exact Bool.and_false _
      | true =>
        -- only a branch is ready while a unit is not, and it does not multiply
        have hbranch : s.idEx.branch_in_ex_o=false := by
          cases hb : s.idEx.branch_in_ex_o with
          | false => rfl
          | true => exact absurd ((hS.branch hb).symm.trans hen) nofun
        have hunits : IdStage.ex_ready_o p.cfg (pipe p s) (idInput p s i)=true → 
            (idInput p s i).mult_ready=true := by
          unfold IdStage.ex_ready_o IdStage.units_ready
          change (_ || s.idEx.branch_in_ex_o)=true → _
          rw [hbranch,Bool.or_false]
          simp only [Bool.and_eq_true]
          exact fun h => h.1.2.1.1.2
        have hmr : Mult.ready_o s.mult (multInput p s i false)=true := hunits hready
        unfold Mult.ready_o multInput at hmr
        rw [hcs,hen] at hmr
        change (!(i.mult.operator_i==.MUL_H && true))=true at hmr
        rwa [Bool.not_eq_true'] at hmr
    rw [hstep,hcs]
    unfold multInput Mult.control
    dsimp only
    rw [hrest]
    rfl
  | FINISH =>
    rw [hstep,hcs]
    rfl
  | _ =>
    rw [hcs] at hmult
    exact absurd hmult nofun

/-- The multiplier that is not used stays at rest. -/
theorem mult_stays (hS : Sound p s) (hen : s.idEx.mult_en_ex_o=false) :
    (step p s i).mult.mulh_CS=.IDLE := by
  have hstep : (step p s i).mult.mulh_CS=
      (Mult.control s.mult.mulh_CS (multInput p s i
        (IdStage.ex_ready_o p.cfg (pipe p s) (idInput p s i)))).mulh_NS := rfl
  rw [hstep,hS.mult hen]
  unfold multInput Mult.control
  dsimp only
  rw [hen,Bool.and_false]
  rfl

/-- A CSR operation alone in EX makes the LSU and the multiplier idle. -/
theorem alone_idle (hS : Sound p s) (hA : Alone p s) :
    (idInput p s i).data_misaligned_i=false ∧ (idInput p s i).mult_multicycle_i=false := by
  constructor
  · change (s.idEx.data_req_ex_o && !s.idEx.data_misaligned_ex_o && i.misaligned)=false
    rw [hA.data_req]
    rfl
  · change Mult.multicycle_o s.mult (multInput p s i false)=false
    unfold Mult.multicycle_o
    rw [hS.mult hA.mult_en]
    rfl

/-- It is done as soon as all units are. -/
theorem alone_ready (hA : Alone p s) (hans : Answers p s i)
    (hunits : IdStage.units_ready (idInput p s i)=true) :
    IdStage.ex_ready_o p.cfg (pipe p s) (idInput p s i)=true := by
  unfold IdStage.ex_ready_o
  rw [hunits]
  cases hfpu : p.cfg.FPU with
  | false => rfl
  | true =>
    have hwait := hA.waiting hfpu
    have hstall : (idInput p s i).apu_stall=false := by
      change s.apu_disp.stall_o s.idEx.apu_en_ex_o s.apu_lat_ex_o i.apu_gnt=false
      unfold ApuDisp.stall_o ApuDisp.stall_full ApuDisp.stall_type ApuDisp.valid_req
      rw [hA.apu_en,hwait,Bool.and_false]
      rfl
    have hfree : (idInput p s i).wb_contention=false := by
      change wb_contention p s i=false
      unfold wb_contention ApuDisp.apu_singlecycle_o ApuDisp.apu_multicycle_o
      cases hvalid : i.id.apu_valid with
      | false => rfl
      | true =>
        have hexp := hans hfpu hvalid
        unfold ApuDisp.expects ApuDisp.valid_req at hexp
        rw [hA.apu_en,hwait,Bool.false_and,Bool.false_or,Bool.or_false] at hexp
        have hlat : (s.apu_disp.apu_lat==3)=false := by
          refine beq_false_of_ne fun h => ?_
          have hlow := hA.latency hfpu hexp
          rw [h] at hlow
          exact absurd hlow (by decide)
        rw [hexp,hlat]
        rfl
    rw [hstall,hfree]
    rfl

/-- A CSR operation comes from a CSR instruction that is decoded, legal, and uses no other
unit than the ALU. -/
structure FromCsr (p : Params) (s : State p.csr.N_PERF_COUNTERS) (i : Input) : Prop where
  decoding : IdStage.is_decoding p.cfg (pipe p s) (idInput p s i)=true
  legal : ¬s.cs_registers.trap.priv_lvl_q < s.ifId.instr_rdata_id_o.extractLsb' 28 2
  alu_en : (IdStage.masked p.cfg (pipe p s) (idInput p s i)).alu_en=true
  csr_access : (IdStage.masked p.cfg (pipe p s) (idInput p s i)).csr_access=true
  mult_en : (IdStage.masked p.cfg (pipe p s) (idInput p s i)).mult_int_en=false ∧
    (IdStage.masked p.cfg (pipe p s) (idInput p s i)).mult_dot_en=false
  apu_en : (IdStage.masked p.cfg (pipe p s) (idInput p s i)).apu_en=false
  data_req : (IdStage.masked p.cfg (pipe p s) (idInput p s i)).data_req=false

theorem fromCsr (hop : (IdStage.masked p.cfg (pipe p s) (idInput p s i)).csr_op≠.CSR_OP_NONE) :
    FromCsr p s i := by
  have hde : IdStage.deassert_we p.cfg (pipe p s) (idInput p s i)=false := by
    cases h : IdStage.deassert_we p.cfg (pipe p s) (idInput p s i) with
    | false => rfl
    | true =>
      unfold IdStage.masked at hop
      rw [h] at hop
      exact absurd rfl hop
  have hmasked : IdStage.masked p.cfg (pipe p s) (idInput p s i)=
      IdStage.decoded p.cfg (pipe p s) (idInput p s i) := by
    unfold IdStage.masked
    rw [hde]
    rfl
  rw [hmasked] at hop
  have hcsr := decodeOpcode_csr p.cfg (pipe p s).csr.priv_lvl_q (pipe p s).ifId.instr_rdata_id_o hop
  unfold IdStage.deassert_we Controller.deassert_we_o at hde
  simp only [Bool.or_eq_false_iff,Bool.not_eq_false'] at hde
  have hill : (decodeCSR (pipe p s).csr.priv_lvl_q (pipe p s).ifId.instr_rdata_id_o).illegal_insn=
      false := by
    have hflag := hde.1.1.2
    unfold IdStage.decoded decode at hflag
    dsimp only at hflag
    rw [Bool.or_eq_false_iff] at hflag
    rw [←hcsr]
    exact hflag.1
  refine ⟨hde.1.1.1,fun hlt => ?_,?_,?_,?_,?_,?_⟩
  · change (pipe p s).csr.priv_lvl_q<(pipe p s).ifId.instr_rdata_id_o.extractLsb' 28 2 at hlt
    unfold decodeCSR at hill
    dsimp only at hill
    rw [decide_eq_true hlt,Bool.or_true] at hill
    exact absurd hill nofun
  · rw [hmasked]
    change (decodeOpcode p.cfg _ _).alu_en=true
    rw [hcsr]
    rfl
  · rw [hmasked]
    change (decodeOpcode p.cfg _ _).csr_access=true
    rw [hcsr]
    rfl
  · rw [hmasked]
    change (decodeOpcode p.cfg _ _).mult_int_en=false ∧ (decodeOpcode p.cfg _ _).mult_dot_en=false
    rw [hcsr]
    exact ⟨rfl,rfl⟩
  · rw [hmasked]
    change (decodeOpcode p.cfg _ _).apu_en=false
    rw [hcsr]
    rfl
  · rw [hmasked]
    change (decodeOpcode p.cfg _ _).data_req=false
    rw [hcsr]
    rfl

/-- The trap registers step with the ID stage. -/
theorem trap_step : (step p s i).cs_registers.trap=
    CsRegisters.step p.cfg.PULP_SECURE s.cs_registers.trap
      (IdStage.csrInput p.cfg (pipe p s) (idInput p s i)) :=
  congrArg IdStage.State.csr (pipe_step p s i)

/-- A cycle that decodes keeps the privilege level. -/
theorem decoding_priv (hsecure : p.cfg.PULP_SECURE=true)
    (hdec : IdStage.is_decoding p.cfg (pipe p s) (idInput p s i)=true) :
    (step p s i).cs_registers.trap.priv_lvl_q=s.cs_registers.trap.priv_lvl_q := by
  rw [←IdStage.ctrl_is_decoding] at hdec
  have hkeep := Controller.decoding_keeps _ _ hdec
  rw [trap_step]
  exact CsRegisters.priv_step p.cfg.PULP_SECURE (fun h => absurd (h.symm.trans hsecure) nofun)
    hkeep.1 hkeep.2.1 hkeep.2.2

/-- Only a return lowers the privilege level. -/
theorem lowers (hsecure : p.cfg.PULP_SECURE=true) (hM : s.cs_registers.trap.priv_lvl_q=PRIV_LVL_M)
    (hU : (step p s i).cs_registers.trap.priv_lvl_q=PRIV_LVL_U) : s.ctrl.ctrl_fsm_cs=.FLUSH_WB := by
  have hrestore := Controller.restore_flush_wb s.ctrl (IdStage.ctrlInput p.cfg (pipe p s)
    (idInput p s i) (IdStage.masked p.cfg (pipe p s) (idInput p s i)).jump_in_id
    (IdStage.id_ready_o p.cfg (pipe p s) (idInput p s i)))
  by_contra hno
  have hmret : (IdStage.csrInput p.cfg (pipe p s) (idInput p s i)).csr_restore_mret_i=false :=
    Bool.eq_false_iff.mpr fun h => hno (hrestore.1 h).1
  have huret : (IdStage.csrInput p.cfg (pipe p s) (idInput p s i)).csr_restore_uret_i=false :=
    Bool.eq_false_iff.mpr fun h => hno (hrestore.2 h)
  rw [trap_step,hsecure,CsRegisters.machine_stays hM hmret huret] at hU
  exact absurd hU (by decide)

/-- A CSR operation that enters EX is alone there. -/
theorem load_alone (hcsr : FromCsr p s i)
    (hvalid : IdStage.id_valid_o p.cfg (pipe p s) (idInput p s i)=true)
    (hidEx : (step p s i).idEx=s.idEx.load (IdStage.masked p.cfg (pipe p s) (idInput p s i))) :
    Alone p (step p s i) := by
  have hstall := (id_valid_facts hvalid).2.1
  unfold IdStage.csr_apu_stall at hstall
  rw [hcsr.csr_access,Bool.and_true] at hstall
  change (p.cfg.FPU && (s.idEx.apu_en_ex_o && s.apu_lat_ex_o.getLsbD 1 || s.apu_disp.active_o))=
    false at hstall
  have hdisp : (step p s i).apu_disp=
      s.apu_disp.step s.idEx.apu_en_ex_o s.apu_lat_ex_o i.apu_gnt i.id.apu_valid := rfl
  -- the dispatcher is empty, so that what it holds next is the operation in EX
  have hempty : p.cfg.FPU=true → (s.apu_disp.valid_inflight=false ∧ s.apu_disp.valid_waiting=false) ∧
      (s.idEx.apu_en_ex_o=true → s.apu_lat_ex_o.getLsbD 1=false) := by
    intro hfpu
    rw [hfpu,Bool.true_and,Bool.or_eq_false_iff] at hstall
    unfold ApuDisp.active_o at hstall
    refine ⟨Bool.or_eq_false_iff.mp hstall.2,fun hen => ?_⟩
    rw [hen] at hstall
    exact hstall.1
  refine ⟨?_,?_,?_,fun hfpu => ?_,fun hfpu hin => ?_⟩
  · rw [hidEx]
    exact hcsr.data_req
  · rw [hidEx]
    exact Bool.or_eq_false_iff.mpr hcsr.mult_en
  · rw [hidEx]
    exact hcsr.apu_en
  · have hnone := (hempty hfpu).1
    rw [hdisp]
    exact ApuDisp.step_waiting _ _ _ _ _ hnone.2 (Or.inl hnone.1)
  · rw [hdisp] at hin ⊢
    have hreq := (ApuDisp.step_inflight _ _ _ _ _ hin).resolve_right
      (by rw [(hempty hfpu).1.1]; exact nofun)
    have hen : s.idEx.apu_en_ex_o=true := by
      unfold ApuDisp.valid_req at hreq
      exact (Bool.and_eq_true_iff.mp hreq).1
    rw [ApuDisp.step_apu_lat,if_pos hreq]
    exact (hempty hfpu).2 hen

/-- A CSR operation that stays in EX stays alone. -/
theorem hold_alone (hA : Alone p s) (hidEx : SameEx (step p s i).idEx s.idEx) :
    Alone p (step p s i) := by
  have hdisp : (step p s i).apu_disp=
      s.apu_disp.step s.idEx.apu_en_ex_o s.apu_lat_ex_o i.apu_gnt i.id.apu_valid := rfl
  have hreq : s.apu_disp.valid_req s.idEx.apu_en_ex_o s.apu_lat_ex_o=false := by
    unfold ApuDisp.valid_req
    rw [hA.apu_en]
    rfl
  refine ⟨hidEx.data_req.trans hA.data_req,hidEx.mult_en.trans hA.mult_en,
    hidEx.apu_en.trans hA.apu_en,fun hfpu => ?_,fun hfpu hin => ?_⟩
  · rw [hdisp]
    exact ApuDisp.step_waiting _ _ _ _ _ (hA.waiting hfpu) (Or.inr hreq)
  · rw [hdisp] at hin ⊢
    rw [ApuDisp.step_apu_lat,hreq]
    refine hA.latency hfpu ((ApuDisp.step_inflight _ _ _ _ _ hin).resolve_left ?_)
    rw [hreq]
    exact nofun

/-- A conditional branch that enters EX does not multiply. -/
theorem load_branch
    (hb : (s.idEx.load (IdStage.masked p.cfg (pipe p s) (idInput p s i))).branch_in_ex_o=true) :
    (s.idEx.load (IdStage.masked p.cfg (pipe p s) (idInput p s i))).mult_en_ex_o=false := by
  change ((IdStage.masked p.cfg (pipe p s) (idInput p s i)).jump_in_id==.BRANCH_COND)=true at hb
  change ((IdStage.masked p.cfg (pipe p s) (idInput p s i)).mult_int_en ||
    (IdStage.masked p.cfg (pipe p s) (idInput p s i)).mult_dot_en)=false
  unfold IdStage.masked Decoded.masked at hb ⊢
  cases hde : IdStage.deassert_we p.cfg (pipe p s) (idInput p s i) with
  | true =>
    rw [hde] at hb
    exact absurd hb nofun
  | false =>
    rw [hde] at hb
    exact Bool.or_eq_false_iff.mpr (cond_mult p.cfg (pipe p s).csr.priv_lvl_q _ (beq_iff_eq.mp hb))

/-- The number of a CSR that user mode may access is that of a user register. -/
theorem imm_user (h : ¬PRIV_LVL_U < s.ifId.instr_rdata_id_o.extractLsb' 28 2) :
    (imm_i_type p s).extractLsb' 8 2=0 := by
  have hzero : s.ifId.instr_rdata_id_o.extractLsb' 28 2=0 := by
    have hall : ∀ a : BitVec 2,¬PRIV_LVL_U<a → a=0 := by decide
    exact hall _ h
  unfold imm_i_type
  rw [←hzero]
  ext k hk
  rw [BitVec.getElem_extractLsb',BitVec.getElem_extractLsb',BitVec.getLsbD_signExtend,
    if_pos (by omega),BitVec.getLsbD_extractLsb',decide_eq_true (by omega),
    decide_eq_true (by omega),Bool.true_and,Bool.true_and,←Nat.add_assoc]

/-- The invariant holds in every cycle. -/
theorem sound_step (hsecure : p.cfg.PULP_SECURE=true) (hS : Sound p s) (hans : Answers p s i) :
    Sound p (step p s i) where
  mode := by
    rw [trap_step]
    exact CsRegisters.mode_step p.cfg.PULP_SECURE hS.mode
  mult hen := by
    rcases moves p s i with ⟨hmult,hvalid,-,-⟩ | ⟨hmult,hready,-⟩ | ⟨-,hidEx,-⟩
    · exact mult_rests hS hmult (id_valid_facts hvalid).1
    · exact mult_rests hS hmult hready
    · exact mult_stays hS (hidEx.mult_en.symm.trans hen)
  branch hb := by
    rcases moves p s i with ⟨-,-,hidEx,-⟩ | ⟨-,-,hidEx⟩ | ⟨-,hidEx,-⟩
    · rw [hidEx] at hb ⊢
      exact load_branch hb
    · rw [hidEx] at hb
      exact absurd hb nofun
    · exact hidEx.mult_en.trans (hS.branch (hidEx.branch.symm.trans hb))
  alone hop := by
    rcases moves p s i with ⟨-,hvalid,hidEx,-⟩ | ⟨-,-,hidEx⟩ | ⟨-,hidEx,-⟩
    · rw [hidEx] at hop
      exact load_alone (fromCsr hop) hvalid hidEx
    · rw [hidEx] at hop
      exact absurd rfl hop
    · exact hold_alone (hS.alone (by rwa [hidEx.csr_op] at hop)) hidEx
  user hU hop := by
    rcases moves p s i with ⟨-,-,hidEx,hb⟩ | ⟨-,-,hidEx⟩ | ⟨-,hidEx,hb⟩
    · rw [hidEx] at hop
      have hcsr := fromCsr hop
      have hpriv := decoding_priv hsecure hcsr.decoding
      have hlegal := hcsr.legal
      rw [hpriv] at hU
      rw [hb,hcsr.alu_en,hcsr.csr_access]
      exact imm_user (by rwa [hU] at hlegal)
    · rw [hidEx] at hop
      exact absurd rfl hop
    · rw [hidEx.csr_op] at hop
      have hA := hS.alone hop
      rw [hb (alone_idle hS hA).1]
      rcases hS.mode with hM | hUser
      · exact absurd (hS.flushed (lowers hsecure hM hU)) hop
      · exact hS.user hUser hop
  flushed hflush := by
    have henter := Controller.enters_flush_wb s.ctrl _ hflush
    have hhalt := Controller.flush_halts s.ctrl (IdStage.ctrlInput p.cfg (pipe p s)
      (idInput p s i) (IdStage.masked p.cfg (pipe p s) (idInput p s i)).jump_in_id
      (IdStage.id_ready_o p.cfg (pipe p s) (idInput p s i))) (Or.inl henter.1)
    rcases moves p s i with ⟨-,hvalid,-,-⟩ | ⟨-,-,hidEx⟩ | ⟨hbusy,hidEx,-⟩
    · exact absurd ((id_valid_facts hvalid).2.2.symm.trans hhalt) nofun
    · rw [hidEx]
      rfl
    · rw [hidEx.csr_op]
      by_contra hop
      have hA := hS.alone hop
      have hunits : IdStage.units_ready (idInput p s i)=true := by
        have hv : IdStage.ex_valid_o p.cfg (pipe p s) (idInput p s i)=true := henter.2
        unfold IdStage.ex_valid_o at hv
        exact (Bool.and_eq_true_iff.mp hv).2
      have hready := alone_ready hA hans hunits
      rcases hbusy with h | h | h
      · exact absurd (h.symm.trans (alone_idle hS hA).1) nofun
      · exact absurd (h.symm.trans (alone_idle hS hA).2) nofun
      · exact absurd (h.symm.trans hready) nofun

/-- The user view of the status register is written. -/
def ustatusWrite (p : Params) (s : State p.csr.N_PERF_COUNTERS) : Prop :=
  s.idEx.csr_op_ex_o≠.CSR_OP_NONE ∧ csr_addr_int p s=0

/-- The core runs in user mode, takes no trap, and the debugger writes no CSR. -/
structure InUser (p : Params) (s : State p.csr.N_PERF_COUNTERS) (i : Input) : Prop where
  priv_lvl : s.cs_registers.trap.priv_lvl_q=PRIV_LVL_U
  csr_save_cause : (IdStage.ctrl p.cfg (pipe p s) (idInput p s i)).csr_save_cause_o=false
  dbg : (i.id.dbg_csr_req && i.id.dbg_csr_we)=false

/-- A cycle keeps what belongs to machine mode, and the user bits of the status register
without a write of their view and without a user return. -/
structure Keeps (p : Params) (s : State p.csr.N_PERF_COUNTERS) (i : Input) : Prop where
  machine : CsRegisters.SameMachine (step p s i).cs_registers.trap s.cs_registers.trap
  mtvec : (step p s i).cs_registers.mtvec_reg_q=s.cs_registers.mtvec_reg_q
  user : ¬ustatusWrite p s →
    (IdStage.ctrl p.cfg (pipe p s) (idInput p s i)).csr_restore_uret_id_o=false →
    CsRegisters.SameUser (step p s i).cs_registers.trap s.cs_registers.trap

/-- What is written in user mode is a user register. -/
theorem user_writes (hS : Sound p s) (hU : InUser p s i)
    (hwe : (IdStage.csrInput p.cfg (pipe p s) (idInput p s i)).csr_we_int=true) :
    s.idEx.csr_op_ex_o≠.CSR_OP_NONE ∧ (access p s i).csr_addr_i=csr_addr_int p s ∧
      (csr_addr_int p s).extractLsb' 8 2=0 := by
  change (if i.id.dbg_csr_req then i.id.dbg_csr_we else s.idEx.csr_op_ex_o != .CSR_OP_NONE)=true
    at hwe
  have hdbg := hU.dbg
  cases hreq : i.id.dbg_csr_req with
  | true =>
    rw [hreq] at hwe hdbg
    exact absurd (hdbg.symm.trans hwe) nofun
  | false =>
    rw [hreq] at hwe
    have hop : s.idEx.csr_op_ex_o≠.CSR_OP_NONE := bne_iff_ne.mp hwe
    refine ⟨hop,?_,?_⟩
    · unfold access
      rw [hreq]
      rfl
    · have huser := hS.user hU.priv_lvl hop
      unfold csr_addr_int
      split
      · rw [←huser]
        ext k hk
        rw [BitVec.getElem_extractLsb',BitVec.getElem_extractLsb',BitVec.getLsbD_extractLsb',
          decide_eq_true (by omega),Bool.true_and,Nat.zero_add]
      · rfl

/-- User mode is confined in a cycle. -/
theorem keeps (hsecure : p.cfg.PULP_SECURE=true) (hS : Sound p s) (hU : InUser p s i) :
    Keeps p s i := by
  have hmret : (IdStage.ctrl p.cfg (pipe p s) (idInput p s i)).csr_restore_mret_id_o=false := by
    refine Bool.eq_false_iff.mpr fun h => ?_
    have hinsn := ((Controller.restore_flush_wb s.ctrl _).1 h).2
    have hM := mret_machine p.cfg (pipe p s).csr.priv_lvl_q (pipe p s).ifId.instr_rdata_id_o hsecure
      hinsn
    exact absurd (hU.priv_lvl.symm.trans hM) (by decide)
  have hwrites := user_writes hS hU
  have haddr : (IdStage.csrInput p.cfg (pipe p s) (idInput p s i)).csr_we_int=true →
      (IdStage.csrInput p.cfg (pipe p s) (idInput p s i)).csr_addr_i.extractLsb' 8 2=0 := by
    intro hwe
    change (access p s i).csr_addr_i.extractLsb' 8 2=0
    rw [(hwrites hwe).2.1]
    exact (hwrites hwe).2.2
  have htrap := CsRegisters.step_user (s:=s.cs_registers.trap) hU.priv_lvl hU.csr_save_cause hmret haddr
  have hnext : (step p s i).cs_registers.trap=CsRegisters.step true s.cs_registers.trap
      (IdStage.csrInput p.cfg (pipe p s) (idInput p s i)) := by
    rw [trap_step,hsecure]
  rw [←hnext] at htrap
  refine ⟨htrap.1,?_,fun hno huret => htrap.2 (fun h => ?_) huret⟩
  · have hport : CsrFile.csr_we_int (csrInput p s i)=
        (IdStage.csrInput p.cfg (pipe p s) (idInput p s i)).csr_we_int :=
      congrArg CsRegisters.Input.csr_we_int (trapInput_eq p s i)
    change (if p.cfg.PULP_SECURE && CsrFile.csr_we_int (csrInput p s i) &&
      (access p s i).csr_addr_i==0x305 then _ else s.cs_registers.mtvec_reg_q)=_
    refine if_neg fun h => ?_
    rw [Bool.and_eq_true,Bool.and_eq_true,hport] at h
    have hlow := haddr h.1.2
    change (access p s i).csr_addr_i.extractLsb' 8 2=0 at hlow
    rw [beq_iff_eq.mp h.2] at hlow
    exact absurd hlow (by decide)
  · have hw := hwrites h.1
    exact hno ⟨hw.1,hw.2.1.symm.trans h.2⟩

end Step

/-- In every run the core is in user or machine mode, and in user mode a cycle without
a trap keeps the privilege level and the machine registers. -/
theorem user_confined (p : Params) (hsecure : p.cfg.PULP_SECURE=true) (cycles : List Input)
    (hans : Meets (step p) (Answers p) reset cycles) :
    CsRegisters.Mode (after (step p) reset cycles).cs_registers.trap ∧
      Meets (step p) (fun s i => InUser p s i → Keeps p s i) reset cycles := by
  have hstep : ∀ s i,Sound p s → Answers p s i → Sound p (step p s i) := fun _ _ =>
    sound_step hsecure
  refine ⟨(after_invariant_of_meets hstep (sound_reset p) hans).mode,?_⟩
  refine meets_of_meets hstep ?_ (sound_reset p) hans
  intro s i hS _ hU
  exact keeps hsecure hS hU

/-- A core with user mode and without options. -/
def secureCore : Params := ⟨⟨false,true,0⟩,0⟩

/-- A cycle in which the word is fetched, if there is one. -/
def fetching (word : Option (BitVec 32)) : Input where
  id := { IdStage.quiet with
    fetch_valid := word.isSome
    fetch_rdata := word.getD 0 }
  mult := ⟨false,.MUL_MAC32,false,0,0,0,0,0,0,0,0,0,false⟩
  cs_registers := CsrFile.quiet .idle
  alu_operand_a_ex := 1
  alu_operand_b := 0
  misaligned := false
  apu_lat := 0
  apu_gnt := false
  dbg_csr_addr := 0
  dbg_csr_wdata := 0

/-- An addition, a return to user mode, and there a write of 1 to the user view. -/
def ustatusRun : List Input :=
  [none,none,some 0x00000013,some 0x00200073,none,none,none,some 0x0000D073,none].map fetching

/-- User mode writes the status register by its user view. -/
theorem ustatus_written :
    InUser secureCore (after (step secureCore) reset ustatusRun) (fetching none) ∧
      (after (step secureCore) reset ustatusRun).cs_registers.trap.mstatus_q.uie=false ∧
      (step secureCore (after (step secureCore) reset ustatusRun)
        (fetching none)).cs_registers.trap.mstatus_q.uie=true := by
  refine ⟨⟨?_,?_,?_⟩,?_,?_⟩
  all_goals decide

/-- The same run is confined. -/
theorem user_confined_run : Meets (step secureCore) (Answers secureCore) reset ustatusRun ∧
    CsRegisters.Mode (after (step secureCore) reset ustatusRun).cs_registers.trap ∧
      Meets (step secureCore) (fun s i => InUser secureCore s i → Keeps secureCore s i) reset
        ustatusRun := by
  have hans : Meets (step secureCore) (Answers secureCore) reset ustatusRun :=
    meets_of_invariant (P:=fun _ => True) (fun _ _ _ => trivial)
      (fun _ _ _ hfpu => absurd hfpu nofun) trivial ustatusRun
  exact ⟨hans,user_confined secureCore rfl ustatusRun hans⟩

end Pulpissimo.Riscv.Privilege
