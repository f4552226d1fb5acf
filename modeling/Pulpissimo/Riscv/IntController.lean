import Mathlib.Data.BitVec
import Pulpissimo.Lib.Machine
import Pulpissimo.Riscv.Controller

/-!
# Interrupts in the RI5CY controller

`riscv_int_controller` latches an interrupt line with its number while interrupts are
enabled, and holds the request until the controller acknowledges or kills it. The two
state machines run together under any inputs. The controller decides on an interrupt
in one cycle and takes it in the next, so enables that change in between are not
looked at again.
-/

namespace Pulpissimo.Riscv.IntController

open Pulpissimo.Machine Pulpissimo.Riscv.Decoder Pulpissimo.Riscv.Controller

/-- States of the interrupt controller. -/
inductive ExcState
  | IDLE | IRQ_PENDING | IRQ_DONE
  deriving DecidableEq

/-- Registers of the interrupt controller. -/
structure Regs where
  /-- State. -/
  exc_ctrl_cs : ExcState
  /-- Number of the latched interrupt. -/
  irq_id_q : BitVec 5
  /-- It is secure. -/
  irq_sec_q : Bool

/-- Registers of both controllers. -/
structure State where
  /-- Core controller. -/
  ctrl : Controller.State
  /-- Interrupt controller. -/
  int : Regs

/-- Values after reset. -/
def reset : State := ⟨Controller.reset,.IDLE,0,false⟩

/-- One cycle of inputs. What the interrupt controller drives is replaced in `ctrl`. -/
structure Input where
  /-- Core controller, with the line and the enables that both see. -/
  ctrl : Controller.Input
  /-- The interrupt on the line is secure. -/
  irq_sec_i : Bool
  /-- Its number. -/
  irq_id_i : BitVec 5

section Code

variable (s : State) (i : Input)

def irq_req_ctrl_o : Bool := s.int.exc_ctrl_cs==.IRQ_PENDING

/-- Interrupts are enabled for the line. -/
def irq_enable_ext : Bool :=
  (i.ctrl.u_IE_i || i.irq_sec_i) && i.ctrl.current_priv_lvl_i==PRIV_LVL_U ||
    i.ctrl.m_IE_i && i.ctrl.current_priv_lvl_i==PRIV_LVL_M

/-- Inputs of the core controller. -/
def ctrlInput : Controller.Input := { i.ctrl with
  irq_req_ctrl_i := irq_req_ctrl_o s
  irq_sec_ctrl_i := s.int.irq_sec_q
  irq_id_ctrl_i := s.int.irq_id_q }

/-- Outputs of the core controller. -/
def out : Controller.Output := fsm s.ctrl (ctrlInput s i)

/-- Number that goes with the acknowledge. -/
def irq_id_o : BitVec 5 := (ctrlInput s i).irq_id_ctrl_i

/-- The line is latched. -/
def latches : Bool := s.int.exc_ctrl_cs==.IDLE && (irq_enable_ext i && i.ctrl.irq_i)

/-- Registers of the interrupt controller after a clock edge. -/
def stepInt : Regs :=
  match s.int.exc_ctrl_cs with
  | .IDLE =>
    if irq_enable_ext i && i.ctrl.irq_i then ⟨.IRQ_PENDING,i.irq_id_i,i.irq_sec_i⟩ else s.int
  | .IRQ_PENDING => { s.int with
    exc_ctrl_cs := if (out s i).exc_ack_o then .IRQ_DONE
      else if (out s i).exc_kill_o then .IDLE else .IRQ_PENDING }
  | .IRQ_DONE => { s.int with
    exc_ctrl_cs := .IDLE
    irq_sec_q := false }

/-- One clock edge. -/
def step : State := ⟨Controller.step s.ctrl (ctrlInput s i),stepInt s i⟩

end Code

/-- The controller enters an interrupt handler. -/
def Taking (c : CtrlState) : Prop := c=.IRQ_TAKEN_ID ∨ c=.IRQ_TAKEN_IF

section Controller

variable (s : Controller.State) (i : Controller.Input)

/-- Decoding acknowledges nothing and saves no cause. -/
theorem decoding_quiet : (decoding s i).irq_ack_o=false ∧ (decoding s i).exc_ack_o=false ∧
    (decoding s i).csr_save_cause_o=false := by
  unfold decoding
  cases jump_in_dec i with
  | true => exact ⟨rfl,rfl,rfl⟩
  | false => cases flushes i with
    | true => exact ⟨rfl,rfl,rfl⟩
    | false => cases i.csr_status_i with
      | true => exact ⟨rfl,rfl,rfl⟩
      | false => cases i.data_load_event_i with
        | _ => exact ⟨rfl,rfl,rfl⟩

/-- The same in the state that decodes, which enters no handler. -/
theorem stateDECODE_quiet (hs : s.ctrl_fsm_cs=.DECODE) :
    (stateDECODE s i).irq_ack_o=false ∧ (stateDECODE s i).exc_ack_o=false ∧
      (stateDECODE s i).csr_save_cause_o=false ∧ ¬Taking (stateDECODE s i).ctrl_fsm_ns := by
  have hstay : ¬Taking s.ctrl_fsm_cs := by
    rw [hs]
    simp [Taking]
  have hdec : ¬Taking (decoding s i).ctrl_fsm_ns := by
    unfold decoding
    cases jump_in_dec i with
    | true => exact hstay
    | false => cases flushes i with
      | true => simp [Taking]
      | false => cases i.csr_status_i with
        | true => cases i.id_ready_i with
          | _ => simp [Taking]
        | false => cases i.data_load_event_i with
          | true => cases i.id_ready_i with
            | _ => simp [Taking]
          | false => exact hstay
  rcases decoding_quiet s i with ⟨hack,hexc,hsave⟩
  unfold stateDECODE
  cases i.branch_taken_ex_i with
  | true =>
    refine ⟨rfl,rfl,rfl,?_⟩
    cases i.dbg_req_i with
    | _ => simp [Taking]
  | false => cases i.instr_valid_i with
    | false => exact ⟨rfl,rfl,rfl,hstay⟩
    | true => cases i.irq_req_ctrl_i && irq_enable_int i with
      | true => exact ⟨rfl,rfl,rfl,by simp [Taking]⟩
      | false => cases i.dbg_req_i with
        | false => exact ⟨hack,hexc,hsave,hdec⟩
        | true =>
          refine ⟨hack,hexc,hsave,?_⟩
          cases i.id_ready_i with
          | false => exact hdec
          | true => cases i.jump_in_id_i==.BRANCH_COND with
            | _ => simp [Taking]

/-- The end of a flush saves no cause with the flag of an interrupt. -/
theorem flush_wb_quiet : (stateFLUSH_WB s i).irq_ack_o=false ∧ (stateFLUSH_WB s i).exc_ack_o=false ∧
    (stateFLUSH_WB s i).csr_cause_o.getLsbD 5=false := by
  have hnone : (0 : BitVec 6).getLsbD 5=false := by decide
  have hill : EXC_CAUSE_ILLEGAL_INSN.getLsbD 5=false := by decide
  have hcall : (if i.current_priv_lvl_i==PRIV_LVL_U then EXC_CAUSE_ECALL_UMODE
      else EXC_CAUSE_ECALL_MMODE).getLsbD 5=false := by
    split_ifs <;> decide
  unfold stateFLUSH_WB
  cases i.ecall_insn_i with
  | true => exact ⟨rfl,rfl,hcall⟩
  | false => cases i.illegal_insn_i with
    | true => exact ⟨rfl,rfl,hill⟩
    | false => cases i.mret_insn_i with
      | true => exact ⟨rfl,rfl,hnone⟩
      | false => cases i.uret_insn_i with
        | true => exact ⟨rfl,rfl,hnone⟩
        | false => cases i.ebrk_insn_i with
          | _ => exact ⟨rfl,rfl,hnone⟩

/-- The states that enter a handler acknowledge the interrupt and save its number. -/
theorem taking_out (h : Taking s.ctrl_fsm_cs) :
    (fsm s i).irq_ack_o=true ∧ (fsm s i).exc_ack_o=true ∧ (fsm s i).exc_kill_o=false ∧
      (fsm s i).csr_save_cause_o=true ∧ (fsm s i).csr_cause_o=1#1++i.irq_id_ctrl_i ∧
      (fsm s i).ctrl_fsm_ns=.DECODE := by
  unfold fsm
  rcases h with h | h
  · rw [h]
    exact ⟨rfl,rfl,rfl,rfl,rfl,rfl⟩
  · rw [h]
    exact ⟨rfl,rfl,rfl,rfl,rfl,rfl⟩

/-- No other state acknowledges or saves an interrupt. -/
theorem taking_of_out (h : (fsm s i).irq_ack_o=true ∨ (fsm s i).exc_ack_o=true ∨
    ((fsm s i).csr_save_cause_o && (fsm s i).csr_cause_o.getLsbD 5)=true) :
    Taking s.ctrl_fsm_cs := by
  unfold fsm at h
  cases hs : s.ctrl_fsm_cs with
  | IRQ_TAKEN_ID => exact Or.inl rfl
  | IRQ_TAKEN_IF => exact Or.inr rfl
  | DECODE =>
    rw [hs] at h
    dsimp only at h
    rcases stateDECODE_quiet s i hs with ⟨hack,hexc,hsave,-⟩
    rw [hack,hexc,hsave] at h
    rcases h with h | h | h <;> exact absurd h nofun
  | FLUSH_WB =>
    rw [hs] at h
    dsimp only at h
    rcases flush_wb_quiet s i with ⟨hack,hexc,hcause⟩
    rw [hack,hexc,hcause,Bool.and_false] at h
    rcases h with h | h | h <;> exact absurd h nofun
  | _ =>
    rw [hs] at h
    rcases h with h | h | h <;> exact absurd h nofun

/-- A handler is entered after a cycle that saw the request with interrupts enabled. -/
theorem decides (h : Taking (fsm s i).ctrl_fsm_ns) :
    i.irq_req_ctrl_i=true ∧ irq_enable_int i=true ∧ (fsm s i).exc_ack_o=false ∧
      (fsm s i).exc_kill_o=false := by
  revert h
  unfold fsm
  cases hs : s.ctrl_fsm_cs with
  | DECODE => exact fun h => absurd h (stateDECODE_quiet s i hs).2.2.2
  | FLUSH_WB =>
    dsimp only
    rw [(flush_wb_ends s i).1]
    cases i.pipe_flush_i with
    | _ => cases i.dbg_req_i with
      | _ => simp [Taking]
  | FIRST_FETCH =>
    dsimp only
    cases hirq : i.irq_req_ctrl_i && irq_enable_int i with
    | true =>
      exact fun _ => ⟨(Bool.and_eq_true_iff.mp hirq).1,(Bool.and_eq_true_iff.mp hirq).2,rfl,rfl⟩
    | false => cases i.id_ready_i && !i.dbg_stall_i with
      | _ => simp [Taking]
  | IRQ_FLUSH =>
    dsimp only
    cases hirq : i.irq_req_ctrl_i && irq_enable_int i with
    | true =>
      exact fun _ => ⟨(Bool.and_eq_true_iff.mp hirq).1,(Bool.and_eq_true_iff.mp hirq).2,rfl,rfl⟩
    | false => simp [Taking]
  | RESET => cases i.fetch_enable_i with
    | _ => cases i.dbg_req_i with
      | _ => simp [Taking]
  | SLEEP => cases i.dbg_req_i with
    | _ => cases i.irq_i with
      | _ => simp [Taking]
  | DBG_WAIT_ELW => cases i.dbg_stall_i with
    | _ => cases i.dbg_jump_req_i with
      | _ => simp [Taking]
  | DBG_WAIT => cases i.dbg_stall_i with
    | _ => cases s.boot_done_q with
      | _ => simp [Taking]
  | FLUSH_EX => cases i.ex_valid_i with
    | _ => simp [Taking]
  | ELW_EXE => cases i.id_ready_i with
    | _ => cases i.dbg_req_i with
      | _ => simp [Taking]
  | IRQ_TAKEN_ID => simp [Taking,irqTaken]
  | IRQ_TAKEN_IF => simp [Taking,irqTaken]
  | _ => simp [Taking]

end Controller

/-- The interrupt controller holds a request. -/
def Pending (s : State) : Prop := s.int.exc_ctrl_cs=.IRQ_PENDING

/-- The controller enters a handler only for a request that is still held. -/
def Held (s : State) : Prop := Taking s.ctrl.ctrl_fsm_cs → Pending s

section Steps

variable {s : State} {i : Input}

theorem held_reset : Held reset := by
  rintro (h | h) <;> exact absurd h nofun

/-- A request is dropped by an acknowledge or a kill, and else kept as it is. -/
theorem pending_step (hP : Pending s) :
    (¬Pending (step s i) → (out s i).exc_ack_o=true ∨ (out s i).exc_kill_o=true) ∧
      (step s i).int.irq_id_q=s.int.irq_id_q ∧
      ((out s i).exc_ack_o=true → ¬Pending (step s i)) ∧
      ((out s i).exc_ack_o=false → (out s i).exc_kill_o=false → Pending (step s i)) := by
  have hint : (step s i).int={ s.int with
      exc_ctrl_cs := if (out s i).exc_ack_o then .IRQ_DONE
        else if (out s i).exc_kill_o then .IDLE else .IRQ_PENDING } := by
    change stepInt s i=_
    unfold stepInt
    rw [hP]
  unfold Pending
  rw [hint]
  dsimp only
  cases (out s i).exc_ack_o with
  | true => simp
  | false => cases (out s i).exc_kill_o with
    | _ => simp

/-- A request begins when the line is latched. -/
theorem pending_begins (hP : ¬Pending s) (h : Pending (step s i)) :
    latches s i=true ∧ (step s i).int.irq_id_q=i.irq_id_i := by
  have hint : (step s i).int=stepInt s i := rfl
  unfold Pending at hP h
  rw [hint] at h ⊢
  unfold stepInt at h ⊢
  unfold latches
  cases hs : s.int.exc_ctrl_cs with
  | IDLE =>
    rw [hs] at h
    cases hline : irq_enable_ext i && i.ctrl.irq_i with
    | true => exact ⟨rfl,rfl⟩
    | false =>
      rw [hline] at h
      exact absurd (hs.symm.trans h) nofun
  | IRQ_PENDING => exact absurd hs hP
  | IRQ_DONE =>
    rw [hs] at h
    exact absurd h nofun

/-- A controller that decides on an interrupt finds its request held in the next cycle. -/
theorem held_step (s : State) (i : Input) (_ : Held s) : Held (step s i) := by
  intro h
  rcases decides s.ctrl (ctrlInput s i) h with ⟨hreq,-,hack,hkill⟩
  have hP : Pending s := beq_iff_eq.mp hreq
  exact (pending_step hP).2.2.2 hack hkill

end Steps

/-- The two controllers in every cycle of a run from reset. -/
def stateAt (env : ℕ → Input) (t : ℕ) : State := states step reset env t

section Runs

variable (env : ℕ → Input)

/-- Interrupts are enabled at the privilege level of the cycle. -/
def Enabled (t : ℕ) : Prop := irq_enable_int (ctrlInput (stateAt env t) (env t))=true

/-- Outputs of the core controller in a cycle. -/
def outAt (t : ℕ) : Controller.Output := out (stateAt env t) (env t)

/-- An interrupt is acknowledged, or a cause saved with the flag of an interrupt. -/
def Commits (t : ℕ) : Prop :=
  (outAt env t).irq_ack_o=true ∨
    ((outAt env t).csr_save_cause_o && (outAt env t).csr_cause_o.getLsbD 5)=true

/-- The request that was latched in cycle `u` is held in cycle `t`. -/
structure Since (u t : ℕ) : Prop where
  latched : latches (stateAt env u) (env u)=true
  before : u<t
  held : ∀ v, u<v → v≤t → Pending (stateAt env v)

/-- Cycle `t` acknowledges the request of cycle `u` and saves its number. -/
structure Answers (u t : ℕ) : Prop where
  since : Since env u t
  id : irq_id_o (stateAt env t) (env t)=(env u).irq_id_i
  cause : (outAt env t).csr_cause_o=1#1++(env u).irq_id_i

theorem held_at (t : ℕ) : Held (stateAt env t) := states_invariant held_step held_reset env t

/-- What is held in a cycle was latched once and kept its number since. -/
theorem exists_since {t : ℕ} (hP : Pending (stateAt env t)) :
    ∃ u, Since env u t ∧ (stateAt env t).int.irq_id_q=(env u).irq_id_i := by
  induction t with
  | zero => exact absurd hP nofun
  | succ t ih =>
    by_cases hbefore : Pending (stateAt env t)
    · rcases ih hbefore with ⟨u,hS,hid⟩
      refine ⟨u,⟨hS.latched,Nat.lt_succ_of_lt hS.before,fun v hv hvt => ?_⟩,?_⟩
      · rcases Nat.lt_or_eq_of_le hvt with hlt | heq
        · exact hS.held v hv (Nat.le_of_lt_succ hlt)
        · rw [heq]
          exact hP
      · exact (pending_step hbefore).2.1.trans hid
    · rcases pending_begins hbefore hP with ⟨hlatch,hid⟩
      refine ⟨t,⟨hlatch,Nat.lt_succ_self t,fun v hv hvt => ?_⟩,hid⟩
      rw [Nat.le_antisymm hvt hv]
      exact hP

/-- An interrupt that commits was decided on in the cycle before. -/
theorem commits_decided {t : ℕ} (hC : Commits env t) :
    Taking (stateAt env t).ctrl.ctrl_fsm_cs ∧
      ∃ v, t=v+1 ∧ Pending (stateAt env v) ∧ Enabled env v := by
  have hT : Taking (stateAt env t).ctrl.ctrl_fsm_cs := by
    apply taking_of_out _ (ctrlInput (stateAt env t) (env t))
    rcases hC with h | h
    · exact Or.inl h
    · exact Or.inr (Or.inr h)
  refine ⟨hT,?_⟩
  cases t with
  | zero => rcases hT with h | h <;> exact absurd h nofun
  | succ v =>
    rcases decides (stateAt env v).ctrl (ctrlInput (stateAt env v) (env v)) hT with ⟨hreq,hen,-,-⟩
    exact ⟨v,rfl,beq_iff_eq.mp hreq,hen⟩

/-- An interrupt commits with the number that was latched with its request. -/
theorem commits_answers {t : ℕ} (hC : Commits env t) : ∃ u, Answers env u t := by
  have hT := (commits_decided env hC).1
  rcases exists_since env (held_at env t hT) with ⟨u,hS,hid⟩
  refine ⟨u,hS,hid,?_⟩
  have hout := (taking_out (stateAt env t).ctrl (ctrlInput (stateAt env t) (env t)) hT).2.2.2.2.1
  exact hout.trans (congrArg (1#1++·) hid)

/-- A request that commits is gone in the next cycle. -/
theorem commits_ends {t : ℕ} (hC : Commits env t) : ¬Pending (stateAt env (t+1)) := by
  have hT := (commits_decided env hC).1
  have hack := (taking_out (stateAt env t).ctrl (ctrlInput (stateAt env t) (env t)) hT).2.1
  exact (pending_step (held_at env t hT)).2.2.1 hack

/-- No request commits twice. -/
theorem commits_once {u t t' : ℕ} (hC : Commits env t) (hS : Since env u t)
    (hS' : Since env u t') : t'≤t := by
  by_contra hlt
  exact commits_ends env hC (hS'.held (t+1) (Nat.lt_succ_of_lt hS.before) (Nat.lt_of_not_le hlt))

/-- In every run an interrupt commits only in the cycle after one that held its request
with interrupts enabled, with the number latched with the request, at most once for each
request, and a request ends only by an acknowledge or a kill. -/
theorem interrupts_commit :
    (∀ t, Commits env t → ∃ v, t=v+1 ∧ Pending (stateAt env v) ∧ Enabled env v) ∧
    (∀ t, Commits env t → ∃ u, Answers env u t) ∧
    (∀ u t t', Commits env t → Commits env t' → Since env u t → Since env u t' → t=t') ∧
    ∀ t, Pending (stateAt env t) → ¬Pending (stateAt env (t+1)) →
      (outAt env t).exc_ack_o=true ∨ (outAt env t).exc_kill_o=true :=
  ⟨fun _ hC => (commits_decided env hC).2,fun _ hC => commits_answers env hC,
    fun _ _ _ hC hC' hS hS' =>
      Nat.le_antisymm (commits_once env hC' hS' hS) (commits_once env hC hS hS'),
    fun _ hP hN => (pending_step hP).1 hN⟩

end Runs

/-- The line is up from the start, and interrupts are enabled in machine mode only in the
cycles before number 3. -/
def disabledLate (t : ℕ) : Input where
  ctrl :=
    { fetch_enable_i := true
      illegal_insn_i := false
      ecall_insn_i := false
      mret_insn_i := false
      uret_insn_i := false
      pipe_flush_i := false
      ebrk_insn_i := false
      csr_status_i := false
      instr_valid_i := false
      data_load_event_i := false
      branch_taken_ex_i := false
      jump_in_id_i := .BRANCH_NONE
      jump_in_dec_i := .BRANCH_NONE
      irq_i := true
      irq_req_ctrl_i := false
      irq_sec_ctrl_i := false
      irq_id_ctrl_i := 0
      m_IE_i := decide (t<3)
      u_IE_i := false
      current_priv_lvl_i := PRIV_LVL_M
      dbg_req_i := false
      dbg_stall_i := false
      dbg_jump_req_i := false
      dbg_settings_i := 0
      jr_stall := false
      id_ready_i := true
      ex_valid_i := true }
  irq_sec_i := false
  irq_id_i := 7

/-- An interrupt that is disabled after the controller decided on it is still taken. -/
theorem commits_disabled : ¬∀ env t, Commits env t → Enabled env t := by
  intro h
  have hC : Commits disabledLate 3 := by
    unfold Commits
    decide
  have hno : ¬Enabled disabledLate 3 := by
    unfold Enabled
    decide
  exact hno (h disabledLate 3 hC)

end Pulpissimo.Riscv.IntController
