import Pulpissimo.Hwpe.CtrlRegfile
import Pulpissimo.Lib.Machine

/-!
# Job registers behind the peripheral port

`hwpe_ctrl_slave` turns accesses into accesses of the register file. Writes go to the pointer
context, reads to the one that the address names. A trigger moves the pointer context on, and the
end of a job the running context. What the registers hold is followed here by a memory with one
word for each register and no latches.
-/

namespace Pulpissimo.Hwpe.CtrlSlave

open Pulpissimo.Bits Pulpissimo.Lanes Pulpissimo.Machine Pulpissimo.Hwpe.CtrlRegfile

inductive RunningState
  | idle
  | running
  | starting
deriving DecidableEq

inductive ContextState
  | idle_c
  | trigger
deriving DecidableEq

/-- Registers. -/
structure State (p : Params) where
  regfile : Regs p
  s_enable_after : BitVec 4
  offloading_core : BitVec p.LOG_CONTEXT → BitVec (Nat.clog 2 p.N_CORES)
  pointer_context : BitVec p.LOG_CONTEXT
  running_context : BitVec p.LOG_CONTEXT
  counter_pending : BitVec (p.LOG_CONTEXT+1)
  running_state : RunningState
  start : Bool
  is_working : Bool
  context_state : ContextState
  is_critical : Bool
  evt : Fin p.N_CORES → BitVec REGFILE_N_EVT
  s_clear : BitVec 2
  clear_o : Bool
  r_id : BitVec p.ID_WIDTH
  r_valid : Bool

/-- One cycle of inputs: the access, and what the accelerator says. -/
structure Input (p : Params) where
  req : Bool
  wen : Bool
  add : BitVec 32
  be : BitVec 4
  data : BitVec 32
  id : BitVec p.ID_WIDTH
  done : Bool
  evt : BitVec (REGFILE_N_EVT-1)

section Code

variable {p : Params} (s : State p) (x : Input p)

/-- Values after reset, with what the latches hold by then. -/
def State.reset (latch : Latch p.SCM_ADDR_WIDTH) : State p :=
  ⟨Regs.reset latch,0,fun _ => 0,0,0,0,.idle,false,false,.idle_c,false,fun _ => 0,0,false,0,false⟩

/-- The register in the address. -/
def index : BitVec LOG_REGS := x.add.extractLsb' 2 LOG_REGS

/-- The context in the address, counted from one on; zero stands for the pointer context. -/
def contextField : BitVec (p.LOG_CONTEXT+1) := x.add.extractLsb' (LOG_REGS+2) (p.LOG_CONTEXT+1)

def full_context : Bool := s.counter_pending.toNat==p.N_CONTEXT

def is_mandatory : Bool :=
  decide ((index x).toNat ≤ REGFILE_N_MANDATORY_REGS+REGFILE_N_RESERVED_REGS-1)
def is_contexted : Bool :=
  decide ((index x).toNat > REGFILE_N_MANDATORY_REGS+REGFILE_N_RESERVED_REGS+
    REGFILE_N_MAX_GENERIC_REGS-1)
def is_testset : Bool := x.req && x.wen && index x==1
def is_trigger : Bool := x.req && !x.wen && index x==0
def true_done : Bool := x.done && s.is_working

def flags : Flags where
  true_done := true_done s x
  full_context := full_context s
  is_mandatory := is_mandatory x
  is_read := x.req && x.wen
  is_contexted := is_contexted x
  is_critical := s.is_critical
  is_testset := is_testset x
  is_trigger := is_trigger x
  pointer_context := s.pointer_context.setWidth _
  running_context := s.running_context.setWidth _

def context_addr : BitVec p.LOG_CONTEXT := ((contextField x).setWidth 32-1).setWidth _

/-- The context that is accessed. -/
def accessed : BitVec p.LOG_CONTEXT :=
  if !x.wen then s.pointer_context
  else if contextField x==0 then s.pointer_context
  else context_addr x

def regfile_in : RegfileIn where
  addr := (accessed s x++index x).setWidth 32
  rden := if is_mandatory x then false else x.req && x.wen
  wren := if is_mandatory x then false else x.req && !x.wen
  wdata := x.data
  src := x.id.setWidth 32
  be := x.be

/-- The last core whose bit is set. -/
def offloader (old : BitVec (Nat.clog 2 p.N_CORES)) : BitVec (Nat.clog 2 p.N_CORES) :=
  (List.range p.N_CORES).foldl (fun core k => if x.id.getLsbD k then BitVec.ofNat _ k else core) old

/-- What the array of latches is given. -/
def State.latchIn : LatchIn p.SCM_ADDR_WIDTH :=
  s.regfile.latchIn s.clear_o (regfile_in s x) (flags s x)

/-- No job waits to be started. -/
def nothingPending : Bool := s.running_context==s.pointer_context && !full_context s

def runningNext : RunningState :=
  match s.running_state with
  | .idle => if nothingPending s then .idle else .starting
  | .starting => .running
  | .running => if true_done s x then .idle else .running

def contextNext : ContextState :=
  match s.context_state with
  | .idle_c => if is_testset x && !full_context s then .trigger else .idle_c
  | .trigger => if is_trigger x then .idle_c else .trigger

/-- One clock edge. -/
def State.step : State p where
  regfile := s.regfile.step s.clear_o (regfile_in s x) (flags s x)
  s_enable_after := s.s_enable_after.extractLsb' 0 3++1#1
  offloading_core := fun c =>
    if is_trigger x && c==s.pointer_context then offloader x (s.offloading_core c)
    else s.offloading_core c
  pointer_context :=
    if s.clear_o then 0 else if is_trigger x then s.pointer_context+1 else s.pointer_context
  running_context :=
    if s.clear_o then 0 else if true_done s x then s.running_context+1 else s.running_context
  counter_pending :=
    if s.clear_o then 0
    else if is_trigger x && !true_done s x then s.counter_pending+1
    else if !is_trigger x && true_done s x then s.counter_pending-1
    else s.counter_pending
  running_state := if s.clear_o then .idle else runningNext s x
  start := !s.clear_o && decide (s.running_state=.starting)
  is_working := !s.clear_o && decide (runningNext s x≠.idle)
  context_state := if s.clear_o then .idle_c else contextNext s x
  is_critical := !s.clear_o && decide (contextNext s x=.trigger)
  evt := fun core =>
    if s.clear_o then 0
    else if (s.offloading_core s.running_context).toNat=core then
      x.evt++BitVec.ofBool (true_done s x)
    else 0
  s_clear :=
    if s.s_clear=0 ∧ x.req=true ∧ x.wen=false ∧ (index x).toNat=5 then 1
    else if s.s_clear≠0 then s.s_clear+1
    else s.s_clear
  clear_o := decide (s.s_clear≠0)
  r_id := if x.req then x.id else s.r_id
  r_valid := x.req

def State.r_data : BitVec 32 := rdata s.regfile

/-- `reg_file.hwpe_params` and `reg_file.generic_params`. -/
def State.shownJob (k : ℕ) : BitVec 32 := hwpe_params s.regfile (s.running_context.setWidth _) k
def State.shownGeneric (k : ℕ) : BitVec 32 := generic_params s.regfile k

/-- What a register holds. -/
def State.word (q : Place p) : BitVec 32 := s.regfile.latch.MemContent q.cell

/-- The latches are cleared at the end of the cycle. -/
def State.clears : Bool := s.clear_o || s.regfile.r_clear_first_startup

/-- The stored register that is written, and the one that is read, if there is one. -/
def written : Option (Place p) :=
  if x.req && !x.wen then named p s.pointer_context.toNat (index x).toNat else none
def read : Option (Place p) :=
  if x.req && x.wen then
    named p (if contextField x=0 then s.pointer_context.toNat else (contextField x).toNat-1)
      (index x).toNat
  else none

/-- A write goes to a register that exists, or to a mandatory one. -/
def Existing : Prop :=
  x.req=true → x.wen=false → is_mandatory x=false → written s x≠none

instance : Decidable (Existing s x) :=
  inferInstanceAs (Decidable (x.req=true → x.wen=false → is_mandatory x=false → written s x≠none))

end Code

/-- The unit, and what the writes since the last clear have left in each register. -/
structure Watch (p : Params) where
  unit : State p
  last : Place p → BitVec 32

namespace Watch

variable {p : Params} (w : Watch p) (x : Input p)

/-- Nothing is written. -/
def reset (latch : Latch p.SCM_ADDR_WIDTH) : Watch p :=
  ⟨State.reset latch,fun q => latch.MemContent q.cell⟩

/-- One clock edge. -/
def step : Watch p where
  unit := w.unit.step x
  last := fun q =>
    if w.unit.clears then 0
    else if written w.unit x=some q then merge x.be (w.last q) x.data
    else w.last q

/-- The laws of the registers for one cycle. -/
structure Right : Prop where
  /-- A write changes the enabled bytes of its register and nothing else. -/
  bytes : ∀ q (b : Fin 4), lane 8 b ((w.unit.step x).word q)=
    if w.unit.clears then 0
    else if written w.unit x=some q ∧ x.be.getLsbD b=true then lane 8 b x.data
    else lane 8 b (w.unit.word q)
  /-- A read is answered with what was last written. -/
  answered : ∀ q, read w.unit x=some q →
    (w.unit.step x).r_valid=true ∧ (w.unit.step x).r_data=(w.step x).last q
  /-- The words of the running context are shown, and the generic ones. -/
  job : ∀ c k, c.val=w.unit.running_context.toNat →
    w.unit.shownJob (k : Fin p.N_IO_REGS)=w.last (.job c k)
  generic : ∀ k : Fin p.N_GENERIC_REGS, w.unit.shownGeneric k=w.last (.generic k)
  /-- They stay while another context is prepared. -/
  kept : w.unit.pointer_context≠w.unit.running_context → w.unit.clears=false →
    (w.unit.step x).running_context=w.unit.running_context →
    ∀ k : ℕ, (w.unit.step x).shownJob k=w.unit.shownJob k
  /-- Writes and reads go to the latch that is shown. -/
  writes : ∀ q, written w.unit x=some q → (w.unit.latchIn x).WriteAddr=q.cell
  reads : ∀ q, read w.unit x=some q → (w.unit.latchIn x).ReadAddr=q.cell

/-- Each register holds what was last written. -/
def Inv : Prop := ∀ q, w.unit.word q=w.last q

end Watch

section Access

variable {p : Params} {s : State p} {x : Input p} {q : Place p}

theorem context_lt (hp : p.Within) (c : BitVec p.LOG_CONTEXT) : c.toNat < p.N_CONTEXT := by
  rw [hp.N_CONTEXT,←hp.pow_LOG_CONTEXT]
  exact c.isLt

theorem index_lt (x : Input p) : (index x).toNat < 64 := (index x).isLt

theorem toNat_regfile_addr (hp : p.Within) :
    (regfile_in s x).addr.toNat=(accessed s x).toNat*64+(index x).toNat := by
  have hctx := context_lt hp (accessed s x)
  have hidx := index_lt x
  rw [hp.N_CONTEXT] at hctx
  show ((accessed s x++index x).setWidth 32).toNat=_
  rw [BitVec.toNat_setWidth,toNat_join]
  show (_*64+_)%2^32=_
  omega

theorem register_regfile_in (hp : p.Within) :
    (register (regfile_in s x).addr).toNat=(index x).toNat := by
  have hidx := index_lt x
  show (((regfile_in s x).addr.extractLsb' 0 6).setWidth 32).toNat=_
  rw [BitVec.toNat_setWidth,BitVec.extractLsb'_toNat,toNat_regfile_addr hp,Nat.shiftRight_zero]
  omega

theorem context_regfile_in (hp : p.Within) :
    (context p (regfile_in s x).addr).toNat=(accessed s x).toNat := by
  have hctx := context_lt hp (accessed s x)
  have hidx := index_lt x
  rw [hp.N_CONTEXT] at hctx
  show (((regfile_in s x).addr.extractLsb' 6 p.LOG_CONTEXT).setWidth 32).toNat=_
  rw [BitVec.toNat_setWidth,BitVec.extractLsb'_toNat,toNat_regfile_addr hp,
    Nat.shiftRight_eq_div_pow,hp.pow_LOG_CONTEXT]
  omega

theorem accessed_write (hwen : x.wen=false) : accessed s x=s.pointer_context := by
  unfold accessed
  rw [hwen]
  rfl

/-- A read goes to the context that the address counts, if there is such a one. -/
theorem accessed_read (hp : p.Within) (hwen : x.wen=true)
    (hlt : (if contextField x=0 then s.pointer_context.toNat else (contextField x).toNat-1) <
      p.N_CONTEXT) :
    (accessed s x).toNat=
      if contextField x=0 then s.pointer_context.toNat else (contextField x).toNat-1 := by
  unfold accessed
  rw [hwen,Bool.not_true,if_neg Bool.false_ne_true]
  by_cases hfield : contextField x=0
  · rw [if_pos hfield,if_pos (beq_iff_eq.mpr hfield)]
  · rw [if_neg hfield] at hlt ⊢
    rw [if_neg (by rw [beq_iff_eq]; exact hfield)]
    have hpos : (contextField x).toNat≠0 := fun h => hfield (BitVec.eq_of_toNat_eq h)
    rw [hp.N_CONTEXT] at hlt
    unfold context_addr
    rw [BitVec.toNat_setWidth,BitVec.toNat_sub,BitVec.toNat_setWidth,hp.pow_LOG_CONTEXT]
    show (2^32-1+_%2^32)%2^32%2=_
    omega

/-- The latch of a register that is accessed. -/
theorem latch_addr_of_named (hp : p.Within) {c : ℕ} (h : named p c (index x).toNat=some q)
    (hc : c < p.N_CONTEXT → (accessed s x).toNat=c) :
    regfile_latch_addr p (is_contexted x) (regfile_in s x).addr=q.cell := by
  have hcontexted : is_contexted x=
      decide (jobBase ≤ (register (regfile_in s x).addr).toNat) := by
    rw [register_regfile_in hp]
    exact decide_eq_decide.mpr Iff.rfl
  rw [hcontexted]
  apply regfile_latch_addr_of_named hp
  rw [register_regfile_in hp,context_regfile_in hp]
  exact named_of_named hp h hc

/-- An access to a stored register is not one to a mandatory register. -/
theorem not_mandatory_of_named {c : ℕ} (h : named p c (index x).toNat=some q) :
    is_mandatory x=false := by
  have hbase : 8 ≤ (index x).toNat := genericBase_le_of_named h
  have habove : ¬(index x).toNat ≤ 7 := by omega
  exact decide_eq_false habove

theorem not_testset_of_named {c : ℕ} (h : named p c (index x).toNat=some q) :
    is_testset x=false := by
  have hbase : 8 ≤ (index x).toNat := genericBase_le_of_named h
  have hne : index x≠1 := by
    intro heq
    rw [heq] at hbase
    exact absurd hbase (by decide)
  unfold is_testset
  rw [beq_eq_false_iff_ne.mpr hne,Bool.and_false]

theorem written_spec (h : written s x=some q) :
    x.req=true ∧ x.wen=false ∧ named p s.pointer_context.toNat (index x).toNat=some q := by
  unfold written at h
  split_ifs at h with hacc
  rw [Bool.and_eq_true,Bool.not_eq_true'] at hacc
  exact ⟨hacc.1,hacc.2,h⟩

theorem read_spec (h : read s x=some q) : x.req=true ∧ x.wen=true ∧
    named p (if contextField x=0 then s.pointer_context.toNat else (contextField x).toNat-1)
      (index x).toNat=some q := by
  unfold read at h
  split_ifs at h with hacc hfield
  all_goals
    rw [Bool.and_eq_true] at hacc
    exact ⟨hacc.1,hacc.2,by simp only [hfield,if_true,if_false]; exact h⟩

theorem write_addr (hp : p.Within) (h : written s x=some q) :
    (s.latchIn x).WriteAddr=q.cell := by
  have hspec := written_spec h
  refine latch_addr_of_named hp hspec.2.2 fun _ => ?_
  rw [accessed_write hspec.2.1]

theorem read_addr (hp : p.Within) (h : read s x=some q) : (s.latchIn x).ReadAddr=q.cell := by
  have hspec := read_spec h
  exact latch_addr_of_named hp hspec.2.2 (accessed_read hp hspec.2.1)

/-- The words after a cycle, by what it writes. -/
theorem word_step (hp : p.Within) (hx : Existing s x) (q : Place p) :
    (s.step x).word q=
      if s.clears then 0
      else if written s x=some q then merge x.be (s.word q) x.data
      else s.word q := by
  show (if s.clears then 0
    else if (s.latchIn x).WriteEnable && (s.latchIn x).WriteAddr==q.cell then
      merge x.be (s.word q) x.data
    else s.word q)=_
  refine if_congr Iff.rfl rfl (if_congr ?_ rfl rfl)
  rw [Bool.and_eq_true,beq_iff_eq]
  have henable : (s.latchIn x).WriteEnable=
      (!is_mandatory x && if is_mandatory x then false else x.req && !x.wen) := rfl
  constructor
  · rintro ⟨hwe,haddr⟩
    rw [henable] at hwe
    cases hmandatory : is_mandatory x with
    | true =>
      rw [hmandatory] at hwe
      exact absurd hwe Bool.false_ne_true
    | false =>
      rw [hmandatory,Bool.not_false,Bool.true_and,if_neg Bool.false_ne_true,Bool.and_eq_true,
        Bool.not_eq_true'] at hwe
      obtain ⟨q',hq'⟩ := Option.ne_none_iff_exists'.mp (hx hwe.1 hwe.2 hmandatory)
      have hcell := write_addr hp hq'
      rw [hq',Place.cell_injective (hcell.symm.trans haddr)]
  · intro h
    have hspec := written_spec h
    refine ⟨?_,write_addr hp h⟩
    rw [henable,not_mandatory_of_named hspec.2.2,hspec.1,hspec.2.1]
    rfl

/-- The word of a register that is read, one cycle later. -/
theorem r_data_step (hp : p.Within) (h : read s x=some q) :
    (s.step x).r_data=(s.step x).word q := by
  have hspec := read_spec h
  have htestset : (s.step x).regfile.r_was_testset=false := by
    show (if s.clear_o then false else is_testset x)=false
    rw [not_testset_of_named hspec.2.2,ite_self]
  have hmandatory : (s.step x).regfile.r_was_mandatory=false := by
    show (if s.clear_o then false else is_mandatory x)=false
    rw [not_mandatory_of_named hspec.2.2,ite_self]
  have haddr : (s.step x).regfile.latch.RAddrRegxDP=q.cell := by
    show (if x.req && x.wen then (s.latchIn x).ReadAddr else _)=_
    rw [hspec.1,hspec.2.1,read_addr hp h]
    rfl
  unfold State.r_data rdata
  rw [htestset,hmandatory,if_neg Bool.false_ne_true,Bool.not_false,if_pos rfl]
  exact congrArg _ haddr

/-- The words of the running context are shown. -/
theorem shownJob_eq (hp : p.Within) (s : State p) {c : Fin p.N_CONTEXT}
    (hc : c.val=s.running_context.toNat) (k : Fin p.N_IO_REGS) :
    s.shownJob k=s.word (.job c k) := by
  have hlt := context_lt hp s.running_context
  rw [hp.N_CONTEXT] at hlt
  have hflag : (s.running_context.setWidth (Nat.clog 2 REGFILE_N_CONTEXT)).toNat=c.val := by
    rw [BitVec.toNat_setWidth,hc]
    exact Nat.mod_eq_of_lt hlt
  unfold State.shownJob hwpe_params
  rw [if_pos k.isLt,hflag]
  rfl

theorem shownJob_of_le (s : State p) {k : ℕ} (hk : p.N_IO_REGS ≤ k) : s.shownJob k=0 :=
  if_neg (Nat.not_lt.mpr hk)

theorem shownGeneric_eq (s : State p) (k : Fin p.N_GENERIC_REGS) :
    s.shownGeneric k=s.word (.generic k) := if_pos k.isLt

/-- A write for another context leaves the words of the running one. -/
theorem shownJob_kept (hp : p.Within) (hx : Existing s x)
    (hother : s.pointer_context≠s.running_context) (hclears : s.clears=false)
    (hruns : (s.step x).running_context=s.running_context) (k : ℕ) :
    (s.step x).shownJob k=s.shownJob k := by
  rcases Nat.lt_or_ge k p.N_IO_REGS with hk | hk
  · let c : Fin p.N_CONTEXT := ⟨s.running_context.toNat,context_lt hp _⟩
    have hafter := shownJob_eq hp (s.step x) (c:=c) (by rw [hruns]) ⟨k,hk⟩
    have hbefore := shownJob_eq hp s (c:=c) rfl ⟨k,hk⟩
    have hmiss : written s x≠some (.job c ⟨k,hk⟩) := by
      intro hwritten
      have hcontext := context_of_named (written_spec hwritten).2.2
      exact hother (BitVec.eq_of_toNat_eq hcontext.symm)
    rw [word_step hp hx,hclears,if_neg Bool.false_ne_true,if_neg hmiss] at hafter
    exact hafter.trans hbefore.symm
  · rw [shownJob_of_le _ hk,shownJob_of_le _ hk]

end Access

namespace Watch

variable {p : Params} {w : Watch p} {x : Input p}

theorem Inv.step (h : w.Inv) (hp : p.Within) (hx : Existing w.unit x) : (w.step x).Inv := by
  intro q
  show (w.unit.step x).word q=if w.unit.clears then 0
    else if written w.unit x=some q then merge x.be (w.last q) x.data else w.last q
  rw [word_step hp hx,h q]

theorem Inv.right (h : w.Inv) (hp : p.Within) (hx : Existing w.unit x) : w.Right x where
  bytes := by
    intro q b
    rw [word_step hp hx]
    split_ifs with hclears hwritten hbyte
    · exact lane_zero 8 b
    · rw [lane_merge,if_pos hbyte.2]
    · rw [lane_merge,if_neg fun hbe => hbyte ⟨hwritten,hbe⟩]
    · rename_i hbyte
      exact absurd hbyte.1 hwritten
    · rfl
  answered := by
    intro q hread
    have hspec := read_spec hread
    refine ⟨hspec.1,?_⟩
    rw [r_data_step hp hread]
    exact h.step hp hx q
  job := fun c k hc => (shownJob_eq hp w.unit hc k).trans (h _)
  generic := fun k => (shownGeneric_eq w.unit k).trans (h _)
  kept := shownJob_kept hp hx
  writes := fun _ => write_addr hp
  reads := fun _ => read_addr hp

end Watch

section Claims

/-- For all parameters within the limits of the package, in every cycle of every run in which the
writes go to registers that exist: a write changes the enabled bytes of its register in the
pointer context and nothing else, a read is answered with what was last written, the words of the
running context are shown and stay while the other context is prepared. No two registers share a
latch. -/
theorem registers_hold {p : Params} (hp : p.Within) (latch : Latch p.SCM_ADDR_WIDTH)
    (xs : List (Input p))
    (hxs : Meets Watch.step (fun w x => Existing w.unit x) (Watch.reset latch) xs) :
    Function.Injective (Place.cell (p := p)) ∧
      Meets Watch.step Watch.Right (Watch.reset latch) xs := by
  refine ⟨Place.cell_injective,?_⟩
  have hstart : (Watch.reset latch).Inv := fun _ => rfl
  exact meets_of_meets (fun _ _ h hx => h.step hp hx) (fun _ _ h hx => h.right hp hx) hstart hxs

/-- Two contexts of two job registers. -/
def two : Params := ⟨4,2,2,0,16⟩

theorem two_within : two.Within := ⟨by decide,by decide,by decide,by decide⟩

/-- Latches that hold zeros. -/
def blank : Latch two.SCM_ADDR_WIDTH := ⟨fun _ => 0,0⟩

def rest : Input two := ⟨false,true,0,0,0,0,false,0⟩
def ends : Input two := ⟨false,true,0,0,0,0,true,0⟩
def write (j : ℕ) (data : BitVec 32) : Input two :=
  ⟨true,false,BitVec.ofNat 32 (4*j),0b1111,data,0,false,0⟩
def reads (j : ℕ) : Input two := ⟨true,true,BitVec.ofNat 32 (4*j),0,0,0,false,0⟩

/-- A job is prepared and started, and the next one is prepared and looked at. -/
def prepared : List (Input two) :=
  List.replicate 4 rest++[write 16 3,write 17 4,write 0 0,write 16 5,reads 16]

theorem registers_hold_two : Function.Injective (Place.cell (p := two)) ∧
    Meets Watch.step Watch.Right (Watch.reset blank) prepared :=
  registers_hold two_within blank prepared (by decide)

/-- A job runs in the second context. -/
def second : List (Input two) :=
  List.replicate 4 rest++[write 0 0,rest,rest,ends,write 0 0,rest,rest]

/-- Nothing checks the number of a register: register 18 of the first context is the first job
register of the second. A write to register 5 clears what was written. -/
theorem not_registers_hold :
    (¬∀ (xs : List (Input two)) (x : Input two),
      (after State.step (State.reset blank) xs).is_working=true →
      (after State.step (State.reset blank) xs).pointer_context≠
        (after State.step (State.reset blank) xs).running_context →
      (after State.step (State.reset blank) xs).clears=false →
      (after State.step (State.reset blank) (xs++[x])).running_context=
        (after State.step (State.reset blank) xs).running_context →
      (after State.step (State.reset blank) (xs++[x])).shownJob 0=
        (after State.step (State.reset blank) xs).shownJob 0) ∧
    (after State.step (State.reset blank)
      (List.replicate 4 rest++[write 16 3,reads 16])).r_data=3 ∧
    (after State.step (State.reset blank)
      (List.replicate 4 rest++[write 16 3,write 5 0,rest,rest,reads 16])).r_data=0 := by
  refine ⟨fun h => ?_,by decide,by decide⟩
  exact absurd (h second (write 18 1) (by decide) (by decide) (by decide) (by decide))
    (by decide)

end Claims

end Pulpissimo.Hwpe.CtrlSlave
