import Pulpissimo.Apb.PeriphBus
import Pulpissimo.Lib.Machine

/-!
# The bridge from the interconnect to the peripheral bus

`lint_2_apb` holds one granted request on the APB side until the bus is ready and
answers it one cycle later. With `apb_node` behind it, the ready line is that of the
last port whose range holds the address, and low where no range does. A request is
answered, and the bridge idle again, exactly where some range holds its address.
-/

namespace Pulpissimo.Interco.Lint2Apb

open Pulpissimo.Machine Pulpissimo.Select Pulpissimo.Apb.PeriphBus

variable {ADDR_WIDTH DATA_WIDTH AUX_WIDTH ID_WIDTH : ℕ}

/-- States. -/
inductive Phase where
  | IDLE
  | WAIT_PREADY
  | DISPATCH_RDATA
deriving DecidableEq

/-- Registers. -/
structure State (ADDR_WIDTH DATA_WIDTH AUX_WIDTH ID_WIDTH : ℕ) where
  CS : Phase
  data_r_aux_o : BitVec AUX_WIDTH
  data_r_ID_o : BitVec ID_WIDTH
  master_PADDR_Q : BitVec ADDR_WIDTH
  master_PWDATA_Q : BitVec DATA_WIDTH
  master_PWRITE_Q : Bool
  data_r_rdata_o : BitVec DATA_WIDTH
  data_r_opc_o : Bool
  data_r_valid_o : Bool

/-- A request of the interconnect. -/
structure Request (ADDR_WIDTH DATA_WIDTH AUX_WIDTH ID_WIDTH : ℕ) where
  data_req_i : Bool
  data_add_i : BitVec ADDR_WIDTH
  /-- Write enable, active low. -/
  data_wen_i : Bool
  data_wdata_i : BitVec DATA_WIDTH
  /-- Byte enables, which the bridge does not look at. -/
  data_be_i : BitVec (DATA_WIDTH/8)
  data_aux_i : BitVec AUX_WIDTH
  data_ID_i : BitVec ID_WIDTH

/-- What the bus answers. -/
structure Answer (DATA_WIDTH : ℕ) where
  master_PRDATA : BitVec DATA_WIDTH
  master_PREADY : Bool
  master_PSLVERR : Bool

/-- Values after reset. -/
def reset : State ADDR_WIDTH DATA_WIDTH AUX_WIDTH ID_WIDTH := ⟨.IDLE,0,0,0,0,false,0,false,false⟩

section Code

variable (s : State ADDR_WIDTH DATA_WIDTH AUX_WIDTH ID_WIDTH)

def data_gnt_o : Bool := s.CS==.IDLE

/-- `master_PSEL`. -/
def master_PSEL : Bool := s.CS==.WAIT_PREADY

/-- `master_PENABLE`, up with the select. -/
def master_PENABLE : Bool := s.CS==.WAIT_PREADY

variable (r : Request ADDR_WIDTH DATA_WIDTH AUX_WIDTH ID_WIDTH) (a : Answer DATA_WIDTH)

def NS : Phase := match s.CS with
  | .IDLE => if r.data_req_i then .WAIT_PREADY else .IDLE
  | .WAIT_PREADY => if a.master_PREADY then .DISPATCH_RDATA else .WAIT_PREADY
  | .DISPATCH_RDATA => .IDLE

def sample_req_info : Bool := s.CS==.IDLE && r.data_req_i

def sample_rdata : Bool := s.CS==.WAIT_PREADY && a.master_PREADY

def data_r_valid_NS : Bool := s.CS==.WAIT_PREADY && a.master_PREADY

/-- One clock edge. -/
def step : State ADDR_WIDTH DATA_WIDTH AUX_WIDTH ID_WIDTH where
  CS := NS s r a
  data_r_aux_o := if sample_req_info s r then r.data_aux_i else s.data_r_aux_o
  data_r_ID_o := if sample_req_info s r then r.data_ID_i else s.data_r_ID_o
  master_PADDR_Q := if sample_req_info s r then r.data_add_i else s.master_PADDR_Q
  master_PWDATA_Q := if sample_req_info s r then r.data_wdata_i else s.master_PWDATA_Q
  master_PWRITE_Q := if sample_req_info s r then !r.data_wen_i else s.master_PWRITE_Q
  data_r_rdata_o := if sample_rdata s a then a.master_PRDATA else s.data_r_rdata_o
  data_r_opc_o := if sample_rdata s a then a.master_PSLVERR else s.data_r_opc_o
  data_r_valid_o := data_r_valid_NS s a

end Code

section System

variable {NB_MASTER : ℕ} (START_ADDR_i END_ADDR_i : Fin NB_MASTER → BitVec 32)

/-- One cycle of inputs of the bridge with the node: a request and the ports' answers. -/
structure Input (NB_MASTER AUX_WIDTH ID_WIDTH : ℕ) where
  request : Request 32 32 AUX_WIDTH ID_WIDTH
  responses : Fin NB_MASTER → Response

/-- What the bridge gives to the node. The node has no select input. -/
def busRequest (s : State 32 32 AUX_WIDTH ID_WIDTH) : Apb.PeriphBus.Request :=
  ⟨master_PENABLE s,s.master_PWRITE_Q,s.master_PADDR_Q,s.master_PWDATA_Q⟩

/-- What the node gives to port `j`. -/
def port (s : State 32 32 AUX_WIDTH ID_WIDTH) (i : Input NB_MASTER AUX_WIDTH ID_WIDTH)
    (j : Fin NB_MASTER) : Port :=
  (apb_node START_ADDR_i END_ADDR_i (busRequest s) i.responses).1 j

/-- What the node gives back. -/
def answer (s : State 32 32 AUX_WIDTH ID_WIDTH) (i : Input NB_MASTER AUX_WIDTH ID_WIDTH) :
    Answer 32 :=
  let back := (apb_node START_ADDR_i END_ADDR_i (busRequest s) i.responses).2
  ⟨back.prdata,back.pready,back.pslverr⟩

/-- One clock edge of the bridge with the node. -/
def sysStep (s : State 32 32 AUX_WIDTH ID_WIDTH) (i : Input NB_MASTER AUX_WIDTH ID_WIDTH) :
    State 32 32 AUX_WIDTH ID_WIDTH :=
  step s i.request (answer START_ADDR_i END_ADDR_i s i)

/-- Registers in every cycle of an endless run from reset. -/
def run (env : ℕ → Input NB_MASTER AUX_WIDTH ID_WIDTH) (t : ℕ) : State 32 32 AUX_WIDTH ID_WIDTH :=
  states (sysStep START_ADDR_i END_ADDR_i) reset env t

/-- Port `j` is in the access phase of a transfer. -/
def accessed (env : ℕ → Input NB_MASTER AUX_WIDTH ID_WIDTH) (j : Fin NB_MASTER) (t : ℕ) : Bool :=
  let p := port START_ADDR_i END_ADDR_i (run START_ADDR_i END_ADDR_i env t) (env t) j
  p.psel && p.penable

/-- Port `j` raises its ready line some finite number of cycles after it is accessed,
unless the access ends before. -/
def Responds (env : ℕ → Input NB_MASTER AUX_WIDTH ID_WIDTH) (j : Fin NB_MASTER) : Prop :=
  ∀ t, accessed START_ADDR_i END_ADDR_i env j t=true →
    ∃ n, ((env (t+n)).responses j).pready=true ∨ accessed START_ADDR_i END_ADDR_i env j (t+n)=false

/-- A request is granted in cycle `t`. -/
def granted (env : ℕ → Input NB_MASTER AUX_WIDTH ID_WIDTH) (t : ℕ) : Bool :=
  (env t).request.data_req_i && data_gnt_o (run START_ADDR_i END_ADDR_i env t)

/-- After the grant of cycle `t`, the bridge grants nothing until it has answered, answers
once and with the request's numbers, and is idle in the next cycle. -/
def Completes (env : ℕ → Input NB_MASTER AUX_WIDTH ID_WIDTH) (t : ℕ) : Prop :=
  ∃ n, (∀ m, m≤n → (run START_ADDR_i END_ADDR_i env (t+1+m)).data_r_valid_o=false ∧
      data_gnt_o (run START_ADDR_i END_ADDR_i env (t+1+m))=false) ∧
    (run START_ADDR_i END_ADDR_i env (t+1+n+1)).data_r_valid_o=true ∧
    (run START_ADDR_i END_ADDR_i env (t+1+n+1)).data_r_aux_o=(env t).request.data_aux_i ∧
    (run START_ADDR_i END_ADDR_i env (t+1+n+1)).data_r_ID_o=(env t).request.data_ID_i ∧
    data_gnt_o (run START_ADDR_i END_ADDR_i env (t+1+n+1))=false ∧
    (run START_ADDR_i END_ADDR_i env (t+1+n+2)).data_r_valid_o=false ∧
    (run START_ADDR_i END_ADDR_i env (t+1+n+2)).CS=.IDLE

/-- Some range holds the address. -/
def Mapped (addr : BitVec 32) : Prop := ∃ j, START_ADDR_i j≤addr ∧ addr≤END_ADDR_i j

end System

section Node

variable {NB_MASTER : ℕ} {START_ADDR_i END_ADDR_i : Fin NB_MASTER → BitVec 32}
  {s : State 32 32 AUX_WIDTH ID_WIDTH} {i : Input NB_MASTER AUX_WIDTH ID_WIDTH}

/-- The last port whose range holds the address. -/
def LastPort (START_ADDR_i END_ADDR_i : Fin NB_MASTER → BitVec 32) (addr : BitVec 32)
    (j : Fin NB_MASTER) : Prop :=
  psel_o START_ADDR_i END_ADDR_i addr j=true ∧
    ∀ k, j<k → psel_o START_ADDR_i END_ADDR_i addr k=false

theorem psel_o_iff (addr : BitVec 32) (j : Fin NB_MASTER) :
    psel_o START_ADDR_i END_ADDR_i addr j=true ↔ START_ADDR_i j≤addr ∧ addr≤END_ADDR_i j := by
  unfold psel_o
  rw [Bool.and_eq_true_iff,decide_eq_true_iff,decide_eq_true_iff]

/-- A mapped address has a last port. -/
theorem exists_lastPort {addr : BitVec 32} (h : Mapped START_ADDR_i END_ADDR_i addr) :
    ∃ j, LastPort START_ADDR_i END_ADDR_i addr j := by
  rcases h with ⟨j,hj⟩
  induction hleft : NB_MASTER-j.val using Nat.strong_induction_on generalizing j with
  | _ left ih =>
    by_cases hlast : ∃ k, j<k ∧ psel_o START_ADDR_i END_ADDR_i addr k=true
    · rcases hlast with ⟨k,hlt,hk⟩
      have hval : j.val<k.val := hlt
      have hbound := k.isLt
      exact ih (NB_MASTER-k.val) (by omega) k ((psel_o_iff addr k).mp hk) rfl
    · refine ⟨j,(psel_o_iff addr j).mpr hj,fun k hlt => ?_⟩
      rw [←Bool.not_eq_true]
      exact fun hk => hlast ⟨k,hlt,hk⟩

/-- The bridge sees the ready line of the last port. -/
theorem ready_of_lastPort {j : Fin NB_MASTER}
    (hj : LastPort START_ADDR_i END_ADDR_i s.master_PADDR_Q j) :
    (answer START_ADDR_i END_ADDR_i s i).master_PREADY=(i.responses j).pready :=
  muxLoop_last _ (fun k => (i.responses k).pready) false hj.1 hj.2

/-- Without a port the ready line is low. -/
theorem not_ready_of_unmapped (h : ¬Mapped START_ADDR_i END_ADDR_i s.master_PADDR_Q) :
    (answer START_ADDR_i END_ADDR_i s i).master_PREADY=false := by
  refine foldl_unselected _ (fun k => (i.responses k).pready) false _ fun k _ => ?_
  rw [←Bool.not_eq_true]
  exact fun hk => h ⟨k,(psel_o_iff s.master_PADDR_Q k).mp hk⟩

end Node

section Runs

variable {NB_MASTER : ℕ} {START_ADDR_i END_ADDR_i : Fin NB_MASTER → BitVec 32}
  {env : ℕ → Input NB_MASTER AUX_WIDTH ID_WIDTH} {t : ℕ}

/-- The request of a cycle is on the bus and not yet answered. -/
structure Holding (r : Request 32 32 AUX_WIDTH ID_WIDTH) (s : State 32 32 AUX_WIDTH ID_WIDTH) :
    Prop where
  state : s.CS=.WAIT_PREADY
  addr : s.master_PADDR_Q=r.data_add_i
  aux : s.data_r_aux_o=r.data_aux_i
  id : s.data_r_ID_o=r.data_ID_i
  valid : s.data_r_valid_o=false

theorem holding_of_granted (h : granted START_ADDR_i END_ADDR_i env t=true) :
    Holding (env t).request (run START_ADDR_i END_ADDR_i env (t+1)) := by
  rcases Bool.and_eq_true_iff.mp h with ⟨hreq,hgnt⟩
  have hidle : (run START_ADDR_i END_ADDR_i env t).CS=.IDLE := beq_iff_eq.mp hgnt
  change Holding _ (sysStep START_ADDR_i END_ADDR_i (run START_ADDR_i END_ADDR_i env t) (env t))
  constructor <;> simp [sysStep,step,NS,sample_req_info,data_r_valid_NS,hidle,hreq]

/-- The request stays on the bus while the bus is not ready. -/
theorem Holding.wait {r : Request 32 32 AUX_WIDTH ID_WIDTH} {s : State 32 32 AUX_WIDTH ID_WIDTH}
    {i : Input NB_MASTER AUX_WIDTH ID_WIDTH} (h : Holding r s)
    (hready : (answer START_ADDR_i END_ADDR_i s i).master_PREADY=false) :
    Holding r (sysStep START_ADDR_i END_ADDR_i s i) := by
  rcases h with ⟨hstate,haddr,haux,hid,-⟩
  constructor <;> simp [sysStep,step,NS,sample_req_info,data_r_valid_NS,hstate,hready,haddr,haux,hid]

/-- What is on the bus when the bus gets ready is answered. -/
theorem Holding.answered {r : Request 32 32 AUX_WIDTH ID_WIDTH}
    {s : State 32 32 AUX_WIDTH ID_WIDTH} {i : Input NB_MASTER AUX_WIDTH ID_WIDTH} (h : Holding r s)
    (hready : (answer START_ADDR_i END_ADDR_i s i).master_PREADY=true) :
    (sysStep START_ADDR_i END_ADDR_i s i).CS=.DISPATCH_RDATA ∧
      (sysStep START_ADDR_i END_ADDR_i s i).data_r_valid_o=true ∧
      (sysStep START_ADDR_i END_ADDR_i s i).data_r_aux_o=r.data_aux_i ∧
      (sysStep START_ADDR_i END_ADDR_i s i).data_r_ID_o=r.data_ID_i := by
  rcases h with ⟨hstate,-,haux,hid,-⟩
  refine ⟨?_,?_,?_,?_⟩ <;>
    simp [sysStep,step,NS,sample_req_info,data_r_valid_NS,hstate,hready,haux,hid]

/-- An answer is given for one cycle. -/
theorem idle_of_dispatch {s : State ADDR_WIDTH DATA_WIDTH AUX_WIDTH ID_WIDTH}
    (hstate : s.CS=.DISPATCH_RDATA) (r : Request ADDR_WIDTH DATA_WIDTH AUX_WIDTH ID_WIDTH)
    (a : Answer DATA_WIDTH) : (step s r a).CS=.IDLE ∧ (step s r a).data_r_valid_o=false := by
  constructor <;> simp [step,NS,data_r_valid_NS,hstate]

theorem Holding.accessed_eq {r : Request 32 32 AUX_WIDTH ID_WIDTH}
    (h : Holding r (run START_ADDR_i END_ADDR_i env t)) {j : Fin NB_MASTER}
    (hj : LastPort START_ADDR_i END_ADDR_i r.data_add_i j) :
    accessed START_ADDR_i END_ADDR_i env j t=true := by
  have hsel : psel_o START_ADDR_i END_ADDR_i
      (busRequest (run START_ADDR_i END_ADDR_i env t)).paddr j=true := by
    have hpaddr : (busRequest (run START_ADDR_i END_ADDR_i env t)).paddr=r.data_add_i := h.addr
    rw [hpaddr]
    exact hj.1
  have hport : port START_ADDR_i END_ADDR_i (run START_ADDR_i END_ADDR_i env t) (env t) j=
      masterPort START_ADDR_i END_ADDR_i (busRequest (run START_ADDR_i END_ADDR_i env t)) j := rfl
  unfold accessed
  rw [hport,masterPort,if_pos hsel]
  simp [busRequest,master_PENABLE,h.state]

/-- A request to a mapped address meets a ready bus after some number of cycles. -/
theorem exists_ready {r : Request 32 32 AUX_WIDTH ID_WIDTH}
    (hslaves : ∀ j, Responds START_ADDR_i END_ADDR_i env j)
    (h : Holding r (run START_ADDR_i END_ADDR_i env t))
    (hmap : Mapped START_ADDR_i END_ADDR_i r.data_add_i) :
    ∃ n, (∀ m, m≤n → Holding r (run START_ADDR_i END_ADDR_i env (t+m))) ∧
      (answer START_ADDR_i END_ADDR_i (run START_ADDR_i END_ADDR_i env (t+n))
        (env (t+n))).master_PREADY=true := by
  rcases exists_lastPort hmap with ⟨j,hj⟩
  have hready : ∀ n, Holding r (run START_ADDR_i END_ADDR_i env (t+n)) →
      (answer START_ADDR_i END_ADDR_i (run START_ADDR_i END_ADDR_i env (t+n))
        (env (t+n))).master_PREADY=((env (t+n)).responses j).pready := by
    intro n hn
    have hj' := hj
    rw [←hn.addr] at hj'
    exact ready_of_lastPort hj'
  -- up to the first cycle in which the port is ready the request stays on the bus
  have hhold : ∀ n, (∀ m, m<n → ((env (t+m)).responses j).pready=false) →
      Holding r (run START_ADDR_i END_ADDR_i env (t+n)) := by
    intro n
    induction n with
    | zero => exact fun _ => h
    | succ n ih =>
      intro hlow
      have hn := ih fun m hm => hlow m (Nat.lt_succ_of_lt hm)
      exact hn.wait ((hready n hn).trans (hlow n (Nat.lt_succ_self n)))
  have hex : ∃ n, ((env (t+n)).responses j).pready=true := by
    by_contra hnone
    have hlow : ∀ m, ((env (t+m)).responses j).pready=false := fun m => by
      rw [←Bool.not_eq_true]
      exact fun hm => hnone ⟨m,hm⟩
    rcases hslaves j t (h.accessed_eq hj) with ⟨n,hn | hn⟩
    · exact hnone ⟨n,hn⟩
    · rw [(hhold n fun m _ => hlow m).accessed_eq hj] at hn
      exact absurd hn nofun
  have hlow : ∀ m, m<Nat.find hex → ((env (t+m)).responses j).pready=false := fun m hm =>
    Bool.eq_false_iff.mpr (Nat.find_min hex hm)
  refine ⟨Nat.find hex,fun m hm => hhold m fun k hk => hlow k (by omega),?_⟩
  rw [hready _ (hhold _ hlow)]
  exact Nat.find_spec hex

/-- A request to an unmapped address stays on the bus. -/
theorem holds_unmapped {r : Request 32 32 AUX_WIDTH ID_WIDTH}
    (h : Holding r (run START_ADDR_i END_ADDR_i env t))
    (hunmapped : ¬Mapped START_ADDR_i END_ADDR_i r.data_add_i) (n : ℕ) :
    Holding r (run START_ADDR_i END_ADDR_i env (t+n)) := by
  induction n with
  | zero => exact h
  | succ n ih =>
    refine ih.wait (not_ready_of_unmapped ?_)
    rw [ih.addr]
    exact hunmapped

/-- A granted request is completed if and only if some range holds its address. -/
theorem completes_iff (hslaves : ∀ j, Responds START_ADDR_i END_ADDR_i env j)
    (hgrant : granted START_ADDR_i END_ADDR_i env t=true) :
    Completes START_ADDR_i END_ADDR_i env t ↔
      Mapped START_ADDR_i END_ADDR_i (env t).request.data_add_i := by
  have hfirst := holding_of_granted hgrant
  constructor
  · rintro ⟨n,-,-,-,-,-,-,hidle⟩
    by_contra hunmapped
    have hstuck := (holds_unmapped hfirst hunmapped (n+2)).state
    exact absurd (hidle.symm.trans hstuck) nofun
  · intro hmap
    rcases exists_ready hslaves hfirst hmap with ⟨n,hhold,hready⟩
    rcases (hhold n (Nat.le_refl n)).answered hready with ⟨hstate,hvalid,haux,hid⟩
    have hlast := idle_of_dispatch hstate (env (t+1+n+1)).request
      (answer START_ADDR_i END_ADDR_i (run START_ADDR_i END_ADDR_i env (t+1+n+1)) (env (t+1+n+1)))
    refine ⟨n,fun m hm => ⟨(hhold m hm).valid,?_⟩,hvalid,haux,hid,?_,hlast.2,hlast.1⟩
    · simp [data_gnt_o,(hhold m hm).state]
    · exact beq_eq_false_iff_ne.mpr fun hidle => absurd (hidle.symm.trans hstate) nofun

/-- The ports of the peripheral bus, all ready in every cycle, with a read of one address
that is requested in every cycle. -/
def readyBus (addr : BitVec 32) (_ : ℕ) : Input 11 4 6 :=
  ⟨⟨true,addr,true,0,0,0,0⟩,fun _ => ⟨0,true,false⟩⟩

/-- The first range of the peripheral bus holds its first address, which is read. -/
theorem completes_fll :
    Completes (fun j => (Periph.ofIndex j).startAddr) (fun j => (Periph.ofIndex j).endAddr)
      (readyBus 0x1A100000) 0 :=
  (completes_iff (fun _ _ _ => ⟨0,Or.inl rfl⟩) rfl).mpr ⟨0,by decide⟩

/-- No range of the peripheral bus holds the address after those of the accelerator. Its
read is granted and never completed, with all ports ready. -/
theorem not_completes_unmapped :
    (∀ j, Responds (fun j => (Periph.ofIndex j).startAddr) (fun j => (Periph.ofIndex j).endAddr)
        (readyBus 0x1A10D000) j) ∧
      granted (fun j => (Periph.ofIndex j).startAddr) (fun j => (Periph.ofIndex j).endAddr)
        (readyBus 0x1A10D000) 0=true ∧
      ¬Completes (fun j => (Periph.ofIndex j).startAddr) (fun j => (Periph.ofIndex j).endAddr)
        (readyBus 0x1A10D000) 0 := by
  have hgrant : granted (fun j => (Periph.ofIndex j).startAddr)
      (fun j => (Periph.ofIndex j).endAddr) (readyBus 0x1A10D000) 0=true := rfl
  have hunmapped : ¬Mapped (fun j => (Periph.ofIndex j).startAddr)
      (fun j => (Periph.ofIndex j).endAddr) (0x1A10D000 : BitVec 32) := by
    unfold Mapped
    decide
  refine ⟨fun _ _ _ => ⟨0,Or.inl rfl⟩,hgrant,?_⟩
  rintro ⟨n,-,-,-,-,-,-,hidle⟩
  have hstuck := (holds_unmapped (holding_of_granted hgrant) hunmapped (n+2)).state
  exact absurd (hidle.symm.trans hstuck) nofun

end Runs

end Pulpissimo.Interco.Lint2Apb
