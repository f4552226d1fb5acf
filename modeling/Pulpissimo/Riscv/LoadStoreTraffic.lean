import Pulpissimo.Lib.Machine
import Pulpissimo.Riscv.LoadStore

/-!
# Transactions of the load-store unit

The unit against a ledger of its transactions: the granted requests whose
response is due, and whether the instruction in EX was granted already and only
waits to leave. The EX registers and the EX stage's valid signal are free in
every cycle. The memory grants requests only, and answers granted requests in
order, at least one cycle after the grant. The four states of the unit are
exactly the entries of the ledger.
-/

namespace Pulpissimo.Riscv.LoadStoreTraffic

open Pulpissimo.Machine Pulpissimo.Riscv.LoadStore

/-- What a response depends on. -/
structure Request where
  /-- Access size. -/
  data_type : BitVec 2
  /-- Sign extension. -/
  sign_ext : Bool
  /-- Byte offset. -/
  offset : BitVec 2
  /-- Store. -/
  we : Bool

/-- The request in EX. -/
def requested (e : Ex) : Request :=
  ⟨e.data_type_ex_i,e.data_sign_ext_ex_i,LoadStore.offset e,e.data_we_ex_i⟩

/-- The request that the unit has latched. -/
def latched (s : State) : Request :=
  ⟨s.data_type_q,s.data_sign_ext_q,s.rdata_offset_q,s.data_we_q⟩

/-- The value of a response, by the size, sign and offset of its request. -/
def Request.value (r : Request) (rdata_q data_rdata_i : BitVec 32) : BitVec 32 :=
  data_rdata_ext ⟨.IDLE,r.data_type,r.offset,r.sign_ext,r.we,rdata_q⟩ data_rdata_i

/-- The unit and the ledger. -/
structure Traffic where
  /-- The unit. -/
  lsu : State
  /-- Granted requests without a response, oldest first. -/
  outstanding : List Request
  /-- The instruction in EX was granted and has not left. -/
  held : Bool

/-- One cycle of the environment. -/
structure Cycle where
  /-- EX registers. -/
  ex : Ex
  /-- The EX stage is done. -/
  ex_valid_i : Bool
  /-- The memory would grant a request. -/
  gnt : Bool
  /-- The memory answers if a response is due. -/
  rvalid : Bool
  /-- Protection error flag. -/
  err : Bool
  /-- Word read. -/
  rdata : BitVec 32

/-- The bus as the unit sees it: a grant needs a request and a response needs
a granted one. -/
def Traffic.bus (t : Traffic) (c : Cycle) : Bus :=
  let rvalid := c.rvalid && !t.outstanding.isEmpty
  ⟨c.gnt && data_req_o t.lsu c.ex rvalid,rvalid,c.err,c.rdata⟩

/-- One clock edge. -/
def Traffic.step (t : Traffic) (c : Cycle) : Traffic where
  lsu := LoadStore.step t.lsu c.ex (t.bus c) c.ex_valid_i
  outstanding :=
    (if (t.bus c).data_rvalid_i then t.outstanding.tail else t.outstanding)++
      if (t.bus c).data_gnt_i then [requested c.ex] else []
  held := !c.ex_valid_i && ((t.bus c).data_gnt_i || t.held)

/-- After reset. -/
def start : Traffic := ⟨reset,[],false⟩

/-- A response is due in this state. -/
def waiting (CS : FsmState) : Bool := CS==.WAIT_RVALID || CS==.WAIT_RVALID_EX_STALL

/-- The instruction in EX only waits to leave in this state. -/
def stalled (CS : FsmState) : Bool := CS==.WAIT_RVALID_EX_STALL || CS==.IDLE_EX_STALL

/-- What every cycle does. -/
structure Booked (t : Traffic) (c : Cycle) : Prop where
  /-- The state accounts for all outstanding requests. -/
  count : t.outstanding.length=if waiting t.lsu.CS then 1 else 0
  /-- It accounts for an instruction that was granted. -/
  held : t.held=stalled t.lsu.CS
  /-- Such an instruction does not request again. -/
  once : t.held=true → data_req_o t.lsu c.ex (t.bus c).data_rvalid_i=false
  /-- A response goes to the one outstanding request, with its attributes. -/
  response : (t.bus c).data_rvalid_i=true → ∃ r,t.outstanding=[r] ∧ latched t.lsu=r ∧
    data_rdata_ex_o t.lsu (t.bus c)=r.value t.lsu.rdata_q c.rdata
  /-- WB waits for the response of an instruction that has left EX. -/
  ready : lsu_ready_wb_o t.lsu (t.bus c)=
    (t.outstanding.isEmpty || t.held || (t.bus c).data_rvalid_i)
  /-- No grant without a response for the last request. -/
  grant : t.lsu.CS=.WAIT_RVALID → (t.bus c).data_gnt_i=true → (t.bus c).data_rvalid_i=true
  /-- No response in the idle state. -/
  idle : t.lsu.CS=.IDLE → (t.bus c).data_rvalid_i=false

/-- The ledger, read from the state of the unit. -/
structure Inv (t : Traffic) : Prop where
  /-- The outstanding request is the latched one. -/
  outstanding : t.outstanding=if waiting t.lsu.CS then [latched t.lsu] else []
  /-- The granted instruction. -/
  held : t.held=stalled t.lsu.CS

section Step

variable {t : Traffic} {c : Cycle}

/-- A granted request is latched, and nothing else is. -/
theorem latched_step : latched (t.step c).lsu=
    if (t.bus c).data_gnt_i then requested c.ex else latched t.lsu := by
  unfold Traffic.step LoadStore.step latched requested
  cases (t.bus c).data_gnt_i with
  | true => rfl
  | false => rfl

/-- A response needs a state that waits for one. -/
theorem rvalid_waiting (hI : Inv t) (h : waiting t.lsu.CS=false) :
    (t.bus c).data_rvalid_i=false := by
  have hnone : t.outstanding=[] := by rw [hI.outstanding,h,if_neg Bool.false_ne_true]
  unfold Traffic.bus
  rw [hnone]
  exact Bool.and_false _

/-- A grant needs a request. -/
theorem gnt_request (h : (t.bus c).data_gnt_i=true) :
    data_req_o t.lsu c.ex (t.bus c).data_rvalid_i=true :=
  (Bool.and_eq_true_iff.mp h).2

/-- Neither stalled state requests. -/
theorem stalled_quiet (h : stalled t.lsu.CS=true) (rvalid : Bool) :
    data_req_o t.lsu c.ex rvalid=false := by
  unfold stalled at h
  unfold data_req_o
  cases hCS : t.lsu.CS with
  | IDLE =>
    rw [hCS] at h
    exact absurd h nofun
  | WAIT_RVALID =>
    rw [hCS] at h
    exact absurd h nofun
  | WAIT_RVALID_EX_STALL => rfl
  | IDLE_EX_STALL => rfl

/-- The next state by what the cycle grants and answers. -/
theorem next_state (hI : Inv t) :
    waiting (t.step c).lsu.CS=((t.bus c).data_gnt_i || waiting t.lsu.CS && !(t.bus c).data_rvalid_i) ∧
      stalled (t.step c).lsu.CS=(!c.ex_valid_i && ((t.bus c).data_gnt_i || stalled t.lsu.CS)) := by
  have hgnt := gnt_request (t:=t) (c:=c)
  have hidle := rvalid_waiting (c:=c) hI
  change waiting (NS t.lsu c.ex (t.bus c) c.ex_valid_i)=_ ∧
    stalled (NS t.lsu c.ex (t.bus c) c.ex_valid_i)=_
  unfold NS
  unfold data_req_o at hgnt
  cases hCS : t.lsu.CS with
  | IDLE =>
    rw [hCS] at hgnt hidle
    dsimp only at hgnt ⊢
    rw [hidle rfl]
    cases hg : (t.bus c).data_gnt_i with
    | true =>
      rw [hgnt hg]
      cases c.ex_valid_i with
      | true => exact ⟨rfl,rfl⟩
      | false => exact ⟨rfl,rfl⟩
    | false =>
      rw [Bool.and_false,if_neg Bool.false_ne_true]
      exact ⟨rfl,(Bool.and_false _).symm⟩
  | WAIT_RVALID =>
    rw [hCS] at hgnt
    dsimp only at hgnt ⊢
    cases hg : (t.bus c).data_gnt_i with
    | true =>
      have hboth := Bool.and_eq_true_iff.mp (hgnt hg)
      rw [hboth.1,hboth.2]
      cases c.ex_valid_i with
      | true => exact ⟨rfl,rfl⟩
      | false => exact ⟨rfl,rfl⟩
    | false =>
      rw [Bool.and_false,if_neg Bool.false_ne_true,Bool.false_or,Bool.false_or]
      cases (t.bus c).data_rvalid_i with
      | true => exact ⟨rfl,(Bool.and_false _).symm⟩
      | false => exact ⟨rfl,(Bool.and_false _).symm⟩
  | WAIT_RVALID_EX_STALL =>
    rw [hCS] at hgnt
    have hg : (t.bus c).data_gnt_i=false := Bool.eq_false_iff.mpr fun h => absurd (hgnt h) nofun
    rw [hg]
    cases (t.bus c).data_rvalid_i with
    | true => cases c.ex_valid_i with
      | true => exact ⟨rfl,rfl⟩
      | false => exact ⟨rfl,rfl⟩
    | false => cases c.ex_valid_i with
      | true => exact ⟨rfl,rfl⟩
      | false => exact ⟨rfl,rfl⟩
  | IDLE_EX_STALL =>
    rw [hCS] at hgnt
    have hg : (t.bus c).data_gnt_i=false := Bool.eq_false_iff.mpr fun h => absurd (hgnt h) nofun
    rw [hg]
    cases c.ex_valid_i with
    | true => exact ⟨rfl,rfl⟩
    | false => exact ⟨rfl,rfl⟩

/-- A grant while a response is due comes with that response. -/
theorem grant_answered (hw : waiting t.lsu.CS=true) (hg : (t.bus c).data_gnt_i=true) :
    (t.bus c).data_rvalid_i=true := by
  have hreq := gnt_request hg
  unfold data_req_o at hreq
  cases hCS : t.lsu.CS with
  | IDLE =>
    rw [hCS] at hw
    exact absurd hw nofun
  | WAIT_RVALID =>
    rw [hCS] at hreq
    exact (Bool.and_eq_true_iff.mp hreq).1
  | WAIT_RVALID_EX_STALL =>
    rw [hCS] at hreq
    exact absurd hreq nofun
  | IDLE_EX_STALL =>
    rw [hCS] at hreq
    exact absurd hreq nofun

/-- One cycle keeps the ledger in step with the state. -/
theorem inv_step (hI : Inv t) (c : Cycle) : Inv (t.step c) := by
  rcases next_state (c:=c) hI with ⟨hwaiting,hstalled⟩
  refine ⟨?_,?_⟩
  · rw [hwaiting,latched_step]
    change (if (t.bus c).data_rvalid_i then t.outstanding.tail else t.outstanding)++
      (if (t.bus c).data_gnt_i then [requested c.ex] else [])=_
    rw [hI.outstanding]
    have hanswered := grant_answered (t:=t) (c:=c)
    have hquiet := rvalid_waiting (c:=c) hI
    cases hw : waiting t.lsu.CS with
    | true =>
      cases hv : (t.bus c).data_rvalid_i with
      | true => cases (t.bus c).data_gnt_i with
        | true => rfl
        | false => rfl
      | false =>
        have hg : (t.bus c).data_gnt_i=false :=
          Bool.eq_false_iff.mpr fun h => absurd (hv.symm.trans (hanswered hw h)) nofun
        rw [hg]
        rfl
    | false =>
      rw [hquiet hw]
      cases (t.bus c).data_gnt_i with
      | true => rfl
      | false => rfl
  · rw [hstalled,←hI.held]
    rfl

/-- The invariant says what a cycle does. -/
theorem booked_of_inv (hI : Inv t) (c : Cycle) : Booked t c where
  count := by
    rw [hI.outstanding]
    cases waiting t.lsu.CS with
    | true => rfl
    | false => rfl
  held := hI.held
  once h := stalled_quiet (hI.held.symm.trans h) _
  response hv := by
    have hw : waiting t.lsu.CS=true := by
      by_contra hno
      exact absurd (hv.symm.trans (rvalid_waiting hI (Bool.eq_false_iff.mpr hno))) nofun
    refine ⟨latched t.lsu,?_,rfl,?_⟩
    · rw [hI.outstanding,if_pos hw]
    · unfold data_rdata_ex_o
      rw [if_pos hv]
      rfl
  ready := by
    rw [hI.outstanding,hI.held]
    unfold lsu_ready_wb_o
    cases t.lsu.CS with
    | IDLE => rfl
    | WAIT_RVALID => rfl
    | WAIT_RVALID_EX_STALL => rfl
    | IDLE_EX_STALL => rfl
  grant hCS hg := grant_answered (by rw [hCS]; rfl) hg
  idle hCS := rvalid_waiting hI (by rw [hCS]; rfl)

end Step

theorem start_inv : Inv start := ⟨rfl,rfl⟩

/-- In every cycle of every run from reset the transactions are booked. -/
theorem transactions_booked (cycles : List Cycle) : Meets Traffic.step Booked start cycles :=
  meets_of_invariant (P:=Inv) (C:=Booked) (fun _ c h => inv_step h c)
    (fun _ c h => booked_of_inv h c) start_inv cycles

end Pulpissimo.Riscv.LoadStoreTraffic
