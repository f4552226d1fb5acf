import Pulpissimo.Lib.Machine

/-!
# The bridge from the interconnect to AXI

`lint_2_axi` turns a request into the handshakes of an AXI master, one request at a
time. It keeps no copy of the request: addresses, data and strobes come from the request
lines in every cycle. `REGISTERED_GRANT` gives the grant with the response and the
response one cycle later.
-/

namespace Pulpissimo.Interco.Lint2Axi

open Pulpissimo.Machine

/-- Widths of the AXI data that the block supports. -/
inductive DataWidth where
  | w32
  | w64
  deriving DecidableEq

def DataWidth.bits : DataWidth → ℕ
  | w32 => 32
  | w64 => 64

/-- Parameters. -/
structure Config where
  ADDR_WIDTH : ℕ
  DATA_WIDTH : DataWidth
  BE_WIDTH : ℕ
  ID_WIDTH : ℕ
  AUX_WIDTH : ℕ
  REGISTERED_GRANT : Bool

variable {c : Config}

/-- The request side. -/
structure Request (c : Config) where
  data_req_i : Bool
  data_addr_i : BitVec c.ADDR_WIDTH
  data_we_i : Bool
  data_wdata_i : BitVec 32
  data_be_i : BitVec c.BE_WIDTH
  data_ID_i : BitVec c.ID_WIDTH
  data_aux_i : BitVec c.AUX_WIDTH

/-- What the AXI slave drives. -/
structure Axi (c : Config) where
  aw_ready_i : Bool
  w_ready_i : Bool
  b_resp_i : BitVec 2
  b_valid_i : Bool
  ar_ready_i : Bool
  r_data_i : BitVec c.DATA_WIDTH.bits
  r_resp_i : BitVec 2
  r_valid_i : Bool

/-- One cycle of inputs. -/
structure Input (c : Config) where
  req : Request c
  axi : Axi c

/-- States of the machine. -/
inductive Fsm where
  | IDLE
  | READ_WAIT
  | WRITE_DATA
  | WRITE_ADDR
  | WRITE_WAIT
  deriving DecidableEq

/-- Registers. `valid_q`, `rdata_q` and `r_opc_q` are there with `REGISTERED_GRANT`, `addr_q` with
64 bits of data; otherwise nothing reads them. -/
structure State (c : Config) where
  CS : Fsm
  addr_q : Bool
  data_raux_o : BitVec c.AUX_WIDTH
  data_rID_o : BitVec c.ID_WIDTH
  valid_q : Bool
  rdata_q : BitVec 32
  r_opc_q : Bool

/-- Values after reset. -/
def reset : State c := ⟨.IDLE,false,0,0,false,0,false⟩

/-- Outputs of the machine. -/
structure Drive where
  NS : Fsm
  granted : Bool
  valid : Bool
  r_opc : Bool
  aw_valid_o : Bool
  ar_valid_o : Bool
  r_ready_o : Bool
  w_valid_o : Bool
  b_ready_o : Bool

/-- Defaults of the combinational block in state `CS`. -/
def quiet (CS : Fsm) : Drive := ⟨CS,false,false,false,false,false,false,false,false⟩

/-- The main machine. -/
def fsm (s : State c) (i : Input c) : Drive :=
  match s.CS with
  | .IDLE =>
    if i.req.data_req_i then
      if i.req.data_we_i then
        { quiet s.CS with
          aw_valid_o := true
          w_valid_o := true
          granted := i.axi.aw_ready_i && i.axi.w_ready_i
          NS := if i.axi.aw_ready_i then if i.axi.w_ready_i then .WRITE_WAIT else .WRITE_DATA
            else if i.axi.w_ready_i then .WRITE_ADDR else .IDLE }
      else
        { quiet s.CS with
          ar_valid_o := true
          granted := i.axi.ar_ready_i
          NS := if i.axi.ar_ready_i then .READ_WAIT else .IDLE }
    else { quiet s.CS with NS := .IDLE }
  | .WRITE_DATA =>
    { quiet s.CS with
      w_valid_o := true
      granted := i.axi.w_ready_i
      NS := if i.axi.w_ready_i then .WRITE_WAIT else s.CS }
  | .WRITE_ADDR =>
    { quiet s.CS with
      aw_valid_o := true
      granted := i.axi.aw_ready_i
      NS := if i.axi.aw_ready_i then .WRITE_WAIT else s.CS }
  | .WRITE_WAIT =>
    { quiet s.CS with
      b_ready_o := true
      valid := i.axi.b_valid_i
      r_opc := i.axi.b_valid_i && i.axi.b_resp_i.getLsbD 1
      NS := if i.axi.b_valid_i then .IDLE else s.CS }
  | .READ_WAIT =>
    { quiet s.CS with
      valid := i.axi.r_valid_i
      r_ready_o := i.axi.r_valid_i
      r_opc := i.axi.r_valid_i && i.axi.r_resp_i.getLsbD 1
      NS := if i.axi.r_valid_i then .IDLE else s.CS }

section Outputs

variable (s : State c) (i : Input c)

def data_gnt_o : Bool := if c.REGISTERED_GRANT then (fsm s i).valid else (fsm s i).granted

def data_rvalid_o : Bool := if c.REGISTERED_GRANT then s.valid_q else (fsm s i).valid

/-- The lane of the read data. -/
def rdata : BitVec 32 :=
  match c.DATA_WIDTH with
  | .w32 => i.axi.r_data_i.setWidth 32
  | .w64 => if s.addr_q then i.axi.r_data_i.extractLsb' 32 32 else i.axi.r_data_i.extractLsb' 0 32

def data_rdata_o : BitVec 32 := if c.REGISTERED_GRANT then s.rdata_q else rdata s i

def data_ropc_o : Bool := if c.REGISTERED_GRANT then s.r_opc_q else (fsm s i).r_opc

def aw_addr_o (q : Request c) : BitVec c.ADDR_WIDTH := q.data_addr_i

def ar_addr_o (q : Request c) : BitVec c.ADDR_WIDTH := q.data_addr_i

/-- Write data, replicated over the bus. -/
def w_data_o (q : Request c) : BitVec c.DATA_WIDTH.bits :=
  (q.data_wdata_i++q.data_wdata_i).setWidth _

def w_strb_o (q : Request c) : BitVec (c.DATA_WIDTH.bits/8) :=
  match c.DATA_WIDTH with
  | .w32 => q.data_be_i.setWidth _
  | .w64 => if q.data_addr_i.getLsbD 2 then (q.data_be_i++0#4).setWidth _
    else (0#4++q.data_be_i).setWidth _

/-- One clock edge. -/
def step : State c where
  CS := (fsm s i).NS
  addr_q := if data_gnt_o s i then i.req.data_addr_i.getLsbD 2 else s.addr_q
  data_raux_o := if (fsm s i).granted then i.req.data_aux_i else s.data_raux_o
  data_rID_o := if (fsm s i).granted then i.req.data_ID_i else s.data_rID_o
  valid_q := (fsm s i).valid
  rdata_q := if (fsm s i).valid then rdata s i else s.rdata_q
  r_opc_q := (fsm s i).r_opc

end Outputs

section Traffic

variable (s : State c) (i : Input c)

/-- Data and strobe of a write beat. -/
abbrev Beat (c : Config) := BitVec c.DATA_WIDTH.bits × BitVec (c.DATA_WIDTH.bits/8)

def beat (q : Request c) : Beat c := (w_data_o q,w_strb_o q)

/-- Write addresses the slave takes in a cycle. -/
def awTaken : List (BitVec c.ADDR_WIDTH) :=
  if (fsm s i).aw_valid_o && i.axi.aw_ready_i then [aw_addr_o i.req] else []

def wTaken : List (Beat c) :=
  if (fsm s i).w_valid_o && i.axi.w_ready_i then [beat i.req] else []

def arTaken : List (BitVec c.ADDR_WIDTH) :=
  if (fsm s i).ar_valid_o && i.axi.ar_ready_i then [ar_addr_o i.req] else []

/-- Requests granted in a cycle. -/
def grants : List (Request c) := if i.req.data_req_i && data_gnt_o s i then [i.req] else []

/-- Responses given in a cycle, with their ID and aux. -/
def responses : List (BitVec c.ID_WIDTH × BitVec c.AUX_WIDTH) :=
  if data_rvalid_o s i then [(s.data_rID_o,s.data_raux_o)] else []

/-- Writes among requests. -/
def writes (qs : List (Request c)) : List (Request c) := qs.filter (·.data_we_i)

/-- Reads among requests. -/
def reads (qs : List (Request c)) : List (Request c) := qs.filter (!·.data_we_i)

/-- The bridge waits for the response. -/
def waiting (s : State c) : Bool := s.CS=.WRITE_WAIT || s.CS=.READ_WAIT

/-- Whether the bridge works on the request that is on the lines. With `REGISTERED_GRANT`
it does until the response. -/
def engaged (s : State c) : Bool := c.REGISTERED_GRANT || !waiting s

/-- The slave's signals that end the work on a request on the lines, a write if `we`. -/
def ends (s : State c) (we : Bool) (x : Axi c) : Bool :=
  match s.CS with
  | .IDLE => !c.REGISTERED_GRANT && if we then x.aw_ready_i && x.w_ready_i else x.ar_ready_i
  | .WRITE_DATA => !c.REGISTERED_GRANT && x.w_ready_i
  | .WRITE_ADDR => !c.REGISTERED_GRANT && x.aw_ready_i
  | .WRITE_WAIT => c.REGISTERED_GRANT && x.b_valid_i
  | .READ_WAIT => c.REGISTERED_GRANT && x.r_valid_i

/-- The bridge gives a response. -/
def answers (s : State c) (x : Axi c) : Bool :=
  if c.REGISTERED_GRANT then s.valid_q
  else match s.CS with
    | .WRITE_WAIT => x.b_valid_i
    | .READ_WAIT => x.r_valid_i
    | _ => false

end Traffic

section Step

/-- A request whose handshakes are done and that is not granted yet. -/
def served (s : State c) (q : Request c) : List (Request c) :=
  if c.REGISTERED_GRANT && waiting s then [q] else []

/-- A response that a granted request still waits for. -/
def owed (s : State c) : List (BitVec c.ID_WIDTH × BitVec c.AUX_WIDTH) :=
  if if c.REGISTERED_GRANT then s.valid_q else waiting s then [(s.data_rID_o,s.data_raux_o)] else []

theorem owed_cases (s : State c) : owed s=[] ∨ owed s=[(s.data_rID_o,s.data_raux_o)] := by
  unfold owed
  rcases Bool.eq_false_or_eq_true (if c.REGISTERED_GRANT then s.valid_q else waiting s) with h | h
  · exact Or.inr (if_pos h)
  · exact Or.inl (if_neg (by rw [h]; nofun))

/-- A write address that is ahead of its data. -/
def awAhead (s : State c) (q : Request c) : List (BitVec c.ADDR_WIDTH) :=
  if s.CS=.WRITE_DATA then [aw_addr_o q] else []

/-- Write data that are ahead of their address. -/
def wAhead (s : State c) (q : Request c) : List (Beat c) :=
  if s.CS=.WRITE_ADDR then [beat q] else []

/-- What the registers say about the request `q` on the lines. -/
structure Agrees (s : State c) (q : Request c) : Prop where
  /-- A write under way is on the lines. -/
  half : s.CS=.WRITE_DATA ∨ s.CS=.WRITE_ADDR → q.data_req_i=true ∧ q.data_we_i=true
  /-- So is a request that waits for its response, when it is granted with it. -/
  wait : c.REGISTERED_GRANT=true → waiting s=true →
    q.data_req_i=true ∧ q.data_we_i=decide (s.CS=.WRITE_WAIT) ∧ s.data_rID_o=q.data_ID_i ∧
      s.data_raux_o=q.data_aux_i
  late : s.valid_q=true → s.CS=.IDLE

/-- A request on which the bridge works and that it does not grant stays on the lines. -/
def Held (s : State c) (i : Input c) (q : Request c) : Prop :=
  i.req.data_req_i=true → data_gnt_o s i=false → engaged s=true → q=i.req

/-- The cycle's changes: what the slave takes belongs to the request on the lines. -/
structure Moves (s : State c) (i : Input c) (q : Request c) : Prop where
  agrees : Agrees (step s i) q
  aw : (writes (served s i.req)).map aw_addr_o++awAhead s i.req++awTaken s i=
    (writes (grants s i)).map aw_addr_o++((writes (served (step s i) q)).map aw_addr_o++awAhead (step s i) q)
  w : (writes (served s i.req)).map beat++wAhead s i.req++wTaken s i=
    (writes (grants s i)).map beat++((writes (served (step s i) q)).map beat++wAhead (step s i) q)
  ar : (reads (served s i.req)).map ar_addr_o++arTaken s i=
    (reads (grants s i)).map ar_addr_o++(reads (served (step s i) q)).map ar_addr_o
  answer : owed s++(grants s i).map (fun r => (r.data_ID_i,r.data_aux_i))=
    responses s i++owed (step s i)

end Step

section Cycle

variable {s : State c} {i : Input c} {q : Request c}

attribute [local simp] fsm quiet data_gnt_o data_rvalid_o engaged waiting step served owed awAhead wAhead
  writes reads grants responses awTaken wTaken arTaken

theorem data_gnt_o_eq (hreq : i.req.data_req_i=true) :
    data_gnt_o s i=ends s i.req.data_we_i i.axi := by
  unfold ends
  cases hR : c.REGISTERED_GRANT <;> cases hCS : s.CS <;> cases hwe : i.req.data_we_i <;>
    simp [hCS,hR,hreq,hwe]

theorem data_rvalid_o_eq (s : State c) (i : Input c) : data_rvalid_o s i=answers s i.axi := by
  unfold answers
  cases hR : c.REGISTERED_GRANT <;> cases hCS : s.CS <;> cases hreq : i.req.data_req_i <;>
    cases hwe : i.req.data_we_i <;> simp [hCS,hR,hreq,hwe]

/-- A late response is out before the next request. -/
theorem not_late (hs : Agrees s i.req) (hCS : s.CS≠.IDLE) : s.valid_q=false := by
  cases hv : s.valid_q with
  | false => rfl
  | true => exact absurd (hs.late hv) hCS

theorem moves_quiet (hCS : s.CS=.IDLE) (hreq : i.req.data_req_i=false) : Moves s i q := by
  cases hR : c.REGISTERED_GRANT <;> constructor <;> (try constructor) <;> simp [hCS,hR,hreq]

theorem moves_write (hCS : s.CS=.IDLE) (hreq : i.req.data_req_i=true) (hwe : i.req.data_we_i=true)
    (hq : Held s i q) : Moves s i q := by
  unfold Held at hq
  cases hR : c.REGISTERED_GRANT <;> cases haw : i.axi.aw_ready_i <;> cases hw : i.axi.w_ready_i <;>
    simp [hCS,hR,haw,hw,hreq,hwe] at hq <;> constructor <;> (try constructor) <;>
    simp [hCS,hR,haw,hw,hreq,hwe,hq]

theorem moves_read (hCS : s.CS=.IDLE) (hreq : i.req.data_req_i=true) (hwe : i.req.data_we_i=false)
    (hq : Held s i q) : Moves s i q := by
  unfold Held at hq
  cases hR : c.REGISTERED_GRANT <;> cases har : i.axi.ar_ready_i <;>
    simp [hCS,hR,har,hreq,hwe] at hq <;> constructor <;> (try constructor) <;>
    simp [hCS,hR,har,hreq,hwe,hq]

theorem moves_write_data (hCS : s.CS=.WRITE_DATA) (hs : Agrees s i.req) (hq : Held s i q) :
    Moves s i q := by
  rcases hs.half (Or.inl hCS) with ⟨hreq,hwe⟩
  have hvq : s.valid_q=false := not_late hs (by rw [hCS]; nofun)
  unfold Held at hq
  cases hR : c.REGISTERED_GRANT <;> cases hw : i.axi.w_ready_i <;>
    simp [hCS,hR,hw,hreq] at hq <;> constructor <;> (try constructor) <;>
    simp [hCS,hR,hw,hreq,hwe,hvq,hq]

theorem moves_write_addr (hCS : s.CS=.WRITE_ADDR) (hs : Agrees s i.req) (hq : Held s i q) :
    Moves s i q := by
  rcases hs.half (Or.inr hCS) with ⟨hreq,hwe⟩
  have hvq : s.valid_q=false := not_late hs (by rw [hCS]; nofun)
  unfold Held at hq
  cases hR : c.REGISTERED_GRANT <;> cases haw : i.axi.aw_ready_i <;>
    simp [hCS,hR,haw,hreq] at hq <;> constructor <;> (try constructor) <;>
    simp [hCS,hR,haw,hreq,hwe,hvq,hq]

theorem moves_write_wait (hCS : s.CS=.WRITE_WAIT) (hs : Agrees s i.req) (hq : Held s i q) :
    Moves s i q := by
  have hvq : s.valid_q=false := not_late hs (by rw [hCS]; nofun)
  have hwait := hs.wait
  unfold Held at hq
  cases hR : c.REGISTERED_GRANT <;> cases hb : i.axi.b_valid_i <;>
    simp [hCS,hR] at hwait <;> simp [hCS,hR,hb,hwait] at hq <;> constructor <;> (try constructor) <;>
    simp [hCS,hR,hb,hvq,hwait,hq]

theorem moves_read_wait (hCS : s.CS=.READ_WAIT) (hs : Agrees s i.req) (hq : Held s i q) :
    Moves s i q := by
  have hvq : s.valid_q=false := not_late hs (by rw [hCS]; nofun)
  have hwait := hs.wait
  unfold Held at hq
  cases hR : c.REGISTERED_GRANT <;> cases hr : i.axi.r_valid_i <;>
    simp [hCS,hR] at hwait <;> simp [hCS,hR,hr,hwait] at hq <;> constructor <;> (try constructor) <;>
    simp [hCS,hR,hr,hvq,hwait,hq]

/-- Every cycle keeps the ledger if the request is held. -/
theorem moves (hs : Agrees s i.req) (hq : Held s i q) : Moves s i q := by
  cases hCS : s.CS with
  | IDLE =>
    cases hreq : i.req.data_req_i with
    | false => exact moves_quiet hCS hreq
    | true =>
      cases hwe : i.req.data_we_i with
      | false => exact moves_read hCS hreq hwe hq
      | true => exact moves_write hCS hreq hwe hq
  | READ_WAIT => exact moves_read_wait hCS hs hq
  | WRITE_DATA => exact moves_write_data hCS hs hq
  | WRITE_ADDR => exact moves_write_addr hCS hs hq
  | WRITE_WAIT => exact moves_write_wait hCS hs hq

/-- What the slave does not take at once stays for it. -/
structure Stable (s : State c) (i j : Input c) : Prop where
  aw : (fsm s i).aw_valid_o=true → i.axi.aw_ready_i=false →
    (fsm (step s i) j).aw_valid_o=true ∧ aw_addr_o j.req=aw_addr_o i.req
  w : (fsm s i).w_valid_o=true → i.axi.w_ready_i=false →
    (fsm (step s i) j).w_valid_o=true ∧ beat j.req=beat i.req
  ar : (fsm s i).ar_valid_o=true → i.axi.ar_ready_i=false →
    (fsm (step s i) j).ar_valid_o=true ∧ ar_addr_o j.req=ar_addr_o i.req

/-- The states in which the slave is offered something. -/
theorem offers (hs : Agrees s i.req) (h : (fsm s i).aw_valid_o=true ∨ (fsm s i).w_valid_o=true ∨
    (fsm s i).ar_valid_o=true) : i.req.data_req_i=true ∧ engaged s=true := by
  cases hCS : s.CS with
  | IDLE =>
    cases hreq : i.req.data_req_i with
    | false => simp [hCS,hreq] at h
    | true => exact ⟨rfl,by simp [hCS]⟩
  | READ_WAIT => simp [hCS] at h
  | WRITE_DATA => exact ⟨(hs.half (Or.inl hCS)).1,by simp [hCS]⟩
  | WRITE_ADDR => exact ⟨(hs.half (Or.inr hCS)).1,by simp [hCS]⟩
  | WRITE_WAIT => simp [hCS] at h

/-- A channel offers something that is not taken. -/
def Refused (s : State c) (i : Input c) : Prop :=
  ((fsm s i).aw_valid_o=true ∧ i.axi.aw_ready_i=false) ∨
    ((fsm s i).w_valid_o=true ∧ i.axi.w_ready_i=false) ∨
      ((fsm s i).ar_valid_o=true ∧ i.axi.ar_ready_i=false)

/-- Then the request is not granted, and stays. -/
theorem refused_held (hs : Agrees s i.req) (hq : Held s i q) (h : Refused s i) :
    i.req.data_req_i=true ∧ q=i.req := by
  have hoffer : i.req.data_req_i=true ∧ engaged s=true :=
    offers hs (h.imp And.left (Or.imp And.left And.left))
  refine ⟨hoffer.1,hq hoffer.1 ?_ hoffer.2⟩
  rcases h with ⟨hv,hr⟩ | ⟨hv,hr⟩ | ⟨hv,hr⟩ <;> revert hv <;>
    cases hR : c.REGISTERED_GRANT <;> cases hCS : s.CS <;> cases hwe : i.req.data_we_i <;>
      simp [hCS,hR,hr,hoffer.1,hwe]

theorem stable {j : Input c} (hs : Agrees s i.req) (hq : Held s i j.req) : Stable s i j := by
  constructor
  · intro hv hr
    rcases refused_held hs hq (Or.inl ⟨hv,hr⟩) with ⟨hreq,hj⟩
    revert hv
    rw [hj]
    cases hCS : s.CS <;> cases hwe : i.req.data_we_i <;> cases hw : i.axi.w_ready_i <;>
      simp [hCS,hj,hr,hreq,hwe,hw]
  · intro hv hr
    rcases refused_held hs hq (Or.inr (Or.inl ⟨hv,hr⟩)) with ⟨hreq,hj⟩
    revert hv
    rw [hj]
    cases hCS : s.CS <;> cases hwe : i.req.data_we_i <;> cases haw : i.axi.aw_ready_i <;>
      simp [hCS,hj,hr,hreq,hwe,haw]
  · intro hv hr
    rcases refused_held hs hq (Or.inr (Or.inr ⟨hv,hr⟩)) with ⟨hreq,hj⟩
    revert hv
    rw [hj]
    cases hCS : s.CS <;> cases hwe : i.req.data_we_i <;> simp [hCS,hj,hr,hreq,hwe]

end Cycle

section Run

variable (env : ℕ → Input c)

/-- Registers in cycle `t` from reset. -/
def regs (t : ℕ) : State c := states step reset env t

/-- Write addresses taken before cycle `n`. -/
def awLog (n : ℕ) : List (BitVec c.ADDR_WIDTH) := logged (fun t => awTaken (regs env t) (env t)) n

def wLog (n : ℕ) : List (Beat c) := logged (fun t => wTaken (regs env t) (env t)) n

def arLog (n : ℕ) : List (BitVec c.ADDR_WIDTH) := logged (fun t => arTaken (regs env t) (env t)) n

/-- Requests granted before cycle `n`. -/
def grantLog (n : ℕ) : List (Request c) := logged (fun t => grants (regs env t) (env t)) n

def responseLog (n : ℕ) : List (BitVec c.ID_WIDTH × BitVec c.AUX_WIDTH) :=
  logged (fun t => responses (regs env t) (env t)) n

/-- Requests whose handshakes are done. -/
def servedLog (n : ℕ) : List (Request c) := grantLog env n++served (regs env n) (env n).req

/-- Requests on which the bridge works are held up to cycle `n`. -/
def HeldUntil (n : ℕ) : Prop := ∀ t, t<n → Held (regs env t) (env t) (env (t+1)).req

variable {env} {n : ℕ}

theorem agrees_run (h : HeldUntil env n) :
    Agrees (regs env n) (env n).req := by
  induction n with
  | zero => exact ⟨fun hCS => absurd hCS (by simp [regs,states,reset]),fun _ => nofun,nofun⟩
  | succ n ih =>
    exact (moves (ih fun t ht => h t (Nat.lt_succ_of_lt ht)) (h n (Nat.lt_succ_self n))).agrees

theorem moves_run (h : HeldUntil env n) {t : ℕ} (ht : t<n) :
    Moves (regs env t) (env t) (env (t+1)).req :=
  moves (agrees_run fun u hu => h u (Nat.lt_trans hu ht)) (h t ht)

theorem writes_append (xs ys : List (Request c)) : writes (xs++ys)=writes xs++writes ys :=
  List.filter_append ..

theorem reads_append (xs ys : List (Request c)) : reads (xs++ys)=reads xs++reads ys :=
  List.filter_append ..

/-- The addresses taken are those of the writes served, and one at most is ahead. -/
theorem awLog_eq (h : HeldUntil env n) :
    awLog env n=(writes (servedLog env n)).map aw_addr_o++awAhead (regs env n) (env n).req := by
  have hone := logged_ledger (l:=fun t => (writes (served (regs env t) (env t).req)).map aw_addr_o++
    awAhead (regs env t) (env t).req) (by simp [regs,states,reset,served,awAhead,writes,waiting])
    fun t ht => (moves_run h ht).aw
  have hgrants := logged_hom (f:=fun qs => (writes qs).map aw_addr_o) rfl
    (fun xs ys => by rw [writes_append,List.map_append]) (fun t => grants (regs env t) (env t)) n
  unfold servedLog
  rw [writes_append,List.map_append,List.append_assoc,show (writes (grantLog env n)).map _=_ from hgrants]
  exact hone

theorem wLog_eq (h : HeldUntil env n) :
    wLog env n=(writes (servedLog env n)).map beat++wAhead (regs env n) (env n).req := by
  have hone := logged_ledger (l:=fun t => (writes (served (regs env t) (env t).req)).map beat++
    wAhead (regs env t) (env t).req) (by simp [regs,states,reset,served,wAhead,writes,waiting])
    fun t ht => (moves_run h ht).w
  have hgrants := logged_hom (f:=fun qs => (writes qs).map beat) rfl
    (fun xs ys => by rw [writes_append,List.map_append]) (fun t => grants (regs env t) (env t)) n
  unfold servedLog
  rw [writes_append,List.map_append,List.append_assoc,show (writes (grantLog env n)).map _=_ from hgrants]
  exact hone

theorem arLog_eq (h : HeldUntil env n) :
    arLog env n=(reads (servedLog env n)).map ar_addr_o := by
  have hone := logged_ledger (l:=fun t => (reads (served (regs env t) (env t).req)).map ar_addr_o)
    (by simp [regs,states,reset,served,reads,waiting]) fun t ht => (moves_run h ht).ar
  have hgrants := logged_hom (f:=fun qs => (reads qs).map ar_addr_o) rfl
    (fun xs ys => by rw [reads_append,List.map_append]) (fun t => grants (regs env t) (env t)) n
  unfold servedLog
  rw [reads_append,List.map_append,show (reads (grantLog env n)).map _=_ from hgrants]
  exact hone

/-- Granted requests are answered in their order, with their ID and aux. -/
theorem answered (h : HeldUntil env n) :
    (grantLog env n).map (fun r => (r.data_ID_i,r.data_aux_i))=
      responseLog env n++owed (regs env n) := by
  have hone := logged_ledger (l:=fun t => owed (regs env t))
    (by simp [regs,states,reset,owed,waiting]) fun t ht => (moves_run h ht).answer
  rw [show (grantLog env n).map _=_ from logged_hom rfl (fun xs ys => List.map_append)
    (fun t => grants (regs env t) (env t)) n]
  exact hone

/-- The pairs of address and data that the slave has are those of the writes served. -/
theorem pairs (h : HeldUntil env n) :
    (awLog env n).zip (wLog env n)=
      (writes (servedLog env n)).map fun q => (aw_addr_o q,beat q) := by
  have hlen : ((writes (servedLog env n)).map aw_addr_o).length=
      ((writes (servedLog env n)).map beat).length := by rw [List.length_map,List.length_map]
  have hrest : (awAhead (regs env n) (env n).req).zip (wAhead (regs env n) (env n).req)=[] := by
    unfold awAhead wAhead
    split_ifs with haw hw
    · exact absurd (haw.symm.trans hw) nofun
    · rfl
    · rfl
    · rfl
  rw [awLog_eq h,wLog_eq h,List.zip_append hlen,hrest,List.append_nil,List.zip_map']

end Run

end Pulpissimo.Interco.Lint2Axi
