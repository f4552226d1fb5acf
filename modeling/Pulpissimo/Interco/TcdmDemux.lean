import Mathlib.Data.BitVec
import Pulpissimo.Lib.Machine

/-!
# The TCDM demultiplexer

`l2_tcdm_demux` with its two ports. A granted request waits for its response
in the order of the grants, at the core side and at the port that granted it;
a port answers its oldest request, at least one cycle after the grant. The
demultiplexer takes the word of the interleaved port one cycle after the grant,
without looking at its valid line, and samples the aux of a request without a
destination in only one of the three states that accept one.
-/

namespace Pulpissimo.Interco.TcdmDemux

open Pulpissimo.Machine

variable {ADDR_WIDTH DATA_WIDTH AUX_WIDTH N_PERIPHS : ℕ}

/-- Mapped ranges. -/
structure Ranges (ADDR_WIDTH N_PERIPHS : ℕ) where
  /-- Starts of the bridges. -/
  PER_START_ADDR : Fin N_PERIPHS → BitVec ADDR_WIDTH
  /-- Ends of the bridges. -/
  PER_END_ADDR : Fin N_PERIPHS → BitVec ADDR_WIDTH
  /-- Start of the interleaved region. -/
  TCDM_START_ADDR : BitVec ADDR_WIDTH
  /-- End of the interleaved region. -/
  TCDM_END_ADDR : BitVec ADDR_WIDTH

/-- A request, as the core gives it and as a port gets it. -/
structure Request (ADDR_WIDTH DATA_WIDTH AUX_WIDTH : ℕ) where
  /-- Address. -/
  data_add : BitVec ADDR_WIDTH
  /-- Write enable, active low. -/
  data_wen : Bool
  /-- Write data. -/
  data_wdata : BitVec DATA_WIDTH
  /-- Byte enables. -/
  data_be : BitVec (DATA_WIDTH/8)
  /-- Number that comes back with the response. -/
  data_aux : BitVec AUX_WIDTH

/-- Inputs of one cycle. -/
structure Inputs (ADDR_WIDTH DATA_WIDTH AUX_WIDTH : ℕ) where
  /-- The core has a request. -/
  data_req_i : Bool
  /-- The request. -/
  request : Request ADDR_WIDTH DATA_WIDTH AUX_WIDTH
  /-- Grant of the interleaved port. -/
  data_gnt_i_TCDM : Bool
  /-- The interleaved port answers. -/
  data_r_valid_i_TCDM : Bool
  /-- Its word. -/
  data_r_rdata_i_TCDM : BitVec DATA_WIDTH
  /-- Grant of the bridges. -/
  data_gnt_i_PER : Bool
  /-- The bridges answer. -/
  data_r_valid_i_PER : Bool
  /-- Their word. -/
  data_r_rdata_i_PER : BitVec DATA_WIDTH
  /-- Their error flag. -/
  data_r_opc_i_PER : Bool
  /-- Their aux. -/
  data_r_aux_i_PER : BitVec AUX_WIDTH

/-- States. -/
inductive Phase
  | IDLE | ON_TCDM | ON_PER | ERROR
  deriving DecidableEq

/-- Registers. -/
structure State (AUX_WIDTH : ℕ) where
  /-- State. -/
  CS : Phase
  /-- Aux of a request that was granted. -/
  sampled_data_aux : BitVec AUX_WIDTH

/-- What happens to the request of a cycle. -/
structure Routed where
  /-- Next state. -/
  NS : Phase
  /-- Request at the interleaved port. -/
  data_req_o_TDCM : Bool
  /-- Request at the bridges. -/
  data_req_o_PER : Bool
  /-- Grant. -/
  data_gnt_o : Bool
  /-- The aux is sampled. -/
  sample_aux : Bool

/-- Response of a cycle. -/
structure Response (DATA_WIDTH AUX_WIDTH : ℕ) where
  /-- There is a response. -/
  data_r_valid_o : Bool
  /-- Aux of the request. -/
  data_r_aux_o : BitVec AUX_WIDTH
  /-- Word. -/
  data_r_rdata_o : BitVec DATA_WIDTH
  /-- Error. -/
  data_r_opc_o : Bool

section Code

variable (ranges : Ranges ADDR_WIDTH N_PERIPHS) (s : State AUX_WIDTH)
  (i : Inputs ADDR_WIDTH DATA_WIDTH AUX_WIDTH)

/-- Ranges that hold an address: the bridges below, the interleaved region on top. -/
def destination_OH (add : BitVec ADDR_WIDTH) : Fin (N_PERIPHS+1) → Bool :=
  Fin.lastCases (decide (ranges.TCDM_START_ADDR ≤ add) && decide (add < ranges.TCDM_END_ADDR))
    fun x => decide (ranges.PER_START_ADDR x ≤ add) && decide (add < ranges.PER_END_ADDR x)

/-- A request where one is accepted. The three states that accept one differ in
whether the aux of a request without a destination is sampled. -/
def route (sample_error : Bool) : Routed :=
  if i.data_req_i then
    if destination_OH ranges i.request.data_add (Fin.last N_PERIPHS) then
      { NS := if i.data_gnt_i_TCDM then .ON_TCDM else .IDLE
        data_req_o_TDCM := true
        data_req_o_PER := false
        data_gnt_o := i.data_gnt_i_TCDM
        sample_aux := i.data_gnt_i_TCDM }
    else if (List.finRange N_PERIPHS).any
        fun x => destination_OH ranges i.request.data_add x.castSucc then
      { NS := if i.data_gnt_i_PER then .ON_PER else .IDLE
        data_req_o_TDCM := false
        data_req_o_PER := true
        data_gnt_o := i.data_gnt_i_PER
        sample_aux := false }
    else
      { NS := .ERROR
        data_req_o_TDCM := false
        data_req_o_PER := false
        data_gnt_o := true
        sample_aux := sample_error }
  else ⟨.IDLE,false,false,false,false⟩

/-- The request side of the state machine. -/
def routed : Routed :=
  match s.CS with
  | .IDLE => route ranges i false
  | .ON_TCDM => route ranges i true
  | .ON_PER =>
    if i.data_r_valid_i_PER then route ranges i false else ⟨.ON_PER,false,false,false,false⟩
  | .ERROR => ⟨.IDLE,false,false,false,false⟩

/-- The response side of the state machine. -/
def response : Response DATA_WIDTH AUX_WIDTH :=
  match s.CS with
  | .IDLE => ⟨false,s.sampled_data_aux,i.data_r_rdata_i_TCDM,false⟩
  | .ON_TCDM => ⟨true,s.sampled_data_aux,i.data_r_rdata_i_TCDM,false⟩
  | .ON_PER =>
    ⟨i.data_r_valid_i_PER,i.data_r_aux_i_PER,i.data_r_rdata_i_PER,i.data_r_opc_i_PER⟩
  | .ERROR => ⟨true,s.sampled_data_aux,(0xBADACCE5#32).setWidth DATA_WIDTH,true⟩

/-- One clock edge. -/
def step : State AUX_WIDTH where
  CS := (routed ranges s i).NS
  sampled_data_aux :=
    if (routed ranges s i).sample_aux then i.request.data_aux else s.sampled_data_aux

end Code

/-- The demultiplexer with the requests that were granted and not yet answered. -/
structure System (ADDR_WIDTH DATA_WIDTH AUX_WIDTH : ℕ) where
  /-- The demultiplexer. -/
  demux : State AUX_WIDTH
  /-- At the core side. -/
  pending : List (Request ADDR_WIDTH DATA_WIDTH AUX_WIDTH)
  /-- At the interleaved port. -/
  tcdm : List (Request ADDR_WIDTH DATA_WIDTH AUX_WIDTH)
  /-- At the bridges. -/
  per : List (Request ADDR_WIDTH DATA_WIDTH AUX_WIDTH)

/-- A queue of requests after a cycle: the oldest leaves with its response, and
a granted one joins. -/
def queue (waiting : List (Request ADDR_WIDTH DATA_WIDTH AUX_WIDTH)) (answered granted : Bool)
    (request : Request ADDR_WIDTH DATA_WIDTH AUX_WIDTH) :
    List (Request ADDR_WIDTH DATA_WIDTH AUX_WIDTH) :=
  (if answered then waiting.tail else waiting)++if granted then [request] else []

section System

variable (ranges : Ranges ADDR_WIDTH N_PERIPHS) (s : System ADDR_WIDTH DATA_WIDTH AUX_WIDTH)
  (i : Inputs ADDR_WIDTH DATA_WIDTH AUX_WIDTH)

/-- One cycle. -/
def System.step : System ADDR_WIDTH DATA_WIDTH AUX_WIDTH where
  demux := TcdmDemux.step ranges s.demux i
  pending := queue s.pending (response s.demux i).data_r_valid_o
    (i.data_req_i && (routed ranges s.demux i).data_gnt_o) i.request
  tcdm := queue s.tcdm i.data_r_valid_i_TCDM
    ((routed ranges s.demux i).data_req_o_TDCM && i.data_gnt_i_TCDM) i.request
  per := queue s.per i.data_r_valid_i_PER
    ((routed ranges s.demux i).data_req_o_PER && i.data_gnt_i_PER) i.request

/-- The ports answer granted requests only, in their order, and the bridges give
the aux of the request back. -/
structure Legal : Prop where
  /-- The interleaved port. -/
  tcdm : i.data_r_valid_i_TCDM=true → s.tcdm≠[]
  /-- The bridges. -/
  per : i.data_r_valid_i_PER=true → ∃ r rest,s.per=r::rest ∧ i.data_r_aux_i_PER=r.data_aux

/-- Where an address leads. -/
inductive Port
  | tcdm | per | none
  deriving DecidableEq

/-- The interleaved region first, then the bridges. -/
def decode (add : BitVec ADDR_WIDTH) : Port :=
  if ranges.TCDM_START_ADDR ≤ add ∧ add < ranges.TCDM_END_ADDR then .tcdm
  else if ∃ x,ranges.PER_START_ADDR x ≤ add ∧ add < ranges.PER_END_ADDR x then .per
  else .none

/-- The response of a cycle belongs to the oldest granted request: it carries
its aux and is what its port answers in this cycle, or the error. -/
def Answered : Prop :=
  let o := response s.demux i
  match s.pending with
  | [] => o.data_r_valid_o=false ∧ i.data_r_valid_i_TCDM=false ∧ i.data_r_valid_i_PER=false
  | r::rest => rest=[] ∧
    match decode ranges r.data_add with
    | .tcdm => s.tcdm=[r] ∧ s.per=[] ∧ i.data_r_valid_i_TCDM=true ∧
        o=⟨true,r.data_aux,i.data_r_rdata_i_TCDM,false⟩
    | .per => s.tcdm=[] ∧ s.per=[r] ∧ o.data_r_valid_o=i.data_r_valid_i_PER ∧
        (i.data_r_valid_i_PER=true →
          o=⟨true,r.data_aux,i.data_r_rdata_i_PER,i.data_r_opc_i_PER⟩)
    | .none => s.tcdm=[] ∧ s.per=[] ∧ o=⟨true,r.data_aux,(0xBADACCE5#32).setWidth DATA_WIDTH,true⟩

/-- The request of a cycle reaches the port that its address leads to and no
other, and is granted by it. -/
def Reaches : Prop :=
  let q := routed ranges s.demux i
  (q.data_req_o_TDCM=true → i.data_req_i=true ∧ decode ranges i.request.data_add=.tcdm) ∧
  (q.data_req_o_PER=true → i.data_req_i=true ∧ decode ranges i.request.data_add=.per) ∧
  (q.data_gnt_o=true → i.data_req_i=true ∧
    match decode ranges i.request.data_add with
    | .tcdm => q.data_req_o_TDCM=true ∧ i.data_gnt_i_TCDM=true
    | .per => q.data_req_o_PER=true ∧ i.data_gnt_i_PER=true
    | .none => True)

/-- What a cycle has to do. -/
structure Served : Prop where
  /-- The response. -/
  answered : Answered ranges s i
  /-- The request. -/
  reaches : Reaches ranges s i

/-- The interleaved port answers every request one cycle after its grant, and a
request without a destination that is granted in another state than `ON_TCDM`
has the aux that was sampled last. -/
structure Timely : Prop where
  /-- Answers of the interleaved port. -/
  next : s.tcdm≠[] → i.data_r_valid_i_TCDM=true
  /-- Aux of a request without a destination. -/
  sampled : i.data_req_i=true → decode ranges i.request.data_add=.none →
    s.demux.CS=.IDLE ∨ s.demux.CS=.ON_PER ∧ i.data_r_valid_i_PER=true →
      i.request.data_aux=s.demux.sampled_data_aux

/-- What the state says about the requests on the way. -/
def Inv : Prop :=
  match s.demux.CS with
  | .IDLE => s.pending=[] ∧ s.tcdm=[] ∧ s.per=[]
  | .ON_TCDM => ∃ r,s.pending=[r] ∧ s.tcdm=[r] ∧ s.per=[] ∧ decode ranges r.data_add=.tcdm ∧
      s.demux.sampled_data_aux=r.data_aux
  | .ON_PER => ∃ r,s.pending=[r] ∧ s.tcdm=[] ∧ s.per=[r] ∧ decode ranges r.data_add=.per
  | .ERROR => ∃ r,s.pending=[r] ∧ s.tcdm=[] ∧ s.per=[] ∧ decode ranges r.data_add=.none ∧
      s.demux.sampled_data_aux=r.data_aux

end System

section Step

variable {ranges : Ranges ADDR_WIDTH N_PERIPHS} {s : System ADDR_WIDTH DATA_WIDTH AUX_WIDTH}
  {i : Inputs ADDR_WIDTH DATA_WIDTH AUX_WIDTH}

/-- The one-hot destination decodes the address. -/
theorem route_decode (hreq : i.data_req_i=true) (sample_error : Bool) :
    route ranges i sample_error=match decode ranges i.request.data_add with
      | .tcdm => ⟨if i.data_gnt_i_TCDM then .ON_TCDM else .IDLE,true,false,i.data_gnt_i_TCDM,
          i.data_gnt_i_TCDM⟩
      | .per => ⟨if i.data_gnt_i_PER then .ON_PER else .IDLE,false,true,i.data_gnt_i_PER,false⟩
      | .none => ⟨.ERROR,false,false,true,sample_error⟩ := by
  have htop : destination_OH ranges i.request.data_add (Fin.last N_PERIPHS)=true ↔
      ranges.TCDM_START_ADDR ≤ i.request.data_add ∧
        i.request.data_add < ranges.TCDM_END_ADDR := by
    unfold destination_OH
    rw [Fin.lastCases_last,Bool.and_eq_true_iff,decide_eq_true_iff,decide_eq_true_iff]
  have hbelow : ((List.finRange N_PERIPHS).any
      fun x => destination_OH ranges i.request.data_add x.castSucc)=true ↔
      ∃ x,ranges.PER_START_ADDR x ≤ i.request.data_add ∧
        i.request.data_add < ranges.PER_END_ADDR x := by
    unfold destination_OH
    simp
  unfold route decode
  rw [if_pos hreq]
  by_cases ht : ranges.TCDM_START_ADDR ≤ i.request.data_add ∧
      i.request.data_add < ranges.TCDM_END_ADDR
  · rw [if_pos ht,if_pos (htop.mpr ht)]
  · rw [if_neg ht,if_neg (mt htop.mp ht)]
    by_cases hp : ∃ x,ranges.PER_START_ADDR x ≤ i.request.data_add ∧
        i.request.data_add < ranges.PER_END_ADDR x
    · rw [if_pos hp,if_pos (hbelow.mpr hp)]
    · rw [if_neg hp,if_neg (mt hbelow.mp hp)]

theorem route_idle (hreq : i.data_req_i=false) (sample_error : Bool) :
    route ranges i sample_error=⟨.IDLE,false,false,false,false⟩ := by
  unfold route
  rw [hreq,if_neg Bool.false_ne_true]

/-- A cycle that accepts a request, once the queues are served. -/
theorem accept_inv {sample_error : Bool}
    (hroute : routed ranges s.demux i=route ranges i sample_error)
    (hpending : (if (response s.demux i).data_r_valid_o then s.pending.tail else s.pending)=[])
    (htcdm : (if i.data_r_valid_i_TCDM then s.tcdm.tail else s.tcdm)=[])
    (hper : (if i.data_r_valid_i_PER then s.per.tail else s.per)=[])
    (haux : sample_error=true ∨ (i.data_req_i=true → decode ranges i.request.data_add=.none →
      i.request.data_aux=s.demux.sampled_data_aux)) :
    Inv ranges (s.step ranges i) ∧ Reaches ranges s i := by
  unfold Inv System.step TcdmDemux.step queue Reaches
  rw [hroute,hpending,htcdm,hper]
  cases hreq : i.data_req_i with
  | false =>
    rw [route_idle hreq]
    exact ⟨⟨rfl,rfl,rfl⟩,nofun,nofun,nofun⟩
  | true =>
    rw [route_decode hreq]
    cases hdec : decode ranges i.request.data_add with
    | tcdm =>
      cases hgnt : i.data_gnt_i_TCDM with
      | true => exact ⟨⟨i.request,rfl,rfl,rfl,hdec,rfl⟩,fun _ => ⟨rfl,rfl⟩,nofun,fun _ => ⟨rfl,rfl,rfl⟩⟩
      | false => exact ⟨⟨rfl,rfl,rfl⟩,fun _ => ⟨rfl,rfl⟩,nofun,nofun⟩
    | per =>
      cases hgnt : i.data_gnt_i_PER with
      | true => exact ⟨⟨i.request,rfl,rfl,rfl,hdec⟩,nofun,fun _ => ⟨rfl,rfl⟩,fun _ => ⟨rfl,rfl,rfl⟩⟩
      | false => exact ⟨⟨rfl,rfl,rfl⟩,nofun,fun _ => ⟨rfl,rfl⟩,nofun⟩
    | none =>
      refine ⟨⟨i.request,rfl,rfl,rfl,hdec,?_⟩,nofun,nofun,fun _ => ⟨rfl,trivial⟩⟩
      rcases haux with rfl | haux
      · rfl
      · have hsame := haux hreq hdec
        dsimp only
        split_ifs
        · rfl
        · exact hsame.symm

/-- An empty port does not answer. -/
theorem Legal.silent (h : Legal s i) :
    (s.tcdm=[] → i.data_r_valid_i_TCDM=false) ∧ (s.per=[] → i.data_r_valid_i_PER=false) := by
  refine ⟨fun he => Bool.eq_false_iff.mpr fun hv => h.tcdm hv he,
    fun he => Bool.eq_false_iff.mpr fun hv => ?_⟩
  rcases h.per hv with ⟨r,rest,hq,-⟩
  rw [he] at hq
  exact absurd hq nofun

/-- A timely cycle keeps the invariant and serves what is due. -/
theorem step_served (hI : Inv ranges s) (hL : Legal s i) (hT : Timely ranges s i) :
    Inv ranges (s.step ranges i) ∧ Served ranges s i := by
  unfold Inv at hI
  cases hCS : s.demux.CS with
  | IDLE =>
    rw [hCS] at hI
    rcases hI with ⟨hpending,htcdm,hper⟩
    have hquiet := hL.silent.1 htcdm
    have hquiet' := hL.silent.2 hper
    have hresp : response s.demux i=⟨false,s.demux.sampled_data_aux,i.data_r_rdata_i_TCDM,false⟩ := by
      unfold response
      rw [hCS]
    have hroute : routed ranges s.demux i=route ranges i false := by
      unfold routed
      rw [hCS]
    have haccept := accept_inv (s:=s) hroute (by rw [hresp,hpending]; rfl)
      (by rw [hquiet,htcdm]; rfl) (by rw [hquiet',hper]; rfl)
      (Or.inr fun hreq hdec => hT.sampled hreq hdec (Or.inl hCS))
    refine ⟨haccept.1,?_,haccept.2⟩
    unfold Answered
    rw [hpending,hresp]
    exact ⟨rfl,hquiet,hquiet'⟩
  | ON_TCDM =>
    rw [hCS] at hI
    rcases hI with ⟨r,hpending,htcdm,hper,hdec,haux⟩
    have hvalid : i.data_r_valid_i_TCDM=true := hT.next (by rw [htcdm]; exact nofun)
    have hquiet' := hL.silent.2 hper
    have hresp : response s.demux i=⟨true,s.demux.sampled_data_aux,i.data_r_rdata_i_TCDM,false⟩ := by
      unfold response
      rw [hCS]
    have hroute : routed ranges s.demux i=route ranges i true := by
      unfold routed
      rw [hCS]
    have haccept := accept_inv (s:=s) hroute (by rw [hresp,hpending]; rfl)
      (by rw [hvalid,htcdm]; rfl) (by rw [hquiet',hper]; rfl) (Or.inl rfl)
    refine ⟨haccept.1,?_,haccept.2⟩
    unfold Answered
    rw [hpending,hresp,haux]
    refine ⟨rfl,?_⟩
    rw [hdec]
    exact ⟨htcdm,hper,hvalid,rfl⟩
  | ON_PER =>
    rw [hCS] at hI
    rcases hI with ⟨r,hpending,htcdm,hper,hdec⟩
    have hquiet := hL.silent.1 htcdm
    have hresp : response s.demux i=
        ⟨i.data_r_valid_i_PER,i.data_r_aux_i_PER,i.data_r_rdata_i_PER,i.data_r_opc_i_PER⟩ := by
      unfold response
      rw [hCS]
    have hanswered : Answered ranges s i := by
      unfold Answered
      rw [hpending,hresp]
      refine ⟨rfl,?_⟩
      rw [hdec]
      refine ⟨htcdm,hper,rfl,fun hv => ?_⟩
      rcases hL.per hv with ⟨r',rest,hq,haux⟩
      rw [hper,List.cons.injEq] at hq
      rw [hv,haux,hq.1]
    cases hv : i.data_r_valid_i_PER with
    | true =>
      have hroute : routed ranges s.demux i=route ranges i false := by
        unfold routed
        rw [hCS]
        exact if_pos hv
      have haccept := accept_inv (s:=s) hroute (by rw [hresp,hv,hpending]; rfl)
        (by rw [hquiet,htcdm]; rfl) (by rw [hv,hper]; rfl)
        (Or.inr fun hreq hdec => hT.sampled hreq hdec (Or.inr ⟨hCS,hv⟩))
      exact ⟨haccept.1,hanswered,haccept.2⟩
    | false =>
      have hroute : routed ranges s.demux i=⟨.ON_PER,false,false,false,false⟩ := by
        unfold routed
        rw [hCS]
        exact if_neg (by rw [hv]; exact Bool.false_ne_true)
      refine ⟨?_,hanswered,?_⟩
      · unfold Inv System.step TcdmDemux.step queue
        rw [hroute,hresp,hquiet,hv,Bool.and_false]
        refine ⟨r,?_,?_,?_,hdec⟩
        · exact (List.append_nil _).trans hpending
        · exact (List.append_nil _).trans htcdm
        · exact (List.append_nil _).trans hper
      · unfold Reaches
        rw [hroute]
        exact ⟨nofun,nofun,nofun⟩
  | ERROR =>
    rw [hCS] at hI
    rcases hI with ⟨r,hpending,htcdm,hper,hdec,haux⟩
    have hquiet := hL.silent.1 htcdm
    have hquiet' := hL.silent.2 hper
    have hresp : response s.demux i=
        ⟨true,s.demux.sampled_data_aux,(0xBADACCE5#32).setWidth DATA_WIDTH,true⟩ := by
      unfold response
      rw [hCS]
    have hroute : routed ranges s.demux i=⟨.IDLE,false,false,false,false⟩ := by
      unfold routed
      rw [hCS]
    refine ⟨?_,?_,?_⟩
    · unfold Inv System.step TcdmDemux.step queue
      rw [hroute,hresp,hquiet,hquiet',hpending,Bool.and_false]
      exact ⟨rfl,(List.append_nil _).trans htcdm,(List.append_nil _).trans hper⟩
    · unfold Answered
      rw [hpending,hresp,haux]
      refine ⟨rfl,?_⟩
      rw [hdec]
      exact ⟨htcdm,hper,rfl⟩
    · unfold Reaches
      rw [hroute]
      exact ⟨nofun,nofun,nofun⟩

end Step

/-- After reset. -/
def start : System ADDR_WIDTH DATA_WIDTH AUX_WIDTH := ⟨⟨.IDLE,0⟩,[],[],[]⟩

/-- Every cycle of a run with legal ports serves what is due, if all its cycles
are timely. -/
theorem meets_served {ranges : Ranges ADDR_WIDTH N_PERIPHS}
    {s : System ADDR_WIDTH DATA_WIDTH AUX_WIDTH} (hI : Inv ranges s)
    {cycles : List (Inputs ADDR_WIDTH DATA_WIDTH AUX_WIDTH)}
    (hL : Meets (System.step ranges) Legal s cycles)
    (hT : Meets (System.step ranges) (Timely ranges) s cycles) :
    Meets (System.step ranges) (Served ranges) s cycles := by
  induction cycles generalizing s with
  | nil => exact trivial
  | cons i cycles ih =>
    have hstep := step_served hI hL.1 hT.1
    exact ⟨hstep.2,ih hstep.1 hL.2 hT.2⟩

/-- Every cycle of a timely run from reset serves what is due. -/
theorem timely_served (ranges : Ranges ADDR_WIDTH N_PERIPHS)
    (cycles : List (Inputs ADDR_WIDTH DATA_WIDTH AUX_WIDTH))
    (hL : Meets (System.step ranges) Legal start cycles)
    (hT : Meets (System.step ranges) (Timely ranges) start cycles) :
    Meets (System.step ranges) (Served ranges) start cycles :=
  meets_served (s:=start) ⟨rfl,rfl,rfl⟩ hL hT

/-- A response carries the aux of the oldest granted request. -/
theorem Answered.aux {ranges : Ranges ADDR_WIDTH N_PERIPHS}
    {s : System ADDR_WIDTH DATA_WIDTH AUX_WIDTH} {i : Inputs ADDR_WIDTH DATA_WIDTH AUX_WIDTH}
    (h : Answered ranges s i) {r : Request ADDR_WIDTH DATA_WIDTH AUX_WIDTH}
    {rest : List (Request ADDR_WIDTH DATA_WIDTH AUX_WIDTH)} (hpending : s.pending=r::rest)
    (hvalid : (response s.demux i).data_r_valid_o=true) :
    (response s.demux i).data_r_aux_o=r.data_aux := by
  unfold Answered at h
  rw [hpending] at h
  have hport := h.2
  cases hdec : decode ranges r.data_add with
  | tcdm =>
    rw [hdec] at hport
    exact congrArg Response.data_r_aux_o hport.2.2.2
  | per =>
    rw [hdec] at hport
    exact congrArg Response.data_r_aux_o (hport.2.2.2 (hport.2.2.1.symm.trans hvalid))
  | none =>
    rw [hdec] at hport
    exact congrArg Response.data_r_aux_o hport.2.2

/-- One bridge and an interleaved region. -/
def ranges : Ranges 32 1 := ⟨fun _ => 0x1A100000,fun _ => 0x1A400000,0x1C010000,0x1C082000⟩

/-- A read request while all ports are ready, and what the ports answer. -/
def read (data_req_i : Bool) (add : BitVec 32) (aux : BitVec 4) (tcdm per : Bool) (r_aux : BitVec 4) :
    Inputs 32 32 4 :=
  ⟨data_req_i,⟨add,true,0,0,aux⟩,true,tcdm,0,true,per,0,false,r_aux⟩

/-- A read of each port, and a request without a destination while the
interleaved port answers. -/
theorem timely_served_run : Meets (System.step ranges) (Served ranges) start
    [read true 0x1A100000 1 false false 0,read true 0x1C010000 2 false true 1,
      read true 0 3 true false 0,read false 0 0 false false 0] := by
  refine timely_served ranges _ ⟨?_,?_,?_,?_,trivial⟩ ⟨?_,?_,?_,?_,trivial⟩
  · exact ⟨nofun,nofun⟩
  · exact ⟨nofun,fun _ => ⟨_,_,rfl,rfl⟩⟩
  · exact ⟨fun _ => nofun,nofun⟩
  · exact ⟨nofun,nofun⟩
  · exact ⟨fun h => absurd rfl h,fun _ h => absurd h (by decide)⟩
  · exact ⟨fun h => absurd rfl h,fun _ h => absurd h (by decide)⟩
  · exact ⟨fun _ => rfl,fun _ _ h => absurd h (by decide)⟩
  · exact ⟨fun h => absurd rfl h,nofun⟩

/-- The first request after reset has no destination: its error comes back with
aux 0. -/
theorem error_aux_stale :
    Meets (System.step ranges) (fun s i => Legal s i ∧ (s.tcdm≠[] → i.data_r_valid_i_TCDM=true)) start
        [read true 0 1 false false 0,read false 0 0 false false 0] ∧
      ¬Meets (System.step ranges) (Served ranges) start
        [read true 0 1 false false 0,read false 0 0 false false 0] := by
  refine ⟨⟨⟨⟨nofun,nofun⟩,fun h => absurd rfl h⟩,⟨⟨nofun,nofun⟩,fun h => absurd rfl h⟩,trivial⟩,
    fun h => ?_⟩
  have haux := h.2.1.answered.aux rfl rfl
  exact absurd haux (by decide)

end Pulpissimo.Interco.TcdmDemux
