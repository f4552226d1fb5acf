import Pulpissimo.Lib.Machine
import Pulpissimo.Udma.ChPlace
import Pulpissimo.Udma.TxChannels

/-!
# Delivery of transmitted data

A ledger beside the registers notes every request that is granted, with the address of its
place, every read that the memory grants, every answer of the memory and every pulse at a port.
Requests, reads, answers and pulses are in one order, as long as the memory grants nothing in a
stalled cycle and no channel is cleared whose request is held in the register stage.
-/

namespace Pulpissimo.Udma.TxDelivery

open Pulpissimo.Machine Pulpissimo.Select Pulpissimo.Soc.EventArbiter Pulpissimo.Udma.ChAddrgen
  Pulpissimo.Udma.ChPlace Pulpissimo.Udma.L2Lanes Pulpissimo.Udma.TxChannels

variable {P : Params}

/-- A request that was granted. -/
structure Request (P : Params) where
  port : Fin P.N_CHANNELS_TX
  size : BitVec 2
  addr : BitVec P.L2_AWIDTH_NOAL

/-- A datum at a port. -/
structure Pulse (P : Params) where
  port : Fin P.N_CHANNELS_TX
  data : BitVec 32

/-- What came in and went out. -/
structure Ledger (P : Params) where
  place : Fin P.N_CHANNELS → Place P.L2_AWIDTH_NOAL
  granted : List (Request P)
  /-- Addresses of the reads that the memory granted. -/
  asked : List (BitVec P.L2_ADDR_WIDTH)
  /-- The memory granted a read in the last cycle. -/
  due : Bool
  answers : List (BitVec (8*P.L2_DATA_WIDTH.lanes))
  pulses : List (Pulse P)

section Ledger

variable (s : TxChannels.State P) (i : TxChannels.Input P)

/-- The places behind this cycle. -/
def places (place : Fin P.N_CHANNELS → Place P.L2_AWIDTH_NOAL) :
    Fin P.N_CHANNELS → Place P.L2_AWIDTH_NOAL :=
  fun j => (place j).next (s.u_tx_ch_ctrl j) (ctrlInput s i j)

/-- The request of a port. -/
def request (place : Fin P.N_CHANNELS → Place P.L2_AWIDTH_NOAL) (k : Fin P.N_CHANNELS_TX) :
    Request P where
  port := k
  size := Fin.append i.ch_datasize_i i.filter_ch_datasize_i k
  addr := Fin.append (fun j => (place j).addr) i.filter_ch_addr_i k

def grantedNow (place : Fin P.N_CHANNELS → Place P.L2_AWIDTH_NOAL) : List (Request P) :=
  ((List.finRange P.N_CHANNELS_TX).filter (Fin.append (ch_gnt_o s i) (filter_ch_gnt_o s i))).map
    (request i place)

def pulsesNow : List (Pulse P) :=
  ((List.finRange P.N_CHANNELS_TX).filter (Fin.append (ch_valid_o s) (filter_ch_valid_o s))).map
    fun k => ⟨k,Fin.append (ch_data_o s) (filter_ch_data_o s) k⟩

/-- The memory grants a read. -/
def grants : Bool := l2_req_o s i && i.l2_gnt_i

def Ledger.next (o : Ledger P) : Ledger P where
  place := places s i o.place
  granted := o.granted++grantedNow s i (places s i o.place)
  asked := o.asked++if grants s i then [l2_addr_o s] else []
  due := grants s i
  answers := o.answers++if i.l2_rvalid_i then [i.l2_rdata_i] else []
  pulses := o.pulses++pulsesNow s

end Ledger

/-- Registers and ledger. -/
abbrev Watched (P : Params) := TxChannels.State P×Ledger P

def start : Watched P := (TxChannels.reset,⟨fun _ => ⟨0,0,0,false⟩,[],[],false,[],[]⟩)

def watch (w : Watched P) (i : TxChannels.Input P) : Watched P :=
  (TxChannels.step w.1 i,w.2.next w.1 i)

/-- A read is in the word of the address of its request. -/
def Asks (d : Request P) (a : BitVec P.L2_ADDR_WIDTH) : Prop :=
  a=(d.addr.setWidth P.L2_SIZE).extractLsb' P.L2_DATA_WIDTH.ALIGN_BITS P.L2_ADDR_WIDTH

/-- Place of the request in its word. -/
def Request.lsb (d : Request P) : BitVec P.L2_DATA_WIDTH.ALIGN_BITS := d.addr.setWidth _

/-- A pulse is at the port of its request, and carries the bytes of the answer. -/
structure Gives (d : Request P×BitVec (8*P.L2_DATA_WIDTH.lanes)) (p : Pulse P) : Prop where
  port : p.port=d.1.port
  data : Reads P.L2_DATA_WIDTH d.1.size d.1.lsb d.2 p.data

/-- The cycles in which nothing is lost. -/
structure Clean (w : Watched P) (i : TxChannels.Input P) : Prop where
  /-- The memory answers one cycle after it granted. -/
  answers : i.l2_rvalid_i=w.2.due
  /-- The memory grants no request that is masked. -/
  grants : i.l2_gnt_i=true → s_l2_req_o w.1=true → s_stall w.1 i=false
  /-- No channel is cleared whose request is held in the stage. -/
  kept : ∀ j, w.1.r_grant (Fin.castAdd 2 j)=true → i.cfg_clr_i j=true → s_sample_indata w.1=true
  /-- Requests are for a byte, a half-word or a word, aligned to its size. -/
  aligned : ∀ d ∈ grantedNow w.1 i (places w.1 i w.2.place), d.size≠3 ∧ Aligned d.size d.lsb

instance (w : Watched P) (i : TxChannels.Input P) : Decidable (Clean w i) :=
  decidable_of_iff
    (i.l2_rvalid_i=w.2.due ∧
      (i.l2_gnt_i=true → s_l2_req_o w.1=true → s_stall w.1 i=false) ∧
      (∀ j, w.1.r_grant (Fin.castAdd 2 j)=true → i.cfg_clr_i j=true → s_sample_indata w.1=true) ∧
      ∀ d ∈ grantedNow w.1 i (places w.1 i w.2.place), d.size≠3 ∧ Aligned d.size d.lsb)
    ⟨fun ⟨h₁,h₂,h₃,h₄⟩ => ⟨h₁,h₂,h₃,h₄⟩,fun ⟨h₁,h₂,h₃,h₄⟩ => ⟨h₁,h₂,h₃,h₄⟩⟩

/-- Every granted request is read once and answered once. -/
structure Delivers (w : Watched P) : Prop where
  /-- The reads are those of the requests, but for the last ones, which are on the way. -/
  reads : ∃ done queue stage,w.2.granted=done++(queue++stage) ∧ List.Forall₂ Asks done w.2.asked ∧
    queue.length ≤ 4 ∧ stage.length ≤ 1 ∧ (s_l2_req_o w.1=true ↔ queue≠[])
  /-- The pulses are those of the requests with their answers, one cycle behind them. -/
  pulses : ∃ served coming,w.2.granted.zip w.2.answers=served++coming ∧
    List.Forall₂ Gives served w.2.pulses ∧ w.2.asked.length=w.2.answers.length+w.2.due.toNat ∧
      w.2.answers.length=w.2.pulses.length+w.1.r_valid.toNat
  /-- Seven cycles in which the memory grants, not stalled, are enough for all requests. -/
  leave : ∀ is, Meets watch Clean w is →
    7 ≤ count watch (fun w i => i.l2_gnt_i && !s_stall w.1 i) w is →
      w.2.granted.length ≤ (after watch w is).2.pulses.length

section Grants

variable {s : TxChannels.State P} {i : TxChannels.Input P}
  {place : Fin P.N_CHANNELS → Place P.L2_AWIDTH_NOAL}

/-- A loop over all ports takes the value of the only one that is granted. -/
theorem muxLoop_oneHot {α : Type*} {n : ℕ} {grant : Fin n → Bool} {q : Fin n}
    (h : OneHot grant q) (x : Fin n → α) (init : α) : muxLoop grant x init=x q :=
  muxLoop_unique grant x init ((h q).mpr rfl) fun k hk => (h k).mp hk

theorem granted_eq (k : Fin P.N_CHANNELS_TX) :
    Fin.append (ch_gnt_o s i) (filter_ch_gnt_o s i) k=s_gnt s i k := by
  cases k using Fin.addCases with
  | left j => exact Fin.append_left _ _ j
  | right k => exact Fin.append_right _ _ k

/-- A cycle that samples grants one request. -/
theorem grantedNow_one {q : Fin P.N_CHANNELS_TX} (hgrant : OneHot (s_grant s i) q)
    (hsample : s_sample_indata s=true) : grantedNow s i place=[request i place q] := by
  have hsel : ∀ k, Fin.append (ch_gnt_o s i) (filter_ch_gnt_o s i) k=true ↔ k=q := by
    intro k
    rw [granted_eq,s_gnt,if_pos hsample]
    exact hgrant k
  rw [grantedNow,filter_finRange hsel]
  rfl

/-- Other cycles grant nothing. -/
theorem grantedNow_none (h : ∀ k, s_gnt s i k=false) : grantedNow s i place=[] := by
  have hsel : ∀ k ∈ List.finRange P.N_CHANNELS_TX,
      ¬Fin.append (ch_gnt_o s i) (filter_ch_gnt_o s i) k=true := by
    intro k _
    rw [granted_eq,h k]
    exact Bool.false_ne_true
  rw [grantedNow,List.filter_eq_nil_iff.mpr hsel]
  rfl

end Grants

/-- The register stage holds a request. -/
structure Held (s : TxChannels.State P) (place : Fin P.N_CHANNELS → Place P.L2_AWIDTH_NOAL)
    (d : Request P) : Prop where
  any : s.r_anygrant=true
  grant : OneHot s.r_grant d.port
  size : s.r_in_size=d.size
  channel : ∀ j, d.port=Fin.castAdd 2 j → (s.u_tx_ch_ctrl j).r_en=true ∧ (place j).addr=d.addr
  filter : ∀ k, d.port=Fin.natAdd P.N_CHANNELS k → s.r_in_addr=d.addr

/-- The requests in the register stage. -/
inductive Stage (s : TxChannels.State P) (place : Fin P.N_CHANNELS → Place P.L2_AWIDTH_NOAL) :
    List (Request P) → Prop
  | empty (hany : s.r_anygrant=false) (hgrant : ∀ k, s.r_grant k=false) : Stage s place []
  | held (d : Request P) (h : Held s place d) : Stage s place [d]

/-- Every channel has the place of its next datum. -/
def AllPlaced (s : TxChannels.State P) (place : Fin P.N_CHANNELS → Place P.L2_AWIDTH_NOAL) : Prop :=
  ∀ j, Placed (s.u_tx_ch_ctrl j) (place j)

/-- The entry of a request. -/
def Request.entry (d : Request P) : FifoIn P := ⟨BitVec.ofNat _ d.port.val,d.size,d.addr.setWidth _⟩

section Stage

variable {s : TxChannels.State P} {i : TxChannels.Input P}
  {place : Fin P.N_CHANNELS → Place P.L2_AWIDTH_NOAL} {d : Request P}

theorem Held.addr (h : Held s place d) (hplaced : AllPlaced s place) : s_addr s=d.addr := by
  unfold s_addr
  rw [muxLoop_oneHot h.grant]
  have hchannel := h.channel
  have hfilter := h.filter
  cases hport : d.port using Fin.addCases with
  | left j =>
    obtain ⟨hen,haddr⟩ := hchannel j hport
    rw [Fin.append_left,←haddr]
    exact (hplaced j hen).1
  | right k => rw [Fin.append_right,hfilter k hport]

/-- The stage puts the entry of its request. -/
theorem Held.fifoin (h : Held s place d) (hplaced : AllPlaced s place) : s_fifoin s=d.entry := by
  rw [s_fifoin,Request.entry,h.addr hplaced,h.size]
  congr 1
  exact muxLoop_oneHot h.grant _ 0

theorem step_sampled (hsample : s_sample_indata s=true) :
    (TxChannels.step s i).r_grant=s_grant s i ∧ (TxChannels.step s i).r_anygrant=s_anygrant s i ∧
      (TxChannels.step s i).r_in_size=s_in_size s i ∧
      (TxChannels.step s i).r_in_addr=s_in_addr s i := by
  simp only [TxChannels.step,hsample,if_true,and_self]

theorem step_held (hsample : s_sample_indata s=false) :
    (TxChannels.step s i).r_grant=s.r_grant ∧ (TxChannels.step s i).r_anygrant=s.r_anygrant ∧
      (TxChannels.step s i).r_in_size=s.r_in_size ∧ (TxChannels.step s i).r_in_addr=s.r_in_addr := by
  simp only [TxChannels.step,hsample,Bool.false_eq_true,if_false,and_self]

/-- The address of the granted filter port. -/
theorem s_in_addr_eq {k : Fin 2} (hgrant : OneHot (s_grant s i) (Fin.natAdd P.N_CHANNELS k)) :
    s_in_addr s i=i.filter_ch_addr_i k := by
  have hsel : ∀ m, s_grant s i (Fin.natAdd P.N_CHANNELS m)=true ↔ m=k := by
    intro m
    rw [hgrant]
    exact (Fin.natAdd_injective 2 P.N_CHANNELS).eq_iff
  have hfind : ((List.finRange 2).find? fun m => s_grant s i (Fin.natAdd P.N_CHANNELS m))=some k := by
    rw [←List.head?_filter,filter_finRange hsel]
    rfl
  rw [s_in_addr,hfind]
  rfl

/-- A request that is granted is in the stage next. -/
theorem held_request {q : Fin P.N_CHANNELS_TX} (hreq : s_req s i q=true)
    (hgrant : OneHot (s_grant s i) q) (hany : s_anygrant s i=true)
    (hsample : s_sample_indata s=true) :
    Held (TxChannels.step s i) (places s i place) (request i (places s i place) q) := by
  obtain ⟨hgrant',hany',hsize,haddr⟩ := step_sampled (i:=i) hsample
  refine ⟨hany'.trans hany,hgrant' ▸ hgrant,hsize.trans (muxLoop_oneHot hgrant _ _),?_,?_⟩
  · rintro j rfl
    have hen : s_ch_en s i j=true := by
      rw [s_req,Fin.append_left] at hreq
      exact (Bool.and_eq_true_iff.mp hreq).2
    exact ⟨step_r_en.trans hen,(Fin.append_left (fun j => (places s i place j).addr) _ j).symm⟩
  · rintro k rfl
    rw [haddr,s_in_addr_eq hgrant]
    exact (Fin.append_right (fun j => (places s i place j).addr) _ k).symm

/-- A request that is not moved on keeps its place, unless its channel is cleared. -/
theorem Held.wait (h : Held s place d) (hsample : s_sample_indata s=false)
    (hclr : ∀ j, s.r_grant (Fin.castAdd 2 j)=true → i.cfg_clr_i j=false) :
    Held (TxChannels.step s i) (places s i place) d := by
  obtain ⟨hgrant,hany,hsize,haddr⟩ := step_held (i:=i) hsample
  refine ⟨hany.trans h.any,hgrant ▸ h.grant,hsize.trans h.size,?_,
    fun k hport => haddr.trans (h.filter k hport)⟩
  intro j hport
  obtain ⟨hen,hplace⟩ := h.channel j hport
  have hclear := hclr j ((h.grant _).mpr hport.symm)
  obtain ⟨hen',hkept⟩ := stalled (i:=ctrlInput s i j) (p:=place j) hen hclear hsample
  exact ⟨hen',(congrArg Place.addr hkept).trans hplace⟩

/-- One cycle of the stage: it takes the request of the cycle, or keeps its own. -/
theorem Stage.next (hfits : Arbiter.Fits P.LOG_N_CHANNELS P.N_CHANNELS_TX) (hs : Sound s.u_arbiter)
    {stage : List (Request P)} (h : Stage s place stage)
    (hclr : s_sample_indata s=false → ∀ j, s.r_grant (Fin.castAdd 2 j)=true → i.cfg_clr_i j=false) :
    ∃ stage',Stage (TxChannels.step s i) (places s i place) stage' ∧
      (s_sample_indata s=true → stage'=grantedNow s i (places s i place)) ∧
      (s_sample_indata s=false → grantedNow s i (places s i place)=[] ∧ stage'=stage) := by
  cases hsample : s_sample_indata s with
  | true =>
    obtain ⟨hgrant',hany',_⟩ := step_sampled (i:=i) hsample
    rcases (Arbiter.grants_of_sound hfits hs : Arbiter.Grants (s_req s i) _ _) with
      ⟨_,hgrant,hany⟩ | ⟨q,hreq,hgrant,hany⟩
    · have hgrant : ∀ k, s_grant s i k=false := hgrant
      refine ⟨[],.empty (hany'.trans hany) (fun k => hgrant' ▸ hgrant k),fun _ => ?_,nofun⟩
      refine (grantedNow_none fun k => ?_).symm
      rw [s_gnt,hgrant k,ite_self]
    · exact ⟨_,.held _ (held_request hreq hgrant hany hsample),
        fun _ => (grantedNow_one hgrant hsample).symm,nofun⟩
  | false =>
    obtain ⟨hgrant,hany,_⟩ := step_held (i:=i) hsample
    have hnone : grantedNow s i (places s i place)=[] :=
      grantedNow_none fun k => by rw [s_gnt,hsample]; rfl
    rcases h with ⟨hany₀,hgrant₀⟩ | ⟨d,hd⟩
    · exact ⟨[],.empty (hany.trans hany₀) (fun k => hgrant ▸ hgrant₀ k),nofun,fun _ => ⟨hnone,rfl⟩⟩
    · exact ⟨[d],.held d (hd.wait hsample (hclr hsample)),nofun,fun _ => ⟨hnone,rfl⟩⟩

end Stage

section Responses

/-- An answer of the memory. -/
abbrev Answer (P : Params) := BitVec (8*P.L2_DATA_WIDTH.lanes)

variable {s : TxChannels.State P} {i : TxChannels.Input P} {o : Ledger P}

/-- The datum of an entry in its answer. -/
def datum (x : FifoIn P) (r : Answer P) : BitVec 32 :=
  s_data P.L2_DATA_WIDTH x.size (x.addr.setWidth _) r

/-- The pulse of an entry with its answer. -/
structure PulseOf (x : FifoIn P×Answer P) (p : Pulse P) : Prop where
  port : p.port.val=x.1.grant_log.toNat
  data : p.data=datum x.1 x.2

/-- The read whose answer is due. -/
inductive Open (s : TxChannels.State P) : Bool → List (FifoIn P) → Prop
  | none : Open s false []
  | one (x : FifoIn P) (hresp : s.r_resp=x.grant_log) (hsize : s.r_size=x.size)
      (haddr : s.r_addr=x.addr.setWidth _) : Open s true [x]

/-- The read whose answer is in the output register. -/
inductive Answered (s : TxChannels.State P) : List (FifoIn P×Answer P) → Prop
  | none (hvalid : s.r_valid=false) : Answered s []
  | one (x : FifoIn P) (r : Answer P) (hvalid : s.r_valid=true) (hresp : s.r_resp_dly=x.grant_log)
      (hdata : s.r_data=datum x r) : Answered s [(x,r)]

theorem Open.answers {b : Bool} {opened : List (FifoIn P)} (h : Open s b opened) {r : Answer P} :
    (opened.map fun x => (x,r)).map Prod.snd=if b then [r] else [] := by
  cases h <;> rfl

theorem Open.length_eq {b : Bool} {opened : List (FifoIn P)} (h : Open s b opened) :
    opened.length=b.toNat := by
  cases h <;> rfl

theorem Answered.length_eq {answered : List (FifoIn P×Answer P)} (h : Answered s answered) :
    answered.length=s.r_valid.toNat := by
  rcases h with hvalid | ⟨x,r,hvalid,_,_⟩ <;> rw [hvalid] <;> rfl

/-- An answer that is due comes into the output register. -/
theorem Open.answered {opened : List (FifoIn P)} {b : Bool} (h : Open s b opened)
    (hanswer : i.l2_rvalid_i=b) :
    Answered (TxChannels.step s i) (opened.map fun x => (x,i.l2_rdata_i)) := by
  rcases h with _ | ⟨x,hresp,hsize,haddr⟩
  · exact .none hanswer
  · refine .one x _ hanswer hresp ?_
    rw [TxChannels.step,if_pos hanswer,hsize,haddr]
    rfl

/-- A read that the memory grants is due next. -/
theorem open_step : Open (TxChannels.step s i) (grants s i)
    (if grants s i then [s_fifoout s] else []) := by
  cases hgo : grants s i with
  | false => exact .none
  | true =>
    have hgo : (l2_req_o s i && i.l2_gnt_i)=true := hgo
    exact .one _ (if_pos hgo) (if_pos hgo) (if_pos hgo)

/-- The reads that the memory granted: those with a pulse, the one behind them in the output
register, and the one whose answer is due. -/
def Flight (s : TxChannels.State P) (o : Ledger P) (reads : List (FifoIn P)) : Prop :=
  ∃ served answered opened,reads=(served++answered).map Prod.fst++opened ∧
    o.answers=(served++answered).map Prod.snd ∧ List.Forall₂ PulseOf served o.pulses ∧
      Answered s answered ∧ Open s o.due opened

/-- A valid port is that of the response. -/
theorem valid_eq (k : Fin P.N_CHANNELS_TX) :
    Fin.append (ch_valid_o s) (filter_ch_valid_o s) k=
      (s.r_valid && decide (k.val=s.r_resp_dly.toNat)) := by
  cases k using Fin.addCases with
  | left j =>
    have hj := j.isLt
    rw [Fin.append_left,ch_valid_o,Fin.val_castAdd]
    by_cases hport : j.val=s.r_resp_dly.toNat
    · have hfilter : toFilter s=false := by
        rw [toFilter,←hport,Bool.or_eq_false_iff,beq_eq_false_iff_ne,beq_eq_false_iff_ne]
        omega
      rw [hfilter,if_neg Bool.false_ne_true,if_pos hport.symm,decide_eq_true hport,Bool.and_true]
    · rw [if_neg (Ne.symm hport),ite_self,decide_eq_false hport,Bool.and_false]
  | right k =>
    rw [Fin.append_right,filter_ch_valid_o,Fin.val_natAdd]
    by_cases hport : P.N_CHANNELS+k.val=s.r_resp_dly.toNat
    · rw [if_pos hport.symm,decide_eq_true hport,Bool.and_true]
    · rw [if_neg (Ne.symm hport),decide_eq_false hport,Bool.and_false]

/-- It has the datum. -/
theorem data_eq {k : Fin P.N_CHANNELS_TX} (hport : k.val=s.r_resp_dly.toNat) :
    Fin.append (ch_data_o s) (filter_ch_data_o s) k=s.r_data := by
  cases k using Fin.addCases with
  | left j =>
    have hj := j.isLt
    rw [Fin.val_castAdd] at hport
    have hfilter : toFilter s=false := by
      rw [toFilter,←hport,Bool.or_eq_false_iff,beq_eq_false_iff_ne,beq_eq_false_iff_ne]
      omega
    rw [Fin.append_left,ch_data_o,hfilter,if_neg Bool.false_ne_true,if_pos hport.symm]
  | right k =>
    rw [Fin.val_natAdd] at hport
    rw [Fin.append_right,filter_ch_data_o,if_pos hport.symm]

theorem pulsesNow_none (hvalid : s.r_valid=false) : pulsesNow s=[] := by
  have hsel : ∀ k ∈ List.finRange P.N_CHANNELS_TX,
      ¬Fin.append (ch_valid_o s) (filter_ch_valid_o s) k=true := by
    intro k _
    rw [valid_eq,hvalid]
    exact Bool.false_ne_true
  rw [pulsesNow,List.filter_eq_nil_iff.mpr hsel]
  rfl

theorem pulsesNow_one (hvalid : s.r_valid=true) {k : Fin P.N_CHANNELS_TX}
    (hport : k.val=s.r_resp_dly.toNat) : pulsesNow s=[⟨k,s.r_data⟩] := by
  have hsel : ∀ m, Fin.append (ch_valid_o s) (filter_ch_valid_o s) m=true ↔ m=k := by
    intro m
    rw [valid_eq,hvalid,Bool.true_and,decide_eq_true_iff,←hport,Fin.val_inj]
  rw [pulsesNow,filter_finRange hsel,List.map_singleton,data_eq hport]

/-- A cycle of the responses. -/
theorem Flight.step {reads : List (FifoIn P)} (h : Flight s o reads)
    (hports : ∀ x ∈ reads, ∃ k : Fin P.N_CHANNELS_TX,k.val=x.grant_log.toNat)
    (hanswer : i.l2_rvalid_i=o.due) :
    Flight (TxChannels.step s i) (o.next s i)
      (reads++if grants s i then [s_fifoout s] else []) := by
  rcases h with ⟨served,answered,opened,rfl,hanswers,hpulses,hanswered,hopened⟩
  refine ⟨served++answered,opened.map fun x => (x,i.l2_rdata_i),
    if grants s i then [s_fifoout s] else [],?_,?_,?_,?_,?_⟩
  · have hfst : (opened.map fun x => (x,i.l2_rdata_i)).map Prod.fst=opened := by
      rw [List.map_map]
      exact List.map_id opened
    simp only [List.map_append,hfst]
  · have hnew : (opened.map fun x => (x,i.l2_rdata_i)).map Prod.snd=
        if i.l2_rvalid_i then [i.l2_rdata_i] else [] := by
      rw [hanswer]
      exact hopened.answers
    rw [List.map_append,hnew,←hanswers]
    rfl
  · refine List.rel_append hpulses ?_
    rcases hanswered with hvalid | ⟨x,r,hvalid,hresp,hdata⟩
    · rw [pulsesNow_none hvalid]
      exact .nil
    · obtain ⟨k,hk⟩ := hports x (by simp)
      rw [pulsesNow_one hvalid (hk.trans (congrArg BitVec.toNat hresp.symm))]
      exact .cons ⟨hk,hdata⟩ .nil
  · exact hopened.answered hanswer
  · exact open_step

end Responses

/-- The address that the memory is asked for with an entry. -/
def wordOf (x : FifoIn P) : BitVec P.L2_ADDR_WIDTH :=
  x.addr.extractLsb' P.L2_DATA_WIDTH.ALIGN_BITS P.L2_ADDR_WIDTH

theorem entry_port (d : Request P) : d.entry.grant_log.toNat=d.port.val :=
  (BitVec.toNat_ofNat _ _).trans
    (Nat.mod_eq_of_lt (Nat.lt_of_lt_of_le d.port.isLt (Nat.le_pow_clog (by decide) _)))

/-- The registers follow the ledger. -/
structure Inv (w : Watched P) : Prop where
  sound : Sound w.1.u_arbiter
  placed : AllPlaced w.1 w.2.place
  lines : ∃ reads stage,Stage w.1 w.2.place stage ∧
    IoFifo.Line w.1.u_fifo id Request.entry w.2.granted reads stage ∧
    w.2.asked=reads.map wordOf ∧ Flight w.1 w.2 reads
  aligned : ∀ d ∈ w.2.granted, d.size≠3 ∧ Aligned d.size d.lsb

theorem Inv.start : Inv (start : Watched P) where
  sound := sound_reset
  placed := fun _ hen => absurd hen Bool.false_ne_true
  lines := ⟨[],[],.empty rfl fun _ => rfl,IoFifo.line_reset (by decide),rfl,
    [],[],[],rfl,rfl,.nil,.none rfl,.none⟩
  aligned := fun _ hd => absurd hd List.not_mem_nil

/-- The queue's entries in a cycle that loses none. -/
theorem sends_eq {s : TxChannels.State P} {i : TxChannels.Input P}
    (h : i.l2_gnt_i=true → s_l2_req_o s=true → s_stall s i=false) (x : FifoIn P) :
    IoFifo.sends s.u_fifo id ⟨false,i.l2_gnt_i,s.r_anygrant,x⟩=
      if grants s i then [s_fifoout s] else [] := by
  have hgo : grants s i=(s_l2_req_o s && i.l2_gnt_i) := by
    unfold grants l2_req_o
    cases hgnt : i.l2_gnt_i with
    | false => rw [Bool.and_false,Bool.and_false]
    | true =>
      cases hreq : s_l2_req_o s with
      | false => rfl
      | true => rw [h hgnt hreq]; rfl
  rw [hgo]
  rfl

/-- The queue takes the request of the stage. -/
theorem Stage.moves {s : TxChannels.State P} {place : Fin P.N_CHANNELS → Place P.L2_AWIDTH_NOAL}
    {stage new stage' : List (Request P)} (h : Stage s place stage) (hplaced : AllPlaced s place)
    (gnt : Bool) (hgo : s_sample_indata s=true → stage'=new)
    (hstay : s_sample_indata s=false → new=[] ∧ stage'=stage) :
    IoFifo.Moves s.u_fifo ⟨false,gnt,s.r_anygrant,s_fifoin s⟩ id Request.entry stage new stage' := by
  constructor
  · intro htake
    obtain ⟨hvalid,hroom⟩ := Bool.and_eq_true_iff.mp htake
    refine ⟨?_,hgo hroom⟩
    rcases h with ⟨hany,_⟩ | ⟨d,hd⟩
    · exact absurd (hany.symm.trans hvalid) nofun
    · exact congrArg (fun x => [x]) (hd.fifoin hplaced).symm
  · intro hno
    cases hsample : s_sample_indata s with
    | false =>
      obtain ⟨rfl,rfl⟩ := hstay hsample
      exact (List.append_nil _).symm
    | true =>
      have hroom : IoFifo.ready_o s.u_fifo=true := hsample
      rw [hroom,Bool.and_true] at hno
      rw [hgo hsample]
      rcases h with ⟨_,_⟩ | ⟨d,hd⟩
      · rfl
      · exact absurd (hno.symm.trans hd.any) nofun

/-- The stage holds one request at most, and puts it into the queue. -/
theorem Stage.puts {s : TxChannels.State P} {place : Fin P.N_CHANNELS → Place P.L2_AWIDTH_NOAL}
    {stage : List (Request P)} (h : Stage s place stage) :
    stage.length ≤ 1 ∧ (stage≠[] → s.r_anygrant=true) := by
  rcases h with ⟨_,_⟩ | ⟨d,hd⟩
  · exact ⟨Nat.zero_le _,fun hne => absurd rfl hne⟩
  · exact ⟨le_rfl,fun _ => hd.any⟩

/-- Every read is for a port. -/
theorem ports_of_line {w : Watched P} {reads : List (FifoIn P)} {stage : List (Request P)}
    (h : IoFifo.Line w.1.u_fifo id Request.entry w.2.granted reads stage) :
    ∀ x ∈ reads, ∃ k : Fin P.N_CHANNELS_TX,k.val=x.grant_log.toNat := by
  rcases h with ⟨done,_,_,_,_,_,rfl⟩
  intro x hx
  rcases List.mem_map.mp hx with ⟨d,_,rfl⟩
  exact ⟨d.port,(entry_port d).symm⟩

theorem Inv.step (hfits : Arbiter.Fits P.LOG_N_CHANNELS P.N_CHANNELS_TX) (hT : 2 < P.TRANS_SIZE)
    {w : Watched P} {i : TxChannels.Input P} (h : Inv w) (hclean : Clean w i) : Inv (watch w i) := by
  rcases w with ⟨s,o⟩
  obtain ⟨reads,stage,hstage,hline,hasked,hflight⟩ := h.lines
  obtain ⟨stage',hstage',hgo,hstay⟩ := hstage.next (i:=i) hfits h.sound fun hsample j hgrant => by
    cases hclr : i.cfg_clr_i j with
    | false => rfl
    | true => exact absurd ((hclean.kept j hgrant hclr).symm.trans hsample) nofun
  have hnext := hline.step rfl (hstage.moves h.placed i.l2_gnt_i hgo hstay)
  rw [sends_eq hclean.grants] at hnext
  refine ⟨Arbiter.sound_step hfits h.sound _,fun j => (h.placed j).step hT,
    ⟨_,stage',hstage',hnext,?_,hflight.step (ports_of_line hline) hclean.answers⟩,?_⟩
  · have hnew : (if grants s i then [s_fifoout s] else []).map wordOf=
        if grants s i then [l2_addr_o s] else [] := by
      split_ifs <;> rfl
    rw [List.map_append,hnew,←hasked]
    rfl
  · intro d hd
    rcases List.mem_append.mp hd with hold | hnew
    · exact h.aligned d hold
    · exact hclean.aligned d hnew

section Delivers

variable {w : Watched P} {i : TxChannels.Input P}

/-- Reads, answers and pulses are one behind the other. -/
theorem Inv.counts (h : Inv w) : w.2.asked.length=w.2.answers.length+w.2.due.toNat ∧
    w.2.answers.length=w.2.pulses.length+w.1.r_valid.toNat := by
  obtain ⟨reads,stage,_,_,hasked,served,answered,opened,hreads,hanswers,hpulses,hanswered,hopened⟩ :=
    h.lines
  rw [hasked,hreads,hanswers,←hpulses.length_eq,←hanswered.length_eq,←hopened.length_eq]
  simp only [List.length_map,List.length_append,and_self]

theorem Inv.reads (h : Inv w) :
    ∃ done queue stage,w.2.granted=done++(queue++stage) ∧ List.Forall₂ Asks done w.2.asked ∧
      queue.length ≤ 4 ∧ stage.length ≤ 1 ∧ (s_l2_req_o w.1=true ↔ queue≠[]) := by
  obtain ⟨reads,stage,hstage,hline,hasked,_⟩ := h.lines
  rcases hline with ⟨done,queue,l,hstores,hmap,hgranted,rfl⟩
  have hlength := congrArg List.length hmap
  rw [List.length_map,List.length_map] at hlength
  refine ⟨done,queue,stage,hgranted,?_,hlength ▸ hstores.bound,?_,?_⟩
  · rw [hasked,List.map_map]
    exact List.forall₂_map_right_iff.mpr (List.forall₂_same.mpr fun d _ => rfl)
  · rcases hstage with _ | _
    · exact Nat.zero_le _
    · exact le_rfl
  · rw [s_l2_req_o,hstores.valid_o_iff,←List.length_pos_iff,hlength,List.length_pos_iff]

/-- The pulse of a request with its answer. -/
theorem gives_of_pulseOf {d : Request P} {r : Answer P} {p : Pulse P}
    (hd : d.size≠3 ∧ Aligned d.size d.lsb) (h : PulseOf (d.entry,r) p) : Gives (d,r) p := by
  refine ⟨Fin.ext (h.port.trans (entry_port d)),?_⟩
  have hlsb : ((d.addr.setWidth P.L2_SIZE).setWidth P.L2_DATA_WIDTH.ALIGN_BITS)=d.lsb :=
    BitVec.setWidth_setWidth_of_le _ (Nat.le_add_left _ _)
  have hdata : p.data=s_data P.L2_DATA_WIDTH d.size d.lsb r := by
    rw [h.data,datum,Request.entry,hlsb]
  rw [hdata]
  exact reads_of_aligned _ _ _ _ hd.2 hd.1

theorem Inv.pulses (h : Inv w) : ∃ served coming,w.2.granted.zip w.2.answers=served++coming ∧
    List.Forall₂ Gives served w.2.pulses := by
  obtain ⟨reads,stage,_,hline,_,served,answered,opened,hreads,hanswers,hpulses,_,_⟩ := h.lines
  rcases hline with ⟨done,queue,l,_,_,hgranted,rfl⟩
  -- The first of the requests that were read are those that were served.
  have hsplit : done.map Request.entry=served.map Prod.fst++(answered.map Prod.fst++opened) := by
    rw [hreads,List.map_append,List.append_assoc]
  rcases List.map_eq_append_iff.mp hsplit with ⟨first,rest,rfl,hfirst,_⟩
  have hlength : first.length=(served.map Prod.snd).length := by
    have hsame := congrArg List.length hfirst
    rw [List.length_map,List.length_map] at hsame
    rw [hsame,List.length_map]
  have hpairs : (first.zip (served.map Prod.snd)).map (Prod.map Request.entry id)=served := by
    rw [←List.zip_map,hfirst,List.map_id]
    exact (List.zip_of_prod rfl rfl).symm
  refine ⟨first.zip (served.map Prod.snd),(rest++(queue++stage)).zip (answered.map Prod.snd),?_,?_⟩
  · rw [hgranted,hanswers,List.map_append,List.append_assoc,List.zip_append hlength]
  · rw [←hpairs,List.forall₂_map_left_iff] at hpulses
    have hall : ∀ c ∈ first.zip (served.map Prod.snd), c.1 ∈ w.2.granted := fun c hc => by
      rw [hgranted]
      exact List.mem_append_left _ (List.mem_append_left _ (List.of_mem_zip hc).1)
    refine ((List.forall₂_and_left _ _).mpr ⟨hall,hpulses⟩).imp fun c p hc => ?_
    exact gives_of_pulseOf (h.aligned _ hc.1) hc.2

/-- Registers that the first `n` requests have before them. -/
def behind (n : ℕ) (o : Ledger P) : ℕ :=
  if n ≤ o.pulses.length then 0 else if n ≤ o.answers.length then 1 else 2

/-- Cycles in which the memory has to grant until the first `n` requests have their pulses. -/
def needs (n : ℕ) (w : Watched P) : ℕ := IoFifo.left n w.1.u_fifo w.2.asked+behind n w.2

/-- A cycle answers what was asked for, and gives what was answered. -/
theorem Inv.counts_step (h : Inv w) (hclean : Clean w i) (hnext : Inv (watch w i)) :
    (watch w i).2.answers.length=w.2.asked.length ∧ (watch w i).2.pulses.length=w.2.answers.length := by
  obtain ⟨hasked,_⟩ := h.counts
  obtain ⟨_,hanswers⟩ := hnext.counts
  have hnow : (watch w i).2.answers.length=w.2.answers.length+w.2.due.toNat := by
    rw [←hclean.answers,watch,Ledger.next,List.length_append]
    cases i.l2_rvalid_i <;> rfl
  have hvalid : (watch w i).1.r_valid.toNat=w.2.due.toNat := congrArg Bool.toNat hclean.answers
  omega

/-- The queue of the reads is the nearer to its end the more the memory grants. -/
theorem Inv.left_step (h : Inv w) (hclean : Clean w i) {n : ℕ} (hn : n ≤ w.2.granted.length) :
    IoFifo.left n (watch w i).1.u_fifo (watch w i).2.asked ≤ IoFifo.left n w.1.u_fifo w.2.asked ∧
      (i.l2_gnt_i=true → 0 < IoFifo.left n w.1.u_fifo w.2.asked →
        IoFifo.left n (watch w i).1.u_fifo (watch w i).2.asked <
          IoFifo.left n w.1.u_fifo w.2.asked) := by
  obtain ⟨reads,stage,hstage,hline,hasked,_⟩ := h.lines
  have hstep := hline.left_step (i:=⟨false,i.l2_gnt_i,w.1.r_anygrant,s_fifoin w.1⟩) rfl
    hstage.puts.1 hstage.puts.2 (by decide) hn
  rw [sends_eq hclean.grants] at hstep
  have hnow : w.2.asked.length=reads.length := by rw [hasked,List.length_map]
  have hnext : (watch w i).2.asked.length=
      (reads++if grants w.1 i then [s_fifoout w.1] else []).length := by
    rw [watch,Ledger.next,List.length_append,List.length_append,hnow]
    split_ifs <;> rfl
  rw [IoFifo.left_congr hnow,IoFifo.left_congr hnext]
  exact hstep

theorem Inv.needs_step (h : Inv w) (hclean : Clean w i) (hnext : Inv (watch w i)) {n : ℕ}
    (hn : n ≤ w.2.granted.length) : needs n (watch w i) ≤ needs n w ∧
      ((i.l2_gnt_i && !s_stall w.1 i)=true → 0 < needs n w → needs n (watch w i) < needs n w) := by
  obtain ⟨hle,hlt⟩ := h.left_step hclean hn
  obtain ⟨hanswers,hpulses⟩ := h.counts_step hclean hnext
  obtain ⟨hasked,hbefore⟩ := h.counts
  have hmono : behind n (watch w i).2 ≤ behind n w.2 := by
    unfold behind
    split_ifs <;> omega
  refine ⟨Nat.add_le_add hle hmono,fun htakes hsome => ?_⟩
  have hgnt := (Bool.and_eq_true_iff.mp htakes).1
  rcases Nat.eq_zero_or_pos (IoFifo.left n w.1.u_fifo w.2.asked) with hzero | hpos
  · -- All of them were asked for, so that each register hands on the last of them.
    have hall := IoFifo.le_of_left hzero
    have hdrop : behind n (watch w i).2 < behind n w.2 := by
      unfold needs at hsome
      unfold behind at hsome ⊢
      split_ifs at hsome ⊢ <;> omega
    exact Nat.add_lt_add_of_le_of_lt hle hdrop
  · exact Nat.add_lt_add_of_lt_of_le (hlt hgnt hpos) hmono

theorem Inv.needs_le (h : Inv w) : needs w.2.granted.length w ≤ 7 := by
  obtain ⟨reads,stage,hstage,hline,hasked,_⟩ := h.lines
  have hnow : w.2.asked.length=reads.length := by rw [hasked,List.length_map]
  have hleft := hline.left_le hstage.puts.1 (by decide) le_rfl
  rw [←IoFifo.left_congr hnow] at hleft
  have hbehind : behind w.2.granted.length w.2 ≤ 2 := by
    unfold behind
    split_ifs <;> decide
  exact Nat.add_le_add hleft hbehind

theorem le_of_needs {n : ℕ} (h : needs n w=0) : n ≤ w.2.pulses.length := by
  have hbehind := (Nat.add_eq_zero_iff.mp h).2
  unfold behind at hbehind
  split_ifs at hbehind with hall
  exact hall

theorem Inv.delivers (hfits : Arbiter.Fits P.LOG_N_CHANNELS P.N_CHANNELS_TX)
    (hT : 2 < P.TRANS_SIZE) (h : Inv w) : Delivers w where
  reads := h.reads
  pulses := by
    obtain ⟨served,coming,hpairs,hgives⟩ := h.pulses
    exact ⟨served,coming,hpairs,hgives,h.counts⟩
  leave := by
    intro is hclean hcount
    have hkeep : ∀ (v : Watched P) (i : TxChannels.Input P),
        Inv v ∧ w.2.granted.length ≤ v.2.granted.length → Clean v i →
        Inv (watch v i) ∧ w.2.granted.length ≤ (watch v i).2.granted.length := by
      rintro v i ⟨hv,hgrown⟩ hC
      refine ⟨hv.step hfits hT hC,hgrown.trans ?_⟩
      rw [watch,Ledger.next,List.length_append]
      exact Nat.le_add_right _ _
    obtain ⟨_,hleft⟩ := measure_after_of_meets (needs w.2.granted.length) hkeep
      (fun v i hv hC => (hv.1.needs_step hC (hv.1.step hfits hT hC) hv.2).1)
      (fun v i hv hC => (hv.1.needs_step hC (hv.1.step hfits hT hC) hv.2).2) ⟨h,le_rfl⟩ hclean
    exact le_of_needs (Nat.le_zero.mp
      (hleft.trans (Nat.sub_eq_zero_of_le (h.needs_le.trans hcount)).le))

/-- In every run whose cycles lose nothing, each granted request is read and answered once. -/
theorem answered_of_clean (hT : 2 < P.TRANS_SIZE) (is : List (TxChannels.Input P))
    (h : Meets watch Clean (start : Watched P) is) : Delivers (after watch start is) :=
  have hfits : Arbiter.Fits P.LOG_N_CHANNELS P.N_CHANNELS_TX :=
    Arbiter.fits_clog (Nat.le_add_left 2 _)
  (after_invariant_of_meets (fun _ _ hw hC => hw.step hfits hT hC) Inv.start h).delivers hfits hT

end Delivers

section Example

/-- Three channels in front of a memory of 32-bit words. -/
def exampleParams : Params := ⟨17,19,.w32,3,16⟩

/-- A cycle in which the channels `req` ask for words, and the first channel may not be ready. -/
def exampleInput (en clr req : List ℕ) (ready l2_gnt_i : Bool) (answer : Option (BitVec 32)) :
    TxChannels.Input exampleParams where
  l2_gnt_i := l2_gnt_i
  l2_rdata_i := answer.getD 0
  l2_rvalid_i := answer.isSome
  filter_ch_req_i := fun _ => false
  filter_ch_addr_i := fun _ => 0
  filter_ch_datasize_i := fun _ => 0
  filter_ch_ready_i := fun _ => true
  ch_datasize_i := fun _ => 2
  ch_req_i := fun j => req.contains j.val
  ch_ready_i := fun j => j.val != 0 || ready
  cfg_startaddr_i := fun _ => 0x100
  cfg_size_i := fun _ => 64
  cfg_continuous_i := fun _ => false
  cfg_en_i := fun j => en.contains j.val
  cfg_clr_i := fun j => clr.contains j.val

/-- The second channel asks for four words of a memory that is always ready, while the first
channel is not ready. -/
def stalledInputs : List (TxChannels.Input exampleParams) :=
  [exampleInput [1] [] [] false true none]++
    List.replicate 3 (exampleInput [] [] [1] false true none)++
    [exampleInput [] [] [1] false true (some 0x11),exampleInput [] [] [] false true (some 0x22)]++
    List.replicate 4 (exampleInput [] [] [] false true none)

/-- The second channel asks for five words, and is cleared before the memory grants. -/
def clearedInputs : List (TxChannels.Input exampleParams) :=
  [exampleInput [1] [] [] true false none]++
    List.replicate 5 (exampleInput [] [] [1] true false none)++
    [exampleInput [] [1] [] true false none,exampleInput [] [] [] true true none]++
    List.replicate 4 (exampleInput [] [] [] true true (some 0x11))++
    [exampleInput [] [] [] true false (some 0x11),exampleInput [] [] [] true false none]

/-- The memory is asked for the words of the first requests. -/
theorem Delivers.asked_eq {w : Watched P} (h : Delivers w) :
    w.2.asked=(w.2.granted.map fun d => wordOf d.entry).take w.2.asked.length := by
  obtain ⟨done,queue,stage,hgranted,hasks,_⟩ := h.reads
  have hall : w.2.asked=done.map fun d => wordOf d.entry :=
    (List.forall₂_eq_eq_eq ▸ List.forall₂_map_left_iff.mpr (hasks.imp fun d a ha => ha.symm) :
      (done.map fun d => wordOf d.entry)=w.2.asked).symm
  rw [hgranted,List.map_append,hall,List.length_map,List.take_left' (List.length_map _)]

/-- While the first channel is not ready, two requests of the second one are lost; behind a
clear, the last request reads another address. -/
theorem not_answers : ¬Delivers (after watch (start : Watched exampleParams) stalledInputs) ∧
    ¬Delivers (after watch (start : Watched exampleParams) clearedInputs) := by
  refine ⟨fun h => ?_,fun h => ?_⟩
  · obtain ⟨done,queue,stage,hgranted,hasks,_,hstage,hqueue⟩ := h.reads
    have hlength := congrArg List.length hgranted
    rw [List.length_append,List.length_append,hasks.length_eq] at hlength
    have hcounts : (after watch (start : Watched exampleParams) stalledInputs).2.granted.length=4 ∧
        (after watch (start : Watched exampleParams) stalledInputs).2.asked.length=2 ∧
        s_l2_req_o (after watch (start : Watched exampleParams) stalledInputs).1=false := by
      decide +kernel
    have hempty : queue=[] := by
      by_contra hne
      exact absurd (hcounts.2.2.symm.trans (hqueue.mpr hne)) nofun
    rw [hempty,List.length_nil] at hlength
    omega
  · exact absurd h.asked_eq (by decide +kernel)

/-- Two channels ask for a word each, and the memory waits for one cycle. -/
def exampleInputs : List (TxChannels.Input exampleParams) :=
  [exampleInput [0,1] [] [] true false none,exampleInput [] [] [0,1] true false none,
    exampleInput [] [] [1] true false none,exampleInput [] [] [] true false none,
    exampleInput [] [] [] true true none,exampleInput [] [] [] true true (some 0x11),
    exampleInput [] [] [] true false (some 0x22)]++
    List.replicate 2 (exampleInput [] [] [] true false none)

/-- The rule for that run: both words come to their channels. -/
theorem answered_of_clean_example :
    (after watch (start : Watched exampleParams) exampleInputs).2.granted.length=2 ∧
      (after watch (start : Watched exampleParams) exampleInputs).2.pulses.map
        (fun p => (p.port.val,p.data))=[(0,0x11),(1,0x22)] ∧
      Delivers (after watch (start : Watched exampleParams) exampleInputs) :=
  ⟨by decide +kernel,by decide +kernel,
    answered_of_clean (by decide) exampleInputs (by decide +kernel)⟩

end Example

end Pulpissimo.Udma.TxDelivery
