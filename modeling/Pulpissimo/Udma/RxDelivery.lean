import Pulpissimo.Lib.Machine
import Pulpissimo.Udma.ChPlace
import Pulpissimo.Udma.RxChannels

/-!
# Delivery of received data

A ledger beside the registers notes every datum that is accepted, with the address and the
destination of its place in its transfer, every write that the memory grants and every word
that the filter takes. The data of each destination leave in order and once, as long as no
datum waits in the register stage for a queue that is not its own, and none is cleared there.
-/

namespace Pulpissimo.Udma.RxDelivery

open Pulpissimo.Machine Pulpissimo.Select Pulpissimo.Soc.EventArbiter Pulpissimo.Udma.ChAddrgen
  Pulpissimo.Udma.ChPlace Pulpissimo.Udma.L2Lanes Pulpissimo.Udma.RxChannels

variable {P : Params}

/-- A datum that was accepted. -/
structure Datum (P : Params) where
  port : Fin P.N_CHANNELS_RX
  data : BitVec 32
  size : BitVec 2
  addr : BitVec P.L2_AWIDTH_NOAL
  filter : Bool

/-- A write to the memory. -/
structure Write (P : Params) where
  addr : BitVec P.L2_ADDR_WIDTH
  be : BitVec P.L2_DATA_WIDTH.lanes
  wdata : BitVec (8*P.L2_DATA_WIDTH.lanes)

/-- A word for the filter. -/
structure Word (P : Params) where
  id : BitVec P.FILTER_ID_WIDTH
  data : BitVec 32

/-- What came in and went out. -/
structure Ledger (P : Params) where
  place : Fin P.N_CHANNELS → Place P.L2_AWIDTH_NOAL
  accepted : List (Datum P)
  written : List (Write P)
  filtered : List (Word P)

section Ledger

variable (s : RxChannels.State P) (i : RxChannels.Input P)

/-- The places behind this cycle. -/
def places (place : Fin P.N_CHANNELS → Place P.L2_AWIDTH_NOAL) :
    Fin P.N_CHANNELS → Place P.L2_AWIDTH_NOAL :=
  fun j => (place j).next (s.u_rx_ch_ctrl j) (ctrlInput s i j)

/-- The value of a port, by channels and the filter's port. -/
def port {α : Type*} (x : Fin P.N_CHANNELS → α) (y : α) : Fin P.N_CHANNELS_RX → α :=
  @Fin.snoc P.N_CHANNELS (fun _ => α) x y

theorem port_castSucc {α : Type*} (x : Fin P.N_CHANNELS → α) (y : α) (j : Fin P.N_CHANNELS) :
    port x y j.castSucc=x j :=
  @Fin.snoc_castSucc P.N_CHANNELS (fun _ => α) y x j

theorem port_last {α : Type*} (x : Fin P.N_CHANNELS → α) (y : α) : port x y (Fin.last _)=y :=
  @Fin.snoc_last P.N_CHANNELS (fun _ => α) y x

/-- The datum that a port offers. -/
def datum (place : Fin P.N_CHANNELS → Place P.L2_AWIDTH_NOAL) (k : Fin P.N_CHANNELS_RX) : Datum P where
  port := k
  data := port i.ch_data_i i.filter_ch_data_i k
  size := port i.ch_datasize_i i.filter_ch_datasize_i k
  addr := port (fun j => (place j).addr) i.filter_ch_addr_i k
  filter := port (fun j => (place j).filter) false k

/-- A port hands its datum over. -/
def accepts (k : Fin P.N_CHANNELS_RX) : Bool :=
  port i.ch_valid_i i.filter_ch_valid_i k && port (ch_ready_o s i) (filter_ch_ready_o s i) k

def acceptedNow (place : Fin P.N_CHANNELS → Place P.L2_AWIDTH_NOAL) : List (Datum P) :=
  ((List.finRange P.N_CHANNELS_RX).filter (accepts s i)).map (datum i place)

/-- The write that the memory is asked for. -/
def write : Write P := ⟨l2_addr_o s,l2_be_o s,l2_wdata_o s⟩

/-- The word that the filter is offered. -/
def word : Word P := ⟨filter_id_o s,filter_data_o s⟩

def Ledger.next (o : Ledger P) : Ledger P where
  place := places s i o.place
  accepted := o.accepted++acceptedNow s i (places s i o.place)
  written := o.written++if l2_req_o s && i.l2_gnt_i then [write s] else []
  filtered := o.filtered++if filter_valid_o s && i.filter_ready_i then [word s] else []

end Ledger

/-- Registers and ledger. -/
abbrev Watched (P : Params) := RxChannels.State P×Ledger P

def start : Watched P := (RxChannels.reset,⟨fun _ => ⟨0,0,0,false⟩,[],[],[]⟩)

def watch (w : Watched P) (i : RxChannels.Input P) : Watched P :=
  (RxChannels.step w.1 i,w.2.next w.1 i)

/-- A write is the write of a datum: it is in the word of the datum's address, and enables its
bytes, which carry the datum. -/
structure Writes (d : Datum P) (x : Write P) : Prop where
  addr : x.addr=(d.addr.setWidth P.L2_SIZE).extractLsb' P.L2_DATA_WIDTH.ALIGN_BITS P.L2_ADDR_WIDTH
  lanes : Carries P.L2_DATA_WIDTH d.size (d.addr.setWidth P.L2_DATA_WIDTH.ALIGN_BITS) d.data x.be x.wdata

/-- A word is that of a datum. -/
structure Filters (d : Datum P) (x : Word P) : Prop where
  id : x.id.toNat=d.port.val
  data : x.data=d.data

/-- Data pass on in order and once. Those that are still on the way are in the queue, which
offers the first of them, or in the register stage, which puts its datum into the queue. -/
def Passes {γ : Type*} (data : List (Datum P)) (sent : List γ) (R : Datum P → γ → Prop)
    (offers puts : Bool) : Prop :=
  ∃ done queue stage,data=done++(queue++stage) ∧ List.Forall₂ R done sent ∧ queue.length ≤ 4 ∧
    stage.length ≤ 1 ∧ (offers=true ↔ queue≠[]) ∧ (stage≠[] → puts=true)

/-- Data that go to the filter, and those that go to the memory. -/
def bound (toFilter : Bool) (data : List (Datum P)) : List (Datum P) :=
  data.filter fun d => d.filter==toFilter

theorem bound_append (b : Bool) (l r : List (Datum P)) : bound b (l++r)=bound b l++bound b r :=
  List.filter_append ..

theorem bound_singleton {d : Datum P} {b : Bool} : bound b [d]=if d.filter==b then [d] else [] := by
  unfold bound
  rw [List.filter_cons]
  rfl

/-- The cycles in which the register stage is safe, and data are aligned. -/
structure Clean (w : Watched P) (i : RxChannels.Input P) : Prop where
  /-- A datum that its queue takes leaves the stage. -/
  l2 : s_push_l2 w.1=true → s_sample_indata_l2 w.1=true → s_sample_indata_filter w.1=true
  filter : s_push_filter w.1=true → s_sample_indata_filter w.1=true → s_sample_indata_l2 w.1=true
  /-- No channel is cleared whose datum is held in the stage. -/
  kept : ∀ j, w.1.r_grant j.castSucc=true → i.cfg_clr_i j=true → s_sample_indata w.1=true
  /-- A datum that is accepted for the memory is aligned to its size. -/
  aligned : ∀ d ∈ acceptedNow w.1 i (places w.1 i w.2.place), d.filter=false →
    Aligned d.size (d.addr.setWidth P.L2_DATA_WIDTH.ALIGN_BITS)

instance (w : Watched P) (i : RxChannels.Input P) : Decidable (Clean w i) :=
  decidable_of_iff
    ((s_push_l2 w.1=true → s_sample_indata_l2 w.1=true → s_sample_indata_filter w.1=true) ∧
      (s_push_filter w.1=true → s_sample_indata_filter w.1=true → s_sample_indata_l2 w.1=true) ∧
      (∀ j, w.1.r_grant (Fin.castSucc j)=true → i.cfg_clr_i j=true → s_sample_indata w.1=true) ∧
      ∀ d ∈ acceptedNow w.1 i (places w.1 i w.2.place), d.filter=false →
        Aligned d.size (d.addr.setWidth P.L2_DATA_WIDTH.ALIGN_BITS))
    ⟨fun ⟨h₁,h₂,h₃,h₄⟩ => ⟨h₁,h₂,h₃,h₄⟩,fun ⟨h₁,h₂,h₃,h₄⟩ => ⟨h₁,h₂,h₃,h₄⟩⟩

/-- Data are all sent by enough cycles in which the destination takes what it is offered. -/
def Leave {γ : Type*} (w : Watched P) (data : List (Datum P)) (sent : Watched P → List γ)
    (R : Datum P → γ → Prop) (takes : RxChannels.Input P → Bool) : Prop :=
  ∀ is, Meets watch Clean w is → 5 ≤ count watch (fun _ i => takes i) w is →
    ∃ later,List.Forall₂ R (data++later) (sent (after watch w is))

/-- Every accepted datum leaves once, to its destination. -/
structure Delivers (w : Watched P) : Prop where
  l2 : Passes (bound false w.2.accepted) w.2.written Writes (l2_req_o w.1) (s_push_l2 w.1)
  filter : Passes (bound true w.2.accepted) w.2.filtered Filters (filter_valid_o w.1) (s_push_filter w.1)
  l2_leave : Leave w (bound false w.2.accepted) (fun w => w.2.written) Writes fun i => i.l2_gnt_i
  filter_leave : Leave w (bound true w.2.accepted) (fun w => w.2.filtered) Filters
    fun i => i.filter_ready_i

section Grants

theorem pick_eq {α : Type*} {n : ℕ} {grant : Fin (n+1) → Bool} {q : Fin (n+1)}
    (h : OneHot grant q) (x : Fin n → α) (y init : α) :
    pick grant x y init=@Fin.snoc n (fun _ => α) x y q := by
  unfold pick
  cases q using Fin.lastCases with
  | last => rw [if_pos ((h _).mpr rfl),Fin.snoc_last]
  | cast j =>
    rw [if_neg fun hlast => (Fin.castSucc_lt_last j).ne' ((h _).mp hlast),Fin.snoc_castSucc]
    exact muxLoop_unique _ x init ((h _).mpr rfl) fun k hk =>
      Fin.castSucc_injective n ((h _).mp hk)

variable {s : RxChannels.State P} {i : RxChannels.Input P}
  {place : Fin P.N_CHANNELS → Place P.L2_AWIDTH_NOAL}

/-- A granted port has a datum to hand over. -/
theorem accepts_eq {q : Fin P.N_CHANNELS_RX} (hreq : s_req s i q=true)
    (hgrant : OneHot (s_grant s i) q) (k : Fin P.N_CHANNELS_RX) :
    accepts s i k=true ↔ s_sample_indata s=true ∧ k=q := by
  have hvalid : port i.ch_valid_i i.filter_ch_valid_i q=true := by
    unfold s_req at hreq
    cases q using Fin.lastCases with
    | last =>
      rw [Fin.snoc_last] at hreq
      rw [port_last,hreq]
    | cast j =>
      rw [Fin.snoc_castSucc] at hreq
      rw [port_castSucc]
      exact (Bool.and_eq_true_iff.mp hreq).1
  have hready : port (ch_ready_o s i) (filter_ch_ready_o s i) k=
      (s_grant s i k && s_sample_indata s) := by
    cases k using Fin.lastCases with
    | last => exact port_last _ _
    | cast j => exact port_castSucc _ _ j
  rw [accepts,hready,Bool.and_eq_true_iff,Bool.and_eq_true_iff,hgrant]
  constructor
  · rintro ⟨_,hk,hsample⟩
    exact ⟨hsample,hk⟩
  · rintro ⟨hsample,rfl⟩
    exact ⟨hvalid,rfl,hsample⟩

/-- A cycle that samples takes the granted datum. -/
theorem acceptedNow_one {q : Fin P.N_CHANNELS_RX} (hreq : s_req s i q=true)
    (hgrant : OneHot (s_grant s i) q) (hsample : s_sample_indata s=true) :
    acceptedNow s i place=[datum i place q] := by
  have hsel : ∀ k, accepts s i k=true ↔ k=q := by simp [accepts_eq hreq hgrant,hsample]
  rw [acceptedNow,filter_finRange hsel]
  rfl

/-- Nothing is taken without a grant. -/
theorem acceptedNow_none (h : ∀ k, (s_grant s i k && s_sample_indata s)=false) :
    acceptedNow s i place=[] := by
  have hsel : ∀ k ∈ List.finRange P.N_CHANNELS_RX,¬accepts s i k=true := by
    intro k _
    unfold accepts
    cases k using Fin.lastCases with
    | last =>
      rw [port_last,port_last,filter_ch_ready_o,h,Bool.and_false]
      exact Bool.false_ne_true
    | cast j =>
      rw [port_castSucc,port_castSucc,ch_ready_o,h,Bool.and_false]
      exact Bool.false_ne_true
  rw [acceptedNow,List.filter_eq_nil_iff.mpr hsel]
  rfl

end Grants

/-- The register stage holds a datum. -/
structure Held (s : RxChannels.State P) (place : Fin P.N_CHANNELS → Place P.L2_AWIDTH_NOAL)
    (d : Datum P) : Prop where
  any : s.r_anygrant=true
  grant : OneHot s.r_grant d.port
  data : s.r_data=d.data
  size : s.r_size=d.size
  channel : ∀ j, d.port=Fin.castSucc j → (s.u_rx_ch_ctrl j).r_en=true ∧ (place j).addr=d.addr ∧
    (place j).filter=d.filter
  last : d.port=Fin.last _ → s.r_addr=d.addr ∧ d.filter=false

/-- The data in the register stage. -/
inductive Stage (s : RxChannels.State P) (place : Fin P.N_CHANNELS → Place P.L2_AWIDTH_NOAL) :
    List (Datum P) → Prop
  | empty (hany : s.r_anygrant=false) (hgrant : ∀ k, s.r_grant k=false) : Stage s place []
  | held (d : Datum P) (h : Held s place d) : Stage s place [d]

section Stage

variable {s : RxChannels.State P} {i : RxChannels.Input P}
  {place : Fin P.N_CHANNELS → Place P.L2_AWIDTH_NOAL} {d : Datum P}

/-- Every channel has the place of its next datum. -/
def AllPlaced (s : RxChannels.State P) (place : Fin P.N_CHANNELS → Place P.L2_AWIDTH_NOAL) : Prop :=
  ∀ j, Placed (s.u_rx_ch_ctrl j) (place j)

theorem Held.addr (h : Held s place d) (hplaced : AllPlaced s place) : s_addr s=d.addr := by
  unfold s_addr
  rw [pick_eq h.grant]
  have hchannel := h.channel
  have hlast := h.last
  cases hport : d.port using Fin.lastCases with
  | last => rw [Fin.snoc_last,(hlast hport).1]
  | cast j =>
    obtain ⟨hen,haddr,_⟩ := hchannel j hport
    rw [Fin.snoc_castSucc,←haddr]
    exact (hplaced j hen).1

theorem Held.is_filter (h : Held s place d) (hplaced : AllPlaced s place) :
    s_is_filter s=d.filter := by
  unfold s_is_filter
  rw [pick_eq h.grant]
  have hchannel := h.channel
  have hlast := h.last
  cases hport : d.port using Fin.lastCases with
  | last => rw [Fin.snoc_last,(hlast hport).2]
  | cast j =>
    obtain ⟨hen,_,hfilter⟩ := hchannel j hport
    rw [Fin.snoc_castSucc,←hfilter]
    exact (hplaced j hen).2.2

theorem Held.grant_log (h : Held s place d) (hfilter : d.filter=true) :
    s_grant_log s=BitVec.ofNat _ d.port.val := by
  have hgrant := h.grant
  have hlast := h.last
  cases hport : d.port using Fin.lastCases with
  | last => exact absurd ((hlast hport).2.symm.trans hfilter) Bool.false_ne_true
  | cast j =>
    rw [hport] at hgrant
    exact muxLoop_unique _ _ 0 ((hgrant _).mpr rfl) fun k hk =>
      Fin.castSucc_injective _ ((hgrant _).mp hk)

theorem step_sampled (hsample : s_sample_indata s=true) :
    (RxChannels.step s i).r_data=s_data s i ∧ (RxChannels.step s i).r_size=s_size s i ∧
      (RxChannels.step s i).r_grant=s_grant s i ∧ (RxChannels.step s i).r_anygrant=s_anygrant s i ∧
      (RxChannels.step s i).r_addr=if s_grant s i (Fin.last _) then i.filter_ch_addr_i else s.r_addr := by
  simp only [RxChannels.step,hsample,if_true,Bool.true_and,and_self]

theorem step_held (hsample : s_sample_indata s=false) :
    (RxChannels.step s i).r_data=s.r_data ∧ (RxChannels.step s i).r_size=s.r_size ∧
      (RxChannels.step s i).r_grant=s.r_grant ∧ (RxChannels.step s i).r_anygrant=s.r_anygrant ∧
      (RxChannels.step s i).r_addr=s.r_addr := by
  simp only [RxChannels.step,hsample,Bool.false_eq_true,if_false,Bool.false_and,and_self]

/-- A datum that is accepted is in the stage next. -/
theorem held_datum {q : Fin P.N_CHANNELS_RX} (hreq : s_req s i q=true)
    (hgrant : OneHot (s_grant s i) q) (hany : s_anygrant s i=true)
    (hsample : s_sample_indata s=true) :
    Held (RxChannels.step s i) (places s i place) (datum i (places s i place) q) := by
  obtain ⟨hdata,hsize,hgrant',hany',haddr⟩ := step_sampled (i:=i) hsample
  refine ⟨hany'.trans hany,hgrant' ▸ hgrant,hdata.trans (pick_eq hgrant _ _ _),
    hsize.trans (pick_eq hgrant _ _ _),?_,?_⟩
  · rintro j rfl
    have hen : s_ch_en s i j=true := by
      rw [s_req,Fin.snoc_castSucc] at hreq
      exact (Bool.and_eq_true_iff.mp hreq).2
    exact ⟨step_r_en.trans hen,(port_castSucc (fun j => (places s i place j).addr) _ j).symm,
      (port_castSucc (fun j => (places s i place j).filter) _ j).symm⟩
  · rintro rfl
    rw [haddr,if_pos ((hgrant _).mpr rfl)]
    exact ⟨(port_last (fun j => (places s i place j).addr) _).symm,
      port_last (fun j => (places s i place j).filter) _⟩

/-- A datum that is not moved on keeps its place, unless its channel is cleared. -/
theorem Held.wait (h : Held s place d) (hsample : s_sample_indata s=false)
    (hclr : ∀ j, s.r_grant j.castSucc=true → i.cfg_clr_i j=false) :
    Held (RxChannels.step s i) (places s i place) d := by
  obtain ⟨hdata,hsize,hgrant,hany,haddr⟩ := step_held (i:=i) hsample
  refine ⟨hany.trans h.any,hgrant ▸ h.grant,hdata.trans h.data,hsize.trans h.size,?_,?_⟩
  · intro j hport
    obtain ⟨hen,hplace,hfilter⟩ := h.channel j hport
    have hclear := hclr j ((h.grant _).mpr hport.symm)
    obtain ⟨hen',hkept⟩ := stalled (i:=ctrlInput s i j) (p:=place j) hen hclear hsample
    exact ⟨hen',(congrArg Place.addr hkept).trans hplace,(congrArg Place.filter hkept).trans hfilter⟩
  · exact fun hport => ⟨haddr.trans (h.last hport).1,(h.last hport).2⟩

/-- One cycle of the stage: it takes the datum of the cycle, or keeps its own. -/
theorem Stage.next (hfits : Arbiter.Fits P.LOG_N_CHANNELS P.N_CHANNELS_RX) (hs : Sound s.u_arbiter)
    {stage : List (Datum P)} (h : Stage s place stage)
    (hclr : s_sample_indata s=false → ∀ j, s.r_grant j.castSucc=true → i.cfg_clr_i j=false) :
    ∃ stage',Stage (RxChannels.step s i) (places s i place) stage' ∧
      (s_sample_indata s=true → stage'=acceptedNow s i (places s i place)) ∧
      (s_sample_indata s=false → acceptedNow s i (places s i place)=[] ∧ stage'=stage) := by
  cases hsample : s_sample_indata s with
  | true =>
    obtain ⟨_,_,hgrant',hany',_⟩ := step_sampled (i:=i) hsample
    rcases (Arbiter.grants_of_sound hfits hs : Arbiter.Grants (s_req s i) _ _) with
      ⟨_,hgrant,hany⟩ | ⟨q,hreq,hgrant,hany⟩
    · have hgrant : ∀ k, s_grant s i k=false := hgrant
      refine ⟨[],.empty (hany'.trans hany) (fun k => hgrant' ▸ hgrant k),fun _ => ?_,nofun⟩
      exact (acceptedNow_none fun k => by rw [hgrant k,Bool.false_and]).symm
    · refine ⟨_,.held _ (held_datum hreq hgrant hany hsample),fun _ => ?_,nofun⟩
      exact (acceptedNow_one hreq hgrant hsample).symm
  | false =>
    obtain ⟨_,_,hgrant,hany,_⟩ := step_held (i:=i) hsample
    have hnone : acceptedNow s i (places s i place)=[] :=
      acceptedNow_none fun k => by rw [hsample,Bool.and_false]
    rcases h with ⟨hany₀,hgrant₀⟩ | ⟨d,hd⟩
    · exact ⟨[],.empty (hany.trans hany₀) (fun k => hgrant ▸ hgrant₀ k),nofun,fun _ => ⟨hnone,rfl⟩⟩
    · exact ⟨[d],.held d (hd.wait hsample (hclr hsample)),nofun,fun _ => ⟨hnone,rfl⟩⟩

end Stage

section Lines

/-- The write of an entry of the memory's queue. -/
def writeOf (x : FifoIn P) : Write P :=
  let be := s_l2_be P.L2_DATA_WIDTH x.size (x.addr.setWidth _)
  ⟨x.addr.extractLsb' P.L2_DATA_WIDTH.ALIGN_BITS P.L2_ADDR_WIDTH,be,
    L2Lanes.l2_wdata_o P.L2_DATA_WIDTH be x.data⟩

/-- The word of an entry of the filter's queue. -/
def wordOf (x : FilterFifoIn P) : Word P := ⟨x.grant_log,x.data⟩

/-- The write of a datum. -/
def Datum.write (d : Datum P) : Write P := writeOf ⟨d.size,d.addr.setWidth _,d.data⟩

/-- The word of a datum. -/
def Datum.word (d : Datum P) : Word P := ⟨BitVec.ofNat _ d.port.val,d.data⟩

theorem writes_write {d : Datum P}
    (h : Aligned d.size (d.addr.setWidth P.L2_DATA_WIDTH.ALIGN_BITS)) : Writes d d.write := by
  have hlsb : ((d.addr.setWidth P.L2_SIZE).setWidth P.L2_DATA_WIDTH.ALIGN_BITS)=
      d.addr.setWidth P.L2_DATA_WIDTH.ALIGN_BITS :=
    BitVec.setWidth_setWidth_of_le _ (Nat.le_add_left _ _)
  refine ⟨rfl,?_⟩
  have hcarries := carries_of_aligned P.L2_DATA_WIDTH d.size _ d.data h
  rw [←hlsb] at hcarries ⊢
  exact hcarries

theorem filters_word (d : Datum P) : Filters d d.word := by
  refine ⟨?_,rfl⟩
  have hlt : d.port.val < 2^P.FILTER_ID_WIDTH :=
    Nat.lt_of_lt_of_le d.port.isLt (Nat.le_pow_clog (by decide) _)
  exact (BitVec.toNat_ofNat _ _).trans (Nat.mod_eq_of_lt hlt)

section Moves

variable {α γ : Type*} {s : RxChannels.State P} {place : Fin P.N_CHANNELS → Place P.L2_AWIDTH_NOAL}
  {fifo : IoFifo.State 4 α} {out : α → γ} {entry : Datum P → γ} {stage new stage' : List (Datum P)}
  {x : IoFifo.Input α}

/-- A queue takes the data of its destination out of the stage, where the stage moves on with
every datum that it takes. -/
theorem Stage.moves (h : Stage s place stage) (b : Bool)
    (hput : ∀ d, stage=[d] → x.valid_i=(d.filter==b)) (hidle : stage=[] → x.valid_i=false)
    (hentry : ∀ d, stage=[d] → d.filter=b → entry d=out x.data_i)
    (hclean : x.valid_i=true → IoFifo.ready_o fifo=true → s_sample_indata s=true)
    (hready : s_sample_indata s=true → IoFifo.ready_o fifo=true)
    (hgo : s_sample_indata s=true → stage'=new)
    (hstay : s_sample_indata s=false → new=[] ∧ stage'=stage) :
    IoFifo.Moves fifo x out entry (bound b stage) (bound b new) (bound b stage') := by
  constructor
  · intro htake
    obtain ⟨hvalid,hroom⟩ := Bool.and_eq_true_iff.mp htake
    rw [hgo (hclean hvalid hroom)]
    rcases h with ⟨_,_⟩ | ⟨d,_⟩
    · exact absurd (hvalid.symm.trans (hidle rfl)) nofun
    · have hbound : (d.filter==b)=true := (hput d rfl).symm.trans hvalid
      refine ⟨?_,rfl⟩
      rw [bound_singleton,if_pos hbound,←hentry d rfl (beq_iff_eq.mp hbound)]
      rfl
  · intro hno
    cases hsample : s_sample_indata s with
    | false =>
      obtain ⟨rfl,rfl⟩ := hstay hsample
      exact (List.append_nil _).symm
    | true =>
      have hvalid : x.valid_i=false := by rwa [hready hsample,Bool.and_true] at hno
      rw [hgo hsample]
      rcases h with ⟨_,_⟩ | ⟨d,_⟩
      · rfl
      · have hbound : ¬(d.filter==b)=true := by
          rw [←hput d rfl,hvalid]
          exact Bool.false_ne_true
        rw [bound_singleton,if_neg hbound]
        rfl

end Moves

end Lines

/-- The registers follow the ledger. -/
structure Inv (w : Watched P) : Prop where
  sound : Sound w.1.u_arbiter
  placed : AllPlaced w.1 w.2.place
  lines : ∃ stage,Stage w.1 w.2.place stage ∧
    IoFifo.Line w.1.u_fifo writeOf Datum.write (bound false w.2.accepted) w.2.written
      (bound false stage) ∧
    IoFifo.Line w.1.u_filter_fifo wordOf Datum.word (bound true w.2.accepted) w.2.filtered
      (bound true stage)
  aligned : ∀ d ∈ bound false w.2.accepted,
    Aligned d.size (d.addr.setWidth P.L2_DATA_WIDTH.ALIGN_BITS)

theorem Inv.start : Inv (start : Watched P) where
  sound := sound_reset
  placed := fun _ hen => absurd hen Bool.false_ne_true
  lines := ⟨[],.empty rfl fun _ => rfl,IoFifo.line_reset (by decide),IoFifo.line_reset (by decide)⟩
  aligned := fun _ hd => absurd hd List.not_mem_nil

theorem Inv.step (hfits : Arbiter.Fits P.LOG_N_CHANNELS P.N_CHANNELS_RX) (hT : 2 < P.TRANS_SIZE)
    {w : Watched P} {i : RxChannels.Input P} (h : Inv w) (hclean : Clean w i) : Inv (watch w i) := by
  rcases w with ⟨s,o⟩
  obtain ⟨stage,hstage,hl2,hfilter⟩ := h.lines
  obtain ⟨stage',hstage',hgo,hstay⟩ := hstage.next (i:=i) hfits h.sound fun hsample j hgrant => by
    cases hclr : i.cfg_clr_i j with
    | false => rfl
    | true => exact absurd ((hclean.kept j hgrant hclr).symm.trans hsample) nofun
  have hput : ∀ d, stage=[d] → s.r_anygrant=true ∧ s_is_filter s=d.filter ∧ s_addr s=d.addr ∧
      s.r_size=d.size ∧ s.r_data=d.data ∧ (d.filter=true → s_grant_log s=BitVec.ofNat _ d.port.val) := by
    rintro d rfl
    rcases hstage with _ | ⟨_,hd⟩
    exact ⟨hd.any,hd.is_filter h.placed,hd.addr h.placed,hd.size,hd.data,hd.grant_log⟩
  have hidle : stage=[] → s.r_anygrant=false := by
    rintro rfl
    rcases hstage with ⟨hany,_⟩
    exact hany
  have hboth := @Bool.and_eq_true_iff (s_sample_indata_filter s) (s_sample_indata_l2 s)
  refine ⟨Arbiter.sound_step hfits h.sound _,fun j => (h.placed j).step hT,⟨stage',hstage',?_,?_⟩,?_⟩
  · have hmove : IoFifo.Moves s.u_fifo ⟨false,i.l2_gnt_i,s_push_l2 s,s_fifoin s⟩ writeOf Datum.write
        _ _ (bound false stage') := hstage.moves false
      (fun d hd => by simp [s_push_l2,(hput d hd).1,(hput d hd).2.1])
      (fun hnone => by simp [s_push_l2,hidle hnone])
      (fun d hd _ => by
        obtain ⟨_,_,haddr,hsize,hdata,_⟩ := hput d hd
        rw [Datum.write,s_fifoin,haddr,hsize,hdata])
      (fun hpush hroom => hboth.mpr ⟨hclean.l2 hpush hroom,hroom⟩)
      (fun hsample => (hboth.mp hsample).2) hgo hstay
    have hline := hl2.step rfl hmove
    rw [←bound_append] at hline
    exact hline
  · have hmove : IoFifo.Moves s.u_filter_fifo ⟨false,i.filter_ready_i,s_push_filter s,s_fifoin_filter s⟩
        wordOf Datum.word _ _ (bound true stage') := hstage.moves true
      (fun d hd => by simp [s_push_filter,(hput d hd).1,(hput d hd).2.1])
      (fun hnone => by simp [s_push_filter,hidle hnone])
      (fun d hd hbound => by
        obtain ⟨_,_,_,_,hdata,hlog⟩ := hput d hd
        rw [Datum.word,wordOf,s_fifoin_filter,hlog hbound,hdata])
      (fun hpush hroom => hboth.mpr ⟨hroom,hclean.filter hpush hroom⟩)
      (fun hsample => (hboth.mp hsample).1) hgo hstay
    have hline := hfilter.step rfl hmove
    rw [←bound_append] at hline
    exact hline
  · intro d hd
    have hall : d ∈ bound false (o.accepted++acceptedNow s i (places s i o.place)) := hd
    rw [bound_append] at hall
    rcases List.mem_append.mp hall with hold | hnew
    · exact h.aligned d hold
    · obtain ⟨hmem,hbound⟩ := List.mem_filter.mp hnew
      exact hclean.aligned d hmem (beq_iff_eq.mp hbound)

section Delivers

variable {w : Watched P} {i : RxChannels.Input P}

/-- The stage puts its datum where it belongs. -/
def s_push (s : RxChannels.State P) (toFilter : Bool) : Bool :=
  if toFilter then s_push_filter s else s_push_l2 s

theorem s_push_eq (s : RxChannels.State P) (b : Bool) :
    s_push s b=(s.r_anygrant && (s_is_filter s==b)) := by
  cases b <;> simp [s_push,s_push_filter,s_push_l2]

/-- The stage holds one datum at most, and puts it where it belongs. -/
theorem Stage.puts {s : RxChannels.State P} {place : Fin P.N_CHANNELS → Place P.L2_AWIDTH_NOAL}
    {stage : List (Datum P)} (h : Stage s place stage) (hplaced : AllPlaced s place) (b : Bool) :
    (bound b stage).length ≤ 1 ∧
      (bound b stage≠[] → s_push s b=true) := by
  rw [s_push_eq]
  rcases h with ⟨_,_⟩ | ⟨d,hd⟩
  · exact ⟨Nat.zero_le _,fun hne => absurd rfl hne⟩
  · rw [bound_singleton,hd.any,hd.is_filter hplaced,Bool.true_and]
    split_ifs with hbound
    · exact ⟨le_rfl,fun _ => hbound⟩
    · exact ⟨Nat.zero_le _,fun hne => absurd rfl hne⟩

/-- A queue and the stage in front of it pass the data on. -/
theorem passes_of_line {α γ : Type*} {fifo : IoFifo.State 4 α} {out : α → γ} {entry : Datum P → γ}
    {data stage : List (Datum P)} {sent : List γ} (h : IoFifo.Line fifo out entry data sent stage)
    {R : Datum P → γ → Prop} (hR : ∀ d ∈ data, R d (entry d)) (hone : stage.length ≤ 1) {puts : Bool}
    (hputs : stage≠[] → puts=true) : Passes data sent R (IoFifo.valid_o fifo) puts := by
  rcases h with ⟨done,queue,l,hstores,hmap,rfl,rfl⟩
  have hlength := congrArg List.length hmap
  rw [List.length_map,List.length_map] at hlength
  refine ⟨done,queue,stage,rfl,?_,hlength ▸ hstores.bound,hone,?_,hputs⟩
  · exact List.forall₂_map_right_iff.mpr (List.forall₂_same.mpr fun d hd =>
      hR d (List.mem_append_left _ hd))
  · rw [hstores.valid_o_iff,←List.length_pos_iff,hlength,List.length_pos_iff]

theorem Inv.passes (h : Inv w) :
    Passes (bound false w.2.accepted) w.2.written Writes (l2_req_o w.1) (s_push_l2 w.1) ∧
      Passes (bound true w.2.accepted) w.2.filtered Filters (filter_valid_o w.1)
        (s_push_filter w.1) := by
  obtain ⟨stage,hstage,hl2,hfilter⟩ := h.lines
  obtain ⟨hone,hputs⟩ := hstage.puts h.placed false
  obtain ⟨hone',hputs'⟩ := hstage.puts h.placed true
  exact ⟨passes_of_line hl2 (fun d hd => writes_write (h.aligned d hd)) hone hputs,
    passes_of_line hfilter (fun d _ => filters_word d) hone' hputs'⟩

/-- Accepted data stay accepted. -/
theorem bound_watch (b : Bool) (w : Watched P) (i : RxChannels.Input P) :
    bound b (watch w i).2.accepted=
      bound b w.2.accepted++bound b (acceptedNow w.1 i (places w.1 i w.2.place)) :=
  bound_append b _ _

/-- A line that goes down whenever its destination takes what it is offered is used up. -/
theorem leave_of_line {γ : Type*} (hfits : Arbiter.Fits P.LOG_N_CHANNELS P.N_CHANNELS_RX)
    (hT : 2 < P.TRANS_SIZE) (h : Inv w) (b : Bool) {sent : Watched P → List γ}
    {R : Datum P → γ → Prop} {takes : RxChannels.Input P → Bool} (μ : ℕ → Watched P → ℕ)
    (hzero : ∀ n w, μ n w=0 → n ≤ (sent w).length)
    (hpasses : ∀ w, Inv w → ∃ done rest,bound b w.2.accepted=done++rest ∧ List.Forall₂ R done (sent w))
    (hle : ∀ w i n, Inv w → n ≤ (bound b w.2.accepted).length → μ n (watch w i) ≤ μ n w ∧
      (takes i=true → 0 < μ n w → μ n (watch w i) < μ n w))
    (hmost : μ (bound b w.2.accepted).length w ≤ 5) :
    Leave w (bound b w.2.accepted) sent R takes := by
  intro is hclean hcount
  have hkeep : ∀ v i,Inv v ∧ bound b w.2.accepted <+: bound b v.2.accepted → Clean v i →
      Inv (watch v i) ∧ bound b w.2.accepted <+: bound b (watch v i).2.accepted := by
    rintro v i ⟨hv,hgrown⟩ hC
    rw [bound_watch]
    exact ⟨hv.step hfits hT hC,hgrown.trans (List.prefix_append _ _)⟩
  obtain ⟨⟨hlast,hgrown⟩,hleft⟩ := measure_after_of_meets (μ (bound b w.2.accepted).length) hkeep
    (fun v i hv _ => (hle v i _ hv.1 hv.2.length_le).1)
    (fun v i hv _ => (hle v i _ hv.1 hv.2.length_le).2) ⟨h,List.prefix_rfl⟩ hclean
  obtain ⟨done,rest,hall,hsent⟩ := hpasses _ hlast
  have hlength := hzero _ _ (Nat.le_zero.mp (hleft.trans (Nat.sub_eq_zero_of_le (hmost.trans hcount)).le))
  rw [←hsent.length_eq] at hlength
  rw [hall] at hgrown
  rcases List.prefix_of_prefix_length_le hgrown (List.prefix_append done rest) hlength with ⟨later,hlater⟩
  exact ⟨later,hlater ▸ hsent⟩

theorem Inv.delivers (hfits : Arbiter.Fits P.LOG_N_CHANNELS P.N_CHANNELS_RX)
    (hT : 2 < P.TRANS_SIZE) (h : Inv w) : Delivers w where
  l2 := h.passes.1
  filter := h.passes.2
  l2_leave := by
    refine leave_of_line hfits hT h false (fun n w => IoFifo.left n w.1.u_fifo w.2.written) ?_ ?_ ?_ ?_
    · exact fun n w => IoFifo.le_of_left
    · intro w h
      obtain ⟨done,queue,stage,hdata,hsent,_⟩ := h.passes.1
      exact ⟨done,_,hdata,hsent⟩
    · intro w i n h hn
      obtain ⟨stage,hstage,hl2,_⟩ := h.lines
      obtain ⟨hone,hputs⟩ := hstage.puts h.placed false
      exact hl2.left_step rfl hone hputs (by decide) hn
    · obtain ⟨stage,hstage,hl2,_⟩ := h.lines
      exact hl2.left_le (hstage.puts h.placed false).1 (by decide) le_rfl
  filter_leave := by
    refine leave_of_line hfits hT h true (fun n w => IoFifo.left n w.1.u_filter_fifo w.2.filtered)
      ?_ ?_ ?_ ?_
    · exact fun n w => IoFifo.le_of_left
    · intro w h
      obtain ⟨done,queue,stage,hdata,hsent,_⟩ := h.passes.2
      exact ⟨done,_,hdata,hsent⟩
    · intro w i n h hn
      obtain ⟨stage,hstage,_,hfilter⟩ := h.lines
      obtain ⟨hone,hputs⟩ := hstage.puts h.placed true
      exact hfilter.left_step rfl hone hputs (by decide) hn
    · obtain ⟨stage,hstage,_,hfilter⟩ := h.lines
      exact hfilter.left_le (hstage.puts h.placed true).1 (by decide) le_rfl

/-- In every run whose cycles keep the register stage safe, each accepted datum leaves once. -/
theorem delivered_of_clean (hN : P.N_CHANNELS_RX < 2^25) (hT : 2 < P.TRANS_SIZE)
    (is : List (RxChannels.Input P)) (h : Meets watch Clean (start : Watched P) is) :
    Delivers (after watch start is) :=
  have hfits : Arbiter.Fits P.LOG_N_CHANNELS P.N_CHANNELS_RX :=
    Arbiter.fits_log2 (Nat.succ_pos _) hN
  (after_invariant_of_meets (fun _ _ hw hC => hw.step hfits hT hC) Inv.start h).delivers hfits hT

end Delivers

section Example

/-- Two channels in front of a memory of 32-bit words. -/
def exampleParams : Params := ⟨17,19,.w32,2,16⟩

/-- A cycle in which the channels `valid` offer data. The first channel writes words, the second
one has bytes for the filter. -/
def exampleInput (en valid : List ℕ) (l2_gnt_i : Bool) : RxChannels.Input exampleParams where
  l2_gnt_i := l2_gnt_i
  filter_ready_i := true
  filter_ch_valid_i := false
  filter_ch_addr_i := 0
  filter_ch_data_i := 0
  filter_ch_datasize_i := 0
  ch_valid_i := fun j => valid.contains j.val
  ch_data_i := fun j => if j.val=0 then 0x11223344 else 0x55
  ch_datasize_i := fun j => if j.val=0 then 2 else 0
  cfg_startaddr_i := fun _ => 0x100
  cfg_size_i := fun _ => 64
  cfg_continuous_i := fun _ => false
  cfg_en_i := fun j => en.contains j.val
  cfg_filter_i := fun j => j.val==1
  cfg_clr_i := fun _ => false

/-- Four words fill the memory's queue, and a byte for the filter is behind them. -/
def fullInputs : List (RxChannels.Input exampleParams) :=
  [exampleInput [0,1] [] false]++List.replicate 4 (exampleInput [] [0] false)++
    [exampleInput [] [1] false]++List.replicate 4 (exampleInput [] [] false)

/-- While the words wait, the byte enters the filter's queue in every cycle. -/
theorem not_delivers : ¬Delivers (after watch (start : Watched exampleParams) fullInputs) := by
  intro h
  obtain ⟨done,queue,stage,hdata,hsent,_⟩ := h.filter
  have haccepted : (bound true (after watch (start : Watched exampleParams) fullInputs).2.accepted).length=1 := by
    decide +kernel
  have hfiltered : (after watch (start : Watched exampleParams) fullInputs).2.filtered.length=3 := by
    decide +kernel
  have hlength := hsent.length_eq
  rw [hdata,List.length_append] at haccepted
  omega

/-- Both channels offer data and the memory waits for some cycles. -/
def exampleInputs : List (RxChannels.Input exampleParams) :=
  [exampleInput [0,1] [] false]++List.replicate 4 (exampleInput [] [0,1] false)++
    List.replicate 4 (exampleInput [] [1] true)

/-- The rule for that run: two words are written and four bytes filtered. -/
theorem delivered_of_clean_example :
    (after watch (start : Watched exampleParams) exampleInputs).2.written.length=2 ∧
      (after watch (start : Watched exampleParams) exampleInputs).2.filtered.length=4 ∧
      Delivers (after watch (start : Watched exampleParams) exampleInputs) :=
  ⟨by decide +kernel,by decide +kernel,
    delivered_of_clean (by decide) (by decide) exampleInputs (by decide +kernel)⟩

end Example

end Pulpissimo.Udma.RxDelivery
