import Pulpissimo.Interco.Lint2Apb

/-!
# Stores over the bridge to the peripheral bus

`lint_2_apb` in front of a slave that updates the word at the address in the access phase of a
write. The bus has no byte lanes, so that the bridge leaves the byte enables out and a store
changes the whole word. Every granted request is one transfer, with the select and the enable
together from its first cycle to its last one.
-/

namespace Pulpissimo.Interco.Lint2Apb

open Pulpissimo.Machine

variable {ADDR_WIDTH DATA_WIDTH AUX_WIDTH ID_WIDTH : ℕ}

/-- A transfer on the bus. -/
structure Transfer (ADDR_WIDTH DATA_WIDTH : ℕ) where
  paddr : BitVec ADDR_WIDTH
  pwrite : Bool
  pwdata : BitVec DATA_WIDTH
deriving DecidableEq

/-- The words of the slave behind a transfer. -/
def Transfer.put (t : Transfer ADDR_WIDTH DATA_WIDTH) (words : BitVec ADDR_WIDTH → BitVec DATA_WIDTH) :
    BitVec ADDR_WIDTH → BitVec DATA_WIDTH :=
  fun a => if t.pwrite && a==t.paddr then t.pwdata else words a

/-- The transfer of a request. -/
def Request.transfer (r : Request ADDR_WIDTH DATA_WIDTH AUX_WIDTH ID_WIDTH) :
    Transfer ADDR_WIDTH DATA_WIDTH :=
  ⟨r.data_add_i,!r.data_wen_i,r.data_wdata_i⟩

/-- A word is the old one with the enabled bytes replaced. -/
def Merged (be : BitVec (DATA_WIDTH/8)) (old wdata new : BitVec DATA_WIDTH) : Prop :=
  ∀ k < DATA_WIDTH,new.getLsbD k=if be.getLsbD (k/8) then wdata.getLsbD k else old.getLsbD k

instance (be : BitVec (DATA_WIDTH/8)) (old wdata new : BitVec DATA_WIDTH) :
    Decidable (Merged be old wdata new) := inferInstanceAs (Decidable (∀ k < _,_))

/-- Registers of the bridge, words of the slave, and what happened on both sides of the bridge. -/
structure Store (ADDR_WIDTH DATA_WIDTH AUX_WIDTH ID_WIDTH : ℕ) where
  bridge : State ADDR_WIDTH DATA_WIDTH AUX_WIDTH ID_WIDTH
  words : BitVec ADDR_WIDTH → BitVec DATA_WIDTH
  granted : List (Request ADDR_WIDTH DATA_WIDTH AUX_WIDTH ID_WIDTH)
  transfers : List (Transfer ADDR_WIDTH DATA_WIDTH)
  /-- Numbers of the requests that were answered. -/
  answered : List (BitVec ID_WIDTH)

section Store

variable (s : State ADDR_WIDTH DATA_WIDTH AUX_WIDTH ID_WIDTH)

/-- What is on the bus. -/
def onBus : Transfer ADDR_WIDTH DATA_WIDTH := ⟨s.master_PADDR_Q,s.master_PWRITE_Q,s.master_PWDATA_Q⟩

/-- The last cycle of an access phase. -/
def completes (a : Answer DATA_WIDTH) : Bool :=
  master_PSEL s && master_PENABLE s && a.master_PREADY

/-- One clock edge of the bridge and of the slave behind it. -/
def Store.next (w : Store ADDR_WIDTH DATA_WIDTH AUX_WIDTH ID_WIDTH)
    (i : Request ADDR_WIDTH DATA_WIDTH AUX_WIDTH ID_WIDTH×Answer DATA_WIDTH) :
    Store ADDR_WIDTH DATA_WIDTH AUX_WIDTH ID_WIDTH where
  bridge := step w.bridge i.1 i.2
  words := if completes w.bridge i.2 then (onBus w.bridge).put w.words else w.words
  granted := w.granted++if i.1.data_req_i && data_gnt_o w.bridge then [i.1] else []
  transfers := w.transfers++if completes w.bridge i.2 then [onBus w.bridge] else []
  answered := w.answered++if w.bridge.data_r_valid_o then [w.bridge.data_r_ID_o] else []

def Store.start (words : BitVec ADDR_WIDTH → BitVec DATA_WIDTH) :
    Store ADDR_WIDTH DATA_WIDTH AUX_WIDTH ID_WIDTH :=
  ⟨reset,words,[],[],[]⟩

end Store

/-- Every granted request is one transfer and one answer. -/
structure Bridges (words : BitVec ADDR_WIDTH → BitVec DATA_WIDTH)
    (w : Store ADDR_WIDTH DATA_WIDTH AUX_WIDTH ID_WIDTH) : Prop where
  /-- The transfers are those of the requests, but for the last one, which is on the bus. -/
  transfers : w.granted.map Request.transfer=
    w.transfers++if w.bridge.CS=.WAIT_PREADY then [onBus w.bridge] else []
  /-- The answers are those of the transfers, one cycle behind them. -/
  answered : w.answered++(if w.bridge.data_r_valid_o then [w.bridge.data_r_ID_o] else [])=
    (w.granted.map Request.data_ID_i).take w.transfers.length
  /-- A request is granted when nothing is on the bus and nothing is to be answered. -/
  granted : data_gnt_o w.bridge=true ↔
    w.granted.length=w.transfers.length ∧ w.answered.length=w.transfers.length
  /-- The words are those that the transfers leave. -/
  words : w.words=w.transfers.foldl (fun words t => t.put words) words
  /-- Select and enable are up together. -/
  phase : master_PSEL w.bridge=master_PENABLE w.bridge
  /-- A granted request is on the bus in the next cycle. -/
  begins : ∀ r a,r.data_req_i=true → data_gnt_o w.bridge=true →
    master_PSEL (step w.bridge r a)=true ∧ onBus (step w.bridge r a)=r.transfer
  /-- What is on the bus stays until the bus is ready. -/
  waits : ∀ r a,master_PSEL w.bridge=true → a.master_PREADY=false →
    master_PSEL (step w.bridge r a)=true ∧ onBus (step w.bridge r a)=onBus w.bridge
  /-- Then it leaves the bus. -/
  ends : ∀ r a,master_PSEL w.bridge=true → a.master_PREADY=true →
    master_PSEL (step w.bridge r a)=false

section Words

variable {words : BitVec ADDR_WIDTH → BitVec DATA_WIDTH}
  {r : Request ADDR_WIDTH DATA_WIDTH AUX_WIDTH ID_WIDTH}

/-- A store leaves the whole word of the request. -/
theorem put_store (hwrite : r.data_wen_i=false) : r.transfer.put words r.data_add_i=r.data_wdata_i := by
  unfold Request.transfer Transfer.put
  dsimp only
  rw [hwrite,beq_self_eq_true]
  rfl

/-- The whole word is the merged one where the disabled bytes agree already. -/
theorem merged_iff {be : BitVec (DATA_WIDTH/8)} {old wdata : BitVec DATA_WIDTH} :
    Merged be old wdata wdata ↔
      ∀ k < DATA_WIDTH,be.getLsbD (k/8)=false → wdata.getLsbD k=old.getLsbD k := by
  refine forall₂_congr fun k _ => ?_
  cases be.getLsbD (k/8) with
  | true => exact iff_of_true rfl (fun h => absurd h.symm Bool.false_ne_true)
  | false => exact ⟨fun h _ => h,fun h => h rfl⟩

end Words

/-- Requests, transfers and answers keep together. -/
structure Serves (words : BitVec ADDR_WIDTH → BitVec DATA_WIDTH)
    (w : Store ADDR_WIDTH DATA_WIDTH AUX_WIDTH ID_WIDTH) : Prop where
  transfers : w.granted.map Request.transfer=
    w.transfers++if w.bridge.CS=.WAIT_PREADY then [onBus w.bridge] else []
  /-- The number of the last request stays until it is answered. -/
  number : w.bridge.CS≠.IDLE → ∃ done r,w.granted=done++[r] ∧ w.bridge.data_r_ID_o=r.data_ID_i
  valid : w.bridge.data_r_valid_o=true ↔ w.bridge.CS=.DISPATCH_RDATA
  answered : w.answered++(if w.bridge.data_r_valid_o then [w.bridge.data_r_ID_o] else [])=
    (w.granted.map Request.data_ID_i).take w.transfers.length
  words : w.words=w.transfers.foldl (fun words t => t.put words) words

section Serves

variable {words : BitVec ADDR_WIDTH → BitVec DATA_WIDTH}
  {w : Store ADDR_WIDTH DATA_WIDTH AUX_WIDTH ID_WIDTH}
  {i : Request ADDR_WIDTH DATA_WIDTH AUX_WIDTH ID_WIDTH×Answer DATA_WIDTH}

theorem serves_start :
    Serves words (Store.start words : Store ADDR_WIDTH DATA_WIDTH AUX_WIDTH ID_WIDTH) where
  transfers := rfl
  number := fun h => absurd rfl h
  valid := iff_of_false Bool.false_ne_true Phase.noConfusion
  answered := rfl
  words := rfl

/-- An idle bridge takes a request. -/
theorem Serves.next_idle (h : Serves words w) (hstate : w.bridge.CS=.IDLE) :
    Serves words (w.next i) := by
  have hquiet : w.bridge.data_r_valid_o=false := by
    rw [←Bool.not_eq_true,h.valid,hstate]
    exact Phase.noConfusion
  have htransfers := h.transfers
  have hanswered := h.answered
  have hlength : w.granted.length=w.transfers.length := by
    simpa [hstate] using congrArg List.length htransfers
  rw [hstate,if_neg Phase.noConfusion,List.append_nil] at htransfers
  rw [hquiet,if_neg Bool.false_ne_true,List.append_nil,←hlength] at hanswered
  cases hreq : i.1.data_req_i with
  | false =>
    constructor <;> simp [Store.next,step,NS,completes,master_PSEL,data_gnt_o,data_r_valid_NS,hstate,
      hreq,hquiet,htransfers,hanswered,hlength,h.words]
  | true =>
    constructor <;> simp [Store.next,step,NS,completes,master_PSEL,data_gnt_o,data_r_valid_NS,
      sample_req_info,onBus,Request.transfer,hstate,hreq,hquiet,htransfers,hanswered,hlength,h.words]

/-- A waiting bridge ends its transfer when the bus is ready. -/
theorem Serves.next_wait (h : Serves words w) (hstate : w.bridge.CS=.WAIT_PREADY) :
    Serves words (w.next i) := by
  have hquiet : w.bridge.data_r_valid_o=false := by
    rw [←Bool.not_eq_true,h.valid,hstate]
    exact Phase.noConfusion
  have htransfers := h.transfers
  have hanswered := h.answered
  rcases h.number (hstate ▸ Phase.noConfusion) with ⟨done,r,hdone,hnumber⟩
  have hlength : w.transfers.length=done.length := by
    simpa [hstate,hdone] using (congrArg List.length htransfers).symm
  have hkept : (w.next i).granted=done++[r] ∧ (w.next i).bridge.data_r_ID_o=r.data_ID_i := by
    simp [Store.next,step,data_gnt_o,sample_req_info,hstate,hdone,hnumber]
  rw [hstate,if_pos rfl] at htransfers
  rw [hquiet,if_neg Bool.false_ne_true,List.append_nil] at hanswered
  cases hready : i.2.master_PREADY with
  | false =>
    refine ⟨?_,fun _ => ⟨done,r,hkept⟩,?_,?_,?_⟩ <;>
      simp [Store.next,step,NS,completes,data_gnt_o,data_r_valid_NS,sample_req_info,onBus,hstate,
        hready,hquiet,htransfers,hanswered,h.words]
  | true =>
    have hends : (w.next i).transfers=w.transfers++[onBus w.bridge] ∧
        (w.next i).bridge.CS=.DISPATCH_RDATA ∧ (w.next i).bridge.data_r_valid_o=true ∧
        (w.next i).answered=w.answered ∧ (w.next i).words=(onBus w.bridge).put w.words := by
      simp [Store.next,step,NS,completes,master_PSEL,master_PENABLE,data_r_valid_NS,hstate,hready,
        hquiet]
    refine ⟨?_,fun _ => ⟨done,r,hkept⟩,?_,?_,?_⟩
    · rw [hkept.1,hends.1,hends.2.1,if_neg Phase.noConfusion,List.append_nil,←htransfers,hdone]
    · exact iff_of_true hends.2.2.1 hends.2.1
    · rw [hends.2.2.1,if_pos rfl,hends.2.2.2.1,hkept.1,hkept.2,hanswered,hdone,hends.1,
        List.length_append,hlength,List.map_append]
      simp
    · rw [hends.2.2.2.2,hends.1,List.foldl_append,←h.words]
      rfl

/-- An answer is given for one cycle. -/
theorem Serves.next_dispatch (h : Serves words w) (hstate : w.bridge.CS=.DISPATCH_RDATA) :
    Serves words (w.next i) := by
  have hvalid := h.valid.mpr hstate
  have htransfers := h.transfers
  have hanswered := h.answered
  rw [hstate,if_neg Phase.noConfusion,List.append_nil] at htransfers
  rw [hvalid,if_pos rfl] at hanswered
  constructor <;> simp [Store.next,step,NS,completes,master_PSEL,data_gnt_o,data_r_valid_NS,hstate,
    hvalid,htransfers,hanswered,h.words]

/-- One clock edge, by the state of the bridge. -/
theorem Serves.next (h : Serves words w) : Serves words (w.next i) := by
  cases hstate : w.bridge.CS with
  | IDLE => exact h.next_idle hstate
  | WAIT_PREADY => exact h.next_wait hstate
  | DISPATCH_RDATA => exact h.next_dispatch hstate

theorem Serves.bridges (h : Serves words w) : Bridges words w := by
  have htransfers := congrArg List.length h.transfers
  have hanswered := congrArg List.length h.answered
  have hvalid := h.valid
  refine ⟨h.transfers,h.answered,?_,h.words,rfl,?_,?_,?_⟩
  · rw [List.length_map,List.length_append] at htransfers
    rw [List.length_append,List.length_take,List.length_map] at hanswered
    cases hstate : w.bridge.CS with
    | IDLE =>
      rw [hstate] at hvalid htransfers
      rw [Bool.eq_false_iff.mpr (mt hvalid.mp Phase.noConfusion)] at hanswered
      have hgnt : data_gnt_o w.bridge=true := beq_iff_eq.mpr hstate
      simp at htransfers hanswered
      exact iff_of_true hgnt ⟨htransfers,by omega⟩
    | WAIT_PREADY =>
      rw [hstate,if_pos rfl,List.length_singleton] at htransfers
      refine iff_of_false (fun hgnt => ?_) (fun hsame => by omega)
      exact Phase.noConfusion (hstate.symm.trans (beq_iff_eq.mp hgnt))
    | DISPATCH_RDATA =>
      rw [hstate,if_neg Phase.noConfusion,List.length_nil] at htransfers
      rw [hvalid.mpr hstate,if_pos rfl,List.length_singleton] at hanswered
      refine iff_of_false (fun hgnt => ?_) (fun hsame => by omega)
      exact Phase.noConfusion (hstate.symm.trans (beq_iff_eq.mp hgnt))
  · intro r a hreq hgnt
    have hstate : w.bridge.CS=.IDLE := beq_iff_eq.mp hgnt
    simp [step,NS,master_PSEL,sample_req_info,onBus,Request.transfer,hstate,hreq]
  · intro r a hsel hready
    have hstate : w.bridge.CS=.WAIT_PREADY := beq_iff_eq.mp hsel
    simp [step,NS,master_PSEL,sample_req_info,onBus,hstate,hready]
  · intro r a hsel hready
    have hstate : w.bridge.CS=.WAIT_PREADY := beq_iff_eq.mp hsel
    simp [step,NS,master_PSEL,hstate,hready]

end Serves

section Example

/-- A store of one byte, and a bus that is ready. -/
def byteStore : List (Request 32 32 9 11×Answer 32) :=
  [(⟨true,0x1A101000,false,0xAABBCCDD,1,0,0⟩,⟨0,true,false⟩),
    (⟨false,0,true,0,0,0,0⟩,⟨0,true,false⟩)]

/-- A store of one byte changes the whole word, and the enable is up with the select in the first
cycle. -/
theorem not_merged :
    (after Store.next (Store.start fun _ => (0x11223344 : BitVec 32)) byteStore).words 0x1A101000=
        (0xAABBCCDD : BitVec 32) ∧
      ¬Merged 1 (0x11223344 : BitVec 32) 0xAABBCCDD 0xAABBCCDD ∧
      master_PSEL (after Store.next
        (Store.start fun _ => (0x11223344 : BitVec 32)) (byteStore.take 0)).bridge=false ∧
      (master_PSEL (after Store.next
          (Store.start fun _ => (0x11223344 : BitVec 32)) (byteStore.take 1)).bridge &&
        master_PENABLE (after Store.next
          (Store.start fun _ => (0x11223344 : BitVec 32)) (byteStore.take 1)).bridge)=true := by
  decide +kernel

end Example

/-- In every run, every granted request is one transfer and one answer, the words of the slave are
those that the transfers leave, and a store leaves its whole word, which is the one with the
enabled bytes replaced where the others agree already. -/
theorem bridges_of_run (words : BitVec ADDR_WIDTH → BitVec DATA_WIDTH)
    (is : List (Request ADDR_WIDTH DATA_WIDTH AUX_WIDTH ID_WIDTH×Answer DATA_WIDTH)) :
    Bridges words (after Store.next (Store.start words) is) ∧
      ∀ (r : Request ADDR_WIDTH DATA_WIDTH AUX_WIDTH ID_WIDTH) (old : BitVec ADDR_WIDTH → BitVec DATA_WIDTH),
        r.data_wen_i=false → r.transfer.put old r.data_add_i=r.data_wdata_i ∧
          (Merged r.data_be_i (old r.data_add_i) r.data_wdata_i
              (r.transfer.put old r.data_add_i) ↔
            ∀ k < DATA_WIDTH,r.data_be_i.getLsbD (k/8)=false →
              r.data_wdata_i.getLsbD k=(old r.data_add_i).getLsbD k) ∧
          ∀ a,a≠r.data_add_i → r.transfer.put old a=old a := by
  refine ⟨(after_invariant (P:=Serves words) (fun _ _ h => h.next) serves_start is).bridges,?_⟩
  intro r old hwrite
  refine ⟨put_store hwrite,?_,fun a ha => ?_⟩
  · rw [put_store hwrite]
    exact merged_iff
  · have hother : (a==r.data_add_i)=false := beq_eq_false_iff_ne.mpr ha
    unfold Request.transfer Transfer.put
    dsimp only
    rw [hother,Bool.and_false]
    rfl

end Pulpissimo.Interco.Lint2Apb
