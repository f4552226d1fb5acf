import Mathlib.Data.Nat.Log
import Pulpissimo.Lib.ArbTree
import Pulpissimo.Lib.Indices
import Pulpissimo.Lib.Machine

/-!
# The crossbar to the bridges

`XBAR_BRIDGE` gives every slave two trees of arbiters, one for each channel of masters,
and a multiplexer between them. A tree is flagged by a counter of the transactions of
its channel, the multiplexer by a bit that every transaction turns. A request is marked
with the number `2**j` of its master, which is computed in 32 bits.
-/

namespace Pulpissimo.Interco.XbarBridge

open Pulpissimo.Machine

/-- Parameters. The request path without a second channel and the response path to a
single slave are other code. -/
structure Config where
  N_CH0 : ℕ
  N_CH1 : ℕ
  N_SLAVE : ℕ
  ADDR_WIDTH : ℕ
  DATA_WIDTH : ℕ
  AUX_WIDTH : ℕ
  ch0_pos : 1≤N_CH0
  ch1_pos : 1≤N_CH1
  two_le : 2≤N_SLAVE
  addr_pos : 1≤ADDR_WIDTH

/-- Number of masters, and width of their marks. -/
abbrev Config.ID_WIDTH (c : Config) : ℕ := c.N_CH0+c.N_CH1

variable {c : Config}

/-- What goes with a request inside the crossbar. -/
structure Payload (c : Config) where
  data_add : BitVec c.ADDR_WIDTH
  /-- Write enable, active low. -/
  data_wen : Bool
  data_wdata : BitVec c.DATA_WIDTH
  data_be : BitVec (c.DATA_WIDTH/8)
  data_ID : BitVec c.ID_WIDTH
  data_aux : BitVec c.AUX_WIDTH

/-- A request line with what goes with it. -/
structure Line (c : Config) where
  data_req : Bool
  payload : Payload c

/-- A dummy port. -/
def dummy : Line c := ⟨false,0,false,0,0,0,0⟩

/-- Request of a master. -/
structure Master (c : Config) where
  data_req_i : Bool
  data_add_i : BitVec c.ADDR_WIDTH
  data_wen_i : Bool
  data_wdata_i : BitVec c.DATA_WIDTH
  data_be_i : BitVec (c.DATA_WIDTH/8)
  data_aux_i : BitVec c.AUX_WIDTH

/-- Address ranges of the slaves, the end not included. -/
structure Ranges (c : Config) where
  START_ADDR : Fin c.N_SLAVE → BitVec c.ADDR_WIDTH
  END_ADDR : Fin c.N_SLAVE → BitVec c.ADDR_WIDTH

/-- Flags of one slave's request block. -/
structure Flags (c : Config) where
  /-- `RR_FLAG` of the tree of the first channel. -/
  RR_CH0 : BitVec (Nat.clog 2 c.N_CH0)
  /-- `RR_FLAG` of the tree of the second channel. -/
  RR_CH1 : BitVec (Nat.clog 2 c.N_CH1)
  /-- `RR_FLAG` of `MUX2_REQ_BRIDGE`. -/
  RR_FLAG : Bool

/-- Registers. -/
structure State (c : Config) where
  flags : Fin c.N_SLAVE → Flags c

/-- One cycle of inputs. -/
structure Input (c : Config) where
  master : Fin c.ID_WIDTH → Master c
  data_gnt_i : Fin c.N_SLAVE → Bool

/-- Values after reset. -/
def reset : State c := ⟨fun _ => ⟨0,0,false⟩⟩

section Primitives

/-- `FanInPrimitive_Req_BRIDGE` and the multiplexer of `MUX2_REQ_BRIDGE`, request side. -/
def fanIn (RR_FLAG : Bool) (l0 l1 : Line c) : Line c :=
  ⟨l0.data_req || l1.data_req,
    if ArbTree.SEL RR_FLAG l0.data_req l1.data_req then l1.payload else l0.payload⟩

/-- Their grant of side 0. -/
def gnt0 (RR_FLAG r0 r1 data_gnt_i : Bool) : Bool :=
  ((r0 && !r1) || (r0 && !RR_FLAG)) && data_gnt_i

/-- Their grant of side 1. -/
def gnt1 (RR_FLAG r0 r1 data_gnt_i : Bool) : Bool :=
  ((!r0 && r1) || (r1 && RR_FLAG)) && data_gnt_i

/-- `ArbitrationTree_BRIDGE`: the line at node `k`, `d` levels above the leaves. A channel
of one port has no tree, and the line of the port is the root. -/
def node (RR_FLAG : ℕ → Bool) (leaf : ℕ → Line c) : ℕ → ℕ → Line c
  | 0,k => leaf k
  | d+1,k => fanIn (RR_FLAG d) (node RR_FLAG leaf d (2*k)) (node RR_FLAG leaf d (2*k+1))

/-- The grant of node `p`, `j` levels below the root of a tree of `n` levels. -/
def nodeGnt (RR_FLAG : ℕ → Bool) (leaf : ℕ → Line c) (n : ℕ) (data_gnt_i : Bool) : ℕ → ℕ → Bool
  | 0,_ => data_gnt_i
  | j+1,p =>
    let r0 := (node RR_FLAG leaf (n-j-1) (2*(p/2))).data_req
    let r1 := (node RR_FLAG leaf (n-j-1) (2*(p/2)+1)).data_req
    if p%2=0 then gnt0 (RR_FLAG (n-j-1)) r0 r1 (nodeGnt RR_FLAG leaf n data_gnt_i j (p/2))
    else gnt1 (RR_FLAG (n-j-1)) r0 r1 (nodeGnt RR_FLAG leaf n data_gnt_i j (p/2))

/-- `RR_Flag_Req_BRIDGE`. -/
def rrNext {WIDTH : ℕ} (MAX_COUNT : ℕ) (RR_FLAG_o : BitVec WIDTH) (data_req_i data_gnt_i : Bool) :
    BitVec WIDTH :=
  if data_req_i && data_gnt_i then if RR_FLAG_o.toNat<MAX_COUNT then RR_FLAG_o+1 else 0
  else RR_FLAG_o

end Primitives

section Code

variable (ranges : Ranges c) (s : State c) (i : Input c)

/-- The address is in the slave's range. -/
def destination_OH (k : Fin c.ID_WIDTH) (j : Fin c.N_SLAVE) : Bool :=
  decide (ranges.START_ADDR j≤(i.master k).data_add_i) &&
    decide ((i.master k).data_add_i < ranges.END_ADDR j)

/-- `data_req_from_MASTER[k][j]`. -/
def requests (k : Fin c.ID_WIDTH) (j : Fin c.N_SLAVE) : Bool :=
  (i.master k).data_req_i && destination_OH ranges i k j

/-- `data_ID[j]`: the parameter `2**j`, a 32-bit signed integer, at the width of the marks. -/
def data_ID (k : Fin c.ID_WIDTH) : BitVec c.ID_WIDTH :=
  (BitVec.ofNat 32 (2^k.val)).signExtend c.ID_WIDTH

/-- The line of master `k` to slave `j`. -/
def line (j : Fin c.N_SLAVE) (k : Fin c.ID_WIDTH) : Line c :=
  let m := i.master k
  ⟨requests ranges i k j,m.data_add_i,m.data_wen_i,m.data_wdata_i,m.data_be_i,data_ID k,m.data_aux_i⟩

/-- Ports of the first channel, up to a power of two with dummies. -/
def leaf0 (j : Fin c.N_SLAVE) (k : ℕ) : Line c :=
  if h : k < c.N_CH0 then line ranges i j ⟨k,Nat.lt_add_right _ h⟩ else dummy

/-- Ports of the second channel. -/
def leaf1 (j : Fin c.N_SLAVE) (k : ℕ) : Line c :=
  if h : k < c.N_CH1 then line ranges i j ⟨c.N_CH0+k,Nat.add_lt_add_left h _⟩ else dummy

/-- Output of the tree of the first channel. -/
def data_CH0 (j : Fin c.N_SLAVE) : Line c :=
  node (s.flags j).RR_CH0.getLsbD (leaf0 ranges i j) (Nat.clog 2 c.N_CH0) 0

/-- Output of the tree of the second channel. -/
def data_CH1 (j : Fin c.N_SLAVE) : Line c :=
  node (s.flags j).RR_CH1.getLsbD (leaf1 ranges i j) (Nat.clog 2 c.N_CH1) 0

/-- The line to slave `j`. -/
def slave (j : Fin c.N_SLAVE) : Line c :=
  fanIn (s.flags j).RR_FLAG (data_CH0 ranges s i j) (data_CH1 ranges s i j)

def data_gnt_CH0 (j : Fin c.N_SLAVE) : Bool :=
  gnt0 (s.flags j).RR_FLAG (data_CH0 ranges s i j).data_req (data_CH1 ranges s i j).data_req
    (i.data_gnt_i j)

def data_gnt_CH1 (j : Fin c.N_SLAVE) : Bool :=
  gnt1 (s.flags j).RR_FLAG (data_CH0 ranges s i j).data_req (data_CH1 ranges s i j).data_req
    (i.data_gnt_i j)

/-- `data_gnt_from_MEM[j][k]`. -/
def data_gnt_from_MEM (j : Fin c.N_SLAVE) (k : Fin c.ID_WIDTH) : Bool :=
  if k.val < c.N_CH0 then
    nodeGnt (s.flags j).RR_CH0.getLsbD (leaf0 ranges i j) (Nat.clog 2 c.N_CH0)
      (data_gnt_CH0 ranges s i j) (Nat.clog 2 c.N_CH0) k.val
  else
    nodeGnt (s.flags j).RR_CH1.getLsbD (leaf1 ranges i j) (Nat.clog 2 c.N_CH1)
      (data_gnt_CH1 ranges s i j) (Nat.clog 2 c.N_CH1) (k.val-c.N_CH0)

/-- Grant of master `k`. -/
def data_gnt_o (k : Fin c.ID_WIDTH) : Bool :=
  decide (∃ j, data_gnt_from_MEM ranges s i j k && destination_OH ranges i k j) &&
    (i.master k).data_req_i

/-- A transaction is accepted by slave `j`. -/
def accepted (j : Fin c.N_SLAVE) (s : State c) (i : Input c) : Bool :=
  (slave ranges s i j).data_req && i.data_gnt_i j

/-- One clock edge. -/
def step : State c where
  flags := fun j =>
    ⟨rrNext (c.N_CH0-1) (s.flags j).RR_CH0 (data_CH0 ranges s i j).data_req (data_gnt_CH0 ranges s i j),
      rrNext (c.N_CH1-1) (s.flags j).RR_CH1 (data_CH1 ranges s i j).data_req (data_gnt_CH1 ranges s i j),
      if accepted ranges j s i then !(s.flags j).RR_FLAG else (s.flags j).RR_FLAG⟩

end Code

section Channel

variable {RR_FLAG : ℕ → Bool} {leaf : ℕ → Line c}

/-- Request bits of the ports of a channel. -/
def portReq (leaf : ℕ → Line c) : ℕ → Bool := fun k => (leaf k).data_req

/-- A node shows the request that gets through to it. -/
theorem node_eq (d k : ℕ) : node RR_FLAG leaf d k=
    ⟨ArbTree.anyReq (portReq leaf) d k,(leaf (ArbTree.winner (portReq leaf) RR_FLAG d k)).payload⟩ := by
  induction d generalizing k with
  | zero => rfl
  | succ d ih =>
    rw [node,ih,ih,fanIn,ArbTree.anyReq,ArbTree.winner]
    split_ifs <;> rfl

/-- The root of a channel with a request shows the line of a port that requests. -/
theorem root_shown {n : ℕ} (h : (node RR_FLAG leaf n 0).data_req=true) :
    (leaf (ArbTree.winner (portReq leaf) RR_FLAG n 0)).data_req=true ∧
      node RR_FLAG leaf n 0=leaf (ArbTree.winner (portReq leaf) RR_FLAG n 0) := by
  rw [node_eq] at h ⊢
  have hwin : (leaf (ArbTree.winner (portReq leaf) RR_FLAG n 0)).data_req=true :=
    ArbTree.winner_requests h
  have hany : ArbTree.anyReq (portReq leaf) n 0=true := h
  refine ⟨hwin,?_⟩
  rw [hany,←hwin]

theorem nodeGnt_eq (n : ℕ) (data_gnt_i : Bool) (j p : ℕ) : nodeGnt RR_FLAG leaf n data_gnt_i j p=
    ArbTree.granted (portReq leaf) RR_FLAG n data_gnt_i j p := by
  induction j generalizing p with
  | zero => rfl
  | succ j ih =>
    rw [nodeGnt,ArbTree.granted,ih,node_eq,node_eq]
    rfl

/-- The grant of a channel goes to the port whose request gets through. -/
theorem nodeGnt_iff {n k : ℕ} {data_gnt_i : Bool}
    (hany : data_gnt_i=true → (node RR_FLAG leaf n 0).data_req=true) (hk : k<2^n) :
    nodeGnt RR_FLAG leaf n data_gnt_i n k=true ↔
      data_gnt_i=true ∧ ArbTree.winner (portReq leaf) RR_FLAG n 0=k := by
  rw [node_eq] at hany
  rw [nodeGnt_eq,ArbTree.granted_iff hany (Nat.le_refl n) hk,Nat.sub_self,ArbTree.below_zero]

/-- A request at a port is a request at the root. -/
theorem root_of_port (RR_FLAG : ℕ → Bool) {n k : ℕ} (hk : k<2^n) (hreq : (leaf k).data_req=true) :
    (node RR_FLAG leaf n 0).data_req=true := by
  rw [node_eq]
  refine (ArbTree.anyReq_iff).mpr ⟨k,⟨?_,?_⟩,hreq⟩
  · rw [Nat.zero_mul]
    exact Nat.zero_le k
  · rwa [Nat.zero_add,Nat.one_mul]

end Channel

section RoundRobin

/-- Transactions of a channel of `N` ports before the counter comes to port `k`. -/
def wait (N f k : ℕ) : ℕ := if f≤k then k-f else N+k-f

variable {N : ℕ} {RR : BitVec (Nat.clog 2 N)}

/-- The counter runs through the ports of its channel. -/
theorem toNat_rrNext (hRR : RR.toNat<N) (r g : Bool) : (rrNext (N-1) RR r g).toNat=
    if r && g then if RR.toNat<N-1 then RR.toNat+1 else 0 else RR.toNat := by
  have hle : N≤2^Nat.clog 2 N := Nat.le_pow_clog (by omega) N
  unfold rrNext
  split_ifs with hacc hlast
  · change (RR+1#_).toNat=RR.toNat+1
    rw [BitVec.toNat_add,BitVec.toNat_ofNat,Nat.add_mod_mod,Nat.mod_eq_of_lt (by omega)]
  · rfl
  · rfl

theorem rrNext_lt (hRR : RR.toNat<N) (r g : Bool) : (rrNext (N-1) RR r g).toNat<N := by
  rw [toNat_rrNext hRR]
  split_ifs <;> omega

/-- A transaction of the channel that goes to another port brings the counter nearer. -/
theorem wait_rrNext {leaf : ℕ → Line c} {k : ℕ} {g : Bool} (hRR : RR.toNat<N) (hk : k<N)
    (hreq : (leaf k).data_req=true)
    (hno : nodeGnt RR.getLsbD leaf (Nat.clog 2 N) g (Nat.clog 2 N) k=false) :
    wait N (rrNext (N-1) RR (node RR.getLsbD leaf (Nat.clog 2 N) 0).data_req g).toNat k+
      (if g=true then 1 else 0)=wait N RR.toNat k := by
  have hle : N≤2^Nat.clog 2 N := Nat.le_pow_clog (by omega) N
  have hroot := root_of_port RR.getLsbD (Nat.lt_of_lt_of_le hk hle) hreq
  rw [toNat_rrNext hRR,hroot,Bool.true_and]
  cases g with
  | false => rfl
  | true =>
    have hne : RR.toNat≠k := by
      intro heq
      have hwin : ArbTree.winner (portReq leaf) RR.getLsbD (Nat.clog 2 N) 0=k := by
        refine ArbTree.winner_of_flag ⟨by omega,by omega⟩ hreq fun e _ => ?_
        rw [←heq]
        rfl
      have hgnt := (nodeGnt_iff (fun _ => hroot) (Nat.lt_of_lt_of_le hk hle)).mpr ⟨rfl,hwin⟩
      exact absurd (hno.symm.trans hgnt) nofun
    rw [if_pos rfl,if_pos rfl]
    unfold wait
    split_ifs <;> omega

end RoundRobin

section Choice

variable (ranges : Ranges c) (s : State c)

/-- Distance of master `k` from the flags of slave `j`: first by the flag of the
multiplexer, then by the counter of its channel. -/
def rank (j : Fin c.N_SLAVE) (k : Fin c.ID_WIDTH) : ℕ :=
  if k.val < c.N_CH0 then
    (if (s.flags j).RR_FLAG then 2^Nat.clog 2 c.N_CH0+2^Nat.clog 2 c.N_CH1 else 0)+
      ArbTree.rank (s.flags j).RR_CH0.getLsbD (Nat.clog 2 c.N_CH0) k.val
  else
    (if (s.flags j).RR_FLAG then 0 else 2^Nat.clog 2 c.N_CH0+2^Nat.clog 2 c.N_CH1)+
      ArbTree.rank (s.flags j).RR_CH1.getLsbD (Nat.clog 2 c.N_CH1) (k.val-c.N_CH0)

/-- Master `k` has the slave in this cycle: it requests, the slave sees its line, it alone
gets the slave's grant, and no other master that requests is nearer to the flags. -/
structure Chosen (i : Input c) (j : Fin c.N_SLAVE) (k : Fin c.ID_WIDTH) : Prop where
  requests : requests ranges i k j=true
  shown : slave ranges s i j=line ranges i j k
  granted : ∀ l, data_gnt_from_MEM ranges s i j l=true ↔ i.data_gnt_i j=true ∧ l=k
  nearest : ∀ l, XbarBridge.requests ranges i l j=true → rank s j k ≤ rank s j l

end Choice

section Cycle

variable {ranges : Ranges c} {s : State c} {i : Input c} {j : Fin c.N_SLAVE} {k : Fin c.ID_WIDTH}

/-- Ports of a channel that request are masters of it. -/
theorem leaf0_req {p : ℕ} (h : (leaf0 ranges i j p).data_req=true) :
    ∃ hp : p < c.N_CH0, leaf0 ranges i j p=line ranges i j ⟨p,Nat.lt_add_right _ hp⟩ := by
  unfold leaf0 at h ⊢
  split_ifs at h with hp
  · exact ⟨hp,dif_pos hp⟩
  · exact absurd h nofun

theorem leaf1_req {p : ℕ} (h : (leaf1 ranges i j p).data_req=true) :
    ∃ hp : p < c.N_CH1, leaf1 ranges i j p=line ranges i j ⟨c.N_CH0+p,Nat.add_lt_add_left hp _⟩ := by
  unfold leaf1 at h ⊢
  split_ifs at h with hp
  · exact ⟨hp,dif_pos hp⟩
  · exact absurd h nofun

theorem leaf0_of_master (hk : k.val < c.N_CH0) : leaf0 ranges i j k.val=line ranges i j k := by
  unfold leaf0
  rw [dif_pos hk]

theorem leaf1_of_master (hk : ¬k.val < c.N_CH0) :
    leaf1 ranges i j (k.val-c.N_CH0)=line ranges i j k := by
  have hlt : k.val < c.N_CH0+c.N_CH1 := k.isLt
  unfold leaf1
  rw [dif_pos (by omega)]
  exact congrArg (line ranges i j) (Fin.ext (by change c.N_CH0+(k.val-c.N_CH0)=k.val; omega))

theorem ch0_lt (hk : k.val < c.N_CH0) : k.val<2^Nat.clog 2 c.N_CH0 :=
  Nat.lt_of_lt_of_le hk (Nat.le_pow_clog (by omega) _)

theorem ch1_lt (hk : ¬k.val < c.N_CH0) : k.val-c.N_CH0<2^Nat.clog 2 c.N_CH1 := by
  have hlt : k.val < c.N_CH0+c.N_CH1 := k.isLt
  have hle := Nat.le_pow_clog (b:=2) (by omega) c.N_CH1
  omega

/-- A request of a master is one of its channel. -/
theorem ch0_req (hk : k.val < c.N_CH0) (hreq : requests ranges i k j=true) :
    (data_CH0 ranges s i j).data_req=true := by
  refine root_of_port _ (ch0_lt hk) ?_
  rw [leaf0_of_master hk]
  exact hreq

theorem ch1_req (hk : ¬k.val < c.N_CH0) (hreq : requests ranges i k j=true) :
    (data_CH1 ranges s i j).data_req=true := by
  refine root_of_port _ (ch1_lt hk) ?_
  rw [leaf1_of_master hk]
  exact hreq

/-- A channel with a request shows the line of one of its masters. -/
theorem ch0_shown (h : (data_CH0 ranges s i j).data_req=true) : ∃ m : Fin c.ID_WIDTH,
    m.val < c.N_CH0 ∧ requests ranges i m j=true ∧ data_CH0 ranges s i j=line ranges i j m ∧
      ArbTree.winner (portReq (leaf0 ranges i j)) (s.flags j).RR_CH0.getLsbD
        (Nat.clog 2 c.N_CH0) 0=m.val := by
  rcases root_shown h with ⟨hwin,hroot⟩
  rcases leaf0_req hwin with ⟨hp,hleaf⟩
  refine ⟨⟨_,Nat.lt_add_right _ hp⟩,hp,?_,hroot.trans hleaf,rfl⟩
  rw [hleaf] at hwin
  exact hwin

theorem ch1_shown (h : (data_CH1 ranges s i j).data_req=true) : ∃ m : Fin c.ID_WIDTH,
    ¬m.val < c.N_CH0 ∧ requests ranges i m j=true ∧ data_CH1 ranges s i j=line ranges i j m ∧
      ArbTree.winner (portReq (leaf1 ranges i j)) (s.flags j).RR_CH1.getLsbD
        (Nat.clog 2 c.N_CH1) 0=m.val-c.N_CH0 := by
  rcases root_shown h with ⟨hwin,hroot⟩
  rcases leaf1_req hwin with ⟨hp,hleaf⟩
  refine ⟨⟨_,Nat.add_lt_add_left hp _⟩,?_,?_,hroot.trans hleaf,?_⟩
  · exact Nat.not_lt_of_le (Nat.le_add_right _ _)
  · rw [hleaf] at hwin
    exact hwin
  · exact (Nat.add_sub_cancel_left c.N_CH0 _).symm

/-- The grants of the first channel. -/
theorem gnt_ch0_iff (hk : k.val < c.N_CH0) : data_gnt_from_MEM ranges s i j k=true ↔
    data_gnt_CH0 ranges s i j=true ∧ ArbTree.winner (portReq (leaf0 ranges i j))
      (s.flags j).RR_CH0.getLsbD (Nat.clog 2 c.N_CH0) 0=k.val := by
  unfold data_gnt_from_MEM
  rw [if_pos hk]
  refine nodeGnt_iff (fun hg => ?_) (ch0_lt hk)
  unfold data_gnt_CH0 gnt0 at hg
  revert hg
  unfold data_CH0
  generalize (node _ (leaf0 ranges i j) _ 0).data_req=r0
  cases r0 <;> simp

theorem gnt_ch1_iff (hk : ¬k.val < c.N_CH0) : data_gnt_from_MEM ranges s i j k=true ↔
    data_gnt_CH1 ranges s i j=true ∧ ArbTree.winner (portReq (leaf1 ranges i j))
      (s.flags j).RR_CH1.getLsbD (Nat.clog 2 c.N_CH1) 0=k.val-c.N_CH0 := by
  unfold data_gnt_from_MEM
  rw [if_neg hk]
  refine nodeGnt_iff (fun hg => ?_) (ch1_lt hk)
  unfold data_gnt_CH1 gnt1 at hg
  revert hg
  unfold data_CH1
  generalize (node _ (leaf1 ranges i j) _ 0).data_req=r1
  cases r1 <;> simp

/-- The multiplexer takes one channel and gives it the grant. -/
theorem mux_ch0 (h : ArbTree.SEL (s.flags j).RR_FLAG (data_CH0 ranges s i j).data_req
    (data_CH1 ranges s i j).data_req=false) :
    (data_CH0 ranges s i j).data_req=true ∧ slave ranges s i j=data_CH0 ranges s i j ∧
      data_gnt_CH0 ranges s i j=i.data_gnt_i j ∧ data_gnt_CH1 ranges s i j=false := by
  unfold slave fanIn data_gnt_CH0 data_gnt_CH1 gnt0 gnt1
  rw [h]
  revert h
  unfold ArbTree.SEL
  generalize data_CH0 ranges s i j=l0
  generalize data_CH1 ranges s i j=l1
  rcases l0 with ⟨r0,p0⟩
  rcases l1 with ⟨r1,p1⟩
  cases r0 <;> cases r1 <;> cases (s.flags j).RR_FLAG <;> simp

theorem mux_ch1 (hany : (slave ranges s i j).data_req=true)
    (h : ArbTree.SEL (s.flags j).RR_FLAG (data_CH0 ranges s i j).data_req
      (data_CH1 ranges s i j).data_req=true) :
    (data_CH1 ranges s i j).data_req=true ∧ slave ranges s i j=data_CH1 ranges s i j ∧
      data_gnt_CH1 ranges s i j=i.data_gnt_i j ∧ data_gnt_CH0 ranges s i j=false := by
  unfold slave fanIn at hany ⊢
  unfold data_gnt_CH0 data_gnt_CH1 gnt0 gnt1
  rw [h]
  revert h hany
  unfold ArbTree.SEL
  generalize data_CH0 ranges s i j=l0
  generalize data_CH1 ranges s i j=l1
  rcases l0 with ⟨r0,p0⟩
  rcases l1 with ⟨r1,p1⟩
  cases r0 <;> cases r1 <;> cases (s.flags j).RR_FLAG <;> simp

/-- The request that gets through a channel is the nearest of it. -/
theorem nearest_ch0 {m l : Fin c.ID_WIDTH} (hm : m.val < c.N_CH0) (hl : l.val < c.N_CH0)
    (hwin : ArbTree.winner (portReq (leaf0 ranges i j)) (s.flags j).RR_CH0.getLsbD
      (Nat.clog 2 c.N_CH0) 0=m.val) (hreq : requests ranges i l j=true) : rank s j m ≤ rank s j l := by
  have hbelow : ArbTree.Below (Nat.clog 2 c.N_CH0) 0 l.val := ⟨by omega,by have := ch0_lt hl; omega⟩
  have hport : portReq (leaf0 ranges i j) l.val=true := by
    unfold portReq
    rw [leaf0_of_master hl]
    exact hreq
  have hle := ArbTree.winner_rank_le (f:=(s.flags j).RR_CH0.getLsbD) hbelow hport
  unfold rank
  rw [if_pos hm,if_pos hl,←hwin]
  exact Nat.add_le_add_left hle _

theorem nearest_ch1 {m l : Fin c.ID_WIDTH} (hm : ¬m.val < c.N_CH0) (hl : ¬l.val < c.N_CH0)
    (hwin : ArbTree.winner (portReq (leaf1 ranges i j)) (s.flags j).RR_CH1.getLsbD
      (Nat.clog 2 c.N_CH1) 0=m.val-c.N_CH0) (hreq : requests ranges i l j=true) :
    rank s j m ≤ rank s j l := by
  have hbelow : ArbTree.Below (Nat.clog 2 c.N_CH1) 0 (l.val-c.N_CH0) :=
    ⟨by omega,by have := ch1_lt hl; omega⟩
  have hport : portReq (leaf1 ranges i j) (l.val-c.N_CH0)=true := by
    unfold portReq
    rw [leaf1_of_master hl]
    exact hreq
  have hle := ArbTree.winner_rank_le (f:=(s.flags j).RR_CH1.getLsbD) hbelow hport
  unfold rank
  rw [if_neg hm,if_neg hl,←hwin]
  exact Nat.add_le_add_left hle _

theorem slave_req (h : requests ranges i k j=true) : (slave ranges s i j).data_req=true := by
  change ((data_CH0 ranges s i j).data_req || (data_CH1 ranges s i j).data_req)=true
  by_cases hk : k.val < c.N_CH0
  · rw [ch0_req hk h,Bool.true_or]
  · rw [ch1_req hk h,Bool.or_true]

/-- With a request the slave is given to one master. -/
theorem exists_chosen (h : ∃ k, requests ranges i k j=true) : ∃ k, Chosen ranges s i j k := by
  have hany : (slave ranges s i j).data_req=true := by
    rcases h with ⟨k,hk⟩
    exact slave_req hk
  have hrank0 := fun l => ArbTree.rank_lt (f:=(s.flags j).RR_CH0.getLsbD)
    (Nat.clog 2 c.N_CH0) l
  have hrank1 := fun l => ArbTree.rank_lt (f:=(s.flags j).RR_CH1.getLsbD)
    (Nat.clog 2 c.N_CH1) l
  cases hsel : ArbTree.SEL (s.flags j).RR_FLAG (data_CH0 ranges s i j).data_req
    (data_CH1 ranges s i j).data_req with
  | false =>
    rcases mux_ch0 hsel with ⟨hreq0,hslave,hg0,hg1⟩
    rcases ch0_shown hreq0 with ⟨m,hm,hreq,hline,hwin⟩
    refine ⟨m,hreq,hslave.trans hline,fun l => ?_,fun l hl => ?_⟩
    · by_cases hch : l.val < c.N_CH0
      · rw [gnt_ch0_iff hch,hg0,hwin,Fin.ext_iff,eq_comm (a:=l.val)]
      · rw [gnt_ch1_iff hch,hg1]
        refine ⟨fun hboth => absurd hboth.1 nofun,fun hboth => absurd ?_ hch⟩
        rw [hboth.2]
        exact hm
    · by_cases hch : l.val < c.N_CH0
      · exact nearest_ch0 hm hch hwin hl
      · have hflag : (s.flags j).RR_FLAG=false := by
          unfold ArbTree.SEL at hsel
          rw [ch1_req hch hl,Bool.and_true,Bool.or_eq_false_iff] at hsel
          exact hsel.2
        unfold rank
        rw [if_pos hm,if_neg hch,hflag,if_neg nofun,if_neg nofun]
        have hlt := hrank0 m.val
        have hpos := Nat.two_pow_pos (Nat.clog 2 c.N_CH1)
        omega
  | true =>
    rcases mux_ch1 hany hsel with ⟨hreq1,hslave,hg1,hg0⟩
    rcases ch1_shown hreq1 with ⟨m,hm,hreq,hline,hwin⟩
    refine ⟨m,hreq,hslave.trans hline,fun l => ?_,fun l hl => ?_⟩
    · by_cases hch : l.val < c.N_CH0
      · rw [gnt_ch0_iff hch,hg0]
        refine ⟨fun hboth => absurd hboth.1 nofun,fun hboth => absurd hch ?_⟩
        rw [hboth.2]
        exact hm
      · have hltm : m.val < c.N_CH0+c.N_CH1 := m.isLt
        rw [gnt_ch1_iff hch,hg1,hwin,Fin.ext_iff]
        exact and_congr_right fun _ => ⟨fun heq => by omega,fun heq => by rw [heq]⟩
    · by_cases hch : l.val < c.N_CH0
      · have hflag : (s.flags j).RR_FLAG=true := by
          unfold ArbTree.SEL at hsel
          rw [ch0_req hch hl,Bool.not_true,Bool.false_or] at hsel
          exact (Bool.and_eq_true_iff.mp hsel).1
        unfold rank
        rw [if_neg hm,if_pos hch,hflag,if_pos rfl,if_pos rfl]
        have hlt := hrank1 (m.val-c.N_CH0)
        have hpos := Nat.two_pow_pos (Nat.clog 2 c.N_CH0)
        omega
      · exact nearest_ch1 hm hch hwin hl

end Cycle

section Order

variable {ranges : Ranges c} {s : State c} {i : Input c} {j : Fin c.N_SLAVE}

/-- No two masters are equally near. -/
theorem rank_injective {k l : Fin c.ID_WIDTH} (h : rank s j k=rank s j l) : k=l := by
  have hrank0 := fun m => ArbTree.rank_lt (f:=(s.flags j).RR_CH0.getLsbD) (Nat.clog 2 c.N_CH0) m
  have hrank1 := fun m => ArbTree.rank_lt (f:=(s.flags j).RR_CH1.getLsbD) (Nat.clog 2 c.N_CH1) m
  have hbelow0 := fun (m : Fin c.ID_WIDTH) (hm : m.val < c.N_CH0) =>
    (⟨by omega,by have := ch0_lt hm; omega⟩ : ArbTree.Below (Nat.clog 2 c.N_CH0) 0 m.val)
  have hbelow1 := fun (m : Fin c.ID_WIDTH) (hm : ¬m.val < c.N_CH0) =>
    (⟨by omega,by have := ch1_lt hm; omega⟩ :
      ArbTree.Below (Nat.clog 2 c.N_CH1) 0 (m.val-c.N_CH0))
  unfold rank at h
  by_cases hk : k.val < c.N_CH0 <;> by_cases hl : l.val < c.N_CH0
  · rw [if_pos hk,if_pos hl] at h
    exact Fin.ext (ArbTree.rank_injective (hbelow0 k hk) (hbelow0 l hl) (Nat.add_left_cancel h))
  · rw [if_pos hk,if_neg hl] at h
    have hlk := hrank0 k.val
    have hll := hrank1 (l.val-c.N_CH0)
    split_ifs at h <;> omega
  · rw [if_neg hk,if_pos hl] at h
    have hlk := hrank1 (k.val-c.N_CH0)
    have hll := hrank0 l.val
    split_ifs at h <;> omega
  · rw [if_neg hk,if_neg hl] at h
    have heq := ArbTree.rank_injective (hbelow1 k hk) (hbelow1 l hl) (Nat.add_left_cancel h)
    exact Fin.ext (by omega)

/-- The flags of a slave that grants nothing stay. -/
theorem flags_kept (h : i.data_gnt_i j=false) : (step ranges s i).flags j=s.flags j := by
  unfold step accepted data_gnt_CH0 data_gnt_CH1 gnt0 gnt1 rrNext
  simp [h]

/-- A master asks for what its own lines say. -/
theorem requests_congr {i' : Input c} {k : Fin c.ID_WIDTH} (h : i'.master k=i.master k) :
    requests ranges i' k j=requests ranges i k j := by
  unfold requests destination_OH
  rw [h]

/-- The order of the masters hangs on the flags only. -/
theorem rank_congr {t : State c} (h : t.flags j=s.flags j) (k : Fin c.ID_WIDTH) :
    rank t j k=rank s j k := by
  unfold rank
  rw [h]

end Order

section Response

/-- What a slave answers. -/
structure Answer (c : Config) where
  data_r_valid_i : Bool
  data_r_rdata_i : BitVec c.DATA_WIDTH
  data_r_opc_i : Bool
  data_r_aux_i : BitVec c.AUX_WIDTH
  data_r_ID_i : BitVec c.ID_WIDTH

/-- A response on its way to a master. -/
structure Reply (c : Config) where
  data_r_valid : Bool
  data_r_rdata : BitVec c.DATA_WIDTH
  data_r_opc : Bool
  data_r_aux : BitVec c.AUX_WIDTH

/-- `FanInPrimitive_Resp_BRIDGE`. -/
def fanInResp (r0 r1 : Reply c) : Reply c :=
  { if r1.data_r_valid then r1 else r0 with data_r_valid := r1.data_r_valid || r0.data_r_valid }

/-- `ResponseTree_BRIDGE`: node `k`, `d` levels above the leaves. -/
def nodeResp (leaf : ℕ → Reply c) : ℕ → ℕ → Reply c
  | 0,k => leaf k
  | d+1,k => fanInResp (nodeResp leaf d (2*k)) (nodeResp leaf d (2*k+1))

variable (answer : Fin c.N_SLAVE → Answer c)

/-- `AddressDecoder_Resp_BRIDGE`: the slave's response is for master `k`. -/
def data_r_valid_from_MEM (j : Fin c.N_SLAVE) (k : Fin c.ID_WIDTH) : Bool :=
  (answer j).data_r_valid_i && (answer j).data_r_ID_i.getLsbD k.val

/-- Slaves at the response tree of master `k`, up to a power of two with dummies. -/
def leafResp (k : Fin c.ID_WIDTH) (p : ℕ) : Reply c :=
  if h : p < c.N_SLAVE then
    ⟨data_r_valid_from_MEM answer ⟨p,h⟩ k,(answer ⟨p,h⟩).data_r_rdata_i,(answer ⟨p,h⟩).data_r_opc_i,
      (answer ⟨p,h⟩).data_r_aux_i⟩
  else ⟨false,0,false,0⟩

/-- What master `k` sees. -/
def reply (k : Fin c.ID_WIDTH) : Reply c := nodeResp (leafResp answer k) (Nat.clog 2 c.N_SLAVE) 0

/-- Valid bits of the leaves. -/
def validResp (leaf : ℕ → Reply c) : ℕ → Bool := fun p => (leaf p).data_r_valid

theorem nodeResp_valid (leaf : ℕ → Reply c) (d k : ℕ) :
    (nodeResp leaf d k).data_r_valid=ArbTree.anyReq (validResp leaf) d k := by
  induction d generalizing k with
  | zero => rfl
  | succ d ih =>
    rw [ArbTree.anyReq,←ih,←ih,Bool.or_comm]
    rfl

/-- A valid node shows a leaf that is valid. -/
theorem nodeResp_shown {leaf : ℕ → Reply c} {d k : ℕ} (h : (nodeResp leaf d k).data_r_valid=true) :
    nodeResp leaf d k=leaf (ArbTree.winner (validResp leaf) (fun _ => true) d k) := by
  induction d generalizing k with
  | zero => rfl
  | succ d ih =>
    have hnode : nodeResp leaf (d+1) k=fanInResp (nodeResp leaf d (2*k)) (nodeResp leaf d (2*k+1)) := rfl
    rw [hnode] at h ⊢
    rw [ArbTree.winner,ArbTree.SEL,←nodeResp_valid,←nodeResp_valid,Bool.true_and]
    unfold fanInResp at h ⊢
    cases h1 : (nodeResp leaf d (2*k+1)).data_r_valid with
    | true =>
      rw [Bool.or_true,if_pos rfl,if_pos rfl,←ih h1,Bool.true_or,←h1]
    | false =>
      rw [h1,Bool.false_or] at h
      have hleft : ¬(!true || false)=true := Bool.false_ne_true
      rw [h,if_neg Bool.false_ne_true,if_neg hleft,←ih h,Bool.false_or,←h]

variable {answer}

/-- A master to which one slave answers sees the response of that slave. -/
theorem reply_of_one {j : Fin c.N_SLAVE} {k : Fin c.ID_WIDTH}
    (h : data_r_valid_from_MEM answer j k=true)
    (honly : ∀ l, l≠j → data_r_valid_from_MEM answer l k=false) :
    reply answer k=⟨true,(answer j).data_r_rdata_i,(answer j).data_r_opc_i,(answer j).data_r_aux_i⟩ := by
  have hleaf : leafResp answer k j.val=
      ⟨true,(answer j).data_r_rdata_i,(answer j).data_r_opc_i,(answer j).data_r_aux_i⟩ := by
    unfold leafResp
    rw [dif_pos j.isLt,h]
  have hle : j.val<2^Nat.clog 2 c.N_SLAVE :=
    Nat.lt_of_lt_of_le j.isLt (Nat.le_pow_clog (by omega) _)
  have hvalid : (reply answer k).data_r_valid=true := by
    unfold reply
    rw [nodeResp_valid]
    refine (ArbTree.anyReq_iff).mpr ⟨j.val,⟨by omega,by omega⟩,?_⟩
    unfold validResp
    rw [hleaf]
  have hshown := nodeResp_shown hvalid
  have hwin : validResp (leafResp answer k)
      (ArbTree.winner (validResp (leafResp answer k)) (fun _ => true) (Nat.clog 2 c.N_SLAVE) 0)=true := by
    refine ArbTree.winner_requests ?_
    rw [←nodeResp_valid]
    exact hvalid
  revert hshown hwin
  generalize ArbTree.winner (validResp (leafResp answer k)) (fun _ => true) (Nat.clog 2 c.N_SLAVE) 0=w
  intro hshown hwin
  have hw : w=j.val := by
    unfold validResp leafResp at hwin
    split_ifs at hwin with hlt
    · by_contra hne
      exact absurd ((honly ⟨w,hlt⟩ fun heq => hne (congrArg Fin.val heq)).symm.trans hwin) nofun
  rw [hw,hleaf] at hshown
  exact hshown

end Response

section Fairness

/-- The counters stay in their channels. -/
def Sound (s : State c) : Prop :=
  ∀ j, (s.flags j).RR_CH0.toNat < c.N_CH0 ∧ (s.flags j).RR_CH1.toNat < c.N_CH1

theorem sound_reset : Sound (reset : State c) := fun _ =>
  ⟨Nat.lt_of_lt_of_le Nat.one_pos c.ch0_pos,Nat.lt_of_lt_of_le Nat.one_pos c.ch1_pos⟩

theorem sound_step (ranges : Ranges c) (s : State c) (i : Input c) (hs : Sound s) :
    Sound (step ranges s i) := fun j => ⟨rrNext_lt (hs j).1 _ _,rrNext_lt (hs j).2 _ _⟩

/-- Transactions before master `k` has slave `j` for certain: two for each port before its
own in its channel, and one if the multiplexer prefers the other channel. -/
def turns (j : Fin c.N_SLAVE) (k : Fin c.ID_WIDTH) (s : State c) : ℕ :=
  if k.val < c.N_CH0 then
    2*wait c.N_CH0 (s.flags j).RR_CH0.toNat k.val+(if (s.flags j).RR_FLAG then 1 else 0)
  else
    2*wait c.N_CH1 (s.flags j).RR_CH1.toNat (k.val-c.N_CH0)+(if (s.flags j).RR_FLAG then 0 else 1)

theorem turns_lt {s : State c} (hs : Sound s) (j : Fin c.N_SLAVE) (k : Fin c.ID_WIDTH) :
    turns j k s<2*max c.N_CH0 c.N_CH1 := by
  have hlt : k.val < c.N_CH0+c.N_CH1 := k.isLt
  have hs0 := (hs j).1
  have hs1 := (hs j).2
  unfold turns wait
  split_ifs <;> omega

/-- Master `k` requests slave `j` and is not granted by it. -/
def Waits (ranges : Ranges c) (j : Fin c.N_SLAVE) (k : Fin c.ID_WIDTH) (s : State c) (i : Input c) :
    Prop :=
  requests ranges i k j=true ∧ data_gnt_from_MEM ranges s i j k=false

/-- Every transaction that passes a waiting master brings its turn nearer. -/
theorem turns_step {ranges : Ranges c} {s : State c} {i : Input c} {j : Fin c.N_SLAVE}
    {k : Fin c.ID_WIDTH} (hs : Sound s) (hw : Waits ranges j k s i) :
    turns j k (step ranges s i)+(if accepted ranges j s i=true then 1 else 0)≤turns j k s := by
  rcases hw with ⟨hreq,hno⟩
  have hacc : accepted ranges j s i=i.data_gnt_i j := by
    unfold accepted
    rw [slave_req hreq,Bool.true_and]
  have hflag : ((step ranges s i).flags j).RR_FLAG=
      if i.data_gnt_i j then !(s.flags j).RR_FLAG else (s.flags j).RR_FLAG := by
    rw [←hacc]
    rfl
  unfold data_gnt_from_MEM at hno
  unfold turns
  rw [hacc,hflag]
  by_cases hch : k.val < c.N_CH0
  · rw [if_pos hch] at hno
    have hport : (leaf0 ranges i j k.val).data_req=true := by
      rw [leaf0_of_master hch]
      exact hreq
    have hwait : wait c.N_CH0 ((step ranges s i).flags j).RR_CH0.toNat k.val+
        (if data_gnt_CH0 ranges s i j=true then 1 else 0)=
          wait c.N_CH0 (s.flags j).RR_CH0.toNat k.val :=
      wait_rrNext (hs j).1 hch hport hno
    rw [if_pos hch,if_pos hch]
    unfold data_gnt_CH0 gnt0 at hwait
    rw [ch0_req hch hreq] at hwait
    revert hwait
    generalize (data_CH1 ranges s i j).data_req=r1
    generalize wait c.N_CH0 ((step ranges s i).flags j).RR_CH0.toNat k.val=w'
    generalize wait c.N_CH0 (s.flags j).RR_CH0.toNat k.val=w
    cases i.data_gnt_i j <;> cases (s.flags j).RR_FLAG <;> cases r1 <;> simp <;> omega
  · rw [if_neg hch] at hno
    have hlt : k.val < c.N_CH0+c.N_CH1 := k.isLt
    have hport : (leaf1 ranges i j (k.val-c.N_CH0)).data_req=true := by
      rw [leaf1_of_master hch]
      exact hreq
    have hwait : wait c.N_CH1 ((step ranges s i).flags j).RR_CH1.toNat (k.val-c.N_CH0)+
        (if data_gnt_CH1 ranges s i j=true then 1 else 0)=
          wait c.N_CH1 (s.flags j).RR_CH1.toNat (k.val-c.N_CH0) :=
      wait_rrNext (hs j).2 (by omega) hport hno
    rw [if_neg hch,if_neg hch]
    unfold data_gnt_CH1 gnt1 at hwait
    rw [ch1_req hch hreq] at hwait
    revert hwait
    generalize (data_CH0 ranges s i j).data_req=r0
    generalize wait c.N_CH1 ((step ranges s i).flags j).RR_CH1.toNat (k.val-c.N_CH0)=w'
    generalize wait c.N_CH1 (s.flags j).RR_CH1.toNat (k.val-c.N_CH0)=w
    cases i.data_gnt_i j <;> cases (s.flags j).RR_FLAG <;> cases r0 <;> simp <;> omega

/-- A master that waits sees fewer transactions than two rounds of the longer channel. -/
theorem fair {ranges : Ranges c} {s : State c} (hs : Sound s) (j : Fin c.N_SLAVE)
    (k : Fin c.ID_WIDTH) {is : List (Input c)} (hw : Meets (step ranges) (Waits ranges j k) s is) :
    count (step ranges) (accepted ranges j) s is<2*max c.N_CH0 c.N_CH1 := by
  have hle : count (step ranges) (accepted ranges j) s is≤turns j k s := by
    induction is generalizing s with
    | nil => exact Nat.zero_le _
    | cons i is ih =>
      have hfirst := turns_step hs hw.1
      have hrest := ih (sound_step ranges s i hs) hw.2
      rw [count_cons]
      omega
  exact Nat.lt_of_le_of_lt hle (turns_lt hs j k)

end Fairness

section Marks

/-- Up to 32 masters a mark has one bit, that of its master. -/
theorem getLsbD_data_ID (hN : c.N_CH0+c.N_CH1≤32) (k b : Fin c.ID_WIDTH) :
    (data_ID k).getLsbD b.val=true ↔ b=k := by
  have hb : b.val<32 := Nat.lt_of_lt_of_le b.isLt hN
  unfold data_ID
  rw [BitVec.getLsbD_signExtend,if_pos hb,BitVec.getLsbD_ofNat,Nat.testBit_two_pow,Fin.ext_iff]
  simp [hb,eq_comm]

/-- So has a mark below the sign, whatever their number. -/
theorem getLsbD_data_ID_low {k : Fin c.ID_WIDTH} (hk : k.val<31) (b : Fin c.ID_WIDTH) :
    (data_ID k).getLsbD b.val=true ↔ b=k := by
  have hmsb : (BitVec.ofNat 32 (2^k.val)).msb=false := by
    rw [BitVec.msb_eq_getLsbD_last,BitVec.getLsbD_ofNat,Nat.testBit_two_pow]
    simp
    omega
  unfold data_ID
  rw [BitVec.getLsbD_signExtend,hmsb,BitVec.getLsbD_ofNat,Nat.testBit_two_pow,Fin.ext_iff]
  have hb : b.val < c.ID_WIDTH := b.isLt
  by_cases hb32 : b.val<32
  · rw [if_pos hb32]
    simp [hb32,eq_comm]
  · rw [if_neg hb32]
    simp
    omega

/-- With more masters the mark of master 31 fills all bits above its own. -/
theorem getLsbD_data_ID_31 {k b : Fin c.ID_WIDTH} (hk : k.val=31) (hb : 31≤b.val) :
    (data_ID k).getLsbD b.val=true := by
  have hlt := b.isLt
  unfold data_ID
  rw [BitVec.getLsbD_signExtend,hk]
  rcases Nat.lt_or_ge b.val 32 with hin | hout
  · have hb31 : b.val=31 := by omega
    rw [hb31] at hlt ⊢
    simp [hlt]
  · rw [if_neg (by omega),decide_eq_true hlt]
    decide

/-- What slave `j` sees and grants in a cycle. -/
structure Serves (ranges : Ranges c) (s : State c) (i : Input c) (j : Fin c.N_SLAVE) : Prop where
  /-- No request comes from nowhere. -/
  none : (∀ k, requests ranges i k j=false) → (slave ranges s i j).data_req=false
  /-- The request it sees is that of one master, which alone can be granted. -/
  one : (∃ k, requests ranges i k j=true) → (slave ranges s i j).data_req=true ∧
    ∃ k, requests ranges i k j=true ∧
      (slave ranges s i j).payload.data_add=(i.master k).data_add_i ∧
      (slave ranges s i j).payload.data_wen=(i.master k).data_wen_i ∧
      (slave ranges s i j).payload.data_wdata=(i.master k).data_wdata_i ∧
      (slave ranges s i j).payload.data_be=(i.master k).data_be_i ∧
      (slave ranges s i j).payload.data_aux=(i.master k).data_aux_i ∧
      (∀ b : Fin c.ID_WIDTH, (slave ranges s i j).payload.data_ID.getLsbD b.val=true ↔ b=k) ∧
      ∀ l, data_gnt_from_MEM ranges s i j l=true → l=k

/-- The crossbar of the parameters is safe and fair after every run from reset. -/
structure Arbitrates (c : Config) : Prop where
  safe : ∀ (ranges : Ranges c) (is : List (Input c)) (i : Input c) (j : Fin c.N_SLAVE),
    Serves ranges (after (step ranges) reset is) i j
  fair : ∀ (ranges : Ranges c) (is : List (Input c)) (j : Fin c.N_SLAVE) (k : Fin c.ID_WIDTH)
    (js : List (Input c)), Meets (step ranges) (Waits ranges j k) (after (step ranges) reset is) js →
      count (step ranges) (accepted ranges j) (after (step ranges) reset is) js<
        2*max c.N_CH0 c.N_CH1

theorem not_slave_req {ranges : Ranges c} {s : State c} {i : Input c} {j : Fin c.N_SLAVE}
    (h : ∀ k, requests ranges i k j=false) : (slave ranges s i j).data_req=false := by
  change ((data_CH0 ranges s i j).data_req || (data_CH1 ranges s i j).data_req)=false
  rw [Bool.or_eq_false_iff,←Bool.not_eq_true,←Bool.not_eq_true]
  constructor
  · intro hreq
    rcases ch0_shown hreq with ⟨m,-,hm,-⟩
    exact absurd ((h m).symm.trans hm) nofun
  · intro hreq
    rcases ch1_shown hreq with ⟨m,-,hm,-⟩
    exact absurd ((h m).symm.trans hm) nofun

theorem serves (hN : c.N_CH0+c.N_CH1≤32) (ranges : Ranges c) (s : State c) (i : Input c)
    (j : Fin c.N_SLAVE) : Serves ranges s i j := by
  refine ⟨not_slave_req,fun hreq => ?_⟩
  rcases exists_chosen (s:=s) hreq with ⟨k,hk⟩
  rw [hk.shown]
  exact ⟨hk.requests,k,hk.requests,rfl,rfl,rfl,rfl,rfl,getLsbD_data_ID hN k,
    fun l hl => ((hk.granted l).mp hl).2⟩

/-- Every address but the last is in the range of every slave. -/
def allRanges (c : Config) : Ranges c := ⟨fun _ => 0,fun _ => BitVec.allOnes _⟩

/-- Only master `m` requests, at address zero. -/
def onlyMaster (c : Config) (m : ℕ) : Input c :=
  ⟨fun k => ⟨k.val==m,0,true,0,0,0⟩,fun _ => true⟩

theorem requests_onlyMaster (m : ℕ) (k : Fin c.ID_WIDTH) (j : Fin c.N_SLAVE) :
    requests (allRanges c) (onlyMaster c m) k j=true ↔ k.val=m := by
  have hpos : (0 : BitVec c.ADDR_WIDTH)<BitVec.allOnes c.ADDR_WIDTH := by
    have hwidth := Nat.pow_lt_pow_right (a:=2) (by omega) (Nat.lt_of_lt_of_le Nat.one_pos c.addr_pos)
    rw [BitVec.lt_def,BitVec.toNat_allOnes]
    change 0<2^c.ADDR_WIDTH-1
    omega
  have hin : destination_OH (allRanges c) (onlyMaster c m) k j=true := by
    unfold destination_OH
    rw [Bool.and_eq_true_iff,decide_eq_true_iff,decide_eq_true_iff]
    exact ⟨BitVec.le_refl _,hpos⟩
  unfold requests
  rw [hin,Bool.and_true]
  exact beq_iff_eq

theorem not_arbitrates (hN : 32 < c.N_CH0+c.N_CH1) : ¬Arbitrates c := by
  intro h
  let m : Fin c.ID_WIDTH := ⟨31,by change 31 < c.N_CH0+c.N_CH1; omega⟩
  let b : Fin c.ID_WIDTH := ⟨32,hN⟩
  let j : Fin c.N_SLAVE := ⟨0,Nat.lt_of_lt_of_le (by omega) c.two_le⟩
  have hreq : requests (allRanges c) (onlyMaster c 31) m j=true :=
    (requests_onlyMaster 31 m j).mpr rfl
  rcases exists_chosen (s:=(reset : State c)) ⟨m,hreq⟩ with ⟨n,hn⟩
  have hn31 : n.val=31 := (requests_onlyMaster 31 n j).mp hn.requests
  rcases (h.safe (allRanges c) [] (onlyMaster c 31) j).one ⟨m,hreq⟩ with
    ⟨-,k,-,-,-,-,-,-,hID,-⟩
  rw [after_nil,hn.shown] at hID
  have hm := (hID m).mp (getLsbD_data_ID_31 hn31 (Nat.le_refl 31))
  have hb := (hID b).mp (getLsbD_data_ID_31 hn31 (by change 31≤32; omega))
  have hval := congrArg Fin.val (hm.trans hb.symm)
  exact absurd hval (by change 31≠32; omega)

/-- The crossbar is safe and fair for its parameters if and only if it has at most 32
masters. -/
theorem arbitrates_iff (c : Config) : Arbitrates c ↔ c.N_CH0+c.N_CH1≤32 := by
  constructor
  · intro h
    by_contra hN
    exact not_arbitrates (by omega) h
  · exact fun hN => ⟨fun ranges is i j => serves hN ranges _ i j,fun ranges is j k js hw =>
      fair (after_invariant (sound_step ranges) sound_reset is) j k hw⟩

/-- 33 masters and two slaves. The mark of master 31 has the bit of master 32 too. -/
theorem not_arbitrates_33 : ¬Arbitrates ⟨32,1,2,32,32,4,by decide,by decide,by decide,by decide⟩ :=
  not_arbitrates (by decide)

end Marks

end Pulpissimo.Interco.XbarBridge
