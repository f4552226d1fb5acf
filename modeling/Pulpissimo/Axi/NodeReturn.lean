import Mathlib.Tactic.SplitIfs
import Pulpissimo.Axi.NodeArb
import Pulpissimo.Axi.NodeDecode
import Pulpissimo.Lib.Machine
import Pulpissimo.Lib.Tickets

/-!
# The way back through the crossbar

A request goes out with the number of its master in front of its identifier.
`axi_address_decoder_BW` and `axi_address_decoder_BR` send a response to the master that
this number names, and the trees in `axi_BW_allocator` and `axi_BR_allocator` merge the
responses of all slaves. One definition stands for both kinds of responses. With one slave port
there is no tree.
-/

namespace Pulpissimo.Axi.NodeReturn

open Pulpissimo.Axi.NodeArb Pulpissimo.Axi.NodeDecode Pulpissimo.Machine Pulpissimo.Tickets

variable {N_INIT_PORT N_TARG_PORT AXI_ID_IN : ℕ} {α : Type}

/-- An identifier at a slave port. -/
abbrev OutId (N_TARG_PORT AXI_ID_IN : ℕ) : Type := BitVec (LOG_MASTER N_TARG_PORT+AXI_ID_IN)

/-- The identifier with which a request of a master goes out. -/
def outId (m : Fin N_TARG_PORT) (id : BitVec AXI_ID_IN) : OutId N_TARG_PORT AXI_ID_IN :=
  BitVec.ofNat (LOG_MASTER N_TARG_PORT) m.val++id

/-- What a slave port gives back, its data and the end of the burst apart. -/
structure Reply (N_TARG_PORT AXI_ID_IN : ℕ) (α : Type) where
  valid_i : Bool
  id_i : OutId N_TARG_PORT AXI_ID_IN
  aux : α

section Decoder

variable (id : OutId N_TARG_PORT AXI_ID_IN)

def ROUTING : BitVec (LOG_MASTER N_TARG_PORT) := id.extractLsb' AXI_ID_IN _

def req_mask (m : Fin N_TARG_PORT) : Bool := (ROUTING id).toNat==m.val

end Decoder

section Allocator

variable (RR_FLAG : BitVec (LOG_MASTER N_INIT_PORT)) (valid_i : Fin N_INIT_PORT → Bool)

def valid_ARB_TREE : Bool :=
  if h : N_INIT_PORT=1 then valid_i ⟨0,by omega⟩ else data_req_o valid_i

/-- Identifier and data behind the tree. -/
def data_ARB_TREE {β : Type} (x : Fin N_INIT_PORT → β) (dummy : β) : β :=
  if h : N_INIT_PORT=1 then x ⟨0,by omega⟩ else data_o RR_FLAG valid_i x dummy

/-- Ready of an allocator to the slave ports. A single slave port sees the ready of the master. -/
def ready_o (ready_i ready_ARB_TREE : Bool) (j : Fin N_INIT_PORT) : Bool :=
  if N_INIT_PORT=1 then ready_i else data_gnt_o RR_FLAG valid_i ready_ARB_TREE j

/-- The slave port whose response gets through. -/
def source : Option (Fin N_INIT_PORT) :=
  if h : N_INIT_PORT=1 then if valid_i ⟨0,by omega⟩ then some ⟨0,by omega⟩ else none
  else chosen RR_FLAG valid_i

end Allocator

section Network

variable (RR_FLAG : Fin N_TARG_PORT → BitVec (LOG_MASTER N_INIT_PORT))
  (x : Fin N_INIT_PORT → Reply N_TARG_PORT AXI_ID_IN α)
  (ready_i ready_ARB_TREE : Fin N_TARG_PORT → Bool)

/-- A slave's response, as the port of a master sees it. -/
def valid_o (m : Fin N_TARG_PORT) (j : Fin N_INIT_PORT) : Bool :=
  (x j).valid_i && req_mask (x j).id_i m

/-- Ready at a slave port. -/
def ready_slave (j : Fin N_INIT_PORT) : Bool :=
  any fun m => ready_o (RR_FLAG m) (valid_o x m) (ready_i m) (ready_ARB_TREE m) j &&
    req_mask (x j).id_i m

def id_ARB_TREE (m : Fin N_TARG_PORT) : BitVec AXI_ID_IN :=
  data_ARB_TREE (RR_FLAG m) (valid_o x m) (fun j => (x j).id_i.setWidth AXI_ID_IN) 0

def AUX_VECTOR_OUT (dummy : α) (m : Fin N_TARG_PORT) : α :=
  data_ARB_TREE (RR_FLAG m) (valid_o x m) (fun j => (x j).aux) dummy

/-- A slave port hands over what it gives back. -/
def handed (j : Fin N_INIT_PORT) : Bool :=
  (x j).valid_i && ready_slave RR_FLAG x ready_i ready_ARB_TREE j

end Network

section Ids

theorem ROUTING_outId (m : Fin N_TARG_PORT) (id : BitVec AXI_ID_IN) :
    (ROUTING (outId m id)).toNat=m.val := by
  have hfit : m.val<2^LOG_MASTER N_TARG_PORT := m.isLt.trans_le (Nat.le_pow_clog (by omega) _)
  rw [ROUTING,outId,BitVec.extractLsb'_append_eq_left,BitVec.toNat_ofNat,Nat.mod_eq_of_lt hfit]

theorem setWidth_outId (m : Fin N_TARG_PORT) (id : BitVec AXI_ID_IN) :
    (outId m id).setWidth AXI_ID_IN=id := BitVec.setWidth_append_eq_right

theorem req_mask_outId (m k : Fin N_TARG_PORT) (id : BitVec AXI_ID_IN) :
    req_mask (outId m id) k=true ↔ k=m := by
  rw [req_mask,ROUTING_outId,beq_iff_eq,Fin.ext_iff]
  exact eq_comm

theorem outId_inj {m k : Fin N_TARG_PORT} {id id' : BitVec AXI_ID_IN} :
    outId m id=outId k id' ↔ m=k ∧ id=id' := by
  refine ⟨fun h => ⟨?_,?_⟩,fun h => by rw [h.1,h.2]⟩
  · rw [Fin.ext_iff,←ROUTING_outId m id,h,ROUTING_outId]
  · rw [←setWidth_outId m id,h,setWidth_outId]

end Ids

section Allocators

variable {RR_FLAG : BitVec (LOG_MASTER N_INIT_PORT)} {valid_i : Fin N_INIT_PORT → Bool}
  {j : Fin N_INIT_PORT}

theorem source_valid (h : source RR_FLAG valid_i=some j) : valid_i j=true := by
  unfold source at h
  split_ifs at h with hone hvalid
  · exact Option.some.inj h ▸ hvalid
  · exact chosen_requests h

theorem valid_ARB_TREE_iff (RR_FLAG : BitVec (LOG_MASTER N_INIT_PORT)) :
    valid_ARB_TREE valid_i=true ↔ ∃ j,source RR_FLAG valid_i=some j := by
  unfold valid_ARB_TREE source
  split_ifs with hone hvalid
  · exact ⟨fun _ => ⟨_,rfl⟩,fun _ => hvalid⟩
  · exact ⟨fun h => absurd h hvalid,nofun⟩
  · exact data_req_o_iff RR_FLAG

theorem data_ARB_TREE_eq (h : source RR_FLAG valid_i=some j) {β : Type} (x : Fin N_INIT_PORT → β)
    (dummy : β) : data_ARB_TREE RR_FLAG valid_i x dummy=x j := by
  unfold source at h
  unfold data_ARB_TREE
  split_ifs at h with hone hvalid
  · rw [dif_pos hone,Option.some.inj h]
  · rw [dif_neg hone]
    exact data_o_eq h _ _

/-- A slave's response is taken exactly if it is the one that gets through and is taken there. -/
theorem ready_o_iff {ready_i ready_ARB_TREE : Bool} (hvalid : valid_i j=true)
    (hone : N_INIT_PORT=1 → ready_i=ready_ARB_TREE) :
    ready_o RR_FLAG valid_i ready_i ready_ARB_TREE j=true ↔
      ready_ARB_TREE=true ∧ source RR_FLAG valid_i=some j := by
  unfold ready_o source
  split_ifs with h1 h0
  · have hj : (⟨0,by omega⟩ : Fin N_INIT_PORT)=j := Fin.ext (show 0=j.val by omega)
    rw [hone h1,hj]
    exact ⟨fun h => ⟨h,rfl⟩,fun h => h.1⟩
  · have hj : (⟨0,by omega⟩ : Fin N_INIT_PORT)=j := Fin.ext (show 0=j.val by omega)
    exact absurd hvalid (hj ▸ h0)
  · have htwo : 2 ≤ N_INIT_PORT := by
      have hpos := j.pos
      omega
    exact data_gnt_o_iff htwo

end Allocators

section Responses

variable {RR_FLAG : Fin N_TARG_PORT → BitVec (LOG_MASTER N_INIT_PORT)}
  {x : Fin N_INIT_PORT → Reply N_TARG_PORT AXI_ID_IN α}
  {ready_i ready_ARB_TREE : Fin N_TARG_PORT → Bool} {j : Fin N_INIT_PORT} {m : Fin N_TARG_PORT}
  {id : BitVec AXI_ID_IN}

/-- A response is handed over exactly if it gets through at the master that it names. -/
theorem handed_iff (hone : N_INIT_PORT=1 → valid_o x m j=true → ready_i m=ready_ARB_TREE m)
    (hid : (x j).id_i=outId m id) : handed RR_FLAG x ready_i ready_ARB_TREE j=true ↔
      ready_ARB_TREE m=true ∧ source (RR_FLAG m) (valid_o x m)=some j := by
  rw [handed,Bool.and_eq_true_iff,ready_slave,any_iff]
  constructor
  · rintro ⟨hvalid,k,hk⟩
    rw [Bool.and_eq_true_iff,hid,req_mask_outId] at hk
    rcases hk with ⟨hready,rfl⟩
    have hsees : valid_o x k j=true := by
      rw [valid_o,hvalid,hid]
      exact (req_mask_outId k k id).mpr rfl
    exact (ready_o_iff hsees fun h1 => hone h1 hsees).mp hready
  · rintro ⟨hready,hsource⟩
    have hsees := source_valid hsource
    refine ⟨(Bool.and_eq_true_iff.mp hsees).1,m,?_⟩
    rw [Bool.and_eq_true_iff,hid,req_mask_outId]
    exact ⟨(ready_o_iff hsees fun h1 => hone h1 hsees).mpr ⟨hready,hsource⟩,rfl⟩

/-- A master that is named sees its own number in front. -/
theorem outId_of_mask {e : OutId N_TARG_PORT AXI_ID_IN} (h : req_mask e m=true) :
    e=outId m (e.setWidth AXI_ID_IN) := by
  have hm : ROUTING e=BitVec.ofNat (LOG_MASTER N_TARG_PORT) m.val := by
    rw [←beq_iff_eq.mp h,BitVec.ofNat_toNat,BitVec.setWidth_eq]
  rw [outId,←hm,ROUTING]
  refine BitVec.eq_of_getLsbD_eq fun k hk => ?_
  rw [BitVec.getLsbD_append,BitVec.getLsbD_setWidth,BitVec.getLsbD_extractLsb']
  split_ifs with hlow
  · rw [decide_eq_true hlow,Bool.true_and]
  · rw [decide_eq_true (by omega),Bool.true_and,Nat.add_sub_cancel' (by omega)]

end Responses

section Requests

/-- A request that a slave took, with the time as its ticket. -/
structure Request (N_TARG_PORT AXI_ID_IN : ℕ) where
  ticket : ℕ
  master : Fin N_TARG_PORT
  id : BitVec AXI_ID_IN
deriving DecidableEq

/-- What goes through the crossbar in a cycle. -/
structure Cycle (N_INIT_PORT N_TARG_PORT AXI_ID_IN : ℕ) (α : Type) where
  /-- The request that a slave takes: its master, the identifier there and the one at the slave. -/
  taken : Fin N_INIT_PORT → Option (Fin N_TARG_PORT×BitVec AXI_ID_IN×OutId N_TARG_PORT AXI_ID_IN)
  /-- The response that a slave hands over. -/
  given : Fin N_INIT_PORT → Option (OutId N_TARG_PORT AXI_ID_IN×α)
  /-- The response of a slave that a master takes. -/
  got : Fin N_TARG_PORT → Option (BitVec AXI_ID_IN×α)

variable (last : α → Bool) (cyc : ℕ → Cycle N_INIT_PORT N_TARG_PORT AXI_ID_IN α)

/-- The slave's last response with an identifier. -/
def closes (c : Cycle N_INIT_PORT N_TARG_PORT AXI_ID_IN α) (j : Fin N_INIT_PORT)
    (e : OutId N_TARG_PORT AXI_ID_IN) : Bool := (c.given j).any fun x => x.1==e && last x.2

/-- The request with an identifier that a slave takes. -/
def opens (c : Cycle N_INIT_PORT N_TARG_PORT AXI_ID_IN α) (now : ℕ) (j : Fin N_INIT_PORT)
    (e : OutId N_TARG_PORT AXI_ID_IN) : List (Request N_TARG_PORT AXI_ID_IN) :=
  match c.taken j with
  | some (m,id,e') => if e'=e then [⟨now,m,id⟩] else []
  | none => []

/-- Open requests of every slave by the identifier that it sees. It responds to those with one
identifier in their order. -/
def queues : ℕ → Fin N_INIT_PORT → OutId N_TARG_PORT AXI_ID_IN →
    List (Request N_TARG_PORT AXI_ID_IN)
  | 0,_,_ => []
  | t+1,j,e => rest (closes last (cyc t) j e) (queues t j e)++opens (cyc t) t j e

/-- Slaves give nothing that is not asked for. -/
def Answers : Prop := ∀ t j e a,(cyc t).given j=some (e,a) → queues last cyc t j e≠[]

/-- Requests of a master with an identifier that a slave takes. -/
def accepted (j : Fin N_INIT_PORT) (m : Fin N_TARG_PORT) (id : BitVec AXI_ID_IN) (t : ℕ) : List ℕ :=
  match (cyc t).taken j with
  | some (m',id',_) => if m'=m ∧ id'=id then [t] else []
  | none => []

/-- Requests of a master with an identifier that a slave ends the response to. -/
def completed (j : Fin N_INIT_PORT) (m : Fin N_TARG_PORT) (id : BitVec AXI_ID_IN) (t : ℕ) : List ℕ :=
  match (cyc t).given j with
  | some (e,a) =>
    if last a then
      ((queues last cyc t j e).head?.filter fun r => r.master==m && r.id==id).toList.map
        Request.ticket
    else []
  | none => []

section Network

variable (RR_FLAG : Fin N_TARG_PORT → BitVec (LOG_MASTER N_INIT_PORT))
  (x : Fin N_INIT_PORT → Reply N_TARG_PORT AXI_ID_IN α)
  (ready_i ready_ARB_TREE : Fin N_TARG_PORT → Bool)

/-- The response that a slave port hands over. -/
def giving (j : Fin N_INIT_PORT) : Option (OutId N_TARG_PORT AXI_ID_IN×α) :=
  if handed RR_FLAG x ready_i ready_ARB_TREE j then some ((x j).id_i,(x j).aux) else none

/-- The response that a master takes from the tree. -/
def getting (dummy : α) (m : Fin N_TARG_PORT) : Option (BitVec AXI_ID_IN×α) :=
  if valid_ARB_TREE (valid_o x m) && ready_ARB_TREE m then
    some (id_ARB_TREE RR_FLAG x m,AUX_VECTOR_OUT RR_FLAG x dummy m)
  else none

end Network

/-- All responses of slaves come back to the masters. -/
structure Returned : Prop where
  /-- A request goes out with the number of its master. -/
  out : ∀ t j m id e,(cyc t).taken j=some (m,id,e) → e=outId m id
  /-- A response that a slave hands over gets to the master that asked, as an answer to what it
  asked first there with this identifier. -/
  back : ∀ t j e a,(cyc t).given j=some (e,a) → ∃ r l,queues last cyc t j e=r::l ∧
    (cyc t).got r.master=some (r.id,a)
  /-- What a master takes, a slave hands over as an answer to what this master asked. -/
  only : ∀ t m id a,(cyc t).got m=some (id,a) → ∃ j r l,(cyc t).given j=some (outId m id,a) ∧
    queues last cyc t j (outId m id)=r::l ∧ r.master=m ∧ r.id=id
  /-- No two slaves hand over to one master. -/
  alone : ∀ t j j' m id id' a a',(cyc t).given j=some (outId m id,a) →
    (cyc t).given j'=some (outId m id',a') → j=j'
  /-- Responses of a slave to one master with one identifier end in the order of the requests. -/
  order : ∀ n j m id,logged (accepted cyc j m id) n=logged (completed last cyc j m id) n++
    (queues last cyc n j (outId m id)).map Request.ticket

/-- What the network does in one cycle. -/
structure Carries (c : Cycle N_INIT_PORT N_TARG_PORT AXI_ID_IN α) : Prop where
  out : ∀ j m id e,c.taken j=some (m,id,e) → e=outId m id
  back : ∀ j m id a,c.given j=some (outId m id,a) → c.got m=some (id,a)
  only : ∀ m id a,c.got m=some (id,a) → ∃ j,c.given j=some (outId m id,a)
  alone : ∀ j j' m id id' a a',c.given j=some (outId m id,a) →
    c.given j'=some (outId m id',a') → j=j'

end Requests

section Network

variable {RR_FLAG : Fin N_TARG_PORT → BitVec (LOG_MASTER N_INIT_PORT)}
  {x : Fin N_INIT_PORT → Reply N_TARG_PORT AXI_ID_IN α}
  {ready_i ready_ARB_TREE : Fin N_TARG_PORT → Bool} {dummy : α} {m : Fin N_TARG_PORT}
  {j : Fin N_INIT_PORT}

theorem getting_of_source (hready : ready_ARB_TREE m=true)
    (hsource : source (RR_FLAG m) (valid_o x m)=some j) :
    getting RR_FLAG x ready_ARB_TREE dummy m=
      some ((x j).id_i.setWidth AXI_ID_IN,(x j).aux) := by
  have hvalid := (valid_ARB_TREE_iff (RR_FLAG m)).mpr ⟨j,hsource⟩
  rw [getting,hvalid,hready,id_ARB_TREE,AUX_VECTOR_OUT,data_ARB_TREE_eq hsource,
    data_ARB_TREE_eq hsource]
  rfl

theorem giving_eq_some {e : OutId N_TARG_PORT AXI_ID_IN} {a : α}
    (h : giving RR_FLAG x ready_i ready_ARB_TREE j=some (e,a)) :
    handed RR_FLAG x ready_i ready_ARB_TREE j=true ∧ (x j).id_i=e ∧ (x j).aux=a := by
  unfold giving at h
  split_ifs at h with hhanded
  rw [Option.some.injEq,Prod.mk.injEq] at h
  exact ⟨hhanded,h⟩

/-- The decoders and the trees bring every response to the master that it names. -/
theorem carries_network {c : Cycle N_INIT_PORT N_TARG_PORT AXI_ID_IN α}
    (hout : ∀ j m id e,c.taken j=some (m,id,e) → e=outId m id)
    (hgive : c.given=giving RR_FLAG x ready_i ready_ARB_TREE)
    (hget : c.got=getting RR_FLAG x ready_ARB_TREE dummy)
    (hone : N_INIT_PORT=1 → ∀ m j,valid_o x m j=true → ready_i m=ready_ARB_TREE m) :
    Carries c := by
  have hsource : ∀ {j m id a},giving RR_FLAG x ready_i ready_ARB_TREE j=some (outId m id,a) →
      ready_ARB_TREE m=true ∧ source (RR_FLAG m) (valid_o x m)=some j ∧
        (x j).id_i=outId m id ∧ (x j).aux=a := by
    intro j m id a hgiven
    rcases giving_eq_some hgiven with ⟨hhanded,hid,haux⟩
    rcases (handed_iff (fun h1 => hone h1 m j) hid).mp hhanded with ⟨hready,hsource⟩
    exact ⟨hready,hsource,hid,haux⟩
  refine ⟨hout,fun j m id a hgiven => ?_,fun m id a hgot => ?_,fun j j' m id id' a a' h h' => ?_⟩
  · rw [hgive] at hgiven
    rcases hsource hgiven with ⟨hready,hj,hid,haux⟩
    rw [hget,getting_of_source hready hj,hid,setWidth_outId,haux]
  · rw [hget] at hgot
    have hcond : (valid_ARB_TREE (valid_o x m) && ready_ARB_TREE m)=true := by
      by_contra hno
      rw [getting,if_neg hno] at hgot
      exact absurd hgot nofun
    rw [Bool.and_eq_true_iff] at hcond
    rcases (valid_ARB_TREE_iff (RR_FLAG m)).mp hcond.1 with ⟨j,hj⟩
    have hid := outId_of_mask (Bool.and_eq_true_iff.mp (source_valid hj)).2
    have hhanded := (handed_iff (fun h1 => hone h1 m j) hid).mpr ⟨hcond.2,hj⟩
    rw [getting_of_source hcond.2 hj,Option.some.injEq,Prod.mk.injEq] at hgot
    refine ⟨j,?_⟩
    rw [hgive,giving,if_pos hhanded,←hgot.1,←hgot.2,←hid]
  · rw [hgive] at h h'
    have hj := (hsource h).2.1
    rw [(hsource h').2.1] at hj
    exact (Option.some.inj hj).symm

end Network

section Runs

variable {last : α → Bool} {cyc : ℕ → Cycle N_INIT_PORT N_TARG_PORT AXI_ID_IN α}

/-- Slaves that offer only what is asked for give nothing else. -/
theorem answers_of_valid {RR_FLAG : ℕ → Fin N_TARG_PORT → BitVec (LOG_MASTER N_INIT_PORT)}
    {x : ℕ → Fin N_INIT_PORT → Reply N_TARG_PORT AXI_ID_IN α}
    {ready_i ready_ARB_TREE : ℕ → Fin N_TARG_PORT → Bool}
    (hgive : ∀ t,(cyc t).given=giving (RR_FLAG t) (x t) (ready_i t) (ready_ARB_TREE t))
    (h : ∀ t j,(x t j).valid_i=true → queues last cyc t j (x t j).id_i≠[]) :
    Answers last cyc := by
  intro t j e a hgiven
  rw [hgive] at hgiven
  rcases giving_eq_some hgiven with ⟨hhanded,hid,-⟩
  exact hid ▸ h t j (Bool.and_eq_true_iff.mp hhanded).1

theorem queues_outId (h : ∀ t,Carries (cyc t)) (n : ℕ) (j : Fin N_INIT_PORT)
    (e : OutId N_TARG_PORT AXI_ID_IN) (r : Request N_TARG_PORT AXI_ID_IN)
    (hr : r ∈ queues last cyc n j e) : e=outId r.master r.id := by
  induction n with
  | zero => exact absurd hr List.not_mem_nil
  | succ n ih =>
    rcases List.mem_append.mp hr with hr | hr
    · exact ih (mem_of_mem_rest hr)
    · unfold opens at hr
      split at hr
      · rename_i m id e' htaken
        split_ifs at hr with he
        · rw [List.mem_singleton.mp hr,←he]
          exact (h n).out j m id e' htaken
        · exact absurd hr List.not_mem_nil
      · exact absurd hr List.not_mem_nil

theorem opens_eq_accepted (h : ∀ t,Carries (cyc t)) (t : ℕ) (j : Fin N_INIT_PORT)
    (m : Fin N_TARG_PORT) (id : BitVec AXI_ID_IN) :
    (opens (cyc t) t j (outId m id)).map Request.ticket=accepted cyc j m id t := by
  unfold opens accepted
  cases htaken : (cyc t).taken j with
  | none => rfl
  | some y =>
    rcases y with ⟨m',id',e⟩
    dsimp only
    simp only [(h t).out j m' id' e htaken,outId_inj]
    split_ifs <;> rfl

theorem queues_completed (h : ∀ t,Carries (cyc t)) (hA : Answers last cyc) (t : ℕ)
    (j : Fin N_INIT_PORT) (m : Fin N_TARG_PORT) (id : BitVec AXI_ID_IN) :
    (queues last cyc t j (outId m id)).map Request.ticket=completed last cyc j m id t++
      (rest (closes last (cyc t) j (outId m id)) (queues last cyc t j (outId m id))).map
        Request.ticket := by
  unfold completed closes
  cases hgiven : (cyc t).given j with
  | none => rfl
  | some y =>
    rcases y with ⟨e,a⟩
    rcases List.exists_cons_of_ne_nil (hA t j e a hgiven) with ⟨r,l,hq⟩
    have he := queues_outId h t j e r (hq ▸ List.mem_cons_self)
    dsimp only [Option.any_some]
    cases hlast : last a with
    | false =>
      rw [Bool.and_false]
      rfl
    | true =>
      rw [if_pos rfl,Bool.and_true,hq,List.head?_cons]
      by_cases hm : r.master=m ∧ r.id=id
      · have heq : e=outId m id := by rw [he,hm.1,hm.2]
        have hfilter : (r.master==m && r.id==id)=true := by
          rw [Bool.and_eq_true_iff,beq_iff_eq,beq_iff_eq]
          exact hm
        rw [←heq,hq,Option.filter_some,if_pos hfilter,beq_self_eq_true]
        rfl
      · have hne : (e==outId m id)=false := by
          rw [beq_eq_false_iff_ne,he,Ne,outId_inj]
          exact hm
        have hfilter : ¬(r.master==m && r.id==id)=true := by
          rw [Bool.and_eq_true_iff,beq_iff_eq,beq_iff_eq]
          exact hm
        rw [hne,Option.filter_some,if_neg hfilter]
        rfl

theorem returned_of_carries (h : ∀ t,Carries (cyc t)) (hA : Answers last cyc) :
    Returned last cyc := by
  refine ⟨fun t => (h t).out,fun t j e a hgiven => ?_,fun t m id a hgot => ?_,
    fun t => (h t).alone,fun n j m id => logged_ledger
      (l:=fun n => (queues last cyc n j (outId m id)).map Request.ticket) rfl fun t _ => ?_⟩
  · rcases List.exists_cons_of_ne_nil (hA t j e a hgiven) with ⟨r,l,hq⟩
    have he := queues_outId h t j e r (hq ▸ List.mem_cons_self)
    exact ⟨r,l,hq,(h t).back j r.master r.id a (he ▸ hgiven)⟩
  · rcases (h t).only m id a hgot with ⟨j,hgiven⟩
    rcases List.exists_cons_of_ne_nil (hA t j _ a hgiven) with ⟨r,l,hq⟩
    have he := queues_outId h t j _ r (hq ▸ List.mem_cons_self)
    rw [outId_inj] at he
    exact ⟨j,r,l,hgiven,hq,he.1.symm,he.2.symm⟩
  · rw [queues_completed h hA,queues,List.map_append,opens_eq_accepted h,List.append_assoc]

end Runs

end Pulpissimo.Axi.NodeReturn
