import Pulpissimo.Axi.NodeWrite
import Pulpissimo.Lib.Machine
import Pulpissimo.Lib.Tickets

/-!
# Ways of the write bursts

Every write that a master hands over waits for its burst, in an order at the master and,
if a slave took it, in an order at that slave. The two orders are kept beside the crossbar, with
the time as a ticket, together with the numbers of writes and responses. The queues of the
crossbar follow the orders as long as responses are counted right, which they are
unless a write comes in while an error response still waits to be taken.
-/

namespace Pulpissimo.Axi.NodeWrite

open Pulpissimo.Axi.NodeDecode Pulpissimo.Bits Pulpissimo.CommonCells Pulpissimo.Machine
  Pulpissimo.Tickets

variable {w : Widths}

section Transfers

variable (n : Node w) (i : Input w)

/-- A master hands over a write address. -/
def aw_taken (m : Fin w.N_TARG_PORT) : Bool := (i.master m).awvalid_i && awready_o n i m

/-- The master whose write address a slave takes. -/
def aw_given (j : Fin w.N_INIT_PORT) : Option (Fin w.N_TARG_PORT) :=
  if push_ID_o n i j then chosen n i j else none

/-- The slave that takes a master's write address. -/
def aw_dest (m : Fin w.N_TARG_PORT) : Option (Fin w.N_INIT_PORT) :=
  (List.finRange w.N_INIT_PORT).find? fun j => aw_given n i j==some m

/-- A master hands over write data. -/
def w_taken (m : Fin w.N_TARG_PORT) : Bool := (i.master m).wvalid_i && wready_o n i m

/-- A master takes a response of a slave. -/
def b_taken (m : Fin w.N_TARG_PORT) : Bool :=
  (i.master m).bvalid_ARB_TREE && bready_ARB_TREE n i m

end Transfers

/-- The crossbar with the orders of its bursts. -/
structure Watch (w : Widths) where
  node : Node w
  /-- Writes of a master whose burst is not over, with the slave that took them. -/
  pend : Fin w.N_TARG_PORT → List (ℕ×Option (Fin w.N_INIT_PORT))
  /-- Writes that a slave took and whose burst is not over. -/
  pendAt : Fin w.N_INIT_PORT → List (ℕ×Fin w.N_TARG_PORT)
  /-- Bursts that a slave got whole and did not yet respond to. -/
  done : Fin w.N_TARG_PORT → ℕ
  /-- Writes that slaves took. -/
  forwarded : Fin w.N_TARG_PORT → ℕ
  /-- Responses of slaves that the master took. -/
  delivered : Fin w.N_TARG_PORT → ℕ
  now : ℕ

/-- The burst in front goes to a slave. -/
def frontMapped {S : Type*} : List (ℕ×Option S) → Bool
  | (_,some _)::_ => true
  | _ => false

/-- The orders of writes that slaves took. -/
def mapped {S : Type*} (p : List (ℕ×Option S)) : List (ℕ×S) :=
  p.filterMap fun x => x.2.map (x.1,·)

section Watch

variable (s : Watch w) (i : Input w)

/-- The last transfer of a master's burst. -/
def ends (m : Fin w.N_TARG_PORT) : Bool := w_taken s.node i m && (i.master m).w_i.wlast

/-- The last transfer of a slave's burst. -/
def endsAt (j : Fin w.N_INIT_PORT) : Bool := w_given s.node i j && (w_o s.node i j).wlast

/-- The write that a master hands over. -/
def newWrite (m : Fin w.N_TARG_PORT) : Option (Option (Fin w.N_INIT_PORT)) :=
  if aw_taken s.node i m then some (aw_dest s.node i m) else none

/-- One clock edge. -/
def Watch.step : Watch w where
  node := NodeWrite.step s.node i
  pend := fun m => move (ends s i m) (newWrite s i m) s.now (s.pend m)
  pendAt := fun j => move (endsAt s i j) (aw_given s.node i j) s.now (s.pendAt j)
  done := fun m => s.done m+(ends s i m && frontMapped (s.pend m)).toNat-
    (b_taken s.node i m).toNat
  forwarded := fun m => s.forwarded m+(aw_dest s.node i m).isSome.toNat
  delivered := fun m => s.delivered m+(b_taken s.node i m).toNat
  now := s.now+1

/-- After reset. -/
def start : Watch w := ⟨reset,fun _ => [],fun _ => [],fun _ => 0,fun _ => 0,fun _ => 0,0⟩

end Watch

section Orders

variable {S : Type*} {p : List (ℕ×Option S)}

theorem mapped_append (p p' : List (ℕ×Option S)) : mapped (p++p')=mapped p++mapped p' :=
  List.filterMap_append

/-- What becomes of the orders at slaves when a burst ends and a write comes in. -/
theorem mapped_move (taken : Bool) (new : Option (Option S)) (now : ℕ) :
    mapped (move taken new now p)=move (taken && frontMapped p) new.join now (mapped p) := by
  have hnew : mapped (new.map (now,·)).toList=(new.join.map (now,·)).toList := by
    rcases new with _ | _ | j <;> rfl
  have hrest : mapped (rest taken p)=rest (taken && frontMapped p) (mapped p) := by
    cases taken with
    | false => rfl
    | true =>
      rcases p with _ | ⟨⟨q,_ | j⟩,l⟩ <;> rfl
  rw [move,move,mapped_append,hrest,hnew]

theorem frontMapped_iff : frontMapped p=true ↔ ∃ q j l,p=(q,some j)::l := by
  rcases p with _ | ⟨⟨q,_ | j⟩,l⟩
  · exact ⟨nofun,nofun⟩
  · exact ⟨nofun,fun ⟨_,_,_,h⟩ => by simp at h⟩
  · exact ⟨fun _ => ⟨q,j,l,rfl⟩,fun _ => rfl⟩

end Orders

/-- Orders that a master can have in a state of its decoder: a failing write comes last, and no
other follows until its data are thrown away. -/
def Shape {S : Type*} : AwFsm → List (ℕ×Option S) → Prop
  | .OPERATIVE,p => ∀ x ∈ p,x.2.isSome=true
  | .COMPLETE_PENDING,p => ∃ l q,p=l++[(q,none)] ∧ ∀ x ∈ l,x.2.isSome=true
  | .ACCEPT_WDATA,p => ∃ q,p=[(q,none)]
  | .COMPLETE_ERROR_RESP,p => p=[]

section Shapes

variable {S : Type*} {p l : List (ℕ×Option S)} {CS : AwFsm}

theorem mapped_eq_nil (hl : ∀ x ∈ l,x.2.isSome=true) (h : mapped l=[]) : l=[] := by
  rcases l with _ | ⟨⟨q,_ | j⟩,l⟩
  · rfl
  · exact absurd (hl _ List.mem_cons_self) Bool.false_ne_true
  · exact absurd h (List.cons_ne_nil _ _)

theorem frontMapped_of_all (hl : ∀ x ∈ l,x.2.isSome=true) (hne : l≠[]) (p : List (ℕ×Option S)) :
    frontMapped (l++p)=true := by
  rcases l with _ | ⟨⟨q,_ | j⟩,l⟩
  · exact absurd rfl hne
  · exact absurd (hl _ List.mem_cons_self) Bool.false_ne_true
  · rfl

/-- In all these orders a write at a slave is in front if there is one. -/
theorem Shape.frontMapped_iff (h : Shape CS p) : frontMapped p=true ↔ mapped p≠[] := by
  constructor
  · intro hfront
    rcases NodeWrite.frontMapped_iff.mp hfront with ⟨q,j,l,rfl⟩
    exact List.cons_ne_nil _ _
  · intro hne
    cases CS with
    | OPERATIVE =>
      have hp : p≠[] := fun h => hne (by rw [h]; rfl)
      rw [←List.append_nil p]
      exact frontMapped_of_all h hp []
    | COMPLETE_PENDING =>
      rcases h with ⟨l,q,rfl,hl⟩
      have hl0 : l≠[] := fun h0 => hne (by rw [h0]; rfl)
      exact frontMapped_of_all hl hl0 _
    | ACCEPT_WDATA =>
      rcases h with ⟨q,rfl⟩
      exact absurd rfl hne
    | COMPLETE_ERROR_RESP =>
      rw [show p=[] from h] at hne
      exact absurd rfl hne

theorem Shape.handles (h : Shape CS p) (hne : mapped p≠[]) :
    CS=.OPERATIVE ∨ CS=.COMPLETE_PENDING := by
  cases CS with
  | OPERATIVE => exact Or.inl rfl
  | COMPLETE_PENDING => exact Or.inr rfl
  | ACCEPT_WDATA =>
    rcases h with ⟨q,rfl⟩
    exact absurd rfl hne
  | COMPLETE_ERROR_RESP =>
    rw [show p=[] from h] at hne
    exact absurd rfl hne

end Shapes

/-- A master port follows its orders, and its counter the responses to come. -/
structure MasterInv (r : Resp w) (p : List (ℕ×Option (Fin w.N_INIT_PORT)))
    (done forwarded delivered : ℕ) : Prop where
  dest : GenericFifo.Stores r.DEST_FIFO
    ((mapped p).map fun x => BitVec.twoPow w.N_INIT_PORT x.2.val)
  shape : Shape r.aw_CS p
  count : r.outstanding_counter.toNat=(mapped p).length+done
  account : r.outstanding_counter.toNat+delivered=forwarded
  gnt : r.bw_CS=.ERROR_SINGLE → r.aw_CS=.OPERATIVE ∨ r.aw_CS=.COMPLETE_ERROR_RESP
  spent : r.aw_CS=.ACCEPT_WDATA ∨ r.aw_CS=.COMPLETE_ERROR_RESP ∨ r.bw_CS=.ERROR_SINGLE →
    r.outstanding_counter=0#10
  single : r.bw_CS≠.ERROR_BURST

/-- A slave port follows its orders. -/
structure SlaveInv (q : Req w) (l : List (ℕ×Fin w.N_TARG_PORT)) : Prop where
  ids : GenericFifo.Stores q.ID_FIFO (l.map fun x => ID_in x.2)
  burst : q.CS=.BURST → l≠[]

/-- The crossbar follows the orders. -/
structure Inv (s : Watch w) : Prop where
  master : ∀ m,MasterInv (s.node.resp m) (s.pend m) (s.done m) (s.forwarded m) (s.delivered m)
  slave : ∀ j,SlaveInv (s.node.req j) (s.pendAt j)
  linked : Linked (fun m => mapped (s.pend m)) s.pendAt s.now

section Data

variable {s : Watch w} {i : Input w} {m : Fin w.N_TARG_PORT} {j : Fin w.N_INIT_PORT}

theorem toNat_ID_in (m : Fin w.N_TARG_PORT) :
    ((ID_in m).extractLsb' w.N_TARG_PORT w.LOG_N_TARG).toNat=m.val := by
  have hfit : m.val<2^w.LOG_N_TARG := m.isLt.trans_le (Nat.le_pow_clog (by omega) _)
  rw [ID_in,BitVec.extractLsb'_append_eq_left,BitVec.toNat_ofNat,Nat.mod_eq_of_lt hfit]

theorem getLsbD_ID_in (m k : Fin w.N_TARG_PORT) :
    ((ID_in m).setWidth w.N_TARG_PORT).getLsbD k.val=decide (k=m) := by
  rw [ID_in,BitVec.setWidth_append_eq_right,BitVec.getLsbD_twoPow,decide_eq_true m.isLt,
    Bool.true_and,decide_eq_decide,Fin.ext_iff]
  exact eq_comm

section Slave

variable {n : Node w} {l : List (ℕ×Fin w.N_TARG_PORT)}

theorem slave_empty (h : SlaveInv (n.req j) []) : wvalid_slave n i j=false ∧
    ∀ k,wready_req n i j k=false := by
  have hvalid : valid_ID n j=false :=
    Bool.not_eq_true _ ▸ fun hv => (h.ids.valid_o_iff w.depth_pow).mp hv rfl
  have hCS : ((n.req j).CS==.BURST)=false :=
    beq_eq_false_iff_ne.mpr fun hCS => h.burst hCS rfl
  refine ⟨?_,fun k => ?_⟩
  · rw [wvalid_slave,hvalid,hCS]
    rfl
  · rw [wready_req,hvalid,Bool.and_false]

theorem slave_valid {q : ℕ} (h : SlaveInv (n.req j) ((q,m)::l)) :
    valid_ID n j=true ∧ ID_int n j=ID_in m :=
  ⟨(h.ids.valid_o_iff w.depth_pow).mpr (List.cons_ne_nil _ _),h.ids.data_o_eq w.depth_pow rfl⟩

theorem slave_select {q : ℕ} (h : SlaveInv (n.req j) ((q,m)::l)) {α : Type}
    (x : Fin w.N_TARG_PORT → α) (dummy : α) : select n j x dummy=x m := by
  have hbin : (ID_int_BIN n j).toNat=m.val := by
    rw [ID_int_BIN,(slave_valid h).2]
    exact toNat_ID_in m
  unfold select
  simp only [hbin,m.isLt,dif_pos]

theorem slave_front {q : ℕ} (h : SlaveInv (n.req j) ((q,m)::l)) :
    wvalid_slave n i j=wvalid_o n i m j ∧ w_o n i j=(i.master m).w_i ∧
      ∀ k,wready_req n i j k=((i.slave j).wready_i && decide (k=m)) := by
  rcases slave_valid h with ⟨hvalid,hid⟩
  refine ⟨?_,slave_select h _ _,fun k => ?_⟩
  · rw [wvalid_slave,hvalid,Bool.or_true,Bool.true_and,slave_select h]
  · rw [wready_req,hvalid,Bool.and_true,ID_int_OH,hid,getLsbD_ID_in]

end Slave

section Master

variable {n : Node w} {p : List (ℕ×Option (Fin w.N_INIT_PORT))} {done forwarded delivered : ℕ}

theorem master_empty (h : MasterInv (n.resp m) p done forwarded delivered) (hp : mapped p=[]) :
    wvalid_o n i m j=false := by
  have hvalid : GenericFifo.valid_o (n.resp m).DEST_FIFO=false := by
    rw [←Bool.not_eq_true,h.dest.valid_o_iff w.depth_pow,hp]
    exact fun hne => hne rfl
  rw [wvalid_o,hvalid,Bool.and_false,Bool.false_and,Bool.and_false]

/-- The front of the queue of slaves. -/
theorem master_dest (h : MasterInv (n.resp m) p done forwarded delivered) {q : ℕ}
    {k : Fin w.N_INIT_PORT} {l : List (ℕ×Fin w.N_INIT_PORT)} (hp : mapped p=(q,k)::l) :
    GenericFifo.valid_o (n.resp m).DEST_FIFO=true ∧ DEST_int n m=BitVec.twoPow _ k.val ∧
      handle_error_o (n.resp m)=false := by
  refine ⟨?_,?_,?_⟩
  · rw [h.dest.valid_o_iff w.depth_pow,hp]
    exact List.cons_ne_nil _ _
  · exact h.dest.data_o_eq w.depth_pow (by rw [hp]; rfl)
  · have hne : mapped p≠[] := by rw [hp]; exact List.cons_ne_nil _ _
    rcases h.shape.handles hne with hCS | hCS <;> rw [handle_error_o,hCS] <;> rfl

theorem getLsbD_dest (j k : Fin w.N_INIT_PORT) :
    (BitVec.twoPow w.N_INIT_PORT k.val).getLsbD j.val=decide (j=k) := by
  rw [BitVec.getLsbD_twoPow,decide_eq_true k.isLt,Bool.true_and,decide_eq_decide,Fin.ext_iff]
  exact eq_comm

theorem master_front (h : MasterInv (n.resp m) p done forwarded delivered) {q : ℕ}
    {k : Fin w.N_INIT_PORT} {l : List (ℕ×Fin w.N_INIT_PORT)} (hp : mapped p=(q,k)::l) :
    wvalid_o n i m j=((i.master m).wvalid_i && decide (j=k)) ∧
      (wready_o n i m=true ↔ wready_req n i k m=true) := by
  rcases master_dest h hp with ⟨hvalid,hdest,hhandle⟩
  constructor
  · rw [wvalid_o,hhandle,hvalid,hdest,getLsbD_dest,Bool.and_true]
    rfl
  · rw [wready_o,hhandle,if_neg Bool.false_ne_true,any_iff]
    constructor
    · rintro ⟨k',hk'⟩
      rw [hdest,getLsbD_dest,Bool.and_eq_true_iff,decide_eq_true_iff] at hk'
      exact hk'.2 ▸ hk'.1
    · intro hk
      refine ⟨k,?_⟩
      rw [hk,hdest,getLsbD_dest,decide_eq_true rfl]
      rfl

end Master

/-- The orders in front of a master and of a slave are each other's. -/
def Meet (s : Watch w) (m : Fin w.N_TARG_PORT) (j : Fin w.N_INIT_PORT) : Prop :=
  ∃ q l r,mapped (s.pend m)=(q,j)::l ∧ s.pendAt j=(q,m)::r

theorem meet_of_fronts (h : Inv s) {q q' : ℕ} {l : List (ℕ×Fin w.N_INIT_PORT)}
    {r : List (ℕ×Fin w.N_TARG_PORT)} (hl : mapped (s.pend m)=(q,j)::l)
    (hr : s.pendAt j=(q',m)::r) : Meet s m j := by
  have heq := h.linked.ticket_eq hl hr
  exact ⟨q,l,r,hl,heq ▸ hr⟩

/-- A slave gets data only over orders that meet. -/
theorem wvalid_slave_iff (h : Inv s) : wvalid_slave s.node i j=true ↔
    ∃ m,Meet s m j ∧ (i.master m).wvalid_i=true := by
  have hslave := h.slave j
  constructor
  · intro hvalid
    cases hp : s.pendAt j with
    | nil =>
      rw [hp] at hslave
      exact absurd (hvalid.symm.trans (slave_empty hslave).1) (by decide)
    | cons x r =>
      rcases x with ⟨q,m⟩
      rw [hp] at hslave
      rw [(slave_front hslave).1] at hvalid
      cases hl : mapped (s.pend m) with
      | nil =>
        rw [master_empty (h.master m) hl] at hvalid
        exact absurd hvalid Bool.false_ne_true
      | cons y l =>
        rcases y with ⟨q',k⟩
        rw [(master_front (h.master m) hl).1,Bool.and_eq_true_iff,decide_eq_true_iff] at hvalid
        rcases hvalid with ⟨hvalid,rfl⟩
        exact ⟨m,meet_of_fronts h hl hp,hvalid⟩
  · rintro ⟨m,⟨q,l,r,hl,hr⟩,hvalid⟩
    rw [hr] at hslave
    rw [(slave_front hslave).1,(master_front (h.master m) hl).1,hvalid,decide_eq_true rfl]
    rfl

theorem w_o_eq (h : Inv s) (hmeet : Meet s m j) : w_o s.node i j=(i.master m).w_i := by
  rcases hmeet with ⟨q,l,r,-,hr⟩
  have hslave := h.slave j
  rw [hr] at hslave
  exact (slave_front hslave).2.1

theorem w_given_iff (h : Inv s) (hmeet : Meet s m j) :
    w_given s.node i j=((i.master m).wvalid_i && (i.slave j).wready_i) := by
  rcases hmeet with ⟨q,l,r,hl,hr⟩
  have hslave := h.slave j
  rw [hr] at hslave
  rw [w_given,(slave_front hslave).1,(master_front (h.master m) hl).1,decide_eq_true rfl,
    Bool.and_true]

/-- A master gets rid of data only in an error, or over orders that meet. -/
theorem w_taken_iff (h : Inv s) : w_taken s.node i m=true ↔ (i.master m).wvalid_i=true ∧
    ((s.node.resp m).aw_CS=.ACCEPT_WDATA ∨ ∃ j,Meet s m j ∧ (i.slave j).wready_i=true) := by
  have hm := h.master m
  rw [w_taken,Bool.and_eq_true_iff]
  refine and_congr_right fun _ => ?_
  cases hl : mapped (s.pend m) with
  | nil =>
    have hnone : ¬∃ j,Meet s m j ∧ (i.slave j).wready_i=true := by
      rintro ⟨j,⟨q,l,r,hl',-⟩,-⟩
      rw [hl] at hl'
      exact absurd hl'.symm (List.cons_ne_nil _ _)
    rw [wready_o]
    cases hhandle : handle_error_o (s.node.resp m) with
    | true =>
      rw [if_pos rfl]
      exact ⟨fun _ => Or.inl (beq_iff_eq.mp hhandle),fun _ => rfl⟩
    | false =>
      rw [if_neg Bool.false_ne_true,any_iff]
      refine ⟨?_,fun h' => ?_⟩
      · rintro ⟨k,hk⟩
        -- No slave has an order of this master.
        have hready := (Bool.and_eq_true_iff.mp hk).1
        have hslave := h.slave k
        cases hr : s.pendAt k with
        | nil =>
          rw [hr] at hslave
          exact absurd (hready.symm.trans ((slave_empty (i:=i) hslave).2 m)) (by decide)
        | cons x r =>
          rcases x with ⟨q,m'⟩
          rw [hr] at hslave
          rw [(slave_front hslave).2.2,Bool.and_eq_true_iff,decide_eq_true_iff] at hready
          rcases hready with ⟨-,rfl⟩
          have hmem := (h.linked.same q m k).mpr (hr ▸ List.mem_cons_self)
          rw [hl] at hmem
          exact absurd hmem List.not_mem_nil
      · rcases h' with h' | h'
        · rw [handle_error_o,h'] at hhandle
          exact absurd hhandle (by decide)
        · exact absurd h' hnone
  | cons x l =>
    rcases x with ⟨q,k⟩
    have hne : mapped (s.pend m)≠[] := by rw [hl]; exact List.cons_ne_nil _ _
    have hCS : (s.node.resp m).aw_CS≠.ACCEPT_WDATA := by
      rcases hm.shape.handles hne with h' | h' <;> rw [h'] <;> decide
    rw [(master_front (j:=k) hm hl).2]
    have hslave := h.slave k
    constructor
    · intro hready
      refine Or.inr ⟨k,?_⟩
      cases hr : s.pendAt k with
      | nil =>
        rw [hr] at hslave
        exact absurd (hready.symm.trans ((slave_empty hslave).2 m)) (by decide)
      | cons y r =>
        rcases y with ⟨q',m'⟩
        rw [hr] at hslave
        rw [(slave_front hslave).2.2,Bool.and_eq_true_iff,decide_eq_true_iff] at hready
        rcases hready with ⟨hready,rfl⟩
        exact ⟨meet_of_fronts h hl hr,hready⟩
    · rintro (h' | ⟨j,⟨q',l',r,hl',hr⟩,hready⟩)
      · exact absurd h' hCS
      · rw [hl,List.cons.injEq,Prod.mk.injEq] at hl'
        rcases hl' with ⟨⟨rfl,rfl⟩,rfl⟩
        rw [hr] at hslave
        rw [(slave_front hslave).2.2,hready,decide_eq_true rfl]
        rfl

end Data

section Address

variable {n : Node w} {i : Input w} {m : Fin w.N_TARG_PORT} {j : Fin w.N_INIT_PORT}

/-- The write address of a master is for one slave port at most. -/
def Alone (i : Input w) (m : Fin w.N_TARG_PORT) : Prop :=
  (i.master m).awvalid_i=true → ∀ j j',
    match_region (i.master m).regions (i.master m).awaddr_i j=true →
      match_region (i.master m).regions (i.master m).awaddr_i j'=true → j=j'

theorem match_of_masked (h : masked (i.master m) j=true) :
    match_region (i.master m).regions (i.master m).awaddr_i j=true :=
  (Bool.and_eq_true_iff.mp h).1

/-- A slave takes the write of the master whose request gets through. -/
theorem aw_given_iff : aw_given n i j=some m ↔ chosen n i j=some m ∧
    grant_FIFO_ID n j=true ∧ (i.slave j).awready_i=true := by
  unfold aw_given push_ID_o awvalid_slave
  constructor
  · intro h
    split_ifs at h with hpush
    rw [Bool.and_eq_true_iff,Bool.and_eq_true_iff] at hpush
    exact ⟨h,hpush.2,hpush.1.2⟩
  · rintro ⟨hchosen,hgrant,hready⟩
    have hreq : NodeArb.data_req_o (reqs n i j)=true := (NodeArb.data_req_o_iff _).mpr ⟨m,hchosen⟩
    rw [hreq,hgrant,hready]
    exact hchosen

theorem awready_req_iff : awready_req n i j m=true ↔ aw_given n i j=some m := by
  rw [awready_req,Bool.and_eq_true_iff,NodeArb.data_gnt_o_iff w.masters,aw_given_iff]
  exact ⟨fun ⟨h,h',h''⟩ => ⟨h'',h,h'⟩,fun ⟨h,h',h''⟩ => ⟨h',h'',h⟩⟩

/-- What a slave takes is a request of the master. -/
theorem request_of_given (h : aw_given n i j=some m) : awvalid_o (n.resp m) (i.master m) j=true :=
  show reqs n i j m=true from NodeArb.chosen_requests (aw_given_iff.mp h).1

theorem awvalid_o_iff : awvalid_o (n.resp m) (i.master m) j=true ↔
    (n.resp m).aw_CS=.OPERATIVE ∧ error_detected (n.resp m) (i.master m)=false ∧
      grant_FIFO_DEST (n.resp m)=true ∧ (i.master m).awvalid_i=true ∧
        masked (i.master m) j=true := by
  rw [awvalid_o,Bool.and_eq_true_iff,Bool.and_eq_true_iff,Bool.and_eq_true_iff,
    Bool.and_eq_true_iff,beq_iff_eq,Bool.not_eq_true',and_assoc,and_assoc]

/-- A write of a master is taken by one slave port at most. -/
theorem aw_dest_iff (ha : Alone i m) : aw_dest n i m=some j ↔ aw_given n i j=some m := by
  unfold aw_dest
  constructor
  · exact fun h => beq_iff_eq.mp (List.find?_some (p:=fun j => aw_given n i j==some m) h)
  · intro h
    rcases awvalid_o_iff.mp (request_of_given h) with ⟨-,-,-,hvalid,hmask⟩
    cases hfind : (List.finRange w.N_INIT_PORT).find? fun j => aw_given n i j==some m with
    | none =>
      have hnone := List.find?_eq_none.mp hfind j (List.mem_finRange j)
      exact absurd (beq_iff_eq.mpr h) hnone
    | some j' =>
      have h' : aw_given n i j'=some m := 
        beq_iff_eq.mp (List.find?_some (p:=fun j => aw_given n i j==some m) hfind)
      rcases awvalid_o_iff.mp (request_of_given h') with ⟨-,-,-,-,hmask'⟩
      exact congrArg some (ha hvalid j' j (match_of_masked hmask') (match_of_masked hmask))

theorem aw_taken_of_given (h : aw_given n i j=some m) : aw_taken n i m=true ∧
    error_detected (n.resp m) (i.master m)=false := by
  rcases awvalid_o_iff.mp (request_of_given h) with ⟨hCS,herr,hgrant,hvalid,hmask⟩
  refine ⟨?_,herr⟩
  have hint : awready_int n i m=true := by
    rw [awready_int,hgrant,Bool.true_and,Bool.or_eq_true_iff,any_iff]
    refine Or.inr ⟨j,?_⟩
    rw [awready_req_iff.mpr h,hmask]
    rfl
  rw [aw_taken,hvalid,awready_o,hCS,hint,Bool.or_true]
  rfl

/-- A write is taken by a slave or is an error. -/
theorem aw_taken_cases (ha : Alone i m) (h : aw_taken n i m=true) :
    (n.resp m).aw_CS=.OPERATIVE ∧
      ((error_detected (n.resp m) (i.master m)=true ∧ aw_dest n i m=none) ∨
        (error_detected (n.resp m) (i.master m)=false ∧ ∃ j,aw_dest n i m=some j)) := by
  rw [aw_taken,awready_o,Bool.and_eq_true_iff,Bool.and_eq_true_iff,beq_iff_eq] at h
  rcases h with ⟨hvalid,hCS,hready⟩
  refine ⟨hCS,?_⟩
  cases herr : error_detected (n.resp m) (i.master m) with
  | true =>
    refine Or.inl ⟨rfl,?_⟩
    cases hdest : aw_dest n i m with
    | none => rfl
    | some j =>
      have hno := (aw_taken_of_given ((aw_dest_iff ha).mp hdest)).2
      exact absurd (herr.symm.trans hno) (by decide)
  | false =>
    refine Or.inr ⟨rfl,?_⟩
    rw [herr,Bool.false_or,awready_int,Bool.and_eq_true_iff,Bool.or_eq_true_iff,any_iff] at hready
    rcases hready with ⟨hgrant,herror | ⟨k,hk⟩⟩
    · rw [error_detected,hgrant,hvalid,(Bool.and_eq_true_iff.mp herror).2] at herr
      exact absurd herr (by decide)
    · have hgiven := awready_req_iff.mp (Bool.and_eq_true_iff.mp hk).1
      exact ⟨k,(aw_dest_iff ha).mpr hgiven⟩

theorem error_taken (hCS : (n.resp m).aw_CS=.OPERATIVE)
    (herr : error_detected (n.resp m) (i.master m)=true) : aw_taken n i m=true := by
  have hvalid : (i.master m).awvalid_i=true := by
    unfold error_detected at herr
    rw [Bool.and_eq_true_iff,Bool.and_eq_true_iff] at herr
    exact herr.1.2
  rw [aw_taken,awready_o,hCS,herr,hvalid]
  rfl

/-- The counter goes up with the writes that slaves take. -/
theorem incr_req_iff (ha : Alone i m) : incr_req_o n i m=(aw_dest n i m).isSome := by
  rw [Bool.eq_iff_iff,Option.isSome_iff_exists,incr_req_o,Bool.and_eq_true_iff,any_iff,beq_iff_eq]
  constructor
  · rintro ⟨-,k,hk⟩
    exact ⟨k,(aw_dest_iff ha).mpr (awready_req_iff.mp (Bool.and_eq_true_iff.mp hk).2)⟩
  · rintro ⟨k,hk⟩
    have hgiven := (aw_dest_iff ha).mp hk
    have hreq := request_of_given hgiven
    refine ⟨(awvalid_o_iff.mp hreq).1,k,?_⟩
    rw [hreq,awready_req_iff.mpr hgiven]
    rfl

/-- The queue of slaves gets the slave that takes the write. -/
theorem push_DEST_eq (ha : Alone i m) :
    GenericFifo.pushed (n.resp m).DEST_FIFO
        ⟨DEST_o (i.master m),push_DEST_o n i m,pop_from_DEST_FIFO n i m⟩=
      ((aw_dest n i m).map fun k => BitVec.twoPow w.N_INIT_PORT k.val).toList := by
  unfold GenericFifo.pushed GenericFifo.pushes
  cases hdest : aw_dest n i m with
  | none =>
    rw [if_neg]
    · rfl
    · intro hpush
      rw [Bool.and_eq_true_iff] at hpush
      have hboth := Bool.and_eq_true_iff.mp hpush.1
      have hno := Bool.not_eq_true' _ ▸ hboth.2
      rcases (aw_taken_cases ha hboth.1).2 with ⟨herr,-⟩ | ⟨-,j,hj⟩
      · exact absurd (herr.symm.trans hno) (by decide)
      · exact absurd (hdest.symm.trans hj) nofun
  | some k =>
    have hgiven := (aw_dest_iff ha).mp hdest
    rcases aw_taken_of_given hgiven with ⟨htaken,herr⟩
    rcases awvalid_o_iff.mp (request_of_given hgiven) with ⟨-,-,hgrant,hvalid,hmask⟩
    have hpush : push_DEST_o n i m=true := by
      rw [push_DEST_o,herr]
      exact Bool.and_eq_true_iff.mpr ⟨htaken,rfl⟩
    have hword : DEST_o (i.master m)=BitVec.twoPow w.N_INIT_PORT k.val := by
      apply BitVec.eq_of_getLsbD_eq
      intro e he
      rw [DEST_o,getLsbD_ofBits_lt _ he,getLsbD_dest ⟨e,he⟩ k,Bool.eq_iff_iff,
        decide_eq_true_iff]
      refine ⟨fun h => ha hvalid _ _ h (match_of_masked hmask),?_⟩
      rintro rfl
      exact match_of_masked hmask
    rw [if_pos]
    · exact congrArg ([·]) hword
    · exact Bool.and_eq_true_iff.mpr ⟨hpush,hgrant⟩

/-- The queue of masters gets the master whose write is taken. -/
theorem push_ID_eq : GenericFifo.pushed (n.req j).ID_FIFO
      ⟨ID_o n i j,push_ID_o n i j,pop_from_ID_FIFO n i j⟩=
    ((aw_given n i j).map ID_in).toList := by
  unfold GenericFifo.pushed GenericFifo.pushes
  cases hgiven : aw_given n i j with
  | none =>
    rw [if_neg]
    · rfl
    · intro hpush
      have hpush' := (Bool.and_eq_true_iff.mp hpush).1
      have hreq : NodeArb.data_req_o (reqs n i j)=true := by
        unfold push_ID_o awvalid_slave at hpush'
        rw [Bool.and_eq_true_iff,Bool.and_eq_true_iff,Bool.and_eq_true_iff] at hpush'
        exact hpush'.1.1.1
      rcases (NodeArb.data_req_o_iff (n.req j).RR_FLAG).mp hreq with ⟨k,hk⟩
      rw [aw_given,if_pos hpush'] at hgiven
      exact absurd (hgiven.symm.trans hk) nofun
  | some m =>
    rcases aw_given_iff.mp hgiven with ⟨hchosen,hgrant,-⟩
    have hpush : push_ID_o n i j=true := by
      by_contra hno
      rw [aw_given,if_neg hno] at hgiven
      exact absurd hgiven nofun
    have hid : ID_o n i j=ID_in m := NodeArb.data_o_eq hchosen _ _
    rw [if_pos]
    · exact congrArg ([·]) hid
    · exact Bool.and_eq_true_iff.mpr ⟨hpush,hgrant⟩

end Address

/-- No write is accepted while an error response waits to be taken, every write is for one slave
port at most, and the counter has room for those that slaves take. -/
structure Clear (s : Watch w) (i : Input w) : Prop where
  alone : ∀ m,Alone i m
  quiet : ∀ m,(s.node.resp m).bw_CS=.ERROR_SINGLE → aw_taken s.node i m=false
  room : ∀ m,(s.node.resp m).outstanding_counter=BitVec.allOnes 10 →
    aw_dest s.node i m=none ∨ b_taken s.node i m=true

/-- Slaves respond to a write after its whole burst. -/
def Responds (s : Watch w) (i : Input w) : Prop :=
  ∀ m,(i.master m).bvalid_ARB_TREE=true → 0 < s.done m

section Step

variable {s : Watch w} {i : Input w} {m : Fin w.N_TARG_PORT} {j : Fin w.N_INIT_PORT}

theorem newWrite_join (ha : Alone i m) : (newWrite s i m).join=aw_dest s.node i m := by
  unfold newWrite
  split_ifs with htaken
  · rfl
  · cases hdest : aw_dest s.node i m with
    | none => rfl
    | some j => exact absurd (aw_taken_of_given ((aw_dest_iff ha).mp hdest)).1 htaken

theorem mapped_step (ha : Alone i m) : mapped ((s.step i).pend m)=
    move (ends s i m && frontMapped (s.pend m)) (aw_dest s.node i m) s.now (mapped (s.pend m)) := by
  show mapped (move _ _ _ _)=_
  rw [mapped_move,newWrite_join ha]

/-- A burst in front of a master ends together with that in front of the slave. -/
theorem ends_meet (h : Inv s) (hend : (ends s i m && frontMapped (s.pend m))=true) :
    ∃ j,Meet s m j ∧ endsAt s i j=true := by
  rw [Bool.and_eq_true_iff,ends,Bool.and_eq_true_iff] at hend
  rcases hend with ⟨⟨htaken,hlast⟩,hfront⟩
  have hshape := (h.master m).shape
  rcases (w_taken_iff h).mp htaken with ⟨hvalid,hCS | ⟨j,hmeet,hready⟩⟩
  · rcases hshape.handles (hshape.frontMapped_iff.mp hfront) with h' | h' <;>
      exact absurd (hCS.symm.trans h') (by decide)
  · refine ⟨j,hmeet,?_⟩
    rw [endsAt,w_given_iff h hmeet,hvalid,hready,w_o_eq h hmeet]
    exact hlast

theorem endsAt_meet (h : Inv s) (hend : endsAt s i j=true) :
    ∃ m,Meet s m j ∧ (ends s i m && frontMapped (s.pend m))=true := by
  rw [endsAt,Bool.and_eq_true_iff] at hend
  rcases hend with ⟨hgiven,hlast⟩
  have hboth := Bool.and_eq_true_iff.mp hgiven
  rcases (wvalid_slave_iff h).mp hboth.1 with ⟨m,hmeet,hvalid⟩
  refine ⟨m,hmeet,?_⟩
  have hfront : frontMapped (s.pend m)=true := by
    rw [(h.master m).shape.frontMapped_iff]
    rcases hmeet with ⟨q,l,r,hl,-⟩
    rw [hl]
    exact List.cons_ne_nil _ _
  have htaken : w_taken s.node i m=true :=
    (w_taken_iff h).mpr ⟨hvalid,Or.inr ⟨j,hmeet,hboth.2⟩⟩
  rw [w_o_eq h hmeet] at hlast
  rw [hfront,ends,htaken,hlast]
  rfl

theorem linked_step (h : Inv s) (ha : ∀ m,Alone i m) :
    Linked (fun m => mapped ((s.step i).pend m)) (s.step i).pendAt (s.step i).now := by
  have hstep : Linked (fun m => move (ends s i m && frontMapped (s.pend m)) (aw_dest s.node i m)
      s.now (mapped (s.pend m))) (s.step i).pendAt (s.now+1) := h.linked.step
    (fun m hm => by
      rcases ends_meet h hm with ⟨j,⟨q,l,r,hl,hr⟩,hj⟩
      exact ⟨j,q,l,r,hl,hr,hj⟩)
    (fun j hj => by
      rcases endsAt_meet h hj with ⟨m,⟨q,l,r,hl,hr⟩,hm⟩
      exact ⟨m,q,l,r,hl,hr,hm⟩)
    (fun m j => aw_dest_iff (ha m))
  have hmapped : (fun m => mapped ((s.step i).pend m))=fun m =>
      move (ends s i m && frontMapped (s.pend m)) (aw_dest s.node i m) s.now
        (mapped (s.pend m)) := funext fun m => mapped_step (ha m)
  rw [hmapped]
  exact hstep

theorem slave_step (h : Inv s) : SlaveInv ((s.step i).node.req j) ((s.step i).pendAt j) := by
  have hj := h.slave j
  refine ⟨?_,fun hburst => ?_⟩
  · have hids := hj.ids.step w.depth_pow w.depth_one
      ⟨ID_o s.node i j,push_ID_o s.node i j,pop_from_ID_FIFO s.node i j⟩
    rw [push_ID_eq] at hids
    show GenericFifo.Stores _ ((move (endsAt s i j) (aw_given s.node i j) s.now (s.pendAt j)).map _)
    have hlist : (move (endsAt s i j) (aw_given s.node i j) s.now (s.pendAt j)).map
        (fun x => (ID_in x.2 : BitVec (w.LOG_N_TARG+w.N_TARG_PORT)))=
        (if pop_from_ID_FIFO s.node i j then ((s.pendAt j).map fun x => ID_in x.2).tail
          else (s.pendAt j).map fun x => ID_in x.2)++((aw_given s.node i j).map ID_in).toList := by
      rw [move,List.map_append,rest]
      congr 1
      · show List.map _ (if pop_from_ID_FIFO s.node i j then _ else _)=_
        split_ifs
        · exact List.map_tail
        · rfl
      · cases aw_given s.node i j <;> rfl
    rw [hlist]
    exact hids
  · have hnext : dw_NS s.node i j=.BURST := hburst
    show move (endsAt s i j) (aw_given s.node i j) s.now (s.pendAt j)≠[]
    unfold dw_NS at hnext
    have hkeep : endsAt s i j=false ∧ s.pendAt j≠[] := by
      split_ifs at hnext with hgiven hlast
      · refine ⟨by rw [endsAt,Bool.eq_false_iff.mpr hlast,Bool.and_false],fun hnil => ?_⟩
        rw [hnil] at hj
        have hvalid := (Bool.and_eq_true_iff.mp hgiven).1
        exact absurd (hvalid.symm.trans (slave_empty hj).1) (by decide)
      · refine ⟨by rw [endsAt,Bool.eq_false_iff.mpr hgiven,Bool.false_and],hj.burst hnext⟩
    rw [hkeep.1]
    exact fun hnil => hkeep.2 (List.append_eq_nil_iff.mp hnil).1

/-- While an error response is offered nothing is outstanding and nothing comes in. -/
theorem counter_quiet (hzero : (s.node.resp m).outstanding_counter=0#10)
    (hincr : incr_req_o s.node i m=false) :
    ((s.step i).node.resp m).outstanding_counter=0#10 := by
  show outstanding_next _ _ _=0#10
  rw [hzero,hincr]
  cases decr_req s.node i m <;> rfl

/-- The counter follows the writes that slaves take and their responses. -/
theorem counter_step (h : Inv s) (hC : Clear s i) (hR : Responds s i) :
    ((s.step i).node.resp m).outstanding_counter.toNat+(b_taken s.node i m).toNat=
      (s.node.resp m).outstanding_counter.toNat+(aw_dest s.node i m).isSome.toNat := by
  have hm := h.master m
  have hroom := hC.room m
  show (outstanding_next _ _ _).toNat+_=_
  rw [incr_req_iff (hC.alone m),decr_req,bvalid_o]
  cases hgnt : error_gnt_o (s.node.resp m) with
  | true =>
    have hCS : (s.node.resp m).bw_CS=.ERROR_SINGLE := beq_iff_eq.mp hgnt
    have hzero := hm.spent (Or.inr (Or.inr hCS))
    have hquiet := hC.quiet m hCS
    have hnone : aw_dest s.node i m=none := by
      cases hdest : aw_dest s.node i m with
      | none => rfl
      | some j =>
        have htaken := (aw_taken_of_given ((aw_dest_iff (hC.alone m)).mp hdest)).1
        exact absurd (htaken.symm.trans hquiet) (by decide)
    have hb : b_taken s.node i m=false := by
      rw [b_taken,bready_ARB_TREE,hgnt,Bool.not_true,Bool.false_and,Bool.and_false]
    rw [hnone,hb,hzero,Bool.true_or]
    cases (i.master m).bready_i <;> rfl
  | false =>
    have hb : b_taken s.node i m=((i.master m).bvalid_ARB_TREE && (i.master m).bready_i) := by
      rw [b_taken,bready_ARB_TREE,hgnt,Bool.not_false,Bool.true_and]
    rw [Bool.false_or,←hb]
    have hpos : b_taken s.node i m=true → 0<(s.node.resp m).outstanding_counter.toNat := by
      intro hb'
      have hcount := hm.count
      have hdone := hR m (Bool.and_eq_true_iff.mp (hb ▸ hb')).1
      omega
    generalize hc : (s.node.resp m).outstanding_counter=c at hroom hpos
    cases hincr : (aw_dest s.node i m).isSome with
    | false =>
      cases hdecr : b_taken s.node i m with
      | false => rfl
      | true =>
        have hlt := hpos hdecr
        have hne : (c != 0#10)=true := by
          rw [bne_iff_ne]
          rintro rfl
          exact Nat.lt_irrefl 0 hlt
        show (if (c != 0#10)=true then c-1#10 else 0#10).toNat+1=c.toNat+0
        rw [if_pos hne]
        bv_omega
    | true =>
      cases hdecr : b_taken s.node i m with
      | false =>
        have hne : (c != BitVec.allOnes 10)=true := by
          rw [bne_iff_ne]
          intro hfull
          rcases hroom hfull with hnone | htaken
          · rw [hnone] at hincr
            exact absurd hincr Bool.false_ne_true
          · exact absurd (hdecr.symm.trans htaken) (by decide)
        show (if (c != BitVec.allOnes 10)=true then c+1#10 else BitVec.allOnes 10).toNat+0=c.toNat+1
        rw [if_pos hne]
        have hlt : c.toNat≠1023 := fun heq => (bne_iff_ne.mp hne) (BitVec.eq_of_toNat_eq heq)
        bv_omega
      | true => rfl

/-- Orders stay of the shape of the state. -/
theorem shape_step (h : Inv s) (hC : Clear s i) :
    Shape ((s.step i).node.resp m).aw_CS ((s.step i).pend m) := by
  have hm := h.master m
  have hshape := hm.shape
  show Shape (aw_NS s.node i m) (move (ends s i m) (newWrite s i m) s.now (s.pend m))
  have hclosed : (s.node.resp m).aw_CS≠.OPERATIVE → newWrite s i m=none := by
    intro hCS
    rw [newWrite,if_neg]
    exact fun htaken => hCS (aw_taken_cases (hC.alone m) htaken).1
  cases hCS : (s.node.resp m).aw_CS with
  | OPERATIVE =>
    rw [hCS] at hshape
    have hrest : ∀ x ∈ rest (ends s i m) (s.pend m),x.2.isSome=true :=
      fun x hx => hshape x (mem_of_mem_rest hx)
    simp only [aw_NS,hCS]
    cases herr : error_detected (s.node.resp m) (i.master m) with
    | true =>
      have htaken := error_taken hCS herr
      have hnone : aw_dest s.node i m=none := by
        rcases (aw_taken_cases (hC.alone m) htaken).2 with ⟨-,hnone⟩ | ⟨hno,-⟩
        · exact hnone
        · exact absurd (herr.symm.trans hno) (by decide)
      rw [if_pos rfl,newWrite,if_pos htaken,hnone]
      exact ⟨_,s.now,rfl,hrest⟩
    | false =>
      rw [if_neg Bool.false_ne_true]
      rintro ⟨q,d⟩ hx
      rcases mem_move.mp hx with hx | ⟨-,hnew⟩
      · exact hrest _ hx
      · unfold newWrite at hnew
        split_ifs at hnew with htaken
        rcases (aw_taken_cases (hC.alone m) htaken).2 with ⟨hyes,-⟩ | ⟨-,j,hj⟩
        · exact absurd (herr.symm.trans hyes) (by decide)
        · rw [←Option.some.inj hnew,hj]
          rfl
  | COMPLETE_PENDING =>
    rw [hclosed (by rw [hCS]; decide)]
    rw [hCS] at hshape
    rcases hshape with ⟨l,q,hp,hl⟩
    have hmapped : mapped (s.pend m)=mapped l := by
      rw [hp,mapped_append]
      exact List.append_nil _
    -- Only a burst for a slave can end before the failing write.
    have hends : ends s i m=true → l≠[] := by
      intro hend hnil
      rcases (w_taken_iff h).mp (Bool.and_eq_true_iff.mp hend).1 with ⟨-,hCS' | ⟨j,hmeet,-⟩⟩
      · exact absurd (hCS.symm.trans hCS') (by decide)
      · rcases hmeet with ⟨q,l',r,hl',-⟩
        rw [hmapped,hnil] at hl'
        exact absurd hl'.symm (List.cons_ne_nil _ _)
    simp only [aw_NS,hCS]
    cases hout : outstanding_trans_o (s.node.resp m) with
    | true =>
      rw [if_pos rfl]
      refine ⟨rest (ends s i m) l,q,?_,fun x hx => hl x (mem_of_mem_rest hx)⟩
      rw [move,hp,rest,rest]
      split_ifs with hend
      · rw [List.tail_append_of_ne_nil (hends hend)]
        exact List.append_nil _
      · exact List.append_nil _
    | false =>
      rw [if_neg Bool.false_ne_true]
      have hzero : (s.node.resp m).outstanding_counter=0#10 := by
        unfold outstanding_trans_o at hout
        exact bne_eq_false_iff_eq.mp hout
      have hcount := hm.count
      rw [hzero,hmapped,BitVec.toNat_ofNat,Nat.zero_mod] at hcount
      have hnil : l=[] := mapped_eq_nil hl (List.length_eq_zero_iff.mp (by omega))
      have hend : ends s i m=false := Bool.eq_false_iff.mpr fun hend => hends hend hnil
      rw [hend,hp,hnil]
      exact ⟨q,rfl⟩
  | ACCEPT_WDATA =>
    rw [hclosed (by rw [hCS]; decide)]
    rw [hCS] at hshape
    rcases hshape with ⟨q,hp⟩
    have hend : ends s i m=wdata_error_completed_o s.node i m := by
      rw [ends,w_taken,wready_o,wdata_error_completed_o,handle_error_o,hCS]
      show ((i.master m).wvalid_i && true && _)=(true && _)
      rw [Bool.and_true,Bool.true_and,Bool.and_comm]
    simp only [aw_NS,hCS]
    rw [hend,hp]
    cases wdata_error_completed_o s.node i m with
    | true => rfl
    | false => exact ⟨q,rfl⟩
  | COMPLETE_ERROR_RESP =>
    rw [hclosed (by rw [hCS]; decide)]
    rw [hCS] at hshape
    have hnil : move (ends s i m) none s.now (s.pend m)=[] := by
      rw [show s.pend m=[] from hshape]
      cases ends s i m <;> rfl
    rw [hnil]
    simp only [aw_NS,hCS]
    split_ifs
    · exact fun x hx => absurd hx List.not_mem_nil
    · rfl

/-- The queue of slaves follows the orders. -/
theorem dest_step (h : Inv s) (ha : Alone i m) :
    GenericFifo.Stores ((s.step i).node.resp m).DEST_FIFO
      ((mapped ((s.step i).pend m)).map fun x => BitVec.twoPow w.N_INIT_PORT x.2.val) := by
  have hm := h.master m
  have hdest := hm.dest.step w.depth_pow w.depth_one
    ⟨DEST_o (i.master m),push_DEST_o s.node i m,pop_from_DEST_FIFO s.node i m⟩
  rw [push_DEST_eq ha] at hdest
  have hpop : pop_from_DEST_FIFO s.node i m=ends s i m := by
    rw [pop_from_DEST_FIFO,ends,w_taken,Bool.and_assoc,Bool.and_comm]
  have hlist : (mapped ((s.step i).pend m)).map
      (fun x => BitVec.twoPow w.N_INIT_PORT x.2.val)=
      (if pop_from_DEST_FIFO s.node i m then
        ((mapped (s.pend m)).map fun x => BitVec.twoPow w.N_INIT_PORT x.2.val).tail
        else (mapped (s.pend m)).map fun x => BitVec.twoPow w.N_INIT_PORT x.2.val)++
        ((aw_dest s.node i m).map fun k => BitVec.twoPow w.N_INIT_PORT k.val).toList := by
    rw [mapped_step ha,move,List.map_append,rest,hpop]
    congr 1
    · cases hend : ends s i m with
      | false => rfl
      | true =>
        rw [Bool.true_and,if_pos rfl]
        cases hfront : frontMapped (s.pend m) with
        | true => exact List.map_tail
        | false =>
          have hnil : mapped (s.pend m)=[] := by
            by_contra hne
            exact absurd (hfront.symm.trans (hm.shape.frontMapped_iff.mpr hne)) (by decide)
          rw [hnil]
          rfl
    · cases aw_dest s.node i m <;> rfl
  rw [hlist]
  exact hdest

theorem length_move {α : Type*} {taken : Bool} {new : Option α} {now : ℕ} {l : List (ℕ×α)}
    (h : taken=true → l≠[]) :
    (move taken new now l).length+taken.toNat=l.length+new.isSome.toNat := by
  have hnew : (new.map (now,·)).toList.length=new.isSome.toNat := by cases new <;> rfl
  rw [move,List.length_append,hnew,rest]
  cases taken with
  | false => rfl
  | true =>
    have hpos := List.length_pos_iff.mpr (h rfl)
    rw [if_pos rfl,List.length_tail,Bool.toNat_true]
    omega

/-- The states in which a decoder deals with a failing write follow each other. -/
theorem aw_NS_busy (h : aw_NS s.node i m=.ACCEPT_WDATA ∨ aw_NS s.node i m=.COMPLETE_ERROR_RESP) :
    ((s.node.resp m).aw_CS=.COMPLETE_PENDING ∧ (s.node.resp m).outstanding_counter=0#10) ∨
      (s.node.resp m).aw_CS=.ACCEPT_WDATA ∨ (s.node.resp m).aw_CS=.COMPLETE_ERROR_RESP := by
  unfold aw_NS at h
  cases hCS : (s.node.resp m).aw_CS with
  | OPERATIVE =>
    rw [hCS] at h
    dsimp only at h
    split_ifs at h <;> simp at h
  | COMPLETE_PENDING =>
    rw [hCS] at h
    dsimp only at h
    split_ifs at h with hout
    · simp at h
    · refine Or.inl ⟨rfl,?_⟩
      by_contra hne
      exact hout (bne_iff_ne.mpr hne)
  | ACCEPT_WDATA => exact Or.inr (Or.inl rfl)
  | COMPLETE_ERROR_RESP => exact Or.inr (Or.inr rfl)

/-- An error response is offered after a request, and until it is taken. -/
theorem bw_NS_single (h : bw_NS s.node i m=.ERROR_SINGLE) :
    ((s.node.resp m).bw_CS=.OPERATIVE ∧ (s.node.resp m).aw_CS=.COMPLETE_ERROR_RESP) ∨
      (s.node.resp m).bw_CS=.ERROR_SINGLE := by
  unfold bw_NS at h
  cases hCS : (s.node.resp m).bw_CS with
  | OPERATIVE =>
    rw [hCS] at h
    dsimp only at h
    split_ifs at h with hreq
    exact Or.inl ⟨rfl,beq_iff_eq.mp (Bool.and_eq_true_iff.mp hreq).1⟩
  | ERROR_SINGLE => exact Or.inr rfl
  | ERROR_BURST =>
    rw [hCS] at h
    simp at h

theorem bw_NS_ne_burst : bw_NS s.node i m≠.ERROR_BURST := by
  unfold bw_NS
  split
  · split_ifs <;> decide
  · split_ifs <;> decide
  · decide

/-- While an error response is offered the decoder goes on, and no failing write comes in. -/
theorem aw_NS_of_single (h : Inv s) (hC : Clear s i) (hbw : (s.node.resp m).bw_CS=.ERROR_SINGLE) :
    aw_NS s.node i m=.OPERATIVE ∧ sample_awdata_info_o (s.node.resp m) (i.master m)=false := by
  have htaken := hC.quiet m hbw
  rcases (h.master m).gnt hbw with haw | haw
  · have herr : error_detected (s.node.resp m) (i.master m)=false :=
      Bool.eq_false_iff.mpr fun herr =>
        absurd ((error_taken haw herr).symm.trans htaken) (by decide)
    rw [aw_NS,sample_awdata_info_o,haw,herr]
    exact ⟨rfl,rfl⟩
  · rw [aw_NS,sample_awdata_info_o,haw,error_gnt_o,hbw]
    exact ⟨rfl,rfl⟩

theorem master_step (h : Inv s) (hC : Clear s i) (hR : Responds s i) :
    MasterInv ((s.step i).node.resp m) ((s.step i).pend m) ((s.step i).done m)
      ((s.step i).forwarded m) ((s.step i).delivered m) := by
  have hm := h.master m
  have hcounter := counter_step (m:=m) h hC hR
  have hnodest : aw_taken s.node i m=false → aw_dest s.node i m=none := by
    intro htaken
    cases hdest : aw_dest s.node i m with
    | none => rfl
    | some j =>
      have htaken' := (aw_taken_of_given ((aw_dest_iff (hC.alone m)).mp hdest)).1
      exact absurd (htaken'.symm.trans htaken) (by decide)
  have hclosed : (s.node.resp m).aw_CS≠.OPERATIVE → aw_taken s.node i m=false := fun hCS =>
    Bool.eq_false_iff.mpr fun htaken => hCS (aw_taken_cases (hC.alone m) htaken).1
  have hquiet : aw_taken s.node i m=false → (s.node.resp m).outstanding_counter=0#10 →
      ((s.step i).node.resp m).outstanding_counter=0#10 := by
    intro htaken hzero
    refine counter_quiet hzero ?_
    rw [incr_req_iff (hC.alone m),hnodest htaken]
    rfl
  refine ⟨dest_step h (hC.alone m),shape_step h hC,?_,?_,fun hCS => ?_,fun hCS => ?_,?_⟩
  · have hcount := hm.count
    have hlen : (move (ends s i m && frontMapped (s.pend m)) (aw_dest s.node i m) s.now
        (mapped (s.pend m))).length+_=_ := length_move fun hend => hm.shape.frontMapped_iff.mp (Bool.and_eq_true_iff.mp hend).2
    have hb : (b_taken s.node i m).toNat ≤ s.done m := by
      cases hb : b_taken s.node i m with
      | false => exact Nat.zero_le _
      | true => exact hR m (Bool.and_eq_true_iff.mp hb).1
    rw [mapped_step (hC.alone m)]
    show _=_+(s.done m+_-(b_taken s.node i m).toNat)
    omega
  · have haccount := hm.account
    show _+(s.delivered m+(b_taken s.node i m).toNat)=
      s.forwarded m+(aw_dest s.node i m).isSome.toNat
    omega
  · show aw_NS s.node i m=.OPERATIVE ∨ aw_NS s.node i m=.COMPLETE_ERROR_RESP
    rcases bw_NS_single hCS with ⟨hbw,haw⟩ | hbw
    · right
      rw [aw_NS,haw,error_gnt_o,hbw]
      rfl
    · exact Or.inl (aw_NS_of_single h hC hbw).1
  · have hbusy : aw_NS s.node i m=.ACCEPT_WDATA ∨ aw_NS s.node i m=.COMPLETE_ERROR_RESP →
        ((s.step i).node.resp m).outstanding_counter=0#10 := by
      intro hnext
      rcases aw_NS_busy hnext with ⟨haw,hzero⟩ | haw | haw
      · exact hquiet (hclosed (by rw [haw]; decide)) hzero
      · exact hquiet (hclosed (by rw [haw]; decide)) (hm.spent (Or.inl haw))
      · exact hquiet (hclosed (by rw [haw]; decide)) (hm.spent (Or.inr (Or.inl haw)))
    rcases hCS with hnext | hnext | hnext
    · exact hbusy (Or.inl hnext)
    · exact hbusy (Or.inr hnext)
    · rcases bw_NS_single hnext with ⟨-,haw⟩ | hbw
      · exact hquiet (hclosed (by rw [haw]; decide)) (hm.spent (Or.inr (Or.inl haw)))
      · exact hquiet (hC.quiet m hbw) (hm.spent (Or.inr (Or.inr hbw)))
  · exact bw_NS_ne_burst

theorem inv_step (h : Inv s) (hC : Clear s i) (hR : Responds s i) : Inv (s.step i) :=
  ⟨fun _ => master_step h hC hR,fun _ => slave_step h,linked_step h hC.alone⟩

theorem start_inv : Inv (start : Watch w) := by
  refine ⟨fun m => ?_,fun j => ?_,linked_empty 0⟩
  · exact ⟨GenericFifo.stores_reset w.depth_one,fun x hx => absurd hx List.not_mem_nil,rfl,rfl,
      nofun,nofun,nofun⟩
  · exact ⟨GenericFifo.stores_reset w.depth_one,nofun⟩

end Step

/-- Write data go where the write address went, and nowhere else, burst by burst in the order in
which the addresses were taken. Some burst for a slave can always go on. -/
structure Routed (s : Watch w) (i : Input w) : Prop where
  /-- What a master hands over is thrown away or gets to the slave of the burst in front. -/
  taken : ∀ m,w_taken s.node i m=true → ∃ q d p,s.pend m=(q,d)::p ∧
    (d=none → ∀ j,wvalid_o s.node i m j=false) ∧
      ∀ j,d=some j → w_given s.node i j=true ∧ w_o s.node i j=(i.master m).w_i ∧
        ∃ r,s.pendAt j=(q,m)::r
  /-- What a slave sees is of the burst in front, there and at the master. -/
  given : ∀ j,wvalid_slave s.node i j=true → ∃ q m p r,s.pendAt j=(q,m)::r ∧
    s.pend m=(q,some j)::p ∧ (i.master m).wvalid_i=true ∧ w_o s.node i j=(i.master m).w_i ∧
      (w_given s.node i j=true → w_taken s.node i m=true)
  /-- The queues of a master and of a slave both point at one of the bursts. -/
  free : (∃ m q j,(q,some j) ∈ s.pend m) → ∃ q m j p r,s.pend m=(q,some j)::p ∧
    s.pendAt j=(q,m)::r ∧ GenericFifo.valid_o (s.node.resp m).DEST_FIFO=true ∧
      DEST_int s.node m=BitVec.twoPow _ j.val ∧ valid_ID s.node j=true ∧ ID_int s.node j=ID_in m

section Routes

variable {s : Watch w} {i : Input w} {m : Fin w.N_TARG_PORT} {j : Fin w.N_INIT_PORT}

theorem pend_of_mapped (h : Inv s) {q : ℕ} {l : List (ℕ×Fin w.N_INIT_PORT)}
    (hl : mapped (s.pend m)=(q,j)::l) : ∃ p,s.pend m=(q,some j)::p := by
  have hfront := (h.master m).shape.frontMapped_iff.mpr (by rw [hl]; exact List.cons_ne_nil _ _)
  rcases frontMapped_iff.mp hfront with ⟨q',j',p,hp⟩
  have heq : mapped (s.pend m)=(q',j')::mapped p := by rw [hp]; rfl
  rw [hl,List.cons.injEq,Prod.mk.injEq] at heq
  rcases heq with ⟨⟨rfl,rfl⟩,-⟩
  exact ⟨p,hp⟩

theorem mem_mapped {S : Type*} {p : List (ℕ×Option S)} {q : ℕ} {x : S} (h : (q,some x) ∈ p) :
    (q,x) ∈ mapped p := List.mem_filterMap.mpr ⟨_,h,rfl⟩

theorem routed_of_inv (h : Inv s) : Routed s i := by
  refine ⟨fun m htaken => ?_,fun j hvalid => ?_,?_⟩
  · rcases (w_taken_iff h).mp htaken with ⟨hvalid,hCS | ⟨j,hmeet,hready⟩⟩
    · have hshape := (h.master m).shape
      rw [hCS] at hshape
      rcases hshape with ⟨q,hp⟩
      refine ⟨q,none,[],hp,fun _ j => ?_,nofun⟩
      exact master_empty (h.master m) (by rw [hp]; rfl)
    · have hgiven := w_given_iff (i:=i) h hmeet
      have hw := w_o_eq (i:=i) h hmeet
      rcases hmeet with ⟨q,l,r,hl,hr⟩
      rcases pend_of_mapped h hl with ⟨p,hp⟩
      refine ⟨q,some j,p,hp,nofun,fun j' hj' => ?_⟩
      cases hj'
      exact ⟨by rw [hgiven,hvalid,hready]; rfl,hw,r,hr⟩
  · rcases (wvalid_slave_iff h).mp hvalid with ⟨m,hmeet,hvalid'⟩
    have hw := w_o_eq (i:=i) h hmeet
    have htaken : w_given s.node i j=true → w_taken s.node i m=true := fun hgiven =>
      (w_taken_iff h).mpr ⟨hvalid',Or.inr ⟨j,hmeet,(Bool.and_eq_true_iff.mp hgiven).2⟩⟩
    rcases hmeet with ⟨q,l,r,hl,hr⟩
    rcases pend_of_mapped h hl with ⟨p,hp⟩
    exact ⟨q,m,p,r,hr,hp,hvalid',hw,htaken⟩
  · rintro ⟨m,q,j,hmem⟩
    have hne : mapped (s.pend m)≠[] := fun hnil => by
      have hin := mem_mapped hmem
      rw [hnil] at hin
      exact absurd hin List.not_mem_nil
    rcases h.linked.exists_front hne with ⟨m,j,q,l,r,hl,hr⟩
    rcases pend_of_mapped h hl with ⟨p,hp⟩
    rcases master_dest (h.master m) hl with ⟨hvalid,hdest,-⟩
    have hslave := h.slave j
    rw [hr] at hslave
    exact ⟨q,m,j,p,r,hp,hr,hvalid,hdest,slave_valid hslave⟩

/-- The crossbar with its orders in every cycle of an endless run. -/
abbrev run (env : ℕ → Input w) : ℕ → Watch w := states Watch.step start env

variable {env : ℕ → Input w}

theorem inv_run (hC : ∀ t,Clear (run env t) (env t)) (hR : ∀ t,Responds (run env t) (env t))
    (t : ℕ) : Inv (run env t) := by
  induction t with
  | zero => exact start_inv
  | succ t ih => exact inv_step ih (hC t) (hR t)

/-- In every run whose cycles are clear, with slaves that respond after the burst, all write data
are routed. -/
theorem routed_of_clear (hC : ∀ t,Clear (run env t) (env t))
    (hR : ∀ t,Responds (run env t) (env t)) (t : ℕ) : Routed (run env t) (env t) :=
  routed_of_inv (inv_run hC hR t)

end Routes

section Examples

/-- Two masters and one slave, which has the address zero. -/
abbrev small : Widths := ⟨1,1,1,2,2,8,1,1,Indices.two_le_two,Indices.one_lt_two,depth_two⟩

/-- What a master port gets in a cycle. -/
structure Word where
  aw : Option (BitVec 1)
  /-- Write data, the last of a burst or not. -/
  data : Option Bool
  bready : Bool
  /-- A response of the slave. -/
  b : Bool

/-- A cycle in which the first master acts. The slave is ready. -/
def cycle (x : Word) : Input small where
  master := fun m =>
    { awvalid_i := x.aw.isSome && m==0
      awaddr_i := x.aw.getD 0
      awid_i := 0
      awuser_i := 0
      wvalid_i := x.data.isSome && m==0
      w_i := ⟨0,0,x.data.getD false,0⟩
      bready_i := x.bready
      bvalid_ARB_TREE := x.b && m==0
      b_ARB_TREE := ⟨0,0,0⟩
      regions := ⟨fun _ _ => 0,fun _ _ => 0,fun _ _ => true,fun _ => true⟩ }
  slave := fun _ => ⟨true,true⟩

/-- A failing write whose error response is not taken at once, a write for the slave, and another
failing write at the time at which that response is taken. -/
def late : List Word :=
  [⟨some 1,none,false,false⟩,⟨none,none,false,false⟩,⟨none,some true,false,false⟩,
    ⟨none,none,false,false⟩,⟨none,none,false,false⟩,⟨some 0,none,false,false⟩,
    ⟨some 1,none,true,false⟩,⟨none,none,false,false⟩,⟨none,some true,false,false⟩]

/-- The cycles of a list, and quiet ones after it. -/
def after (xs : List Word) (t : ℕ) : Input small := cycle (xs.getD t ⟨none,none,false,false⟩)

theorem responds_of_none {xs : List Word} (h : ∀ x ∈ xs,x.b=false) (t : ℕ) :
    Responds (run (after xs) t) (after xs t) := by
  intro m hvalid
  have hb : (xs.getD t ⟨none,none,false,false⟩).b=true := (Bool.and_eq_true_iff.mp hvalid).1
  rw [List.getD_eq_getElem?_getD] at hb
  cases hx : xs[t]? with
  | none =>
    rw [hx] at hb
    exact absurd hb Bool.false_ne_true
  | some x =>
    rw [hx] at hb
    exact absurd ((h x (List.mem_of_getElem? hx)).symm.trans hb) Bool.false_ne_true

/-- One write for the slave. -/
def single : List Word := [⟨some 0,none,false,false⟩,⟨none,some true,false,false⟩]

theorem clear_single (t : ℕ) : Clear (run (after single) t) (after single t) := by
  have halone : ∀ m,Alone (after single t) m := fun _ _ j j' _ _ => Subsingleton.elim j j'
  match t with
  | 0 => exact ⟨halone,fun _ => nofun,fun _ => nofun⟩
  | t+1 =>
    have hquiet : ∀ m,aw_taken (run (after single) (t+1)).node (after single (t+1)) m=false := by
      intro m
      rw [aw_taken]
      match t with
      | 0 => rfl
      | t+1 => rfl
    refine ⟨halone,fun m _ => hquiet m,fun m _ => Or.inl ?_⟩
    cases hdest : aw_dest (run (after single) (t+1)).node (after single (t+1)) m with
    | none => rfl
    | some j =>
      have htaken := (aw_taken_of_given ((aw_dest_iff (halone m)).mp hdest)).1
      exact absurd (htaken.symm.trans (hquiet m)) (by decide)

theorem routed_of_clear_single : Routed (run (after single) 1) (after single 1) :=
  routed_of_clear clear_single (responds_of_none (by decide)) 1

/-- The data of the write for the slave are thrown away. -/
theorem not_routed_late : ¬∀ env : ℕ → Input small,(∀ t,Responds (run env t) (env t)) →
    ∀ t,Routed (run env t) (env t) := by
  intro h
  rcases (h (after late) (responds_of_none (by decide)) 8).taken 0 (by decide +kernel) with
    ⟨q,d,p,hp,-,hslave⟩
  have hpend : (run (after late) 8).pend 0=[(5,some 0),(6,none)] := by decide +kernel
  rw [hpend,List.cons.injEq,Prod.mk.injEq] at hp
  have hgiven := (hslave 0 hp.1.2.symm).1
  exact absurd hgiven (by decide +kernel)

end Examples

end Pulpissimo.Axi.NodeWrite
