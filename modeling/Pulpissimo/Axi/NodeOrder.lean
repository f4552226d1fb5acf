import Pulpissimo.Axi.NodeReadError
import Pulpissimo.Axi.NodeReturn
import Pulpissimo.Axi.NodeWriteRoute

/-!
# Where the responses of the slaves go

The write side and the read side of `axi_node` with their responses. A response that
a slave hands over gets to the master that asked, under the identifier of the
request, and the responses of one slave to one master with one identifier keep their order.
Responses of several slaves come as they come. There is nothing in the crossbar that
puts them in the order of the requests.
-/

namespace Pulpissimo.Axi.NodeOrder

open Pulpissimo.Axi.NodeArb Pulpissimo.Axi.NodeReturn Pulpissimo.Machine

variable {w : NodeWrite.Widths}

section Writes

/-- A write response at a slave port, the identifier apart. -/
structure BData (w : NodeWrite.Widths) where
  buser : BitVec w.AXI_USER_W
  bresp : BitVec 2
deriving DecidableEq

/-- Registers of the write side. -/
structure WriteSide (w : NodeWrite.Widths) where
  node : NodeWrite.Node w
  /-- Flags of the trees in every `axi_BW_allocator`. -/
  BW_FLAG : Fin w.N_TARG_PORT → BitVec (LOG_MASTER w.N_INIT_PORT)

/-- One cycle of inputs of the write side. The responses of the slaves come in as such, not as
merged ones. -/
structure WriteIn (w : NodeWrite.Widths) where
  ports : NodeWrite.Input w
  b_i : Fin w.N_INIT_PORT → Reply w.N_TARG_PORT w.AXI_ID_IN (BData w)

/-- Values after reset. -/
def writeReset : WriteSide w := ⟨NodeWrite.reset,fun _ => 0⟩

variable (s : WriteSide w) (i : WriteIn w)

/-- Ready of the masters. -/
def bready_i (m : Fin w.N_TARG_PORT) : Bool := (i.ports.master m).bready_i

/-- Ready of the allocators behind their trees. -/
def bready_ARB_TREE (m : Fin w.N_TARG_PORT) : Bool :=
  NodeWrite.bready_ARB_TREE s.node i.ports m

/-- The response behind the tree. -/
def b_ARB_TREE (m : Fin w.N_TARG_PORT) : NodeWrite.BBeat w :=
  let aux := AUX_VECTOR_OUT s.BW_FLAG i.b_i ⟨0,0⟩ m
  ⟨id_ARB_TREE s.BW_FLAG i.b_i m,aux.bresp,aux.buser⟩

/-- Inputs of the ports, with the responses behind the trees. -/
def writePorts : NodeWrite.Input w :=
  { i.ports with
    master := fun m =>
      { i.ports.master m with
        bvalid_ARB_TREE := valid_ARB_TREE (valid_o i.b_i m)
        b_ARB_TREE := b_ARB_TREE s i m } }

/-- One clock edge. -/
def writeStep : WriteSide w where
  node := NodeWrite.step s.node (writePorts s i)
  BW_FLAG := fun m => RR_FLAG_next (s.BW_FLAG m) (valid_o i.b_i m) (bready_ARB_TREE s i m)

/-- Writes and their responses in a cycle. A master's response is one of a slave if the port
does not make one itself. -/
def writeCycle : Cycle w.N_INIT_PORT w.N_TARG_PORT w.AXI_ID_IN (BData w) where
  taken := fun j => (NodeWrite.aw_given s.node (writePorts s i) j).map fun m =>
    (m,(i.ports.master m).awid_i,NodeWrite.awid_o s.node (writePorts s i) j)
  given := giving s.BW_FLAG i.b_i (bready_i i) (bready_ARB_TREE s i)
  got := fun m =>
    let b := NodeWrite.b_o s.node (writePorts s i) m
    if NodeWrite.bvalid_o s.node (writePorts s i) m && bready_i i m &&
        !NodeWrite.error_gnt_o (s.node.resp m) then some (b.bid,⟨b.buser,b.bresp⟩)
    else none

/-- A single slave gives no response to a master whose port makes one itself. -/
def WriteQuiet : Prop := w.N_INIT_PORT=1 → ∀ m j,
  NodeWrite.error_gnt_o (s.node.resp m)=true → valid_o i.b_i m j=false

theorem awid_o_eq {n : NodeWrite.Node w} {i : NodeWrite.Input w} {j : Fin w.N_INIT_PORT}
    {m : Fin w.N_TARG_PORT} (h : NodeWrite.aw_given n i j=some m) :
    NodeWrite.awid_o n i j=outId m (i.master m).awid_i := by
  have hchosen := (NodeWrite.aw_given_iff.mp h).1
  rw [NodeWrite.awid_o,NodeWrite.ID_o,data_o_eq hchosen,data_o_eq hchosen,NodeWrite.ID_in,
    BitVec.extractLsb'_append_eq_left,outId]

theorem writeCycle_carries (hq : WriteQuiet s i) : Carries (writeCycle s i) := by
  have hgot : (writeCycle s i).got=getting s.BW_FLAG i.b_i (bready_ARB_TREE s i) ⟨0,0⟩ := by
    funext m
    show (if _ then _ else _)=_
    rw [getting,NodeWrite.bvalid_o,NodeWrite.b_o,bready_ARB_TREE,NodeWrite.bready_ARB_TREE]
    cases hgnt : NodeWrite.error_gnt_o (s.node.resp m) with
    | true =>
      rw [Bool.not_true,Bool.and_false,Bool.false_and,Bool.and_false]
      rfl
    | false =>
      rw [Bool.not_false,Bool.and_true,Bool.true_and,Bool.false_or]
      rfl
  have hout : ∀ j m id e,(writeCycle s i).taken j=some (m,id,e) → e=outId m id := by
    intro j m id e htaken
    rcases Option.map_eq_some_iff.mp htaken with ⟨k,hk,heq⟩
    rw [Prod.mk.injEq,Prod.mk.injEq] at heq
    rw [←heq.2.2,←heq.2.1,←heq.1]
    exact awid_o_eq hk
  have hone : w.N_INIT_PORT=1 → ∀ m j,valid_o i.b_i m j=true →
      bready_i i m=bready_ARB_TREE s i m := by
    intro h1 m j hvalid
    rw [bready_ARB_TREE,NodeWrite.bready_ARB_TREE]
    cases hgnt : NodeWrite.error_gnt_o (s.node.resp m) with
    | true => exact absurd ((hq h1 m j hgnt).symm.trans hvalid) (by decide)
    | false => rfl
  exact carries_network hout rfl hgot hone

end Writes

section Reads

/-- Parameters of the read part of a master port. -/
abbrev reads (w : NodeWrite.Widths) : NodeReadError.Widths :=
  ⟨w.ADDR_WIDTH,w.N_REGION,w.N_INIT_PORT,w.AXI_DATA_W,w.AXI_USER_W,w.AXI_ID_IN⟩

/-- A transfer of read data at a slave port, the identifier apart. -/
structure RData (w : NodeWrite.Widths) where
  ruser : BitVec w.AXI_USER_W
  rlast : Bool
  rresp : BitVec 2
  rdata : BitVec w.AXI_DATA_W
deriving DecidableEq

/-- Registers of the read side. -/
structure ReadSide (w : NodeWrite.Widths) where
  resp : Fin w.N_TARG_PORT → NodeReadError.State (reads w)
  /-- Flags of the trees in every `axi_AR_allocator`. -/
  AR_FLAG : Fin w.N_INIT_PORT → BitVec w.LOG_N_TARG
  /-- Flags of the trees in every `axi_BR_allocator`. -/
  BR_FLAG : Fin w.N_TARG_PORT → BitVec (LOG_MASTER w.N_INIT_PORT)

/-- One cycle of inputs of the read side. -/
structure ReadIn (w : NodeWrite.Widths) where
  ports : Fin w.N_TARG_PORT → NodeReadError.Input (reads w)
  arready_i : Fin w.N_INIT_PORT → Bool
  r_i : Fin w.N_INIT_PORT → Reply w.N_TARG_PORT w.AXI_ID_IN (RData w)

/-- Values after reset. -/
def readReset : ReadSide w := ⟨fun _ => NodeReadError.reset,fun _ => 0,fun _ => 0⟩

variable (s : ReadSide w) (i : ReadIn w)

/-- Requests at slave port `j`. -/
def arvalid_i (j : Fin w.N_INIT_PORT) (m : Fin w.N_TARG_PORT) : Bool :=
  NodeReadError.arvalid_o (s.resp m) (i.ports m) j

/-- The master whose read address a slave takes. -/
def ar_given (j : Fin w.N_INIT_PORT) : Option (Fin w.N_TARG_PORT) :=
  if i.arready_i j then chosen (s.AR_FLAG j) (arvalid_i s i j) else none

/-- The identifier at the slave port, with the number of the master in front. -/
def arid_o (j : Fin w.N_INIT_PORT) : OutId w.N_TARG_PORT w.AXI_ID_IN :=
  (data_o (s.AR_FLAG j) (arvalid_i s i j) (NodeWrite.ID_in (w:=w)) 0).extractLsb' w.N_TARG_PORT
      w.LOG_N_TARG++
    data_o (s.AR_FLAG j) (arvalid_i s i j) (fun m => (i.ports m).arid_i) 0

/-- Ready of the masters. -/
def rready_i (m : Fin w.N_TARG_PORT) : Bool := (i.ports m).rready_i

/-- Ready of the allocators behind their trees. -/
def rready_ARB_TREE (m : Fin w.N_TARG_PORT) : Bool :=
  (NodeReadError.br_comb (s.resp m) (i.ports m)).rready_ARB_TREE

/-- The transfer behind the tree. -/
def r_ARB_TREE (m : Fin w.N_TARG_PORT) : NodeReadError.Beat (reads w) :=
  let aux := AUX_VECTOR_OUT s.BR_FLAG i.r_i ⟨0,false,0,0⟩ m
  ⟨id_ARB_TREE s.BR_FLAG i.r_i m,aux.rdata,aux.rresp,aux.rlast,aux.ruser⟩

/-- Inputs of a port, with the grants of the slave ports and the transfer behind the tree. -/
def readPort (m : Fin w.N_TARG_PORT) : NodeReadError.Input (reads w) :=
  { i.ports m with
    arready_i := fun k => data_gnt_o (s.AR_FLAG k) (arvalid_i s i k) (i.arready_i k) m
    rvalid_ARB_TREE := valid_ARB_TREE (valid_o i.r_i m)
    r_ARB_TREE := r_ARB_TREE s i m }

/-- One clock edge. -/
def readStep : ReadSide w where
  resp := fun m => NodeReadError.step (s.resp m) (readPort s i m)
  AR_FLAG := fun j => RR_FLAG_next (s.AR_FLAG j) (arvalid_i s i j) (i.arready_i j)
  BR_FLAG := fun m => RR_FLAG_next (s.BR_FLAG m) (valid_o i.r_i m) (rready_ARB_TREE s i m)

/-- The port gives out an error response. -/
def makes (m : Fin w.N_TARG_PORT) : Bool :=
  (s.resp m).gen.CS==.ERROR_SINGLE || (s.resp m).gen.CS==.ERROR_BURST

/-- Reads and their data in a cycle. -/
def readCycle : Cycle w.N_INIT_PORT w.N_TARG_PORT w.AXI_ID_IN (RData w) where
  taken := fun j => (ar_given s i j).map fun m => (m,(i.ports m).arid_i,arid_o s i j)
  given := giving s.BR_FLAG i.r_i (rready_i i) (rready_ARB_TREE s i)
  got := fun m =>
    let br := NodeReadError.br_comb (s.resp m) (readPort s i m)
    if br.rvalid_o && rready_i i m && !makes s m then
      some (br.r_o.rid,⟨br.r_o.ruser,br.r_o.rlast,br.r_o.rresp,br.r_o.rdata⟩)
    else none

/-- A single slave gives no response to a master whose port makes one itself. -/
def ReadQuiet : Prop := w.N_INIT_PORT=1 → ∀ m j,makes s m=true → valid_o i.r_i m j=false

theorem arid_o_eq {j : Fin w.N_INIT_PORT} {m : Fin w.N_TARG_PORT} (h : ar_given s i j=some m) :
    arid_o s i j=outId m (i.ports m).arid_i := by
  unfold ar_given at h
  split_ifs at h with hready
  rw [arid_o,data_o_eq h,data_o_eq h,NodeWrite.ID_in,BitVec.extractLsb'_append_eq_left,outId]

/-- An allocator that makes no response passes on what comes from the tree. -/
theorem br_comb_passes {p : NodeReadError.Widths} {s : NodeReadError.State p}
    {i : NodeReadError.Input p}
    (h : (s.gen.CS==.ERROR_SINGLE || s.gen.CS==.ERROR_BURST)=false) :
    (NodeReadError.br_comb s i).r_o=i.r_ARB_TREE ∧
      (NodeReadError.br_comb s i).rvalid_o=i.rvalid_ARB_TREE ∧
        (NodeReadError.br_comb s i).rready_ARB_TREE=i.rready_i := by
  rw [NodeReadError.br_comb]
  cases hCS : s.gen.CS with
  | OPERATIVE => exact ⟨rfl,rfl,rfl⟩
  | GO_ERROR => exact ⟨rfl,rfl,rfl⟩
  | ERROR_SINGLE | ERROR_BURST =>
    rw [hCS] at h
    exact absurd h (by decide)

/-- One that makes a response takes none from the tree. -/
theorem br_comb_makes {p : NodeReadError.Widths} {s : NodeReadError.State p}
    {i : NodeReadError.Input p}
    (h : (s.gen.CS==.ERROR_SINGLE || s.gen.CS==.ERROR_BURST)=true) :
    (NodeReadError.br_comb s i).rready_ARB_TREE=false := by
  rw [NodeReadError.br_comb]
  cases hCS : s.gen.CS with
  | OPERATIVE | GO_ERROR =>
    rw [hCS] at h
    exact absurd h (by decide)
  | ERROR_SINGLE => rfl
  | ERROR_BURST =>
    dsimp only
    split_ifs <;> rfl

theorem readCycle_carries (hq : ReadQuiet s i) : Carries (readCycle s i) := by
  have hgot : (readCycle s i).got=getting s.BR_FLAG i.r_i (rready_ARB_TREE s i)
      ⟨0,false,0,0⟩ := by
    funext m
    show (if _ then _ else _)=_
    rw [getting,rready_ARB_TREE]
    cases hmakes : makes s m with
    | true =>
      rw [br_comb_makes hmakes,Bool.not_true,Bool.and_false,Bool.and_false]
      rfl
    | false =>
      rcases br_comb_passes (i:=readPort s i m) hmakes with ⟨hr,hvalid,-⟩
      rw [hr,hvalid,(br_comb_passes (i:=i.ports m) hmakes).2.2,Bool.not_false,Bool.and_true]
      rfl
  have hout : ∀ j m id e,(readCycle s i).taken j=some (m,id,e) → e=outId m id := by
    intro j m id e htaken
    rcases Option.map_eq_some_iff.mp htaken with ⟨k,hk,heq⟩
    rw [Prod.mk.injEq,Prod.mk.injEq] at heq
    rw [←heq.2.2,←heq.2.1,←heq.1]
    exact arid_o_eq s i hk
  have hone : w.N_INIT_PORT=1 → ∀ m j,valid_o i.r_i m j=true →
      rready_i i m=rready_ARB_TREE s i m := by
    intro h1 m j hvalid
    rw [rready_ARB_TREE]
    cases hmakes : makes s m with
    | true => exact absurd ((hq h1 m j hmakes).symm.trans hvalid) (by decide)
    | false => exact (br_comb_passes hmakes).2.2.symm
  exact carries_network hout rfl hgot hone

end Reads

section Runs

/-- The write side in every cycle of an endless run. -/
def writes (env : ℕ → WriteIn w) (t : ℕ) : Cycle w.N_INIT_PORT w.N_TARG_PORT w.AXI_ID_IN (BData w) :=
  writeCycle (states writeStep writeReset env t) (env t)

/-- The read side in every cycle of an endless run. -/
def readings (env : ℕ → ReadIn w) (t : ℕ) : Cycle w.N_INIT_PORT w.N_TARG_PORT w.AXI_ID_IN (RData w) :=
  readCycle (states readStep readReset env t) (env t)

/-- A write response is its own last transfer. -/
def single (_ : BData w) : Bool := true

/-- In every run with slaves that keep the order of every identifier, all responses of the slaves
come back to the masters, and those of one slave with one identifier in order. -/
theorem returned_of_answers {bs : ℕ → WriteIn w} {rs : ℕ → ReadIn w}
    (hb : Answers single (writes bs)) (hr : Answers RData.rlast (readings rs))
    (hwrites : ∀ t,WriteQuiet (states writeStep writeReset bs t) (bs t))
    (hreads : ∀ t,ReadQuiet (states readStep readReset rs t) (rs t)) :
    Returned single (writes bs) ∧ Returned RData.rlast (readings rs) :=
  ⟨returned_of_carries (fun t => writeCycle_carries _ _ (hwrites t)) hb,
    returned_of_carries (fun t => readCycle_carries _ _ (hreads t)) hr⟩

end Runs

section Examples

/-- All requests of a master with one identifier end in the order in which slaves took them. -/
def InOrder {N_INIT_PORT N_TARG_PORT AXI_ID_IN : ℕ} {α : Type} (last : α → Bool)
    (cyc : ℕ → Cycle N_INIT_PORT N_TARG_PORT AXI_ID_IN α) : Prop :=
  ∀ n m id,∃ rest,
    logged (fun t => (List.finRange N_INIT_PORT).flatMap fun j => completed last cyc j m id t) n++
      rest=logged (fun t => (List.finRange N_INIT_PORT).flatMap fun j => accepted cyc j m id t) n

/-- Two masters and two slaves, with the addresses zero and one. -/
abbrev two : NodeWrite.Widths := ⟨1,1,2,2,2,1,1,1,Indices.two_le_two,Indices.one_lt_two,NodeWrite.depth_two⟩

/-- What the first master asks for in a cycle, and the slave that responds to it. -/
structure Word where
  address : Option (BitVec 1)
  slave : Option (Fin 2)

/-- A cycle of the read side. -/
def readWord (x : Word) : ReadIn two where
  ports := fun m =>
    { arvalid_i := x.address.isSome && m==0
      araddr_i := x.address.getD 0
      arlen_i := 0
      aruser_i := 0
      arid_i := 0
      arready_i := fun _ => false
      regions := ⟨fun _ k => BitVec.ofNat 1 k.val,fun _ k => BitVec.ofNat 1 k.val,
        fun _ _ => true,fun _ => true⟩
      rvalid_ARB_TREE := false
      r_ARB_TREE := ⟨0,0,0,false,0⟩
      rready_i := true }
  arready_i := fun _ => true
  r_i := fun j => ⟨x.slave==some j,0,⟨0,true,0,0⟩⟩

/-- A cycle of the write side. The data come one cycle after the address. -/
def writeWord (x : Word) : WriteIn two where
  ports :=
    { master := fun m =>
        { awvalid_i := x.address.isSome && m==0
          awaddr_i := x.address.getD 0
          awid_i := 0
          awuser_i := 0
          wvalid_i := m==0
          w_i := ⟨0,0,true,0⟩
          bready_i := true
          bvalid_ARB_TREE := false
          b_ARB_TREE := ⟨0,0,0⟩
          regions := ⟨fun _ k => BitVec.ofNat 1 k.val,fun _ k => BitVec.ofNat 1 k.val,
            fun _ _ => true,fun _ => true⟩ }
      slave := fun _ => ⟨true,true⟩ }
  b_i := fun j => ⟨x.slave==some j,0,⟨0,0⟩⟩

/-- The words of a list, and quiet ones after it. -/
def word (xs : List Word) (t : ℕ) : Word := xs.getD t ⟨none,none⟩

/-- A request to each slave, and their responses the other way round. -/
def crossed : List Word := [⟨some 0,none⟩,⟨some 1,none⟩,⟨none,some 1⟩,⟨none,some 0⟩]

theorem word_slave {xs : List Word} {t : ℕ} {j : Fin 2} (h : (word xs t).slave==some j) :
    t<xs.length := by
  by_contra hge
  rw [word,List.getD_eq_default _ _ (Nat.not_lt.mp hge)] at h
  exact absurd h Bool.false_ne_true

theorem answers_reads : Answers RData.rlast (readings fun t => readWord (word crossed t)) := by
  refine answers_of_valid (fun t => rfl) fun t j hvalid => ?_
  have ht : t<4 := word_slave hvalid
  have hall : ∀ t<4,∀ j : Fin 2,(word crossed t).slave==some j →
      queues RData.rlast (readings fun t => readWord (word crossed t)) t j 0≠[] := by
    decide +kernel
  exact hall t ht j hvalid

theorem answers_writes : Answers single (writes fun t => writeWord (word crossed t)) := by
  refine answers_of_valid (fun t => rfl) fun t j hvalid => ?_
  have ht : t<4 := word_slave hvalid
  have hall : ∀ t<4,∀ j : Fin 2,(word crossed t).slave==some j →
      queues single (writes fun t => writeWord (word crossed t)) t j 0≠[] := by
    decide +kernel
  exact hall t ht j hvalid

theorem returned_of_answers_crossed :
    Returned single (writes fun t => writeWord (word crossed t)) ∧
      Returned RData.rlast (readings fun t => readWord (word crossed t)) :=
  returned_of_answers answers_writes answers_reads (fun _ => nofun) fun _ => nofun

/-- Two reads with one identifier end the other way round. -/
theorem not_inOrder_crossed : ¬∀ rs : ℕ → ReadIn two,Answers RData.rlast (readings rs) →
    InOrder RData.rlast (readings rs) := by
  intro h
  rcases h _ answers_reads 4 0 0 with ⟨rest,hrest⟩
  have hdone : logged (fun t => (List.finRange 2).flatMap fun j =>
      completed RData.rlast (readings fun t => readWord (word crossed t)) j 0 0 t) 4=[1,0] := by
    decide +kernel
  have hasked : logged (fun t => (List.finRange 2).flatMap fun j =>
      accepted (readings fun t => readWord (word crossed t)) j 0 0 t) 4=[0,1] := by
    decide +kernel
  have heq := hdone.symm ▸ hasked ▸ hrest
  exact absurd (List.cons.inj heq).1 (by decide)

end Examples

end Pulpissimo.Axi.NodeOrder
