import Pulpissimo.Axi.NodeDecode
import Pulpissimo.Lib.Indices
import Pulpissimo.Lib.Machine

/-!
# Reads of unmapped addresses

The read part of `axi_response_block`: `axi_address_decoder_AR` accepts a read
that no slave port is for and `axi_BR_allocator` answers it with a burst of
errors, once the reads before it are over. The allocator keeps one such read;
while it is busy with it the decoder may accept another, and the length of the
burst that is given out is taken from the address channel as it is then.
-/

namespace Pulpissimo.Axi.NodeReadError

open Pulpissimo.Axi.NodeDecode Pulpissimo.Machine

/-- Parameters of the block. -/
structure Widths where
  ADDR_WIDTH : ℕ
  N_REGION : ℕ
  N_INIT_PORT : ℕ
  AXI_DATA_W : ℕ
  AXI_USER_W : ℕ
  AXI_ID_IN : ℕ

variable {w : Widths}

/-- States of the decoder. -/
inductive ArFsm where
  | OPERATIVE
  | ERROR
deriving DecidableEq

/-- States of the allocator. -/
inductive BrFsm where
  | OPERATIVE
  | ERROR_SINGLE
  | ERROR_BURST
  | GO_ERROR
deriving DecidableEq

/-- A transfer on the read data channel. -/
structure Beat (w : Widths) where
  rid : BitVec w.AXI_ID_IN
  rdata : BitVec w.AXI_DATA_W
  rresp : BitVec 2
  rlast : Bool
  ruser : BitVec w.AXI_USER_W
deriving DecidableEq

/-- State of the allocator and the read that it keeps. -/
structure ErrorGen (w : Widths) where
  CS : BrFsm
  CounterBurstCS : BitVec 8
  error_len_S : BitVec 8
  error_user_S : BitVec w.AXI_USER_W
  error_id_S : BitVec w.AXI_ID_IN

/-- Registers. -/
structure State (w : Widths) where
  /-- State of `axi_address_decoder_AR`. -/
  CS : ArFsm
  outstanding_counter : BitVec 10
  gen : ErrorGen w

/-- One cycle of inputs. -/
structure Input (w : Widths) where
  arvalid_i : Bool
  araddr_i : BitVec w.ADDR_WIDTH
  arlen_i : BitVec 8
  aruser_i : BitVec w.AXI_USER_W
  arid_i : BitVec w.AXI_ID_IN
  /-- Grants of the slave ports. -/
  arready_i : Fin w.N_INIT_PORT → Bool
  regions : Regions w.ADDR_WIDTH w.N_REGION w.N_INIT_PORT
  /-- A transfer from the slave ports. -/
  rvalid_ARB_TREE : Bool
  r_ARB_TREE : Beat w
  rready_i : Bool

/-- Values after reset. -/
def reset : State w := ⟨.OPERATIVE,0,⟨.OPERATIVE,0,0,0,0⟩⟩

section Code

variable (s : State w) (i : Input w)

def outstanding_trans_o : Bool := s.outstanding_counter != 0#10

/-- The address on the channel is for no slave port. -/
def error_req_o : Bool := i.arvalid_i && match_error i.regions i.araddr_i

/-- The decoder accepts such a read. -/
def sample_ardata_info_o : Bool := s.CS==.OPERATIVE && error_req_o i

/-- Requests to the slave ports. -/
def arvalid_o (k : Fin w.N_INIT_PORT) : Bool :=
  s.CS==.OPERATIVE && !error_req_o i && i.arvalid_i &&
    match_region_masked i.regions i.araddr_i k

def incr_req_o : Bool := any fun k => arvalid_o s i k && i.arready_i k

/-- `DECERR` of `defines.v`. -/
def DECERR : BitVec 2 := 3#2

/-- The data of an error response. -/
def deadbeef (n : ℕ) : BitVec n := ((0xDEADBEEF#32).replicate (n/32)).setWidth n

/-- A transfer of an error response. -/
def errorBeat (id : BitVec w.AXI_ID_IN) (user : BitVec w.AXI_USER_W) (last : Bool) : Beat w :=
  ⟨id,deadbeef _,DECERR,last,user⟩

/-- Outputs and next values of the allocator. -/
structure BrComb (w : Widths) where
  r_o : Beat w
  rvalid_o : Bool
  rready_ARB_TREE : Bool
  error_gnt_o : Bool
  CounterBurstNS : BitVec 8
  NS : BrFsm

/-- The state in which an error response starts. -/
def startError (len : BitVec 8) : BrFsm := if len==0#8 then .ERROR_SINGLE else .ERROR_BURST

/-- The combinational part of the allocator. -/
def br_comb : BrComb w :=
  let g := s.gen
  let tree : BrComb w := ⟨i.r_ARB_TREE,i.rvalid_ARB_TREE,i.rready_i,false,0#8,.OPERATIVE⟩
  let error (last gnt : Bool) (count : BitVec 8) (NS : BrFsm) : BrComb w :=
    ⟨errorBeat g.error_id_S g.error_user_S last,true,false,gnt,count,NS⟩
  match g.CS with
  | .OPERATIVE => { tree with
      NS := if error_req_o i then
          if outstanding_trans_o s then .GO_ERROR else startError i.arlen_i
        else .OPERATIVE }
  | .GO_ERROR => { tree with
      NS := if outstanding_trans_o s then .GO_ERROR else startError g.error_len_S }
  | .ERROR_SINGLE => error true true 0#8 (if i.rready_i then .OPERATIVE else .ERROR_SINGLE)
  | .ERROR_BURST =>
    if i.rready_i then
      if g.CounterBurstCS < i.arlen_i then error false false (g.CounterBurstCS+1#8) .ERROR_BURST
      else error true true 0#8 .OPERATIVE
    else error i.r_ARB_TREE.rlast false g.CounterBurstCS .ERROR_BURST

/-- Next state of the decoder. -/
def ar_NS : ArFsm := match s.CS with
  | .OPERATIVE => if error_req_o i then .ERROR else .OPERATIVE
  | .ERROR =>
    if outstanding_trans_o s then .OPERATIVE
    else if (br_comb s i).error_gnt_o then .OPERATIVE else .ERROR

def arready_o : Bool := match s.CS with
  | .OPERATIVE => error_req_o i || ((br_comb s i).error_gnt_o && match_error i.regions i.araddr_i ||
      any fun k => i.arready_i k && match_region_masked i.regions i.araddr_i k)
  | .ERROR => false

/-- Last transfer of a slave's burst. -/
def decr_req : Bool :=
  i.rvalid_ARB_TREE && (br_comb s i).rready_ARB_TREE && i.r_ARB_TREE.rlast

/-- Next state of the allocator, with the read that is sampled. -/
def gen_next : ErrorGen w :=
  let sample := sample_ardata_info_o s i
  { CS := (br_comb s i).NS
    CounterBurstCS := (br_comb s i).CounterBurstNS
    error_len_S := if sample then i.arlen_i else s.gen.error_len_S
    error_user_S := if sample then i.aruser_i else s.gen.error_user_S
    error_id_S := if sample then i.arid_i else s.gen.error_id_S }

/-- One clock edge. -/
def step : State w where
  CS := ar_NS s i
  outstanding_counter := outstanding_next (incr_req_o s i) (decr_req s i) s.outstanding_counter
  gen := gen_next s i

end Code

section Answers

/-- The burst that answers a read of an unmapped address. -/
def burst (id : BitVec w.AXI_ID_IN) (user : BitVec w.AXI_USER_W) (len : BitVec 8) : List (Beat w) :=
  (List.range (len.toNat+1)).map fun k => errorBeat id user (k==len.toNat)

variable (s : State w) (i : Input w)

/-- What a cycle adds to the error responses that are due. -/
def due : List (Beat w) :=
  if sample_ardata_info_o s i then burst i.arid_i i.aruser_i i.arlen_i else []

/-- Transfers that the allocator makes by itself and the master takes. -/
def answered : List (Beat w) :=
  if (s.gen.CS==.ERROR_SINGLE || s.gen.CS==.ERROR_BURST) && i.rready_i then [(br_comb s i).r_o]
  else []

/-- What is left of the burst for the read that the allocator keeps. -/
def owed : List (Beat w) := match s.gen.CS with
  | .OPERATIVE => []
  | .GO_ERROR => burst s.gen.error_id_S s.gen.error_user_S s.gen.error_len_S
  | .ERROR_SINGLE => burst s.gen.error_id_S s.gen.error_user_S s.gen.error_len_S
  | .ERROR_BURST => (burst s.gen.error_id_S s.gen.error_user_S s.gen.error_len_S).drop
      s.gen.CounterBurstCS.toNat

/-- A read of an unmapped address is accepted only while the allocator keeps none, and while a
burst is given out the length on the address channel tells the same as that of the read kept. -/
structure Clear : Prop where
  one : sample_ardata_info_o s i=true → s.gen.CS=.OPERATIVE
  len : s.gen.CS=.ERROR_BURST → i.rready_i=true →
    (s.gen.CounterBurstCS < i.arlen_i ↔ s.gen.CounterBurstCS < s.gen.error_len_S)

/-- The decoder waits only for the allocator, and the allocator has not gone past the read. -/
structure Keeps : Prop where
  idle : s.gen.CS=.OPERATIVE → s.CS=.OPERATIVE
  single : s.gen.CS=.ERROR_SINGLE → s.gen.error_len_S=0#8
  burst : s.gen.CS=.ERROR_BURST → s.gen.CounterBurstCS ≤ s.gen.error_len_S

theorem reset_keeps : Keeps (reset : State w) := ⟨fun _ => rfl,nofun,nofun⟩

section Burst

variable {id : BitVec w.AXI_ID_IN} {user : BitVec w.AXI_USER_W} {len : BitVec 8} {k : ℕ}

theorem drop_burst (hk : k ≤ len.toNat) : (burst id user len).drop k=
    errorBeat id user (k==len.toNat)::(burst id user len).drop (k+1) := by
  have hlt : k<(burst id user len).length := by
    rw [burst,List.length_map,List.length_range]
    omega
  rw [List.drop_eq_getElem_cons hlt]
  simp only [burst,List.getElem_map,List.getElem_range]

theorem drop_burst_length : (burst id user len).drop (len.toNat+1)=[] := by
  apply List.drop_eq_nil_of_le
  rw [burst,List.length_map,List.length_range]

theorem burst_single : burst id user 0#8=[errorBeat id user true] := rfl

end Burst

end Answers

section Step

variable {s : State w} {i : Input w}

/-- Without a read to sample the allocator keeps the one that it has. -/
theorem gen_next_keep (h : sample_ardata_info_o s i=false) : gen_next s i=
    { s.gen with CS := (br_comb s i).NS,CounterBurstCS := (br_comb s i).CounterBurstNS } := by
  rw [gen_next,h]
  rfl

theorem no_sample (hC : Clear s i) (h : s.gen.CS≠.OPERATIVE) : sample_ardata_info_o s i=false :=
  Bool.eq_false_iff.mpr fun hsample => h (hC.one hsample)

theorem sample_eq (hk : Keeps s) (h : s.gen.CS=.OPERATIVE) :
    sample_ardata_info_o s i=error_req_o i := by
  rw [sample_ardata_info_o,hk.idle h]
  rfl

theorem startError_eq (len : BitVec 8) :
    (len=0#8 ∧ startError len=.ERROR_SINGLE) ∨ (len≠0#8 ∧ startError len=.ERROR_BURST) := by
  unfold startError
  by_cases h : len=0#8
  · exact Or.inl ⟨h,if_pos (beq_iff_eq.mpr h)⟩
  · exact Or.inr ⟨h,if_neg fun heq => h (beq_iff_eq.mp heq)⟩

/-- What a clear cycle does to the read that is kept, with what is given out. -/
inductive Move (s : State w) (i : Input w) : ErrorGen w → List (Beat w) → Prop
  | rest (h : s.gen.CS=.OPERATIVE) (hreq : error_req_o i=false) (g : ErrorGen w)
      (hg : g.CS=.OPERATIVE) : Move s i g []
  | take (h : s.gen.CS=.OPERATIVE) (hreq : error_req_o i=true) (CS : BrFsm)
      (hCS : CS=.GO_ERROR ∨ CS=startError i.arlen_i) :
      Move s i ⟨CS,0#8,i.arlen_i,i.aruser_i,i.arid_i⟩ []
  | wait (h : s.gen.CS=.GO_ERROR) (hout : outstanding_trans_o s=true) :
      Move s i { s.gen with CS := .GO_ERROR,CounterBurstCS := 0#8 } []
  | start (h : s.gen.CS=.GO_ERROR) (hout : outstanding_trans_o s=false) :
      Move s i { s.gen with CS := startError s.gen.error_len_S,CounterBurstCS := 0#8 } []
  | stall (CS : BrFsm) (h : s.gen.CS=CS) (hready : i.rready_i=false) (count : BitVec 8)
      (hcount : CS=.ERROR_SINGLE ∨ CS=.ERROR_BURST ∧ count=s.gen.CounterBurstCS) :
      Move s i { s.gen with CS := CS,CounterBurstCS := count } []
  | beat (h : s.gen.CS=.ERROR_BURST) (hready : i.rready_i=true)
      (hlt : s.gen.CounterBurstCS < s.gen.error_len_S) :
      Move s i { s.gen with CS := .ERROR_BURST,CounterBurstCS := s.gen.CounterBurstCS+1#8 }
        [errorBeat s.gen.error_id_S s.gen.error_user_S false]
  | last (h : s.gen.CS=.ERROR_SINGLE ∨ s.gen.CS=.ERROR_BURST ∧
        ¬(s.gen.CounterBurstCS < s.gen.error_len_S)) (hready : i.rready_i=true) (g : ErrorGen w)
      (hg : g.CS=.OPERATIVE) (hgnt : (br_comb s i).error_gnt_o=true) :
      Move s i g [errorBeat s.gen.error_id_S s.gen.error_user_S true]

theorem move (hk : Keeps s) (hC : Clear s i) : Move s i (gen_next s i) (answered s i) := by
  cases hCS : s.gen.CS with
  | OPERATIVE =>
    have hnone : answered s i=[] := by rw [answered,hCS]; rfl
    have hsample := sample_eq (i:=i) hk hCS
    rw [hnone]
    cases hreq : error_req_o i with
    | false =>
      refine Move.rest hCS hreq _ ?_
      rw [gen_next,br_comb,hCS,hreq]
      rfl
    | true =>
      rw [gen_next,hsample,hreq,br_comb,hCS,hreq]
      refine Move.take hCS hreq _ ?_
      cases outstanding_trans_o s with
      | false => exact Or.inr rfl
      | true => exact Or.inl rfl
  | GO_ERROR =>
    have hnone : answered s i=[] := by rw [answered,hCS]; rfl
    rw [hnone,gen_next_keep (no_sample hC (by rw [hCS]; decide)),br_comb,hCS]
    cases hout : outstanding_trans_o s with
    | false => exact Move.start hCS hout
    | true => exact Move.wait hCS hout
  | ERROR_SINGLE =>
    rw [gen_next_keep (no_sample hC (by rw [hCS]; decide)),answered]
    cases hready : i.rready_i with
    | false =>
      rw [br_comb,hCS,hready]
      exact Move.stall _ hCS hready _ (Or.inl rfl)
    | true =>
      have hgnt : (br_comb s i).error_gnt_o=true := by rw [br_comb,hCS]
      have h := fun g hg => Move.last (i:=i) (Or.inl hCS) hready g hg hgnt
      rw [br_comb,hCS,hready]
      exact h _ rfl
  | ERROR_BURST =>
    have hlen := hC.len hCS
    rw [gen_next_keep (no_sample hC (by rw [hCS]; decide)),answered]
    cases hready : i.rready_i with
    | false =>
      rw [br_comb,hCS,hready]
      exact Move.stall _ hCS hready _ (Or.inr ⟨rfl,rfl⟩)
    | true =>
      by_cases hlt : s.gen.CounterBurstCS < i.arlen_i
      · simp only [br_comb,hCS,hready,if_true,if_pos hlt]
        exact Move.beat hCS hready ((hlen hready).mp hlt)
      · have hgnt : (br_comb s i).error_gnt_o=true := by
          simp only [br_comb,hCS,hready,if_true,if_neg hlt]
        have h := fun g hg => Move.last (i:=i) (Or.inr ⟨hCS,fun hl => hlt ((hlen hready).mpr hl)⟩)
          hready g hg hgnt
        simp only [br_comb,hCS,hready,if_true,if_neg hlt]
        exact h _ rfl

/-- A decoder that accepts nothing goes on when the allocator is done. -/
theorem ar_NS_of_gnt (hsample : sample_ardata_info_o s i=false)
    (hgnt : (br_comb s i).error_gnt_o=true) : ar_NS s i=.OPERATIVE := by
  unfold ar_NS
  cases hCS : s.CS with
  | OPERATIVE =>
    rw [sample_ardata_info_o,hCS] at hsample
    have hreq : error_req_o i=false := hsample
    rw [hreq]
    rfl
  | ERROR =>
    rw [hgnt]
    cases outstanding_trans_o s <;> rfl

theorem keeps_step (hk : Keeps s) (hC : Clear s i) : Keeps (step s i) := by
  have hm := move hk hC
  unfold step
  generalize hg : gen_next s i=g at hm ⊢
  generalize answered s i=out at hm
  cases hm with
  | rest h hreq _ hCS =>
    refine ⟨fun _ => ?_,fun h' => ?_,fun h' => ?_⟩
    · show ar_NS s i=.OPERATIVE
      rw [ar_NS,hk.idle h,hreq]
      rfl
    · exact absurd (hCS.symm.trans h') (by decide)
    · exact absurd (hCS.symm.trans h') (by decide)
  | take h hreq CS hCS =>
    rcases hCS with rfl | rfl
    · exact ⟨nofun,nofun,nofun⟩
    · rcases startError_eq i.arlen_i with ⟨hlen,hstart⟩ | ⟨hlen,hstart⟩
      · exact ⟨fun h' => absurd (hstart.symm.trans h') (by decide),fun _ => hlen,
          fun _ => BitVec.le_def.mpr (Nat.zero_le _)⟩
      · exact ⟨fun h' => absurd (hstart.symm.trans h') (by decide),
          fun h' => absurd (hstart.symm.trans h') (by decide),fun _ => BitVec.le_def.mpr (Nat.zero_le _)⟩
  | wait h hout => exact ⟨nofun,nofun,nofun⟩
  | start h hout =>
    rcases startError_eq s.gen.error_len_S with ⟨hlen,hstart⟩ | ⟨hlen,hstart⟩
    · exact ⟨fun h' => absurd (hstart.symm.trans h') (by decide),fun _ => hlen,
        fun _ => BitVec.le_def.mpr (Nat.zero_le _)⟩
    · exact ⟨fun h' => absurd (hstart.symm.trans h') (by decide),
        fun h' => absurd (hstart.symm.trans h') (by decide),fun _ => BitVec.le_def.mpr (Nat.zero_le _)⟩
  | stall CS h hready count hcount =>
    rcases hcount with rfl | ⟨rfl,rfl⟩
    · exact ⟨nofun,fun _ => hk.single h,nofun⟩
    · exact ⟨nofun,nofun,fun _ => hk.burst h⟩
  | beat h hready hlt =>
    refine ⟨nofun,nofun,fun _ => ?_⟩
    show s.gen.CounterBurstCS+1#8 ≤ s.gen.error_len_S
    bv_omega
  | last h hready _ hCS hgnt =>
    have hidle : s.gen.CS≠.OPERATIVE := by
      rcases h with h | ⟨h,-⟩ <;> rw [h] <;> decide
    refine ⟨fun _ => ar_NS_of_gnt (no_sample hC hidle) hgnt,fun h' => ?_,fun h' => ?_⟩
    · exact absurd (hCS.symm.trans h') (by decide)
    · exact absurd (hCS.symm.trans h') (by decide)

/-- A clear cycle gives out the front of what is owed, and what becomes due is owed then. -/
theorem answered_step (hk : Keeps s) (hC : Clear s i) :
    answered s i++owed (step s i)=owed s++due s i := by
  have hm := move hk hC
  have howed : owed (step s i)=owed { s with gen := gen_next s i } := rfl
  rw [howed]
  generalize hg : gen_next s i=g at hm ⊢
  generalize answered s i=out at hm ⊢
  have hdue : s.gen.CS≠.OPERATIVE → due s i=[] := fun h => by rw [due,no_sample hC h]; rfl
  cases hm with
  | rest h hreq _ hCS =>
    rw [due,sample_eq hk h,hreq]
    simp only [owed,h,hCS]
    rfl
  | take h hreq CS hCS =>
    rw [due,sample_eq hk h,hreq]
    simp only [owed,h]
    rcases hCS with rfl | rfl
    · rfl
    · rcases startError_eq i.arlen_i with ⟨hlen,hstart⟩ | ⟨hlen,hstart⟩ <;> rw [hstart] <;> rfl
  | wait h hout =>
    rw [hdue (by rw [h]; decide),List.append_nil]
    simp only [owed,h]
    rfl
  | start h hout =>
    rw [hdue (by rw [h]; decide),List.append_nil]
    rcases startError_eq s.gen.error_len_S with ⟨hlen,hstart⟩ | ⟨hlen,hstart⟩
    all_goals
      simp only [owed,h,hstart]
      rfl
  | stall CS h hready count hcount =>
    rcases hcount with rfl | ⟨rfl,rfl⟩
    all_goals
      rw [hdue (by rw [h]; decide),List.append_nil]
      simp only [owed,h]
      rfl
  | beat h hready hlt =>
    have hcount : (s.gen.CounterBurstCS+1#8).toNat=s.gen.CounterBurstCS.toNat+1 := by bv_omega
    have hne : (s.gen.CounterBurstCS.toNat==s.gen.error_len_S.toNat)=false := by
      rw [beq_eq_false_iff_ne]
      exact Nat.ne_of_lt hlt
    rw [hdue (by rw [h]; decide),List.append_nil]
    simp only [owed,h,hcount]
    rw [drop_burst (Nat.le_of_lt hlt),hne]
    rfl
  | last h hready _ hCS hgnt =>
    simp only [owed,hCS]
    rcases h with h | ⟨h,hge⟩
    · rw [hdue (by rw [h]; decide),h,hk.single h,burst_single]
    · have heq : s.gen.CounterBurstCS.toNat=s.gen.error_len_S.toNat :=
        Nat.le_antisymm (hk.burst h) (Nat.not_lt.mp hge)
      rw [hdue (by rw [h]; decide),h,List.append_nil,drop_burst (Nat.le_of_eq heq),heq,
        drop_burst_length,beq_self_eq_true]
      rfl

/-- Cycles that the allocator needs, those in which it waits not counted. -/
def rank (s : State w) : ℕ := match s.gen.CS with
  | .OPERATIVE => 0
  | .GO_ERROR => s.gen.error_len_S.toNat+2
  | .ERROR_SINGLE => 1
  | .ERROR_BURST => s.gen.error_len_S.toNat-s.gen.CounterBurstCS.toNat+1

theorem owed_of_rank (h : rank s=0) : owed s=[] := by
  unfold rank at h
  unfold owed
  cases hCS : s.gen.CS with
  | OPERATIVE => rfl
  | GO_ERROR | ERROR_SINGLE | ERROR_BURST =>
    rw [hCS] at h
    exact absurd h (Nat.succ_ne_zero _)

/-- The allocator waits only for earlier reads before the burst, and for the master in it. -/
def Waits (s : State w) (i : Input w) : Prop :=
  (s.gen.CS=.GO_ERROR ∧ outstanding_trans_o s=true) ∨
    (s.gen.CS≠.GO_ERROR ∧ i.rready_i=false)

theorem rank_step (hk : Keeps s) (hC : Clear s i) (hpos : 0 < rank s) :
    rank (step s i) < rank s ∨
      rank (step s i)=rank s ∧ (step s i).gen.CS=s.gen.CS ∧ Waits s i := by
  have hm := move hk hC
  have hrank : rank (step s i)=rank { s with gen := gen_next s i } := rfl
  have hCS : (step s i).gen.CS=(gen_next s i).CS := rfl
  rw [hrank,hCS]
  generalize hg : gen_next s i=g at hm ⊢
  generalize answered s i=out at hm
  have hidle : s.gen.CS≠.OPERATIVE := fun h => by
    rw [rank,h] at hpos
    exact Nat.lt_irrefl 0 hpos
  cases hm with
  | rest h => exact absurd h hidle
  | take h => exact absurd h hidle
  | wait h hout =>
    refine Or.inr ⟨?_,h.symm,Or.inl ⟨h,hout⟩⟩
    simp only [rank,h]
  | start h hout =>
    refine Or.inl ?_
    rcases startError_eq s.gen.error_len_S with ⟨hlen,hstart⟩ | ⟨hlen,hstart⟩
    all_goals
      simp only [rank,h,hstart,BitVec.toNat_ofNat]
      omega
  | stall CS h hready count hcount =>
    refine Or.inr ⟨?_,h.symm,Or.inr ⟨?_,hready⟩⟩
    · rcases hcount with rfl | ⟨rfl,rfl⟩ <;> simp only [rank,h]
    · rcases hcount with rfl | ⟨rfl,rfl⟩ <;> rw [h] <;> decide
  | beat h hready hlt =>
    refine Or.inl ?_
    have hcount : (s.gen.CounterBurstCS+1#8).toNat=s.gen.CounterBurstCS.toNat+1 := by bv_omega
    have hlt' : s.gen.CounterBurstCS.toNat < s.gen.error_len_S.toNat := hlt
    simp only [rank,h,hcount]
    omega
  | last h hready _ hCS' hgnt =>
    refine Or.inl ?_
    have hzero : rank { s with gen := g }=0 := by simp only [rank,hCS']
    rw [hzero]
    exact hpos

end Step

section Runs

/-- The block in every cycle of an endless run. -/
abbrev run (env : ℕ → Input w) : ℕ → State w := states step reset env

/-- Error responses due before cycle `n`. -/
def allDue (env : ℕ → Input w) (n : ℕ) : List (Beat w) :=
  logged (fun t => due (run env t) (env t)) n

/-- Error responses given out before cycle `n`. -/
def allAnswered (env : ℕ → Input w) (n : ℕ) : List (Beat w) :=
  logged (fun t => answered (run env t) (env t)) n

/-- The bursts for the reads of unmapped addresses come out one after the other and no slave port
sees such a read. Where the master takes data and the other reads are over again and again,
all come out. -/
structure Answers (env : ℕ → Input w) : Prop where
  order : ∀ n,∃ rest,allAnswered env n++rest=allDue env n
  unseen : ∀ n k,arvalid_o (run env n) (env n) k=true →
    match_region_masked (env n).regions (env n).araddr_i k=true
  all : (∀ t,∃ u,t ≤ u ∧ (env u).rready_i=true) →
    (∀ t,∃ u,t ≤ u ∧ outstanding_trans_o (run env u)=false) →
    ∀ n,∃ m,n ≤ m ∧ allAnswered env m=allDue env m

variable {env : ℕ → Input w}

theorem keeps_run (hC : ∀ t,Clear (run env t) (env t)) (n : ℕ) : Keeps (run env n) := by
  induction n with
  | zero => exact reset_keeps
  | succ n ih => exact keeps_step ih (hC n)

theorem answered_run (hC : ∀ t,Clear (run env t) (env t)) (n : ℕ) :
    allDue env n=allAnswered env n++owed (run env n) :=
  logged_ledger (l:=fun t => owed (run env t)) rfl fun t _ =>
    (answered_step (keeps_run hC t) (hC t)).symm

/-- The allocator does not wait for ever. -/
theorem rank_down (hC : ∀ t,Clear (run env t) (env t))
    (hready : ∀ t,∃ u,t ≤ u ∧ (env u).rready_i=true)
    (hover : ∀ t,∃ u,t ≤ u ∧ outstanding_trans_o (run env u)=false) (t : ℕ)
    (hpos : 0 < rank (run env t)) : ∃ u,t ≤ u ∧ rank (run env u) < rank (run env t) := by
  by_contra hnot
  have hsame : ∀ n,rank (run env (t+n))=rank (run env t) ∧
      (run env (t+n)).gen.CS=(run env t).gen.CS ∧ Waits (run env (t+n)) (env (t+n)) := by
    have hone : ∀ u,t ≤ u → rank (run env u)=rank (run env t) →
        rank (run env (u+1))=rank (run env u) ∧ (run env (u+1)).gen.CS=(run env u).gen.CS ∧
          Waits (run env u) (env u) := by
      intro u hu hrank
      rcases rank_step (keeps_run hC u) (hC u) (hrank ▸ hpos) with hlt | hwait
      · exact absurd ⟨u+1,Nat.le_succ_of_le hu,hrank ▸ hlt⟩ hnot
      · exact hwait
    intro n
    induction n with
    | zero => exact ⟨rfl,rfl,(hone t (Nat.le_refl t) rfl).2.2⟩
    | succ n ih =>
      rcases hone (t+n) (Nat.le_add_right t n) ih.1 with ⟨hrank,hCS,-⟩
      have hrank' := hrank.trans ih.1
      exact ⟨hrank',hCS.trans ih.2.1,(hone (t+(n+1)) (Nat.le_add_right _ _) hrank').2.2⟩
  by_cases hCS : (run env t).gen.CS=.GO_ERROR
  · rcases hover t with ⟨u,hu,hout⟩
    rcases hsame (u-t) with ⟨-,hsameCS,hwait⟩
    rw [Nat.add_sub_cancel' hu] at hsameCS hwait
    rcases hwait with ⟨-,hwait⟩ | ⟨hne,-⟩
    · exact Bool.false_ne_true (hout.symm.trans hwait)
    · exact hne (hsameCS.trans hCS)
  · rcases hready t with ⟨u,hu,hout⟩
    rcases hsame (u-t) with ⟨-,hsameCS,hwait⟩
    rw [Nat.add_sub_cancel' hu] at hsameCS hwait
    rcases hwait with ⟨heq,-⟩ | ⟨-,hwait⟩
    · exact hCS (hsameCS.symm.trans heq)
    · exact Bool.false_ne_true (hwait.symm.trans hout)

/-- Where every cycle is clear, all reads of unmapped addresses are answered. -/
theorem answers_of_clear (hC : ∀ t,Clear (run env t) (env t)) : Answers env := by
  refine ⟨fun n => ⟨_,(answered_run hC n).symm⟩,fun n k h => ?_,fun hready hover n => ?_⟩
  · rw [arvalid_o,Bool.and_eq_true_iff] at h
    exact h.2
  · rcases states_rank rank (rank_down hC hready hover) n with ⟨m,hnm,hzero⟩
    have hall := answered_run hC m
    rw [owed_of_rank hzero,List.append_nil] at hall
    exact ⟨m,hnm,hall.symm⟩

end Runs

section Examples

/-- A crossbar with two slave ports and no enabled region. -/
abbrev small : Widths := ⟨8,1,2,32,1,2⟩

/-- A cycle with `len` on the address channel. -/
def cycle (arvalid : Bool) (len : BitVec 8) : Input small where
  arvalid_i := arvalid
  araddr_i := 0
  arlen_i := len
  aruser_i := 0
  arid_i := 1
  arready_i := fun _ => false
  regions := ⟨fun _ _ => 0,fun _ _ => 0,fun _ _ => false,fun _ => false⟩
  rvalid_ARB_TREE := false
  r_ARB_TREE := ⟨0,0,0,false,0⟩
  rready_i := true

/-- One read, after which the address channel goes to zero. -/
def oneRead (len : BitVec 8) (t : ℕ) : Input small := cycle (t==0) (if t==0 then len else 0)

theorem run_oneRead (t : ℕ) : run (oneRead 0) (t+2)=run (oneRead 0) 2 := by
  induction t with
  | zero => rfl
  | succ t ih =>
    show step (run (oneRead 0) (t+2)) (oneRead 0 (t+2))=run (oneRead 0) 2
    rw [ih]
    rfl

theorem clear_oneRead (t : ℕ) : Clear (run (oneRead 0) t) (oneRead 0 t) := by
  match t with
  | 0 => exact ⟨fun _ => rfl,nofun⟩
  | 1 => exact ⟨nofun,nofun⟩
  | t+2 =>
    rw [run_oneRead]
    exact ⟨nofun,nofun⟩

theorem answers_of_clear_oneRead : Answers (oneRead 0) := answers_of_clear clear_oneRead

/-- The burst for a read of two transfers ends with the first. -/
theorem not_answers_short : ¬Answers (oneRead 1) := by
  intro h
  rcases h.order 2 with ⟨rest,hrest⟩
  have hanswered : allAnswered (oneRead 1) 2=[errorBeat 1 0 true] := by decide
  have hdue : allDue (oneRead 1) 2=[errorBeat 1 0 false,errorBeat 1 0 true] := by decide
  rw [hanswered,hdue] at hrest
  exact absurd (List.cons.inj hrest).1 (by decide)

end Examples

end Pulpissimo.Axi.NodeReadError
