import Mathlib.Data.BitVec
import Mathlib.Data.Nat.Log
import Pulpissimo.Hwpe.Tcdm
import Pulpissimo.Lib.Indices
import Pulpissimo.Lib.LastWrite
import Pulpissimo.Lib.Machine
import Pulpissimo.Lib.Rotation

/-!
# The HWPE TCDM multiplexer

`hwpe_stream_tcdm_mux` without `SILENCE_BROADCAST`: the inputs are split into
as many groups as there are outputs, and one counter turns the priorities in
all groups. The last requesting input in the turned order wins. The counter is
as wide as an index in a group and moves on whenever any output is granted.
-/

namespace Pulpissimo.Hwpe.TcdmMux

open Pulpissimo.Machine Pulpissimo.Rotation Pulpissimo.Hwpe.Tcdm

/-- The parameters that give the size and the grouping of the inputs. -/
structure Params where
  /-- Number of inputs. -/
  NB_IN_CHAN : ℕ
  /-- Number of outputs. -/
  NB_OUT_CHAN : ℕ
  /-- Neighbouring inputs are in different groups. -/
  INTERLEAVED_MUXING : Bool

/-- Inputs in a group. -/
def Params.ratio (p : Params) : ℕ := p.NB_IN_CHAN/p.NB_OUT_CHAN

/-- Number of bits of an index in a group. -/
def Params.bits (p : Params) : ℕ := Nat.clog 2 p.ratio

/-- The input with an index in the group of output `i`. -/
def Params.place (p : Params) (i index : ℕ) : ℕ :=
  if p.INTERLEAVED_MUXING then index*p.NB_OUT_CHAN+i else i*p.ratio+index

variable {p : Params}

/-- Registers. -/
structure State (p : Params) where
  /-- First priority, turned round. -/
  rr_counter : BitVec p.bits
  /-- Index of the input that each output carried in the last cycle. -/
  last_winner : Fin p.NB_OUT_CHAN → BitVec p.bits
  /-- The output made a request in the last cycle. -/
  last_req : Fin p.NB_OUT_CHAN → Bool

/-- Values after reset. -/
def reset : State p := ⟨0,fun _ => 0,fun _ => false⟩

/-- One cycle of inputs. -/
structure Input (p : Params) where
  /-- Synchronous reset. -/
  clear_i : Bool
  /-- Requests of the inputs. -/
  request : Fin p.NB_IN_CHAN → Request
  /-- Grants to the outputs. -/
  out_gnt : Fin p.NB_OUT_CHAN → Bool
  /-- Responses to the outputs. -/
  out_r_valid : Fin p.NB_OUT_CHAN → Bool
  /-- Their data. -/
  out_r_data : Fin p.NB_OUT_CHAN → BitVec 32

section Code

variable (s : State p) (i : Input p)

/-- The index at place `j` of the turned order. -/
def rr_priority (o : Fin p.NB_OUT_CHAN) (j : ℕ) : BitVec p.bits :=
  s.rr_counter+BitVec.ofNat _ o.val+BitVec.ofNat _ j

/-- An input of the group requests. -/
def out_req (o : Fin p.NB_OUT_CHAN) : Bool :=
  (List.range p.ratio).any fun j => (channel i.request (p.place o j)).req

/-- One turn of the loop over the priorities. -/
def challenge (o : Fin p.NB_OUT_CHAN) (winner : BitVec p.bits) (jj : ℕ) : BitVec p.bits :=
  if (channel i.request (p.place o (rr_priority s o jj).toNat)).req then rr_priority s o jj
  else winner

/-- The index of the input that an output carries: the last one that requests. -/
def winner (o : Fin p.NB_OUT_CHAN) : BitVec p.bits :=
  (List.range p.ratio).foldl (challenge s i o) (s.rr_counter+BitVec.ofNat _ o.val)

/-- Request of an output. -/
def out (o : Fin p.NB_OUT_CHAN) : Request :=
  { channel i.request (p.place o (winner s i o).toNat) with req := out_req i o }

/-- Iteration `o` of the loop over the outputs: clear the group and write the value of the
output to one of its inputs. -/
def respondTo {β : Type} (zero : β) (index : Fin p.NB_OUT_CHAN → BitVec p.bits)
    (value : Fin p.NB_OUT_CHAN → β) (f : Fin p.NB_IN_CHAN → β) (o : Fin p.NB_OUT_CHAN) :
    Fin p.NB_IN_CHAN → β :=
  put ((List.range p.ratio).foldl (fun f j => put f (p.place o j) zero) f)
    (p.place o (index o).toNat) (value o)

/-- The whole loop. -/
def respond {β : Type} (zero : β) (index : Fin p.NB_OUT_CHAN → BitVec p.bits)
    (value : Fin p.NB_OUT_CHAN → β) : Fin p.NB_IN_CHAN → β :=
  (List.finRange p.NB_OUT_CHAN).foldl (respondTo zero index value) fun _ => zero

/-- Grants to the inputs. -/
def in_gnt : Fin p.NB_IN_CHAN → Bool := respond false (winner s i) i.out_gnt

/-- Responses to the inputs. -/
def in_r_valid : Fin p.NB_IN_CHAN → Bool :=
  respond false s.last_winner fun o => i.out_r_valid o && s.last_req o

/-- Their data. -/
def in_r_data : Fin p.NB_IN_CHAN → BitVec 32 := respond 0#32 s.last_winner i.out_r_data

/-- The counter moves on. -/
def s_rr_counter_reg_en : Bool :=
  (List.finRange p.NB_OUT_CHAN).any (out_req i) && (List.finRange p.NB_OUT_CHAN).any i.out_gnt

/-- One clock edge. -/
def step : State p :=
  if i.clear_i then reset
  else ⟨if s_rr_counter_reg_en i then s.rr_counter+1#p.bits else s.rr_counter,winner s i,out_req i⟩

end Code

/-- One cycle outside the block. -/
structure Cycle (p : Params) where
  /-- Synchronous reset. -/
  clear_i : Bool
  /-- Requests of the inputs. -/
  request : Fin p.NB_IN_CHAN → Request
  /-- The memory grants an output. -/
  gnt : Fin p.NB_OUT_CHAN → Bool
  /-- Data of its answers. -/
  r_data : Fin p.NB_OUT_CHAN → BitVec 32

/-- The block and a memory that answers every granted access one cycle later. -/
structure System (p : Params) where
  /-- The block. -/
  regs : State p
  /-- The input whose access each output was granted in the last cycle. -/
  granted : Fin p.NB_OUT_CHAN → Option (Fin p.NB_IN_CHAN)

/-- After reset. -/
def System.start : System p := ⟨reset,fun _ => none⟩

section System

variable (s : System p) (c : Cycle p)

/-- Inputs of the block. -/
def System.input : Input p :=
  ⟨c.clear_i,c.request,c.gnt,fun o => (s.granted o).isSome,c.r_data⟩

/-- The input that an output carries. -/
def System.carried (o : Fin p.NB_OUT_CHAN) : ℕ := p.place o (winner s.regs (s.input c) o).toNat

/-- An access on an output is granted. -/
def System.accessed (o : Fin p.NB_OUT_CHAN) : Bool := (out s.regs (s.input c) o).req && c.gnt o

/-- One clock edge of block and memory. -/
def System.step : System p where
  regs := TcdmMux.step s.regs (s.input c)
  granted o :=
    if h : s.carried c o<p.NB_IN_CHAN ∧ s.accessed c o=true then some ⟨_,h.1⟩ else none

/-- Index of an input in its group. -/
def Params.index (p : Params) (k : ℕ) : ℕ :=
  if p.INTERLEAVED_MUXING then k/p.NB_OUT_CHAN else k%p.ratio

/-- The output of an input's group. -/
def Params.group (p : Params) (k : ℕ) : ℕ :=
  if p.INTERLEAVED_MUXING then k%p.NB_OUT_CHAN else k/p.ratio

/-- Every output carries the request of one requesting input of its group while there is one,
only this input is granted, and every answer goes to the input whose access was granted. -/
structure Arbitrates : Prop where
  /-- A requesting input of the group is forwarded. -/
  forwards : ∀ o : Fin p.NB_OUT_CHAN, (∃ k : Fin p.NB_IN_CHAN, p.group k=o ∧ (c.request k).req=true) →
    ∃ k : Fin p.NB_IN_CHAN, p.group k=o ∧ (c.request k).req=true ∧ s.carried c o=k ∧
      out s.regs (s.input c) o=c.request k
  /-- Without one there is no request. -/
  silent : ∀ o : Fin p.NB_OUT_CHAN, (∀ k : Fin p.NB_IN_CHAN, p.group k=o → (c.request k).req=false) →
    (out s.regs (s.input c) o).req=false
  /-- A granted input is the one that its output carries, and it requests. -/
  grants : ∀ k : Fin p.NB_IN_CHAN, in_gnt s.regs (s.input c) k=true ↔
    ∃ o : Fin p.NB_OUT_CHAN, c.gnt o=true ∧ s.carried c o=k
  /-- Only a requesting input is granted. -/
  asked : ∀ k : Fin p.NB_IN_CHAN, in_gnt s.regs (s.input c) k=true → (c.request k).req=true
  /-- An input sees a response exactly if its access was granted. -/
  responses : ∀ k, in_r_valid s.regs (s.input c) k=true ↔ ∃ o, s.granted o=some k
  /-- The data are those of the answer. -/
  data : ∀ o k, s.granted o=some k → in_r_data s.regs (s.input c) k=c.r_data o

/-- The condition on a cycle: the turned indices are those of the group, no output is granted
without a request, and there is no reset. -/
structure Fits : Prop where
  /-- The ratio is a power of two, or no priority is turned. -/
  order : p.ratio=2^p.bits ∨
    ∀ o : Fin p.NB_OUT_CHAN, s.regs.rr_counter+BitVec.ofNat _ o.val=0#p.bits
  /-- A granted output has a requesting input. -/
  asked : ∀ o : Fin p.NB_OUT_CHAN, c.gnt o=true →
    ∃ k : Fin p.NB_IN_CHAN, p.group k=o ∧ (c.request k).req=true
  /-- No reset. -/
  running : c.clear_i=false

/-- No turn is lost: while any output is granted, so is every output whose input of highest
priority, the one before the first in the turned order, requests. -/
def KeepsTurns : Prop :=
  (∃ o, c.gnt o=true) → ∀ k : Fin p.NB_IN_CHAN, ∀ o : Fin p.NB_OUT_CHAN, p.group k=o →
    (c.request k).req=true →
    BitVec.ofNat p.bits (p.index k+1)=s.regs.rr_counter+BitVec.ofNat _ o.val → c.gnt o=true

end System

/-- Number `r` of block `q` when there are `n` blocks of `d`. -/
theorem tile {d n q r : ℕ} (hr : r<d) (hq : q<n) :
    q*d+r<n*d ∧ (q*d+r)%d=r ∧ (q*d+r)/d=q := by
  refine ⟨?_,Nat.mul_add_mod_of_lt hr,?_⟩
  · calc q*d+r<q*d+d := Nat.add_lt_add_left hr _
      _ = (q+1)*d := (Nat.succ_mul q d).symm
      _ ≤ n*d := Nat.mul_le_mul_right d hq
  · rw [Nat.mul_comm,Nat.mul_add_div (Nat.zero_lt_of_lt hr),Nat.div_eq_of_lt hr,Nat.add_zero]

section Grouping

theorem out_pos (hratio : 2≤p.ratio) : 0<p.NB_OUT_CHAN := by
  by_contra hzero
  have hnone : p.ratio=0 := by
    unfold Params.ratio
    rw [Nat.eq_zero_of_not_pos hzero,Nat.div_zero]
  omega

theorem in_eq (hdiv : p.NB_OUT_CHAN ∣ p.NB_IN_CHAN) : p.NB_IN_CHAN=p.ratio*p.NB_OUT_CHAN :=
  (Nat.div_mul_cancel hdiv).symm

variable (hdiv : p.NB_OUT_CHAN ∣ p.NB_IN_CHAN)
include hdiv

/-- The place of an index in a group is in that group, with that index. -/
theorem place_spec {o j : ℕ} (ho : o<p.NB_OUT_CHAN) (hj : j<p.ratio) :
    p.place o j<p.NB_IN_CHAN ∧ p.group (p.place o j)=o ∧ p.index (p.place o j)=j := by
  rw [in_eq hdiv]
  unfold Params.place Params.group Params.index
  cases p.INTERLEAVED_MUXING with
  | true => exact tile ho hj
  | false =>
    rcases tile hj ho with ⟨hlt,hmod,hquot⟩
    exact ⟨Nat.mul_comm p.NB_OUT_CHAN p.ratio ▸ hlt,hquot,hmod⟩

/-- Every input is at the place of its group and index. -/
theorem place_group {k : ℕ} (hk : k<p.NB_IN_CHAN) :
    p.place (p.group k) (p.index k)=k ∧ p.group k<p.NB_OUT_CHAN ∧ p.index k<p.ratio := by
  rw [in_eq hdiv] at hk
  have hratio : 0<p.ratio := Nat.pos_of_ne_zero fun h => by simp [h] at hk
  have hout : 0<p.NB_OUT_CHAN := Nat.pos_of_ne_zero fun h => by simp [h] at hk
  unfold Params.place Params.group Params.index
  cases p.INTERLEAVED_MUXING with
  | true => exact ⟨Nat.div_add_mod' k _,Nat.mod_lt k hout,Nat.div_lt_of_lt_mul (Nat.mul_comm p.ratio _ ▸ hk)⟩
  | false => exact ⟨Nat.div_add_mod' k _,Nat.div_lt_of_lt_mul hk,Nat.mod_lt k hratio⟩

/-- Inputs with the same group and index are the same. -/
theorem place_injective {k o j : ℕ} (hk : k<p.NB_IN_CHAN) (ho : p.group k=o) (hj : p.index k=j) :
    p.place o j=k := by
  rw [←ho,←hj]
  exact (place_group hdiv hk).1

end Grouping

section Winner

variable {s : State p} {i : Input p} {o : Fin p.NB_OUT_CHAN}

/-- An input at a place requests. -/
def Asks (i : Input p) (o : Fin p.NB_OUT_CHAN) (index : BitVec p.bits) : Prop :=
  (channel i.request (p.place o index.toNat)).req=true

/-- The loop ends with the last index of the order that requests, or where it started. -/
theorem winner_cases (s : State p) (i : Input p) (o : Fin p.NB_OUT_CHAN) (n : ℕ)
    (d : BitVec p.bits) :
    (∃ jj<n,(List.range n).foldl (challenge s i o) d=rr_priority s o jj ∧
      Asks i o (rr_priority s o jj) ∧ ∀ m,jj < m → m<n → ¬Asks i o (rr_priority s o m)) ∨
    (List.range n).foldl (challenge s i o) d=d ∧ ∀ m<n,¬Asks i o (rr_priority s o m) := by
  induction n with
  | zero => exact Or.inr ⟨rfl,fun m hm => absurd hm (Nat.not_lt_zero m)⟩
  | succ n ih =>
    rw [List.range_succ,List.foldl_append]
    generalize (List.range n).foldl (challenge s i o) d=w at ih ⊢
    have hlast : List.foldl (challenge s i o) w [n]=challenge s i o w n := rfl
    rw [hlast]
    by_cases hn : Asks i o (rr_priority s o n)
    · exact Or.inl ⟨n,Nat.lt_succ_self n,if_pos hn,hn,fun m hm hm' => by omega⟩
    · have hstay : challenge s i o w n=w := if_neg hn
      rw [hstay]
      have hnone : ∀ m,m<n+1 → (m<n → ¬Asks i o (rr_priority s o m)) →
          ¬Asks i o (rr_priority s o m) := by
        intro m hm hbelow
        rcases Nat.lt_succ_iff_lt_or_eq.mp hm with hlt | rfl
        · exact hbelow hlt
        · exact hn
      rcases ih with ⟨jj,hjj,hw,hasks,hrest⟩ | ⟨hw,hrest⟩
      · exact Or.inl ⟨jj,by omega,hw,hasks,fun m hm hm' => hnone m hm' (hrest m hm)⟩
      · exact Or.inr ⟨hw,fun m hm => hnone m hm (hrest m)⟩

/-- The turned indices are those of the group. -/
def Covers (s : State p) (o : Fin p.NB_OUT_CHAN) : Prop :=
  p.ratio=2^p.bits ∨ s.rr_counter+BitVec.ofNat _ o.val=0#p.bits

theorem ratio_le : p.ratio≤2^p.bits := Nat.le_pow_clog (by decide) p.ratio

theorem rr_priority_toNat (s : State p) (o : Fin p.NB_OUT_CHAN) (j : ℕ) :
    (rr_priority s o j).toNat=
      turn (2^p.bits) (s.rr_counter+BitVec.ofNat _ o.val).toNat j := by
  unfold rr_priority turn
  rw [BitVec.toNat_add,BitVec.toNat_ofNat,Nat.add_mod_mod]

/-- Every index that the order has is one of the group. -/
theorem rr_priority_lt (h : Covers s o) {j : ℕ} (hj : j<p.ratio) :
    (rr_priority s o j).toNat<p.ratio := by
  rcases h with hpow | hzero
  · have hlt := (rr_priority s o j).isLt
    omega
  · rw [rr_priority_toNat,hzero]
    unfold turn
    exact Nat.lt_of_le_of_lt (Nat.mod_le _ _) (by simpa using hj)

/-- Every index of the group is in the order. -/
theorem exists_rr_priority (hratio : 2≤p.ratio) (h : Covers s o) {q : ℕ} (hq : q<p.ratio) :
    ∃ j<p.ratio,(rr_priority s o j).toNat=q := by
  have hturn : (s.rr_counter+BitVec.ofNat _ o.val).toNat=0 ∨ p.ratio=2^p.bits := by
    rcases h with hpow | hzero
    · exact Or.inr hpow
    · exact Or.inl (by rw [hzero]; rfl)
  have hcovers := (turn_covers_iff (by omega) ratio_le
    (s.rr_counter+BitVec.ofNat _ o.val).isLt).mpr hturn
  rcases hcovers q hq with ⟨j,hj,heq⟩
  exact ⟨j,hj,(rr_priority_toNat s o j).trans heq⟩

/-- The winner is an index of the group. -/
theorem winner_lt (hratio : 2≤p.ratio) (h : Covers s o) : (winner s i o).toNat<p.ratio := by
  rcases winner_cases s i o p.ratio (s.rr_counter+BitVec.ofNat _ o.val) with
    ⟨jj,hjj,hw,-⟩ | ⟨hw,-⟩
  · unfold winner
    rw [hw]
    exact rr_priority_lt h hjj
  · have hfirst : rr_priority s o 0=s.rr_counter+BitVec.ofNat _ o.val := BitVec.add_zero _
    unfold winner
    rw [hw,←hfirst]
    exact rr_priority_lt h (by omega)

/-- The winner requests if any input of the group does. -/
theorem winner_asks (hratio : 2≤p.ratio) (h : Covers s o) {q : ℕ} (hq : q<p.ratio)
    (hreq : (channel i.request (p.place o q)).req=true) : Asks i o (winner s i o) := by
  rcases winner_cases s i o p.ratio (s.rr_counter+BitVec.ofNat _ o.val) with
    ⟨jj,hjj,hw,hasks,-⟩ | ⟨-,hnone⟩
  · unfold winner
    rw [hw]
    exact hasks
  · rcases exists_rr_priority hratio h hq with ⟨j,hj,heq⟩
    refine absurd ?_ (hnone j hj)
    unfold Asks
    rw [heq]
    exact hreq

/-- A requesting input whose index is the last of the order wins. -/
theorem winner_last (hpow : p.ratio=2^p.bits) (hratio : 2≤p.ratio) {index : BitVec p.bits}
    (hlast : index+1#p.bits=s.rr_counter+BitVec.ofNat _ o.val) (hreq : Asks i o index) :
    winner s i o=index := by
  have hend : rr_priority s o (p.ratio-1)=index := by
    have hminus : BitVec.ofNat p.bits (p.ratio-1)=-1#p.bits := by
      have hsub : p.ratio-1=2^p.bits-1 := by omega
      rw [hsub,BitVec.neg_one_eq_allOnes]
      apply BitVec.eq_of_toNat_eq
      simp
    unfold rr_priority
    rw [←hlast,hminus,BitVec.add_assoc,BitVec.add_neg_eq_sub,BitVec.sub_self,BitVec.add_zero]
  rcases winner_cases s i o p.ratio (s.rr_counter+BitVec.ofNat _ o.val) with
    ⟨jj,hjj,hw,-,hrest⟩ | ⟨-,hnone⟩
  · by_cases hjj' : jj=p.ratio-1
    · unfold winner
      rw [hw,hjj',hend]
    · refine absurd hreq ?_
      rw [←hend]
      exact hrest _ (by omega) (by omega)
  · refine absurd hreq ?_
    rw [←hend]
    exact hnone _ (by omega)

end Winner

section Respond

variable {β : Type} {zero : β} {index : Fin p.NB_OUT_CHAN → BitVec p.bits}
  {value : Fin p.NB_OUT_CHAN → β} (hdiv : p.NB_OUT_CHAN ∣ p.NB_IN_CHAN)
  (hindex : ∀ o, (index o).toNat<p.ratio)

/-- Clearing a group leaves the other inputs. -/
theorem clear_miss (f : Fin p.NB_IN_CHAN → β) (o : ℕ) (k : Fin p.NB_IN_CHAN) {js : List ℕ}
    (h : ∀ j ∈ js,p.place o j≠k.val) :
    js.foldl (fun f j => put f (p.place o j) zero) f k=f k := by
  have hmiss : ∀ (f : Fin p.NB_IN_CHAN → β) (j : ℕ),¬p.place o j=k.val →
      put f (p.place o j) zero k=f k := fun _ _ hne => if_neg fun heq => hne heq.symm
  exact LastWrite.look_of_untouched (fun f : Fin p.NB_IN_CHAN → β => f k) hmiss h

/-- Clearing a group clears its inputs. -/
theorem clear_hit (f : Fin p.NB_IN_CHAN → β) (o : ℕ) (k : Fin p.NB_IN_CHAN) {js : List ℕ}
    (h : ∃ j ∈ js,p.place o j=k.val) :
    js.foldl (fun f j => put f (p.place o j) zero) f k=zero := by
  rcases LastWrite.exists_last h with ⟨pre,j,post,rfl,hj,hpost⟩
  have hput : ∀ (f : Fin p.NB_IN_CHAN → β) j,p.place o j=k.val →
      put f (p.place o j) zero k=zero := fun f j heq => if_pos heq.symm
  exact LastWrite.look_of_last (fun f : Fin p.NB_IN_CHAN → β => f k)
    (fun _ _ hne => if_neg fun heq => hne heq.symm) hput hj hpost

include hdiv hindex

/-- An input gets the value of its output if it is the one that the output is for. -/
theorem respond_eq (k : Fin p.NB_IN_CHAN) (o : Fin p.NB_OUT_CHAN) (ho : p.group k=o) :
    respond zero index value k=if (index o).toNat=p.index k then value o else zero := by
  rcases place_group hdiv k.isLt with ⟨hplace,-,hlt⟩
  rw [ho] at hplace
  have hmiss : ∀ (f : Fin p.NB_IN_CHAN → β) o',¬o'=o → respondTo zero index value f o' k=f k := by
    intro f o' hne
    have hother : ∀ j<p.ratio,p.place o' j≠k.val := by
      intro j hj heq
      have hgroup := (place_spec hdiv o'.isLt hj).2.1
      rw [heq,ho] at hgroup
      exact hne (Fin.ext hgroup.symm)
    unfold respondTo
    have hwrite : k.val≠p.place o' (index o').toNat := fun heq => hother _ (hindex o') heq.symm
    have hput : ∀ g : Fin p.NB_IN_CHAN → β,put g (p.place o' (index o').toNat) (value o') k=g k :=
      fun g => if_neg hwrite
    rw [hput]
    exact clear_miss f o' k fun j hj => hother j (List.mem_range.mp hj)
  have hhit : ∀ (f : Fin p.NB_IN_CHAN → β) o',o'=o → respondTo zero index value f o' k=
      if (index o').toNat=p.index k then value o' else zero := by
    rintro f o' rfl
    unfold respondTo put
    by_cases hfor : (index o').toNat=p.index k
    · rw [if_pos hfor,if_pos (by rw [hfor,hplace])]
    · have hwrite : k.val≠p.place o' (index o').toNat := by
        intro heq
        have hback := (place_spec hdiv o'.isLt (hindex o')).2.2
        rw [←heq] at hback
        exact hfor hback.symm
      rw [if_neg hfor,if_neg hwrite]
      exact clear_hit f o' k ⟨p.index k,List.mem_range.mpr hlt,hplace⟩
  have hfound : ∃ o' ∈ List.finRange p.NB_OUT_CHAN,o'=o := ⟨o,List.mem_finRange o,rfl⟩
  rcases LastWrite.exists_last hfound with ⟨pre,w,post,hws,rfl,hpost⟩
  unfold respond
  rw [hws]
  exact LastWrite.look_of_last (fun f : Fin p.NB_IN_CHAN → β => f k) hmiss hhit rfl hpost

end Respond

/-- What is known of the last cycle. -/
structure Routed (s : System p) : Prop where
  /-- The registers hold indices of the groups. -/
  bound : ∀ o, (s.regs.last_winner o).toNat<p.ratio
  /-- They hold those of the inputs whose accesses were granted. -/
  routed : ∀ o k, s.granted o=some k → p.group k=o ∧
    (s.regs.last_winner o).toNat=p.index k ∧ s.regs.last_req o=true

theorem routed_start (hratio : 2≤p.ratio) : Routed (System.start (p := p)) :=
  ⟨fun _ => Nat.lt_of_lt_of_le Nat.zero_lt_two hratio,nofun⟩

section Cycle

variable {s : System p} {c : Cycle p} (hdiv : p.NB_OUT_CHAN ∣ p.NB_IN_CHAN) (hratio : 2≤p.ratio)

theorem Fits.covers (hc : Fits s c) (o : Fin p.NB_OUT_CHAN) : Covers s.regs o :=
  hc.order.imp_right fun h => h o

include hdiv

/-- The input that an output carries. -/
theorem carried_spec (hratio : 2≤p.ratio) (hc : Fits s c) (o : Fin p.NB_OUT_CHAN) :
    s.carried c o<p.NB_IN_CHAN ∧ p.group (s.carried c o)=o ∧
      p.index (s.carried c o)=(winner s.regs (s.input c) o).toNat :=
  place_spec hdiv o.isLt (winner_lt hratio (hc.covers o))

/-- An output makes a request exactly if an input of its group does. -/
theorem out_req_iff (o : Fin p.NB_OUT_CHAN) : out_req (s.input c) o=true ↔
    ∃ k : Fin p.NB_IN_CHAN,p.group k=o ∧ (c.request k).req=true := by
  unfold out_req
  rw [List.any_eq_true]
  constructor
  · rintro ⟨j,hj,hreq⟩
    rcases place_spec hdiv o.isLt (List.mem_range.mp hj) with ⟨hlt,hgroup,-⟩
    rw [channel_of_lt _ hlt] at hreq
    exact ⟨⟨_,hlt⟩,hgroup,hreq⟩
  · rintro ⟨k,hgroup,hreq⟩
    rcases place_group hdiv k.isLt with ⟨hplace,-,hlt⟩
    rw [hgroup] at hplace
    refine ⟨p.index k,List.mem_range.mpr hlt,?_⟩
    rw [hplace,channel_of_lt _ k.isLt]
    exact hreq

/-- With a request in its group an output carries a requesting input. -/
theorem carried_asks (hratio : 2≤p.ratio) (hc : Fits s c) (o : Fin p.NB_OUT_CHAN)
    (hex : ∃ k : Fin p.NB_IN_CHAN,p.group k=o ∧ (c.request k).req=true) :
    (channel c.request (s.carried c o)).req=true := by
  rcases hex with ⟨k,hgroup,hreq⟩
  rcases place_group hdiv k.isLt with ⟨hplace,-,hlt⟩
  rw [hgroup] at hplace
  refine winner_asks (i := s.input c) hratio (hc.covers o) hlt ?_
  rw [hplace]
  exact (congrArg Request.req (channel_of_lt c.request k.isLt)).trans hreq

/-- A cycle that meets the condition keeps what is known. -/
theorem Routed.step (hratio : 2≤p.ratio) (hc : Fits s c) : Routed (s.step c) := by
  have hregs : (s.step c).regs.last_winner=winner s.regs (s.input c) ∧
      (s.step c).regs.last_req=out_req (s.input c) := by
    have hclear : (s.input c).clear_i=false := hc.running
    simp [System.step,TcdmMux.step,hclear]
  refine ⟨fun o => ?_,fun o k hg => ?_⟩
  · rw [hregs.1]
    exact winner_lt hratio (hc.covers o)
  · rcases carried_spec hdiv hratio hc o with ⟨-,hgroup,hindex⟩
    simp only [System.step] at hg
    split_ifs at hg with hgo
    have hk := congrArg Fin.val (Option.some.inj hg)
    dsimp only at hk
    rw [hregs.1,hregs.2,←hk]
    exact ⟨hgroup,hindex.symm,(Bool.and_eq_true_iff.mp hgo.2).1⟩

/-- A cycle that meets the condition arbitrates. -/
theorem Routed.arbitrates (hratio : 2≤p.ratio) (h : Routed s) (hc : Fits s c) :
    Arbitrates s c := by
  have hbound := fun o => winner_lt (i := s.input c) hratio (hc.covers o)
  have hgnt : ∀ k : Fin p.NB_IN_CHAN,in_gnt s.regs (s.input c) k=true ↔
      ∃ o : Fin p.NB_OUT_CHAN,c.gnt o=true ∧ s.carried c o=k := by
    intro k
    rcases place_group hdiv k.isLt with ⟨hplace,hout,-⟩
    have heq : in_gnt s.regs (s.input c) k=if (winner s.regs (s.input c) ⟨p.group k,hout⟩).toNat=
        p.index k then c.gnt ⟨p.group k,hout⟩ else false := respond_eq hdiv hbound k ⟨_,hout⟩ rfl
    rw [heq]
    constructor
    · intro hone
      split_ifs at hone with hindex
      refine ⟨⟨p.group k,hout⟩,hone,?_⟩
      unfold System.carried
      rw [hindex]
      exact hplace
    · rintro ⟨o,ho,hcarried⟩
      rcases carried_spec hdiv hratio hc o with ⟨-,hgroup,hindex⟩
      rw [hcarried] at hgroup hindex
      have hsame : (⟨p.group k,hout⟩ : Fin p.NB_OUT_CHAN)=o := Fin.ext hgroup
      rw [hsame,if_pos hindex.symm,ho]
  have hvalue : ∀ {β : Type} (zero : β) (value : Fin p.NB_OUT_CHAN → β) (o : Fin p.NB_OUT_CHAN)
      (k : Fin p.NB_IN_CHAN),s.granted o=some k →
        respond zero s.regs.last_winner value k=value o := by
    intro β zero value o k hg
    rcases h.routed o k hg with ⟨hgroup,hindex,-⟩
    rw [respond_eq hdiv h.bound k o hgroup,if_pos hindex]
  refine ⟨fun o hex => ?_,fun o hnone => ?_,hgnt,fun k hk => ?_,fun k => ?_,fun o k hg => ?_⟩
  · rcases carried_spec hdiv hratio hc o with ⟨hlt,hgroup,-⟩
    have hasks := carried_asks hdiv hratio hc o hex
    rw [channel_of_lt _ hlt] at hasks
    refine ⟨⟨_,hlt⟩,hgroup,hasks,rfl,?_⟩
    have hout : out s.regs (s.input c) o={ channel c.request (s.carried c o) with
      req := out_req (s.input c) o } := rfl
    rw [hout,channel_of_lt _ hlt,(out_req_iff hdiv o).mpr hex,←hasks]
  · refine Bool.eq_false_iff.mpr fun hreq => ?_
    rcases (out_req_iff hdiv o).mp hreq with ⟨k,hgroup,hk⟩
    exact absurd ((hnone k hgroup).symm.trans hk) nofun
  · rcases (hgnt k).mp hk with ⟨o,ho,hcarried⟩
    have hasks := carried_asks hdiv hratio hc o (hc.asked o ho)
    rwa [hcarried,channel_of_lt _ k.isLt] at hasks
  · constructor
    · intro hvalid
      rcases place_group hdiv k.isLt with ⟨-,hout,-⟩
      have heq : in_r_valid s.regs (s.input c) k=if (s.regs.last_winner ⟨p.group k,hout⟩).toNat=
          p.index k then ((s.granted ⟨p.group k,hout⟩).isSome && s.regs.last_req ⟨p.group k,hout⟩)
          else false := respond_eq hdiv h.bound k ⟨_,hout⟩ rfl
      rw [heq] at hvalid
      split_ifs at hvalid with hindex
      rcases Option.isSome_iff_exists.mp (Bool.and_eq_true_iff.mp hvalid).1 with ⟨k',hg⟩
      rcases h.routed _ k' hg with ⟨hgroup',hindex',-⟩
      have hsame : k'=k := by
        apply Fin.ext
        rw [←place_injective hdiv k'.isLt hgroup' (hindex'.symm.trans hindex)]
        exact place_injective hdiv k.isLt rfl rfl
      exact ⟨_,hsame ▸ hg⟩
    · rintro ⟨o,hg⟩
      refine (hvalue false _ o k hg).trans ?_
      simp [System.input,hg,(h.routed o k hg).2.2]
  · exact hvalue 0#32 _ o k hg

end Cycle

section Waiting

variable {s : System p} {c : Cycle p} {k : Fin p.NB_IN_CHAN} {o : Fin p.NB_OUT_CHAN}

/-- Moves of the counter before an input has the highest priority on its output. -/
def System.turns (s : System p) (k : Fin p.NB_IN_CHAN) (o : Fin p.NB_OUT_CHAN) : ℕ :=
  (BitVec.ofNat p.bits (p.index k+1)-(s.regs.rr_counter+BitVec.ofNat _ o.val)).toNat

/-- The input requests and is not granted. -/
def Waits (k : Fin p.NB_IN_CHAN) (s : System p) (c : Cycle p) : Prop :=
  (c.request k).req=true ∧ in_gnt s.regs (s.input c) k=false

/-- One less for a counter that is one further. -/
theorem sub_add_one {w : ℕ} {x y : BitVec w} (h : x≠y) :
    (x-(y+1#w)).toNat+1=(x-y).toNat := by
  have hpos : 0<(x-y).toNat := by
    refine Nat.pos_of_ne_zero fun hzero => h ?_
    have hsub : x-y=0#w := BitVec.eq_of_toNat_eq (by simpa using hzero)
    have hback := congrArg (·+y) hsub
    simpa using hback
  have hsplit : x-(y+1#w)=x-y-1#w := by
    rw [BitVec.sub_eq_add_neg,BitVec.neg_add,BitVec.sub_eq_add_neg (x-y),BitVec.sub_eq_add_neg x,
      BitVec.sub_eq_add_neg (-y),BitVec.add_assoc]
  have hone : (1#w).toNat=1 := by
    have hlt := (x-y).isLt
    rw [BitVec.toNat_ofNat,Nat.mod_eq_of_lt (by omega)]
  rw [hsplit,BitVec.toNat_sub_of_le (by rw [BitVec.le_def,hone]; exact hpos),hone]
  exact Nat.sub_add_cancel hpos

/-- Every access on the output brings a waiting input nearer to its turn. -/
theorem turns_step (hdiv : p.NB_OUT_CHAN ∣ p.NB_IN_CHAN) (hratio : 2≤p.ratio) (hr : Routed s)
    (hc : Fits s c) (hturn : KeepsTurns s c) (hgroup : p.group k=o) (hwait : Waits k s c) :
    (s.step c).turns k o+(if s.accessed c o=true then 1 else 0) ≤ s.turns k o := by
  have hclear : (s.input c).clear_i=false := hc.running
  have hcounter : (s.step c).regs.rr_counter=
      if s_rr_counter_reg_en (s.input c) then s.regs.rr_counter+1#p.bits else s.regs.rr_counter := by
    simp [System.step,TcdmMux.step,hclear]
  have hstays : s_rr_counter_reg_en (s.input c)=false → s.accessed c o=false := by
    intro hno
    refine Bool.eq_false_iff.mpr fun hacc => ?_
    rcases Bool.and_eq_true_iff.mp hacc with ⟨hreq,hgnt⟩
    refine absurd hno (Bool.ne_false_iff.mpr ?_)
    unfold s_rr_counter_reg_en
    rw [Bool.and_eq_true,List.any_eq_true,List.any_eq_true]
    exact ⟨⟨o,List.mem_finRange o,hreq⟩,⟨o,List.mem_finRange o,hgnt⟩⟩
  have hmoves : s_rr_counter_reg_en (s.input c)=true →
      BitVec.ofNat p.bits (p.index k+1)≠s.regs.rr_counter+BitVec.ofNat _ o.val := by
    intro hen htop
    unfold s_rr_counter_reg_en at hen
    rw [Bool.and_eq_true,List.any_eq_true,List.any_eq_true] at hen
    rcases hen.2 with ⟨o',-,hgnt'⟩
    have hgnt := hturn ⟨o',hgnt'⟩ k o hgroup hwait.1 htop
    rcases place_group hdiv k.isLt with ⟨hplace,-,hlt⟩
    rw [hgroup] at hplace
    have hindex : (BitVec.ofNat p.bits (p.index k)).toNat=p.index k := by
      rw [BitVec.toNat_ofNat]
      exact Nat.mod_eq_of_lt (Nat.lt_of_lt_of_le hlt ratio_le)
    by_cases hpow : p.ratio=2^p.bits
    · -- the input wins, and its output is granted
      have hasks : Asks (s.input c) o (BitVec.ofNat p.bits (p.index k)) := by
        unfold Asks
        rw [hindex,hplace,channel_of_lt _ k.isLt]
        exact hwait.1
      have hwin := winner_last hpow hratio ((BitVec.ofNat_add _ _).symm.trans htop) hasks
      have hcarried : s.carried c o=k := by
        unfold System.carried
        rw [hwin,hindex,hplace]
      have hgranted := ((hr.arbitrates hdiv hratio hc).grants k).mpr ⟨o,hgnt,hcarried⟩
      exact absurd (hwait.2.symm.trans hgranted) nofun
    · -- the order starts at zero and ends before the last index that there could be
      have hzero := (hc.covers o).resolve_left hpow
      rw [hzero] at htop
      have hmod := congrArg BitVec.toNat htop
      have hle := ratio_le (p := p)
      rw [BitVec.toNat_ofNat,Nat.mod_eq_of_lt (by omega)] at hmod
      exact absurd hmod (Nat.succ_ne_zero _)
  cases hen : s_rr_counter_reg_en (s.input c) with
  | false =>
    rw [hen,if_neg Bool.false_ne_true] at hcounter
    rw [hstays hen,if_neg Bool.false_ne_true,System.turns,hcounter]
    exact Nat.le_refl _
  | true =>
    rw [hen,if_pos rfl] at hcounter
    have hone := sub_add_one (hmoves hen)
    have hnext : s.regs.rr_counter+1#p.bits+BitVec.ofNat p.bits o.val=
        s.regs.rr_counter+BitVec.ofNat p.bits o.val+1#p.bits := by
      rw [BitVec.add_assoc,BitVec.add_assoc,BitVec.add_comm 1#p.bits]
    unfold System.turns
    rw [hcounter,hnext]
    split_ifs <;> omega

/-- The turn of an input comes within as many moves as there are inputs in its group. -/
theorem turns_le (hdiv : p.NB_OUT_CHAN ∣ p.NB_IN_CHAN) (hc : Fits s c) : s.turns k o≤p.ratio := by
  rcases hc.covers o with hpow | hzero
  · have hlt := (BitVec.ofNat p.bits (p.index k+1)-
      (s.regs.rr_counter+BitVec.ofNat p.bits o.val)).isLt
    unfold System.turns
    omega
  · have hlt := (place_group hdiv k.isLt).2.2
    unfold System.turns
    rw [hzero,BitVec.sub_zero,BitVec.toNat_ofNat]
    exact (Nat.mod_le _ _).trans hlt

end Waiting

/-- Where all cycles of a run meet the condition they arbitrate, and where no turn is lost
either, an input that keeps requesting is granted after at most as many accesses on its output
as there are inputs in its group. -/
theorem arbitrates_when (p : Params) (hdiv : p.NB_OUT_CHAN ∣ p.NB_IN_CHAN) (hratio : 2≤p.ratio)
    (cycles : List (Cycle p)) (hc : Meets System.step Fits System.start cycles) :
    Meets System.step Arbitrates System.start cycles ∧
      ∀ before waiting later, before++waiting++later=cycles →
        ∀ (k : Fin p.NB_IN_CHAN) (o : Fin p.NB_OUT_CHAN), p.group k=o →
          Meets System.step KeepsTurns (after System.step System.start before) waiting →
          Meets System.step (Waits k) (after System.step System.start before) waiting →
          count System.step (fun s c => s.accessed c o)
            (after System.step System.start before) waiting≤p.ratio := by
  have hstep : ∀ (s : System p) c,Routed s → Fits s c → Routed (s.step c) :=
    fun _ _ _ hf => Routed.step hdiv hratio hf
  constructor
  · exact meets_of_meets hstep (fun _ _ hr hf => hr.arbitrates hdiv hratio hf)
      (routed_start hratio) hc
  · rintro before waiting later rfl k o hgroup hturns hwaits
    rw [List.append_assoc,meets_append,meets_append] at hc
    have hrouted := after_invariant_of_meets hstep (routed_start hratio) hc.1
    generalize after System.step System.start before=s at hrouted hturns hwaits hc ⊢
    have hall : Meets System.step (fun s c => Fits s c ∧ KeepsTurns s c ∧ Waits k s c) s waiting :=
      meets_and.mpr ⟨hc.2.1,meets_and.mpr ⟨hturns,hwaits⟩⟩
    have hcount := count_le_measure (O := fun (s : System p) c => s.accessed c o)
      (fun s => s.turns k o) (fun s c hr hf => hstep s c hr hf.1)
      (fun s c hr hf => turns_step hdiv hratio hr hf.1 hf.2.1 hgroup hf.2.2) hrouted hall
    cases waiting with
    | nil => exact Nat.zero_le _
    | cons c waiting => exact hcount.trans (turns_le hdiv hc.2.1.1)

/-- A request that only tells the inputs apart. -/
def asking (add : BitVec 32) : Request := ⟨true,add,true,0xf,0⟩

/-- Four inputs in two groups, all of which request. -/
def crowded (gnt : Fin 2 → Bool) : Cycle ⟨4,2,true⟩ :=
  ⟨false,fun k => asking (BitVec.ofNat 32 k.val),gnt,fun _ => 0⟩

/-- Two cycles with all outputs granted: inputs two and one, then inputs zero and three. -/
theorem arbitrates_when_crowded :
    let cycles := [crowded fun _ => true,crowded fun _ => true]
    Meets System.step Arbitrates System.start cycles ∧
      (List.finRange 4).map (in_gnt reset (System.start.input (crowded fun _ => true)))=
        [false,true,true,false] := by
  refine ⟨(arbitrates_when ⟨4,2,true⟩ (by decide) (by decide)
    [crowded fun _ => true,crowded fun _ => true] ⟨?_,?_,trivial⟩).1,by decide⟩
  · exact ⟨Or.inl (by decide),by decide,rfl⟩
  · exact ⟨Or.inl (by decide),by decide,rfl⟩

/-- Three inputs of one output, of which input `k` requests. -/
def single (k : Fin 3) : Cycle ⟨3,1,true⟩ :=
  ⟨false,fun j => { asking 0 with req := j == k },fun _ => true,fun _ => 0⟩

/-- After one access the turned order has no place for input zero, and the output carries input
one, which does not request. -/
theorem not_arbitrates_three :
    ¬Meets System.step Arbitrates System.start [single 2,single 0] := by
  intro h
  rcases h.2.1.forwards 0 ⟨0,by decide,by decide⟩ with ⟨k,-,hreq,hcarried,-⟩
  have hone : System.carried (System.start.step (single 2)) (single 0) 0=1 := by decide
  have hk : k=1 := Fin.ext (hcarried.symm.trans hone)
  subst hk
  exact absurd hreq (by decide)

/-- All outputs are granted in one cycle, and output one alone in the next. -/
def round : List (Cycle ⟨4,2,true⟩) := [crowded fun _ => true,crowded fun o => o == 1]

/-- The block after reset, with its counter moved on. -/
def counted (rr_counter : BitVec 1) : System ⟨4,2,true⟩ := ⟨{ reset with rr_counter },fun _ => none⟩

/-- The counter alone decides what a cycle does. -/
theorem counted_spec (s : System ⟨4,2,true⟩) (c : Cycle ⟨4,2,true⟩) :
    in_gnt s.regs (s.input c)=in_gnt (counted s.regs.rr_counter).regs
        ((counted s.regs.rr_counter).input c) ∧
      s.accessed c=(counted s.regs.rr_counter).accessed c ∧
        (s.step c).regs.rr_counter=((counted s.regs.rr_counter).step c).regs.rr_counter := by
  rcases s with ⟨⟨rr_counter,last_winner,last_req⟩,granted⟩
  refine ⟨rfl,rfl,?_⟩
  unfold System.step TcdmMux.step
  cases hclear : c.clear_i with
  | true => simp [System.input,hclear]
  | false =>
    simp only [System.input,hclear,Bool.false_eq_true,if_false]
    rfl

/-- A round leaves the counter at zero and input zero waiting, with one access on its output. -/
theorem round_spec {s : System ⟨4,2,true⟩} (hs : s.regs.rr_counter=0#1) :
    (after System.step s round).regs.rr_counter=0#1 ∧ Meets System.step (Waits 0) s round ∧
      count System.step (fun s c => s.accessed c 0) s round=1 := by
  rcases counted_spec s (crowded fun _ => true) with ⟨hgnt,hacc,hnext⟩
  rw [hs] at hgnt hacc hnext
  have hone : (s.step (crowded fun _ => true)).regs.rr_counter=1#1 :=
    hnext.trans (BitVec.eq_of_toNat_eq (by decide))
  rcases counted_spec (s.step (crowded fun _ => true)) (crowded fun o => o == 1) with
    ⟨hgnt',hacc',hnext'⟩
  rw [hone] at hgnt' hacc' hnext'
  refine ⟨hnext'.trans (BitVec.eq_of_toNat_eq (by decide)),⟨⟨rfl,?_⟩,⟨rfl,?_⟩,trivial⟩,?_⟩
  · rw [hgnt]
    decide
  · rw [hgnt']
    decide
  · have haccessed : (counted 0#1).accessed (crowded fun _ => true) 0=true := by decide
    have hother : (counted 1#1).accessed (crowded fun o => o == 1) 0=false := by decide
    unfold round
    rw [count_cons,count_cons,hacc,hacc',haccessed,hother]
    rfl

/-- With a power of two as ratio an input still starves when the other output takes its turns:
any number of accesses on its output go by. -/
theorem starves (n : ℕ) : Meets System.step (Waits 0) System.start (List.replicate n round).flatten ∧
    count System.step (fun s c => s.accessed c 0) System.start (List.replicate n round).flatten=n := by
  have hrun : ∀ s : System ⟨4,2,true⟩,s.regs.rr_counter=0#1 →
      Meets System.step (Waits 0) s (List.replicate n round).flatten ∧
        count System.step (fun s c => s.accessed c 0) s (List.replicate n round).flatten=n := by
    induction n with
    | zero => exact fun _ _ => ⟨trivial,rfl⟩
    | succ n ih =>
      intro s hs
      rcases round_spec hs with ⟨hcounter,hwaits,hone⟩
      rcases ih _ hcounter with ⟨hrest,hcount⟩
      rw [List.replicate_succ,List.flatten_cons]
      refine ⟨(meets_append _ _ _ _ _).mpr ⟨hwaits,hrest⟩,?_⟩
      rw [count_append,hone,hcount,Nat.add_comm]
  exact hrun _ rfl

end Pulpissimo.Hwpe.TcdmMux
