import Mathlib.Data.BitVec
import Mathlib.Data.Nat.Log
import Pulpissimo.Hwpe.Tcdm
import Pulpissimo.Lib.Machine
import Pulpissimo.Lib.Rotation

/-!
# The HWPE TCDM reordering block

`hwpe_stream_tcdm_reorder` gives output `j` the request of input `order_i + j`
and returns grants and responses through the same index. The loop that returns
them also clears input `i` in iteration `i`, so that what an earlier iteration
gave a higher input is lost.
-/

namespace Pulpissimo.Hwpe.TcdmReorder

open Pulpissimo.Machine Pulpissimo.Rotation Pulpissimo.Hwpe.Tcdm

/-- Number of bits of an index, `$clog2(NB_CHAN)`. -/
abbrev bits (NB_CHAN : ℕ) : ℕ := Nat.clog 2 NB_CHAN

/-- Registers. -/
structure State (NB_CHAN : ℕ) where
  /-- Input that each output carried in the last cycle. -/
  last_winner : Fin NB_CHAN → BitVec (bits NB_CHAN)
  /-- The output made a request in the last cycle. -/
  last_req : Fin NB_CHAN → Bool

/-- One cycle of inputs. -/
structure Input (NB_CHAN : ℕ) where
  /-- Synchronous reset. -/
  clear_i : Bool
  /-- Rotation. -/
  order_i : BitVec (bits NB_CHAN)
  /-- Requests of the inputs. -/
  request : Fin NB_CHAN → Request
  /-- Grants to the outputs. -/
  out_gnt : Fin NB_CHAN → Bool
  /-- Responses to the outputs. -/
  out_r_valid : Fin NB_CHAN → Bool
  /-- Their data. -/
  out_r_data : Fin NB_CHAN → BitVec 32

variable {NB_CHAN : ℕ}

/-- Values after reset. -/
def reset : State NB_CHAN := ⟨fun _ => 0,fun _ => false⟩

section Code

variable (s : State NB_CHAN) (i : Input NB_CHAN)

/-- The input that an output carries. -/
def winner (j : Fin NB_CHAN) : BitVec (bits NB_CHAN) := i.order_i+BitVec.ofNat _ j.val

/-- Request of an output. -/
def out (j : Fin NB_CHAN) : Request := channel i.request (winner i j).toNat

/-- Grants to the inputs. -/
def in_gnt : Fin NB_CHAN → Bool := scatter false (fun j => (winner i j).toNat) i.out_gnt

/-- Responses to the inputs. -/
def in_r_valid : Fin NB_CHAN → Bool :=
  scatter false (fun j => (s.last_winner j).toNat) fun j => i.out_r_valid j && s.last_req j

/-- Their data. -/
def in_r_data : Fin NB_CHAN → BitVec 32 :=
  scatter 0#32 (fun j => (s.last_winner j).toNat) i.out_r_data

/-- One clock edge. -/
def step : State NB_CHAN :=
  if i.clear_i then reset else ⟨winner i,fun j => (out i j).req⟩

end Code

/-- One cycle outside the block. -/
structure Cycle (NB_CHAN : ℕ) where
  /-- Synchronous reset. -/
  clear_i : Bool
  /-- Rotation. -/
  order_i : BitVec (bits NB_CHAN)
  /-- Requests of the inputs. -/
  request : Fin NB_CHAN → Request
  /-- The memory grants a request. -/
  gnt : Fin NB_CHAN → Bool
  /-- Data of its answers. -/
  r_data : Fin NB_CHAN → BitVec 32

/-- The block and a memory that answers every granted access one cycle later. -/
structure System (NB_CHAN : ℕ) where
  /-- The block. -/
  regs : State NB_CHAN
  /-- The input whose access each output was granted in the last cycle. -/
  granted : Fin NB_CHAN → Option (Fin NB_CHAN)
  /-- The block was reset in the last cycle. -/
  cleared : Bool

/-- After reset. -/
def System.start : System NB_CHAN := ⟨reset,fun _ => none,true⟩

section System

variable (s : System NB_CHAN) (c : Cycle NB_CHAN)

/-- Inputs of the block. -/
def System.input : Input NB_CHAN :=
  ⟨c.clear_i,c.order_i,c.request,c.gnt,fun j => (s.granted j).isSome,c.r_data⟩

/-- One clock edge of block and memory. -/
def System.step : System NB_CHAN where
  regs := TcdmReorder.step (s.input c)
  granted j :=
    if h : (winner (s.input c) j).toNat<NB_CHAN ∧ (out (s.input c) j).req=true ∧ c.gnt j=true then
      some ⟨_,h.1⟩ else none
  cleared := c.clear_i

/-- The block connects inputs and outputs one to one, shows each input the grant
of the output that carries it, and gives each answer to the input whose access
was granted. -/
structure Transparent : Prop where
  /-- Every input is carried by exactly one output. -/
  connected : ∀ k : Fin NB_CHAN, ∃! j, (winner (s.input c) j).toNat=k.val
  /-- An input sees the grant of its output. -/
  grants : ∀ j k : Fin NB_CHAN, (winner (s.input c) j).toNat=k.val →
    in_gnt (s.input c) k=c.gnt j
  /-- An input sees a response exactly if its access was granted. -/
  responses : ∀ k, in_r_valid s.regs (s.input c) k=true ↔ ∃ j, s.granted j=some k
  /-- The data are those of the answer. -/
  data : ∀ j k, s.granted j=some k → in_r_data s.regs (s.input c) k=c.r_data j

/-- The condition on a cycle: no rotation unless the number of channels is a
power of two, no grant to an output that carries a higher input, and no answer
after a reset. -/
structure Fits : Prop where
  /-- All indices reach a channel. -/
  order : c.order_i=0 ∨ NB_CHAN=2^bits NB_CHAN
  /-- Granted outputs carry inputs that are no higher. -/
  grants : ∀ j, c.gnt j=true → c.order_i=0 ∨ NB_CHAN ≤ c.order_i.toNat+j.val
  /-- No access was granted in a cycle with a reset. -/
  kept : s.cleared=true → ∀ j, s.granted j=none

end System

section Cycle

variable {s : System NB_CHAN} {c : Cycle NB_CHAN} {i : Input NB_CHAN}

theorem winner_toNat (j : Fin NB_CHAN) :
    (winner i j).toNat=turn (2^bits NB_CHAN) i.order_i.toNat j.val := by
  unfold winner turn
  rw [BitVec.toNat_add,BitVec.toNat_ofNat,Nat.add_mod_mod]

theorem le_pow_bits : NB_CHAN≤2^bits NB_CHAN := Nat.le_pow_clog (by decide) NB_CHAN

theorem index_lt (j : Fin NB_CHAN) : j.val<2^bits NB_CHAN := Nat.lt_of_lt_of_le j.isLt le_pow_bits

theorem order_eq_zero_iff {w : ℕ} (x : BitVec w) : x.toNat=0 ↔ x=0 :=
  ⟨fun h => BitVec.eq_of_toNat_eq (by simpa using h),fun h => by simp [h]⟩

/-- Different outputs carry different inputs. -/
theorem winner_injective {j k : Fin NB_CHAN} (h : (winner i j).toNat=(winner i k).toNat) : j=k := by
  rw [winner_toNat,winner_toNat] at h
  exact Fin.ext (turn_injective i.order_i.isLt (index_lt j) (index_lt k) h)

/-- One to one is the condition on the rotation. -/
theorem connected_iff : (∀ k : Fin NB_CHAN, ∃! j, (winner i j).toNat=k.val) ↔
    i.order_i=0 ∨ NB_CHAN=2^bits NB_CHAN := by
  rcases Nat.eq_zero_or_pos NB_CHAN with rfl | hpos
  · exact ⟨fun _ => Or.inl (order_eq_zero_iff _ |>.mp (Nat.lt_one_iff.mp i.order_i.isLt)),
      fun _ k => k.elim0⟩
  rw [←order_eq_zero_iff,←turn_covers_iff hpos le_pow_bits i.order_i.isLt]
  constructor
  · intro h k hk
    rcases h ⟨k,hk⟩ with ⟨j,hj,-⟩
    exact ⟨j.val,j.isLt,by rw [←winner_toNat,hj]⟩
  · intro h k
    rcases h k.val k.isLt with ⟨j,hj,hturn⟩
    have hwinner : (winner i ⟨j,hj⟩).toNat=k.val := by rw [winner_toNat,hturn]
    exact ⟨⟨j,hj⟩,hwinner,fun j' hj' => winner_injective (hj'.trans hwinner.symm)⟩

/-- Where all inputs are reached, an output carries no higher input exactly in a
cycle without rotation or behind the wrap. -/
theorem winner_le_iff (horder : i.order_i=0 ∨ NB_CHAN=2^bits NB_CHAN) (j : Fin NB_CHAN) :
    (winner i j).toNat≤j.val ↔ i.order_i=0 ∨ NB_CHAN ≤ i.order_i.toNat+j.val := by
  rw [winner_toNat,turn_le_iff i.order_i.isLt (index_lt j),order_eq_zero_iff]
  rcases horder with hzero | hpow
  · simp [hzero]
  · rw [←hpow]

theorem winner_lt (horder : i.order_i=0 ∨ NB_CHAN=2^bits NB_CHAN) (j : Fin NB_CHAN) :
    (winner i j).toNat<NB_CHAN := by
  rcases horder with hzero | hpow
  · exact Nat.lt_of_le_of_lt ((winner_le_iff (Or.inl hzero) j).mpr (Or.inl hzero)) j.isLt
  · have hlt := (winner i j).isLt
    omega

/-- What is known of the last cycle. -/
structure Routed (s : System NB_CHAN) : Prop where
  /-- No granted access came from a higher input. -/
  below : ∀ j k, s.granted j=some k → k≤j
  /-- The registers hold the inputs whose accesses were granted. -/
  routed : s.cleared=false → ∀ j k, s.granted j=some k →
    (s.regs.last_winner j).toNat=k.val ∧ s.regs.last_req j=true
  /-- They hold different inputs. -/
  distinct : s.cleared=false → ∀ j k,
    (s.regs.last_winner j).toNat=(s.regs.last_winner k).toNat → j=k
  /-- A reset leaves no request. -/
  quiet : s.cleared=true → ∀ j, s.regs.last_req j=false

theorem routed_start : Routed (System.start : System NB_CHAN) :=
  ⟨nofun,nofun,nofun,fun _ _ => rfl⟩

/-- A granted access of this cycle. -/
theorem step_granted {j k : Fin NB_CHAN} (h : (s.step c).granted j=some k) :
    (winner (s.input c) j).toNat=k.val ∧ (out (s.input c) j).req=true ∧ c.gnt j=true := by
  simp only [System.step] at h
  split_ifs at h with hgo
  exact ⟨congrArg Fin.val (Option.some.inj h),hgo.2⟩

/-- A cycle that meets the condition keeps this. -/
theorem Routed.step (hc : Fits s c) : Routed (s.step c) := by
  have hregs : c.clear_i=false →
      (s.step c).regs=⟨winner (s.input c),fun j => (out (s.input c) j).req⟩ :=
    fun hclear => if_neg (by simp [System.input,hclear])
  refine ⟨fun j k h => ?_,fun hclear j k h => ?_,fun hclear j k h => ?_,fun hclear j => ?_⟩
  · rcases step_granted h with ⟨hwinner,-,hgnt⟩
    have hle := (winner_le_iff (i := s.input c) hc.order j).mpr (hc.grants j hgnt)
    rw [hwinner] at hle
    exact hle
  · rcases step_granted h with ⟨hwinner,hreq,-⟩
    rw [hregs hclear]
    exact ⟨hwinner,hreq⟩
  · rw [hregs hclear] at h
    exact winner_injective h
  · have hreset : (s.step c).regs=reset := if_pos hclear
    rw [hreset]
    rfl

/-- The grant that an input sees. -/
theorem in_gnt_eq {j k : Fin NB_CHAN} (hwinner : (winner i j).toNat=k.val) :
    in_gnt i k=(i.out_gnt j && decide (k≤j)) := by
  have hunique : ∀ j', (winner i j').toNat=k.val → j'=j :=
    fun j' hj' => winner_injective (hj'.trans hwinner.symm)
  by_cases hle : k≤j
  · rw [decide_eq_true hle,Bool.and_true]
    exact scatter_kept hunique hwinner hle
  · rw [decide_eq_false hle,Bool.and_false]
    exact scatter_lost fun j' hj' => hunique j' hj' ▸ lt_of_not_ge hle

/-- After a reset no input sees a response. -/
theorem Routed.silent (h : Routed s) (hclear : s.cleared=true) (k : Fin NB_CHAN) :
    in_r_valid s.regs (s.input c) k=false :=
  scatter_zero fun j _ => by rw [h.quiet hclear,Bool.and_false]

/-- Without one, an input sees the answer to its access. -/
theorem Routed.answered (h : Routed s) (hclear : s.cleared=false) {j k : Fin NB_CHAN}
    (hg : s.granted j=some k) :
    in_r_valid s.regs (s.input c) k=true ∧ in_r_data s.regs (s.input c) k=c.r_data j := by
  rcases h.routed hclear j k hg with ⟨hwinner,hreq⟩
  have hunique : ∀ j', (s.regs.last_winner j').toNat=k.val → j'=j :=
    fun j' hj' => h.distinct hclear j' j (hj'.trans hwinner.symm)
  have hle := h.below j k hg
  refine ⟨?_,scatter_kept hunique hwinner hle⟩
  refine (scatter_kept hunique hwinner hle).trans ?_
  simp [System.input,hg,hreq]

/-- No other input does. -/
theorem Routed.unanswered (h : Routed s) (hclear : s.cleared=false) {k : Fin NB_CHAN}
    (hno : ∀ j, s.granted j≠some k) : in_r_valid s.regs (s.input c) k=false := by
  refine scatter_zero fun j hj => ?_
  cases hg : s.granted j with
  | none => simp [System.input,hg]
  | some k' =>
    have hk : k'=k := Fin.ext ((h.routed hclear j k' hg).1.symm.trans hj)
    exact absurd (hk ▸ hg) (hno j)

/-- A cycle is transparent exactly when it meets the condition. -/
theorem Routed.transparent_iff (h : Routed s) : Transparent s c ↔ Fits s c := by
  constructor
  · intro ht
    have horder : c.order_i=0 ∨ NB_CHAN=2^bits NB_CHAN := connected_iff.mp ht.connected
    refine ⟨horder,fun j hgnt => ?_,fun hclear j => ?_⟩
    · have hlt := winner_lt (i := s.input c) horder j
      have hgrant := ht.grants j ⟨_,hlt⟩ rfl
      rw [in_gnt_eq (j := j) rfl,hgnt] at hgrant
      have hle : (winner (s.input c) j).toNat≤j.val := by
        have hboth : (c.gnt j && decide (Fin.mk _ hlt≤j))=true := hgrant
        exact of_decide_eq_true (Bool.and_eq_true_iff.mp hboth).2
      exact (winner_le_iff (i := s.input c) horder j).mp hle
    · cases hg : s.granted j with
      | none => rfl
      | some k =>
        have hvalid := (ht.responses k).mpr ⟨j,hg⟩
        rw [h.silent hclear] at hvalid
        exact absurd hvalid nofun
  · intro hc
    refine ⟨connected_iff.mpr hc.order,fun j k hwinner => ?_,fun k => ?_,fun j k hg => ?_⟩
    · rw [in_gnt_eq hwinner]
      have hout : (s.input c).out_gnt j=c.gnt j := rfl
      rw [hout]
      cases hgnt : c.gnt j with
      | false => rfl
      | true =>
        have hle := (winner_le_iff (i := s.input c) hc.order j).mpr (hc.grants j hgnt)
        rw [hwinner] at hle
        rw [decide_eq_true (Fin.le_def.mpr hle)]
        rfl
    · cases hclear : s.cleared with
      | true =>
        rw [h.silent hclear]
        refine ⟨nofun,fun hex => ?_⟩
        rcases hex with ⟨j,hg⟩
        exact absurd ((hc.kept hclear j).symm.trans hg) nofun
      | false =>
        refine ⟨fun hvalid => ?_,fun hex => ?_⟩
        · by_contra hno
          rw [not_exists] at hno
          exact absurd (hvalid.symm.trans (h.unanswered hclear hno)) nofun
        · rcases hex with ⟨j,hg⟩
          exact (h.answered hclear hg).1
    · cases hclear : s.cleared with
      | true => exact absurd ((hc.kept hclear j).symm.trans hg) nofun
      | false => exact (h.answered hclear hg).2

end Cycle

/-- The block is transparent in every cycle of a run exactly when every cycle
meets the condition, for every number of channels. -/
theorem transparent_exactly (NB_CHAN : ℕ) (cycles : List (Cycle NB_CHAN)) :
    Meets System.step Transparent System.start cycles ↔
      Meets System.step Fits System.start cycles :=
  meets_congr_of_meets (fun _ _ _ hc => Routed.step hc) (fun _ _ h => h.transparent_iff)
    routed_start

/-- Both inputs request, both outputs are granted, and the order is turned by one. -/
def turned : Cycle 2 :=
  ⟨false,1,fun _ => ⟨true,0,true,0xf,0⟩,fun _ => true,fun _ => 0⟩

/-- Output zero is granted the access of input one, which does not see it. -/
theorem not_transparent_turned : ¬Meets System.step Transparent System.start [turned] := by
  intro h
  have hgrant := h.1.grants 0 1 (by decide)
  exact absurd hgrant (by decide)

end Pulpissimo.Hwpe.TcdmReorder
