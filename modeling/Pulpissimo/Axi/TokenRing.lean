import Mathlib.Data.Nat.Log
import Mathlib.Data.Nat.SuccPred
import Pulpissimo.Lib.HotCode
import Pulpissimo.Lib.Machine
import Pulpissimo.Lib.RingBuffer

/-!
# The queue between two clocks

`dc_token_ring_fifo_din` writes at its own clock, `dc_token_ring_fifo_dout` reads
at another. The write token goes to the read side and the read pointer to the
write side, each through a synchronizer of two registers. The clocks have their
edges in any order; a bit that is sampled at an edge at which it changes is
taken old or new. Counts of the items written, read and seen on the way carry
the invariant: the read side knows a position that was once the write side's,
and the write side stops three items early.
-/

namespace Pulpissimo.Axi.TokenRing

open Pulpissimo.Bits Pulpissimo.HotCode Pulpissimo.Machine Pulpissimo.RingBuffer

variable {DATA_WIDTH BUFFER_DEPTH : ℕ}

/-- `dc_synchronizer`. -/
structure Synchronizer (α : Type) where
  d_middle : α
  d_out : α

/-- One edge of its clock. -/
def Synchronizer.edge {α : Type} (s : Synchronizer α) (d_in : α) : Synchronizer α :=
  ⟨d_in,s.d_middle⟩

/-- `dc_token_ring` at an edge of its clock. -/
def dc_token_ring (enable : Bool) (state : BitVec BUFFER_DEPTH) : BitVec BUFFER_DEPTH :=
  if enable then rotl 1 state else state

/-- `onehot_to_bin`: bit `j` is set if a set bit of the vector has an index with bit `j`. -/
def onehot_to_bin (onehot : BitVec BUFFER_DEPTH) : BitVec (Nat.clog 2 BUFFER_DEPTH) :=
  ofBits fun j => (List.finRange BUFFER_DEPTH).any fun i =>
    i.val.testBit j.val && onehot.getLsbD i.val

/-- Registers of `dc_token_ring_fifo_din`. -/
structure Din (DATA_WIDTH BUFFER_DEPTH : ℕ) where
  /-- `dc_data_buffer`. -/
  data : BitVec (Nat.clog 2 BUFFER_DEPTH) → BitVec DATA_WIDTH
  write_token : BitVec BUFFER_DEPTH
  full_synch : Synchronizer Bool
  latched_full_s : Bool

/-- Registers of `dc_token_ring_fifo_dout`. -/
structure Dout (BUFFER_DEPTH : ℕ) where
  read_token : BitVec BUFFER_DEPTH
  empty_synch : Synchronizer (BitVec BUFFER_DEPTH)

/-- Registers of both. -/
structure State (DATA_WIDTH BUFFER_DEPTH : ℕ) where
  din : Din DATA_WIDTH BUFFER_DEPTH
  dout : Dout BUFFER_DEPTH

/-- Values after reset. -/
def reset : State DATA_WIDTH BUFFER_DEPTH where
  din := ⟨fun _ => 0,0xc,⟨false,false⟩,false⟩
  dout := ⟨0x3,⟨0xc,0xc⟩⟩

section Din

variable (s : Din DATA_WIDTH BUFFER_DEPTH) (read_pointer : BitVec BUFFER_DEPTH)

def Din.write_pointer : BitVec BUFFER_DEPTH := rotl 1 s.write_token &&& s.write_token

/-- Up to two cells are free, as `dc_full_detector` counts them. -/
def Din.full_dn : Bool :=
  let fifo_full := (read_pointer &&& rotl 1 s.write_pointer) != 0#_
  let fifo_1_free := (read_pointer &&& rotl 2 s.write_pointer) != 0#_
  let fifo_2_free := (read_pointer &&& rotl 3 s.write_pointer) != 0#_
  fifo_full || fifo_1_free || fifo_2_free

/-- `stall`, the full signal. -/
def Din.stall : Bool := s.latched_full_s && s.full_synch.d_out

def Din.ready : Bool := !s.stall

def Din.data_async : BitVec DATA_WIDTH := s.data (onehot_to_bin read_pointer)

/-- One edge of the write clock, with the read pointer of the sample. -/
def Din.edge (valid : Bool) (data : BitVec DATA_WIDTH) : Din DATA_WIDTH BUFFER_DEPTH :=
  let write_enable := valid && s.ready
  { data := fun k => if write_enable && k==onehot_to_bin s.write_pointer then data else s.data k
    write_token := dc_token_ring write_enable s.write_token
    full_synch := s.full_synch.edge (s.full_dn read_pointer)
    latched_full_s := s.full_synch.d_out || valid }

end Din

section Dout

variable (s : Dout BUFFER_DEPTH)

def Dout.read_pointer : BitVec BUFFER_DEPTH := rotl 2 s.read_token &&& rotl 3 s.read_token

def Dout.empty : BitVec BUFFER_DEPTH :=
  ~~~s.empty_synch.d_out &&& rotr 1 s.empty_synch.d_out &&& rotr 2 s.read_pointer

def Dout.valid : Bool := s.empty==0#_

/-- One edge of the read clock, with the write token of the sample. -/
def Dout.edge (ready : Bool) (write_token : BitVec BUFFER_DEPTH) : Dout BUFFER_DEPTH where
  read_token := dc_token_ring (s.valid && ready) s.read_token
  empty_synch := s.empty_synch.edge write_token

end Dout

/-- An edge of the write clock. -/
structure WriteEdge (DATA_WIDTH : ℕ) where
  valid : Bool
  data : BitVec DATA_WIDTH
  /-- A full signal that changes at this edge is sampled new. -/
  late : Bool

/-- An edge of the read clock. -/
structure ReadEdge (BUFFER_DEPTH : ℕ) where
  ready : Bool
  /-- The bits of the write token that are sampled new, if they change at this edge. -/
  late : BitVec BUFFER_DEPTH

/-- What happens at one time: an edge of the write clock, of the read clock, or of both. -/
structure Event (DATA_WIDTH BUFFER_DEPTH : ℕ) where
  write_clk : Option (WriteEdge DATA_WIDTH)
  read_clk : Option (ReadEdge BUFFER_DEPTH)

section Code

variable (s : State DATA_WIDTH BUFFER_DEPTH) (e : Event DATA_WIDTH BUFFER_DEPTH)

/-- An item is written. -/
def write_enable : Bool := match e.write_clk with
  | some w => w.valid && s.din.ready
  | none => false

/-- An item is read. -/
def read_enable : Bool := match e.read_clk with
  | some r => s.dout.valid && r.ready
  | none => false

/-- Read side after the event. Where the write clock has no edge the write token stays, and
the sample is clean. -/
def nextDout : Dout BUFFER_DEPTH := match e.read_clk with
  | some r => s.dout.edge r.ready
      (mix r.late s.din.write_token (dc_token_ring (write_enable s e) s.din.write_token))
  | none => s.dout

/-- Write side after the event. -/
def nextDin : Din DATA_WIDTH BUFFER_DEPTH := match e.write_clk with
  | some w => s.din.edge (if w.late then (nextDout s e).read_pointer else s.dout.read_pointer)
      w.valid w.data
  | none => s.din

/-- One event. -/
def step : State DATA_WIDTH BUFFER_DEPTH := ⟨nextDin s e,nextDout s e⟩

/-- Items written to `dc_token_ring_fifo_din`. -/
def written : List (BitVec DATA_WIDTH) := match e.write_clk with
  | some w => if w.valid && s.din.ready then [w.data] else []
  | none => []

/-- Items read from `dc_token_ring_fifo_dout`. -/
def taken : List (BitVec DATA_WIDTH) :=
  if read_enable s e then [s.din.data_async s.dout.read_pointer] else []

end Code

/-- Numbers of items written and read, and numbers between which the write token was when it
was sampled into the registers of the read side. -/
structure Counts where
  written : ℕ
  read : ℕ
  middle : ℕ×ℕ
  out : ℕ×ℕ

/-- The counts go with an event. -/
def Counts.step (g : Counts) (s : State DATA_WIDTH BUFFER_DEPTH)
    (e : Event DATA_WIDTH BUFFER_DEPTH) : Counts :=
  let written := g.written+(write_enable s e).toNat
  { written := written
    read := g.read+(read_enable s e).toNat
    middle := if e.read_clk.isSome then (g.written,written) else g.middle
    out := if e.read_clk.isSome then g.middle else g.out }

/-- The read side is at the counts. -/
structure Follows (s : Dout BUFFER_DEPTH) (g : Counts) : Prop where
  read_token : s.read_token=twoHot BUFFER_DEPTH g.read
  middle : Between BUFFER_DEPTH (g.middle.1+2) (g.middle.2+2) s.empty_synch.d_middle
  out : Between BUFFER_DEPTH (g.out.1+2) (g.out.2+2) s.empty_synch.d_out
  read_le : g.read ≤ g.out.1
  out_le : g.out.1 ≤ g.out.2 ∧ g.out.2 ≤ g.out.1+1 ∧ g.out.2 ≤ g.middle.1
  middle_le : g.middle.1 ≤ g.middle.2 ∧ g.middle.2 ≤ g.middle.1+1 ∧ g.middle.2 ≤ g.written

/-- The write side is at the counts, and stops in time. -/
structure Leads (s : Din DATA_WIDTH BUFFER_DEPTH) (g : Counts) : Prop where
  write_token : s.write_token=twoHot BUFFER_DEPTH (g.written+2)
  room : g.written<g.read+BUFFER_DEPTH
  middle : s.full_synch.d_middle=false → g.written+3 ≤ g.read+BUFFER_DEPTH
  out : s.full_synch.d_out=false → g.written+2 ≤ g.read+BUFFER_DEPTH
  latched : s.latched_full_s=false → g.written+2 ≤ g.read+BUFFER_DEPTH

/-- Cell of the item with a number. -/
def cell (s : Din DATA_WIDTH BUFFER_DEPTH) (n : ℕ) : BitVec DATA_WIDTH :=
  s.data (BitVec.ofNat _ ((n+3)%BUFFER_DEPTH))

/-- Items written and not yet read. -/
def stored (s : Din DATA_WIDTH BUFFER_DEPTH) (g : Counts) : List (BitVec DATA_WIDTH) :=
  window Nat.succ (cell s) g.read (g.written-g.read)

section Pointers

variable (hD : 8 ≤ BUFFER_DEPTH)
include hD

theorem write_pointer_eq {s : Din DATA_WIDTH BUFFER_DEPTH} {g : Counts} (h : Leads s g) :
    s.write_pointer=hot BUFFER_DEPTH (g.written+3) := by
  rw [Din.write_pointer,h.write_token,rotl_twoHot (by omega)]
  exact twoHot_and (by omega)

theorem read_pointer_eq {s : Dout BUFFER_DEPTH} {g : Counts} (h : Follows s g) :
    s.read_pointer=hot BUFFER_DEPTH (g.read+3) := by
  rw [Dout.read_pointer,h.read_token,rotl_twoHot (by omega),rotl_twoHot (by omega),
    BitVec.and_comm]
  exact twoHot_and (by omega)

/-- A read pointer that is not more than a turn behind meets the detector exactly in the last
three cells of the turn. -/
theorem full_dn_iff {s : Din DATA_WIDTH BUFFER_DEPTH} {g : Counts} (h : Leads s g) {n : ℕ}
    (hn : n ≤ g.written) (hlt : g.written<n+BUFFER_DEPTH) :
    s.full_dn (hot BUFFER_DEPTH (n+3))=true ↔ n+BUFFER_DEPTH ≤ g.written+3 := by
  have hmeet : ∀ k,0<k → k ≤ 3 → ((hot BUFFER_DEPTH (n+3) &&& rotl k s.write_pointer) != 0#_)=
      decide (g.written+k=n+BUFFER_DEPTH) := by
    intro k hk hk3
    have hturn : (n+3)%BUFFER_DEPTH=(g.written+3+k)%BUFFER_DEPTH ↔ g.written+k=n+BUFFER_DEPTH := by
      rw [←Nat.add_mod_right (n+3)]
      rcases Nat.le_total (g.written+k) (n+BUFFER_DEPTH) with hle | hle
      · rw [eq_comm,mod_eq_iff (by omega) (by omega)]
        omega
      · rw [mod_eq_iff (by omega) (by omega)]
        omega
    rw [write_pointer_eq hD h,rotl_hot (by omega),Bool.eq_iff_iff,bne_iff_ne,decide_eq_true_iff,
      ←hturn]
    exact hot_and_ne_zero (by omega)
  unfold Din.full_dn
  rw [hmeet 1 (by omega) (by omega),hmeet 2 (by omega) (by omega),hmeet 3 (by omega) (by omega),
    Bool.or_eq_true_iff,Bool.or_eq_true_iff,decide_eq_true_iff,decide_eq_true_iff,
    decide_eq_true_iff]
  omega

theorem valid_eq {s : Dout BUFFER_DEPTH} {g : Counts} (h : Follows s g) :
    s.valid=past (g.read+1) s.empty_synch.d_out := by
  have hlt := Nat.mod_lt (g.read+1) (show 0<BUFFER_DEPTH by omega)
  rw [Bool.eq_iff_iff,Dout.valid,Dout.empty,read_pointer_eq hD h,rotr_hot,beq_iff_eq]
  rw [and_hot_eq_zero (by omega),BitVec.getLsbD_and,getLsbD_rotr _ hlt,BitVec.getLsbD_not,
    past,decide_eq_true hlt,Nat.mod_add_mod,Bool.true_and,Bool.and_eq_false_iff,
    Bool.not_eq_false',Bool.or_eq_true_iff,Bool.not_eq_true']

/-- An item that the read side offers was written before. -/
theorem lt_of_valid {s : Dout BUFFER_DEPTH} {g : Counts} (h : Follows s g) (hvalid : s.valid=true) :
    g.read<g.out.2 := by
  have hle := h.read_le
  have hout := h.out_le
  by_contra hnot
  have hcopy := h.out
  rw [show g.out.1+2=g.read+1+1 by omega,show g.out.2+2=g.read+1+1 by omega] at hcopy
  rw [valid_eq hD h,not_past (by omega) hcopy] at hvalid
  exact Bool.false_ne_true hvalid

/-- An item whose token has arrived is offered. -/
theorem valid_of_lt {s : Dout BUFFER_DEPTH} {g : Counts} (h : Follows s g)
    (hroom : g.written<g.read+BUFFER_DEPTH) (hlt : g.read<g.out.1) : s.valid=true := by
  have hout := h.out_le
  have hmiddle := h.middle_le
  rw [valid_eq hD h]
  exact past_of_lt (by omega) (by omega) (by omega) (by omega) h.out

end Pointers

section Step

variable {s : State DATA_WIDTH BUFFER_DEPTH} {g : Counts}

theorem dc_token_ring_eq (hD : 8 ≤ BUFFER_DEPTH) (enable : Bool) (n : ℕ) :
    dc_token_ring enable (twoHot BUFFER_DEPTH n)=twoHot BUFFER_DEPTH (n+enable.toNat) := by
  cases enable with
  | false => rfl
  | true => exact rotl_twoHot (by omega)

/-- Only items are read whose token has left the first register. -/
theorem read_step_le (hD : 8 ≤ BUFFER_DEPTH) (e : Event DATA_WIDTH BUFFER_DEPTH)
    (hr : Follows s.dout g) : (g.step s e).read ≤ g.middle.1 := by
  have hreadle := hr.read_le
  have hout := hr.out_le
  have hreads : (g.step s e).read=g.read+(read_enable s e).toNat := rfl
  rw [hreads]
  cases hread : read_enable s e with
  | false => exact hreadle.trans (hout.1.trans hout.2.2)
  | true =>
    unfold read_enable at hread
    split at hread
    · have hlt := lt_of_valid hD hr (Bool.and_eq_true_iff.mp hread).1
      exact Nat.succ_le_of_lt (hlt.trans_le hout.2.2)
    · exact absurd hread Bool.false_ne_true

theorem follows_step (hD : 8 ≤ BUFFER_DEPTH) (e : Event DATA_WIDTH BUFFER_DEPTH)
    (hw : Leads s.din g) (hr : Follows s.dout g) : Follows (nextDout s e) (g.step s e) := by
  have hmiddle := hr.middle_le
  have hone := Bool.toNat_le (write_enable s e)
  cases hclk : e.read_clk with
  | none =>
    have hreads : read_enable s e=false := by rw [read_enable,hclk]
    have hg : g.step s e={ g with written := g.written+(write_enable s e).toNat } := by
      rw [Counts.step,hreads,hclk]
      rfl
    rw [nextDout,hclk,hg]
    exact ⟨hr.read_token,hr.middle,hr.out,hr.read_le,hr.out_le,hmiddle.1,hmiddle.2.1,
      Nat.le_add_right_of_le hmiddle.2.2⟩
  | some r =>
    have hreads : read_enable s e=(s.dout.valid && r.ready) := by rw [read_enable,hclk]
    have hg : g.step s e=⟨g.written+(write_enable s e).toNat,g.read+(s.dout.valid && r.ready).toNat,
        (g.written,g.written+(write_enable s e).toNat),g.middle⟩ := by
      rw [Counts.step,hreads,hclk]
      rfl
    have hread := read_step_le hD e hr
    rw [nextDout,hclk]
    rw [hg] at hread ⊢
    refine ⟨?_,?_,hr.middle,hread,⟨hmiddle.1,hmiddle.2.1,hmiddle.2.2⟩,?_⟩
    · show dc_token_ring _ s.dout.read_token=_
      rw [hr.read_token,dc_token_ring_eq hD]
    · show Between _ _ _ (mix r.late s.din.write_token (dc_token_ring _ s.din.write_token))
      rw [hw.write_token,dc_token_ring_eq hD,Nat.add_right_comm]
      exact between_mix r.late _ _
    · exact ⟨Nat.le_add_right _ _,Nat.add_le_add_left hone _,Nat.le_refl _⟩

/-- The full signal that the write side samples may be for the read pointer after the event. It
is then as good as one for the pointer before. -/
theorem leads_step (hD : 8 ≤ BUFFER_DEPTH) (e : Event DATA_WIDTH BUFFER_DEPTH)
    (hw : Leads s.din g) (hr : Follows s.dout g) : Leads (nextDin s e) (g.step s e) := by
  have hnext := follows_step hD e hw hr
  have hreadle : g.read ≤ (g.step s e).read := Nat.le_add_right _ _
  have hroom := hw.room
  cases hclk : e.write_clk with
  | none =>
    have hwritten : (g.step s e).written=g.written := by rw [Counts.step,write_enable,hclk]; rfl
    rw [nextDin,hclk]
    refine ⟨hwritten ▸ hw.write_token,by omega,fun h => ?_,fun h => ?_,fun h => ?_⟩
    · have := hw.middle h
      omega
    · have := hw.out h
      omega
    · have := hw.latched h
      omega
  | some w =>
    have hwrites : write_enable s e=(w.valid && s.din.ready) := by rw [write_enable,hclk]
    have hwritten : (g.step s e).written=g.written+(w.valid && s.din.ready).toNat := by
      rw [Counts.step,hwrites]
    have hone := Bool.toNat_le (w.valid && s.din.ready)
    -- An item is written only while two more cells are free.
    have hready : s.din.ready=true → g.written+2 ≤ g.read+BUFFER_DEPTH := by
      intro hready
      rw [Din.ready,Din.stall,Bool.not_eq_true',Bool.and_eq_false_iff] at hready
      exact hready.elim hw.latched hw.out
    have hwrite : g.written+(w.valid && s.din.ready).toNat<g.read+BUFFER_DEPTH := by
      cases h : s.din.ready with
      | false => rw [Bool.and_false]; exact hroom
      | true =>
        have := hready h
        rw [Bool.and_true]
        have := Bool.toNat_le w.valid
        omega
    rw [nextDin,hclk]
    refine ⟨?_,by omega,fun h => ?_,fun h => ?_,fun h => ?_⟩
    · show dc_token_ring _ s.din.write_token=_
      rw [hw.write_token,dc_token_ring_eq hD,hwritten,Nat.add_right_comm]
    · have hsample : ∃ n,g.read ≤ n ∧ n ≤ (g.step s e).read ∧
          (if w.late then (nextDout s e).read_pointer else s.dout.read_pointer)=
            hot BUFFER_DEPTH (n+3) := by
        cases w.late with
        | false => exact ⟨g.read,Nat.le_refl _,hreadle,read_pointer_eq hD hr⟩
        | true => exact ⟨(g.step s e).read,hreadle,Nat.le_refl _,read_pointer_eq hD hnext⟩
      rcases hsample with ⟨n,hle,hlen,hsample⟩
      have hmiddle := hr.middle_le
      have hnw : n ≤ g.written :=
        hlen.trans ((read_step_le hD e hr).trans (hmiddle.1.trans hmiddle.2.2))
      have hfree : ¬(n+BUFFER_DEPTH ≤ g.written+3) := by
        rw [←full_dn_iff hD hw hnw (by omega),←hsample]
        exact fun htrue => Bool.false_ne_true (h.symm.trans htrue)
      omega
    · have := hw.middle h
      omega
    · have hlatched : s.din.full_synch.d_out=false ∧ w.valid=false := Bool.or_eq_false_iff.mp h
      have := hw.out hlatched.1
      rw [hlatched.2,Bool.false_and] at hwritten
      rw [hwritten]
      exact this.trans (Nat.add_le_add_right hreadle _)

end Step

section Items

/-- The index of a position. -/
theorem onehot_to_bin_hot (hD : 0<BUFFER_DEPTH) (n : ℕ) :
    onehot_to_bin (hot BUFFER_DEPTH n)=BitVec.ofNat _ (n%BUFFER_DEPTH) := by
  have hlt := Nat.mod_lt n hD
  apply BitVec.eq_of_getLsbD_eq
  intro j hj
  rw [onehot_to_bin,getLsbD_ofBits_lt _ hj,BitVec.getLsbD_ofNat,decide_eq_true hj,Bool.true_and,
    Bool.eq_iff_iff,List.any_eq_true]
  constructor
  · rintro ⟨i,-,hi⟩
    rw [getLsbD_hot i.isLt,Bool.and_eq_true_iff,decide_eq_true_iff] at hi
    rw [←hi.2]
    exact hi.1
  · intro hbit
    refine ⟨⟨n%BUFFER_DEPTH,hlt⟩,List.mem_finRange _,?_⟩
    rw [getLsbD_hot hlt,hbit,decide_eq_true rfl]
    rfl

/-- Cells of items less than a turn apart are different. -/
theorem cell_ne (hD : 0<BUFFER_DEPTH) {a b : ℕ} (hab : a<b) (hlt : b<a+BUFFER_DEPTH) :
    BitVec.ofNat (Nat.clog 2 BUFFER_DEPTH) (a%BUFFER_DEPTH)≠BitVec.ofNat _ (b%BUFFER_DEPTH) := by
  intro heq
  have hfit : BUFFER_DEPTH ≤ 2^Nat.clog 2 BUFFER_DEPTH := Nat.le_pow_clog (by omega) _
  have hval := congrArg BitVec.toNat heq
  rw [BitVec.toNat_ofNat,BitVec.toNat_ofNat,
    Nat.mod_eq_of_lt ((Nat.mod_lt a hD).trans_le hfit),
    Nat.mod_eq_of_lt ((Nat.mod_lt b hD).trans_le hfit)] at hval
  exact mod_ne hab hlt hval

variable {s : State DATA_WIDTH BUFFER_DEPTH} {g : Counts} (hD : 8 ≤ BUFFER_DEPTH)
include hD

/-- An item that is read is the oldest one stored. -/
theorem stored_read (e : Event DATA_WIDTH BUFFER_DEPTH) (hr : Follows s.dout g) :
    taken s e++window Nat.succ (cell s.din) (g.step s e).read (g.written-(g.step s e).read)=
      stored s.din g := by
  have hle := read_step_le hD e hr
  have hmiddle := hr.middle_le
  have hreads : (g.step s e).read=g.read+(read_enable s e).toNat := rfl
  unfold taken
  split_ifs with hread
  · rw [hread] at hreads
    have hfront : s.din.data_async s.dout.read_pointer=cell s.din g.read := by
      rw [Din.data_async,read_pointer_eq hD hr,onehot_to_bin_hot (by omega)]
      rfl
    have hlen : g.written-g.read=g.written-(g.step s e).read+1 := by
      rw [hreads,Bool.toNat_true] at hle ⊢
      omega
    rw [hfront,stored,hlen,window_succ,hreads]
    rfl
  · rw [Bool.not_eq_true] at hread
    rw [hreads,hread]
    rfl

/-- An item that is written goes behind those stored and touches none of them. -/
theorem stored_write (e : Event DATA_WIDTH BUFFER_DEPTH) (hw : Leads s.din g) {r : ℕ}
    (hle : g.read ≤ r) (hrw : r ≤ g.written) :
    window Nat.succ (cell (nextDin s e)) r ((g.step s e).written-r)=
      window Nat.succ (cell s.din) r (g.written-r)++written s e := by
  have hroom := hw.room
  have hwritten : (g.step s e).written=g.written+(write_enable s e).toNat := rfl
  cases hclk : e.write_clk with
  | none =>
    rw [hwritten,write_enable,written,nextDin,hclk,List.append_nil]
    rfl
  | some w =>
    have hwrites : write_enable s e=(w.valid && s.din.ready) := by rw [write_enable,hclk]
    have hitems : written s e=if w.valid && s.din.ready then [w.data] else [] := by
      rw [written,hclk]
    have hcell : ∀ k,cell (nextDin s e) k=
        if (w.valid && s.din.ready && (BitVec.ofNat (Nat.clog 2 BUFFER_DEPTH)
          ((k+3)%BUFFER_DEPTH)==BitVec.ofNat _ ((g.written+3)%BUFFER_DEPTH)))=true then w.data
          else cell s.din k := by
      intro k
      rw [←onehot_to_bin_hot (by omega) (g.written+3),←write_pointer_eq hD hw,nextDin,hclk]
      rfl
    have hkeep : ∀ k,k<g.written-r →
        cell (nextDin s e) (Nat.succ^[k] r)=cell s.din (Nat.succ^[k] r) := by
      intro k hk
      have hne := cell_ne (a:=r+k+3) (b:=g.written+3) (show 0<BUFFER_DEPTH by omega) (by omega)
        (by omega)
      rw [hcell,Nat.succ_iterate,beq_eq_false_iff_ne.mpr hne,Bool.and_false]
      rfl
    rw [hwritten,hwrites,hitems]
    cases hwrite : (w.valid && s.din.ready) with
    | false =>
      rw [if_neg Bool.false_ne_true,List.append_nil]
      exact window_congr hkeep
    | true =>
      have hlen : g.written+true.toNat-r=g.written-r+1 := Nat.sub_add_comm hrw
      have hback : cell (nextDin s e) (Nat.succ^[g.written-r] r)=w.data := by
        rw [hcell,Nat.succ_iterate,hwrite,Nat.add_sub_cancel' hrw,beq_self_eq_true]
        rfl
      rw [hlen,window_concat,window_congr hkeep,hback,if_pos rfl]

/-- Each event takes items in front and puts items on behind. -/
theorem stored_step (e : Event DATA_WIDTH BUFFER_DEPTH) (hw : Leads s.din g)
    (hr : Follows s.dout g) :
    taken s e++stored (step s e).din (g.step s e)=stored s.din g++written s e := by
  have hmiddle := hr.middle_le
  have hle := (read_step_le hD e hr).trans (hmiddle.1.trans hmiddle.2.2)
  have hge : g.read ≤ (g.step s e).read := Nat.le_add_right _ _
  rw [←stored_read hD e hr,List.append_assoc,←stored_write hD e hw hge hle]
  rfl

end Items

section Runs

variable (s : State DATA_WIDTH BUFFER_DEPTH)

/-- Counts after a run. -/
def countsAfter : State DATA_WIDTH BUFFER_DEPTH → Counts → List (Event DATA_WIDTH BUFFER_DEPTH) →
    Counts
  | _,g,[] => g
  | s,g,e::es => countsAfter (step s e) (g.step s e) es

/-- Items written over a run. -/
def allWritten (es : List (Event DATA_WIDTH BUFFER_DEPTH)) : List (BitVec DATA_WIDTH) :=
  (driven step written s es).flatten

/-- Items read over a run. -/
def allTaken (es : List (Event DATA_WIDTH BUFFER_DEPTH)) : List (BitVec DATA_WIDTH) :=
  (driven step taken s es).flatten

/-- No further item is offered, and every one that comes out is read. -/
def Draining (e : Event DATA_WIDTH BUFFER_DEPTH) : Prop :=
  (∀ w ∈ e.write_clk,w.valid=false) ∧ ∀ r ∈ e.read_clk,r.ready=true

/-- Number of edges of the read clock. -/
def readEdges (es : List (Event DATA_WIDTH BUFFER_DEPTH)) : ℕ :=
  es.countP fun e => e.read_clk.isSome

variable {s} {g : Counts} {hD : 8 ≤ BUFFER_DEPTH}

theorem counts_run (hD : 8 ≤ BUFFER_DEPTH) (es : List (Event DATA_WIDTH BUFFER_DEPTH))
    (hw : Leads s.din g) (hr : Follows s.dout g) :
    Leads (after step s es).din (countsAfter s g es) ∧
      Follows (after step s es).dout (countsAfter s g es) ∧
      allTaken s es++stored (after step s es).din (countsAfter s g es)=
        stored s.din g++allWritten s es := by
  induction es generalizing s g with
  | nil => exact ⟨hw,hr,(List.append_nil _).symm⟩
  | cons e es ih =>
    rcases ih (s:=step s e) (leads_step hD e hw hr) (follows_step hD e hw hr) with ⟨hw',hr',hitems⟩
    refine ⟨hw',hr',?_⟩
    have hfirst := stored_step hD e hw hr
    unfold allTaken allWritten at hitems ⊢
    rw [driven,driven,List.flatten_cons,List.flatten_cons,List.append_assoc,after_cons,countsAfter,
      hitems,←List.append_assoc,hfirst,List.append_assoc]

/-- While the queue is drained, two read edges bring the write token, and from then on each one
takes an item until none is left. -/
theorem drain_step (hD : 8 ≤ BUFFER_DEPTH) {e : Event DATA_WIDTH BUFFER_DEPTH} (he : Draining e)
    (hw : Leads s.din g) (hr : Follows s.dout g) :
    (g.step s e).written=g.written ∧ g.read ≤ (g.step s e).read ∧
      (e.read_clk.isSome=true → (g.step s e).middle.1=g.written ∧
        (g.step s e).out.1=g.middle.1 ∧
        (g.out.1=g.written → g.read<g.written → (g.step s e).read=g.read+1)) := by
  have hquiet : write_enable s e=false := by
    unfold write_enable
    split
    · next w hclk => rw [he.1 w hclk,Bool.false_and]
    · rfl
  refine ⟨?_,Nat.le_add_right _ _,fun hclk => ⟨?_,?_,fun hseen hlt => ?_⟩⟩
  · rw [Counts.step,hquiet]
    rfl
  · rw [Counts.step,if_pos hclk]
  · show (if e.read_clk.isSome then g.middle else g.out).1=g.middle.1
    rw [if_pos hclk]
  · rcases Option.isSome_iff_exists.mp hclk with ⟨r,hr'⟩
    have hvalid := valid_of_lt hD hr hw.room (by omega)
    have hread : read_enable s e=(s.dout.valid && r.ready) := by rw [read_enable,hr']
    rw [Counts.step,hread,hvalid,he.2 r hr']
    rfl

theorem allWritten_draining {es : List (Event DATA_WIDTH BUFFER_DEPTH)}
    (hes : ∀ e ∈ es,Draining e) : allWritten s es=[] := by
  induction es generalizing s with
  | nil => rfl
  | cons e es ih =>
    have hnone : written s e=[] := by
      unfold written
      split
      · next w hclk =>
        rw [(hes e List.mem_cons_self).1 w hclk]
        rfl
      · rfl
    rw [allWritten,driven,List.flatten_cons,hnone,List.nil_append]
    exact ih fun e he => hes e (List.mem_cons_of_mem _ he)

theorem drain_run (hD : 8 ≤ BUFFER_DEPTH) {es : List (Event DATA_WIDTH BUFFER_DEPTH)}
    (hes : ∀ e ∈ es,Draining e) (hw : Leads s.din g) (hr : Follows s.dout g) {r c : ℕ}
    (hone : 1 ≤ c → g.middle.1=g.written) (htwo : 2 ≤ c → g.out.1=g.written)
    (hread : r+(c-2) ≤ g.read ∨ g.written ≤ g.read) :
    (countsAfter s g es).written=g.written ∧ (r+(c+readEdges es-2) ≤ (countsAfter s g es).read ∨
      g.written ≤ (countsAfter s g es).read) := by
  induction es generalizing s g c with
  | nil => exact ⟨rfl,hread⟩
  | cons e es ih =>
    rcases drain_step hD (hes e List.mem_cons_self) hw hr with ⟨hwritten,hge,hclk⟩
    have hrest := fun c => ih (s:=step s e) (g:=g.step s e) (c:=c)
      (fun e he => hes e (List.mem_cons_of_mem _ he)) (leads_step hD e hw hr)
      (follows_step hD e hw hr)
    rw [hwritten] at hrest
    rw [readEdges,List.countP_cons,countsAfter]
    cases hedge : e.read_clk.isSome with
    | false =>
      have hmiddle : (g.step s e).middle=g.middle := by rw [Counts.step,hedge]; rfl
      have hout : (g.step s e).out=g.out := by rw [Counts.step,hedge]; rfl
      rw [if_neg Bool.false_ne_true,Nat.add_zero]
      exact hrest c (hmiddle ▸ hone) (hout ▸ htwo) (by omega)
    | true =>
      rcases hclk hedge with ⟨hmiddle,hout,hnext⟩
      have hsum : c+(es.countP (fun e => e.read_clk.isSome)+1)=c+1+readEdges es := by
        rw [readEdges]
        omega
      rw [if_pos rfl,hsum]
      refine hrest (c+1) (fun _ => hmiddle) (fun h => hout.trans (hone (by omega))) ?_
      by_cases hc : 2 ≤ c ∧ g.read<g.written
      · have := hnext (htwo hc.1) hc.2
        omega
      · omega

/-- Counts after reset. -/
def noCounts : Counts := ⟨0,0,(0,0),(0,0)⟩

theorem reset_leads (hD : 8 ≤ BUFFER_DEPTH) :
    Leads (reset : State DATA_WIDTH BUFFER_DEPTH).din noCounts := by
  have htoken : (BitVec.ofNat BUFFER_DEPTH 0xc)=twoHot BUFFER_DEPTH 2 :=
    (twoHot_eq_ofNat (n:=2) (by omega)).symm
  have hroom : 0+2 ≤ 0+BUFFER_DEPTH := by omega
  exact ⟨htoken,show 0<0+BUFFER_DEPTH by omega,
    fun _ => show 0+3 ≤ 0+BUFFER_DEPTH by omega,fun _ => hroom,fun _ => hroom⟩

theorem reset_follows (hD : 8 ≤ BUFFER_DEPTH) :
    Follows (reset : State DATA_WIDTH BUFFER_DEPTH).dout noCounts := by
  have htoken : (BitVec.ofNat BUFFER_DEPTH 0xc)=twoHot BUFFER_DEPTH 2 :=
    (twoHot_eq_ofNat (n:=2) (by omega)).symm
  have hread : (BitVec.ofNat BUFFER_DEPTH 0x3)=twoHot BUFFER_DEPTH 0 :=
    (twoHot_eq_ofNat (n:=0) (by omega)).symm
  have hcopy : Between BUFFER_DEPTH 2 2 (BitVec.ofNat BUFFER_DEPTH 0xc) := htoken ▸ between_self 2
  exact ⟨hread,hcopy,hcopy,Nat.le_refl _,
    ⟨Nat.le_refl _,Nat.zero_le _,Nat.le_refl _⟩,⟨Nat.le_refl _,Nat.zero_le _,Nat.le_refl _⟩⟩

/-- For every order of the edges of both clocks, every behaviour of both ends and every way in
which the samples are taken, the items read are the items written, in order and up to fewer than
`BUFFER_DEPTH` that wait; and when no more are written, those are read within `BUFFER_DEPTH+1`
edges of the read clock. -/
theorem carries (hD : 8 ≤ BUFFER_DEPTH) (es : List (Event DATA_WIDTH BUFFER_DEPTH)) :
    (∃ waiting,allTaken reset es++waiting=allWritten reset es ∧ waiting.length<BUFFER_DEPTH) ∧
      ∀ fs,(∀ e ∈ fs,Draining e) → BUFFER_DEPTH < readEdges fs →
        allTaken reset (es++fs)=allWritten reset es := by
  rcases counts_run hD es (reset_leads hD) (reset_follows hD) with ⟨hw,hr,hitems⟩
  have hempty : stored (reset : State DATA_WIDTH BUFFER_DEPTH).din noCounts=[] := rfl
  rw [hempty,List.nil_append] at hitems
  have hroom := hw.room
  refine ⟨⟨_,hitems,?_⟩,fun fs hfs hedges => ?_⟩
  · rw [stored,length_window]
    omega
  · have hmiddle := hr.middle_le
    have hout := hr.out_le
    rcases counts_run hD fs hw hr with ⟨hw',hr',hitems'⟩
    rcases drain_run hD hfs hw hr (r:=(countsAfter reset noCounts es).read) (c:=0)
      (fun h => absurd h (by decide)) (fun h => absurd h (by decide)) (Or.inl (Nat.le_refl _)) with ⟨hwritten,hread⟩
    have hnone : (countsAfter (after step reset es) (countsAfter reset noCounts es) fs).written-
        (countsAfter (after step reset es) (countsAfter reset noCounts es) fs).read=0 := by
      omega
    rw [stored,hnone,window_zero,List.append_nil,allWritten_draining hfs,List.append_nil] at hitems'
    rw [allTaken,driven_append,List.flatten_append]
    exact (congrArg (allTaken reset es++·) hitems').trans hitems

/-- One edge of the write clock with an item. -/
def oneWrite : List (Event 8 8) := [⟨some ⟨true,5,false⟩,none⟩]

theorem carries_one :
    (∃ waiting,allTaken reset oneWrite++waiting=allWritten reset oneWrite ∧ waiting.length<8) ∧
      ∀ fs,(∀ e ∈ fs,Draining e) → 8 < readEdges fs →
        allTaken reset (oneWrite++fs)=allWritten reset oneWrite :=
  carries (by decide) oneWrite

end Runs

end Pulpissimo.Axi.TokenRing
