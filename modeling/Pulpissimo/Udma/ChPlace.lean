import Pulpissimo.Udma.ChAddrgen

/-!
# The place of the next datum

Where a datum of a channel belongs is told by the start of its transfer and the bytes of the
data accepted before it. The address generator has that address, and the destination of the
transfer, whenever the channel is enabled, also after it was cleared and enabled again.
-/

namespace Pulpissimo.Udma.ChPlace

open Pulpissimo.Udma.ChAddrgen

variable {L2_AWIDTH_NOAL TRANS_SIZE : ℕ}

/-- The place of the next datum of a channel. -/
structure Place (L2_AWIDTH_NOAL : ℕ) where
  /-- Start of the transfer. -/
  startaddr : BitVec L2_AWIDTH_NOAL
  /-- Bytes of the transfer. -/
  size : ℕ
  /-- Bytes of the transfer before the datum. -/
  bytes : ℕ
  /-- The transfer goes to the filter. -/
  filter : Bool

/-- The address of the datum. -/
def Place.addr (p : Place L2_AWIDTH_NOAL) : BitVec L2_AWIDTH_NOAL :=
  p.startaddr+BitVec.ofNat L2_AWIDTH_NOAL p.bytes

/-- The configuration of a transfer that begins. -/
def begins (i : Input L2_AWIDTH_NOAL TRANS_SIZE) : Place L2_AWIDTH_NOAL :=
  ⟨i.cfg_startaddr_i,i.cfg_size_i.toNat,0,i.cfg_filter_i⟩

/-- A disabled channel begins with an enable. A running one goes on by the bytes of each datum,
and begins again behind the last one. -/
def Place.next (p : Place L2_AWIDTH_NOAL) (s : State L2_AWIDTH_NOAL TRANS_SIZE)
    (i : Input L2_AWIDTH_NOAL TRANS_SIZE) : Place L2_AWIDTH_NOAL :=
  if i.cfg_en_i && !int_ch_en_o s then begins i
  else if i.int_not_stall_i && i.int_ch_grant_i then
    if p.size ≤ p.bytes+toadd i.int_datasize_i then begins i
    else { p with bytes := p.bytes+toadd i.int_datasize_i }
  else p

section Steps

variable {s : State L2_AWIDTH_NOAL TRANS_SIZE} {i : Input L2_AWIDTH_NOAL TRANS_SIZE}
  {p : Place L2_AWIDTH_NOAL}

/-- The enable that the channel shows is that of the next cycle. -/
theorem step_r_en : (step s i).r_en=int_ch_en_prev_o s i := by
  unfold int_ch_en_prev_o
  cases hsample : samples s i with
  | true => simp only [step,hsample,if_true]
  | false =>
    have hstart : (i.cfg_en_i && !s.r_en)=false ∧ i.cfg_clr_i=false := by
      rw [samples,Bool.or_eq_false_iff,Bool.or_eq_false_iff] at hsample
      exact hsample.1
    cases hserve : serves s i with
    | false => simp [step,next,hsample,hstart.1,hstart.2,hserve]
    | true =>
      have hen : s.r_en=true := (Bool.and_eq_true_iff.mp (Bool.and_eq_true_iff.mp hserve).1).2
      cases hcmp : s_compare s i with
      | false => simp [step,next,hsample,hstart.1,hstart.2,hserve,hcmp]
      | true =>
        cases hcont : i.cfg_continuous_i <;> cases hpend : s.r_pending_en <;>
          simp [step,next,hsample,hstart.2,hserve,hcmp,hcont,hpend,hen]

/-- A channel is enabled next by an enable, or it was enabled and is not cleared. -/
theorem prev_of_disabled (hen : s.r_en=false) : int_ch_en_prev_o s i=i.cfg_en_i := by
  cases hcfg : i.cfg_en_i <;> cases hclr : i.cfg_clr_i <;>
    simp [int_ch_en_prev_o,next,serves,hen,hcfg,hclr]

theorem prev_of_clear (hen : s.r_en=true) (hclr : i.cfg_clr_i=true) :
    int_ch_en_prev_o s i=false := by
  simp [int_ch_en_prev_o,next,hen,hclr]

/-- A channel that starts takes its configuration. -/
theorem step_start (hen : s.r_en=false) (hcfg : i.cfg_en_i=true) :
    (step s i).r_addresses=i.cfg_startaddr_i ∧ (step s i).r_counters=i.cfg_size_i ∧
      (step s i).r_filter=i.cfg_filter_i := by
  simp [step,next,samples,hen,hcfg]

/-- The destination is kept within a transfer. -/
theorem step_filter_kept (hen : s.r_en=true) (hclr : i.cfg_clr_i=false)
    (h : serves s i=false ∨ s_compare s i=false) : (step s i).r_filter=s.r_filter := by
  cases hserve : serves s i <;> cases hcmp : s_compare s i <;> cases hcfg : i.cfg_en_i <;>
    simp_all [step,next,samples]

/-- A transfer that goes on behind its last datum takes the destination of the next one. -/
theorem step_filter_last (hen : s.r_en=true) (hclr : i.cfg_clr_i=false) (hserve : serves s i=true)
    (hcmp : s_compare s i=true) (hnext : (step s i).r_en=true) :
    (step s i).r_filter=i.cfg_filter_i := by
  rw [(step_last hen hclr hserve hcmp).1] at hnext
  have hgo : i.int_not_stall_i=true := by
    rw [serves,Bool.and_assoc,Bool.and_eq_true_iff] at hserve
    exact hserve.1
  cases hcfg : i.cfg_en_i <;> cases hcont : i.cfg_continuous_i <;> cases hpend : s.r_pending_en <;>
    simp_all [step,next,samples]

end Steps

/-- The registers of an enabled channel have the place of its next datum. -/
def Placed (s : State L2_AWIDTH_NOAL TRANS_SIZE) (p : Place L2_AWIDTH_NOAL) : Prop :=
  s.r_en=true → s.r_addresses=p.addr ∧ s.r_counters.toNat=p.size-p.bytes ∧ s.r_filter=p.filter

section Placed

variable {s : State L2_AWIDTH_NOAL TRANS_SIZE} {i : Input L2_AWIDTH_NOAL TRANS_SIZE}
  {p : Place L2_AWIDTH_NOAL}

theorem placed_begins (haddr : s.r_addresses=i.cfg_startaddr_i) (hcount : s.r_counters=i.cfg_size_i)
    (hfilter : s.r_filter=i.cfg_filter_i) : Placed s (begins i) := fun _ =>
  ⟨haddr.trans (BitVec.add_zero _).symm,congrArg BitVec.toNat hcount,hfilter⟩

theorem Placed.compare_iff (hT : 2 < TRANS_SIZE) (h : Placed s p) (hen : s.r_en=true) :
    s_compare s i=true ↔ p.size ≤ p.bytes+toadd i.int_datasize_i := by
  rw [s_compare,decide_eq_true_iff,BitVec.le_def,(h hen).2.1,s_datasize_toadd_toNat hT]
  exact Nat.sub_le_iff_le_add'

/-- One cycle of an enabled channel. -/
theorem Placed.running (hT : 2 < TRANS_SIZE) (h : Placed s p) (hen : s.r_en=true)
    (hclr : i.cfg_clr_i=false) : Placed (step s i) (p.next s i) := by
  obtain ⟨haddr,hcount,hfilter⟩ := h hen
  have hnext : p.next s i=if serves s i=true then
      if s_compare s i=true then begins i
      else { p with bytes := p.bytes+toadd i.int_datasize_i }
    else p := by
    simp only [Place.next,int_ch_en_o,serves,hen,Bool.not_true,Bool.and_false,Bool.and_true,
      Bool.false_eq_true,if_false,h.compare_iff hT hen]
  rw [hnext]
  cases hserve : serves s i with
  | false =>
    obtain ⟨_,_,_,haddr',hcount'⟩ := step_wait hen hclr hserve
    rw [if_neg Bool.false_ne_true]
    intro _
    exact ⟨haddr'.trans haddr,(congrArg BitVec.toNat hcount').trans hcount,
      (step_filter_kept hen hclr (.inl hserve)).trans hfilter⟩
  | true =>
    rw [if_pos rfl]
    cases hcmp : s_compare s i with
    | false =>
      obtain ⟨_,_,_,haddr',hcount'⟩ := step_middle hen hclr hserve hcmp
      have hle : s_datasize_toadd i ≤ s.r_counters :=
        BitVec.le_of_lt (BitVec.not_le.mp (of_decide_eq_false hcmp))
      rw [if_neg Bool.false_ne_true]
      intro _
      refine ⟨?_,?_,(step_filter_kept hen hclr (.inr hcmp)).trans hfilter⟩
      · rw [haddr',haddr,Place.addr,Place.addr,BitVec.add_assoc,BitVec.ofNat_add,
          ←s_datasize_toadd_toNat hT,BitVec.ofNat_toNat]
      · rw [hcount',BitVec.toNat_sub_of_le hle,hcount,s_datasize_toadd_toNat hT]
        exact Nat.sub_sub _ _ _
    | true =>
      rw [if_pos rfl]
      intro hnext
      obtain ⟨haddr',hcount'⟩ := (step_last hen hclr hserve hcmp).2.2.2.2 hnext
      exact placed_begins haddr' hcount' (step_filter_last hen hclr hserve hcmp hnext) hnext

/-- The registers keep the place, in every cycle. -/
theorem Placed.step (hT : 2 < TRANS_SIZE) (h : Placed s p) :
    Placed (step s i) (p.next s i) := by
  cases hen : s.r_en with
  | true =>
    cases hclr : i.cfg_clr_i with
    | false => exact h.running hT hen hclr
    | true =>
      intro hnext
      rw [step_r_en,prev_of_clear hen hclr] at hnext
      exact absurd hnext Bool.false_ne_true
  | false =>
    intro hnext
    have hcfg : i.cfg_en_i=true := by rwa [step_r_en,prev_of_disabled hen] at hnext
    have hplace : p.next s i=begins i := by
      simp only [Place.next,int_ch_en_o,hen,hcfg,Bool.not_false,Bool.and_self,if_true]
    obtain ⟨haddr,hcount,hfilter⟩ := step_start hen hcfg
    rw [hplace]
    exact placed_begins haddr hcount hfilter hnext

/-- A channel that is stalled and not cleared stays enabled where it is. -/
theorem stalled (hen : s.r_en=true) (hclr : i.cfg_clr_i=false) (hst : i.int_not_stall_i=false) :
    (step s i).r_en=true ∧ p.next s i=p := by
  have hserve : serves s i=false := by rw [serves,hst,Bool.false_and,Bool.false_and]
  refine ⟨(step_wait hen hclr hserve).1,?_⟩
  simp only [Place.next,int_ch_en_o,hen,hst,Bool.not_true,Bool.and_false,Bool.false_and,
    Bool.false_eq_true,if_false]

end Placed

end Pulpissimo.Udma.ChPlace
