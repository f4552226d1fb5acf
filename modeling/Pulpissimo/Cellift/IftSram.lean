import Mathlib.Data.BitVec
import Pulpissimo.Lib.Bits
import Pulpissimo.Lib.Machine
import Pulpissimo.Lib.Taint

/-!
# Taint soundness of the instrumented memory

`ift_sram` with one taint, in two-state simulation: a word that was never
written reads as zero. Two runs share their taint inputs and differ in data
only under taint. What each cycle does to the bits that differ is stated
exactly, and a run whose cycles keep all differences under taint never shows
an untainted difference.
-/

namespace Pulpissimo.Cellift.IftSram

open Pulpissimo.Machine Pulpissimo.Bits Pulpissimo.Taint

/-- The request ports, for data and for taints. -/
structure Ports (AddrWidth DataWidth WidthBytes : ℕ) where
  /-- Request. -/
  req_i : Bool
  /-- Write enable. -/
  we_i : Bool
  /-- Request address. -/
  addr_i : BitVec AddrWidth
  /-- Write data. -/
  wdata_i : BitVec DataWidth
  /-- Write byte enable. -/
  be_i : BitVec WidthBytes

/-- Memories and registers of one run. -/
structure State (AddrWidth DataWidth : ℕ) where
  /-- Data words. -/
  memory : BitVec AddrWidth → BitVec DataWidth
  /-- Taint words. -/
  mem_taints : BitVec AddrWidth → BitVec DataWidth
  /-- Read data. -/
  rdata_o : BitVec DataWidth
  /-- Taint of the word read. -/
  rdata_o_taint_before_conservative : BitVec DataWidth
  /-- All of the memory counts as tainted. -/
  is_mem_fully_tainted_q : Bool
  /-- The last cycle's request was tainted. -/
  was_req_addr_tainted_q : Bool

variable {AddrWidth DataWidth WidthBytes : ℕ}

/-- Next value of the flag for the full memory. The byte enables and the
address taint are combined bit by bit, at the wider of their widths. -/
def is_mem_fully_tainted_d (s : State AddrWidth DataWidth)
    (t d : Ports AddrWidth DataWidth WidthBytes) : Bool :=
  s.is_mem_fully_tainted_q || ((d.req_i || t.req_i) && (d.we_i || t.we_i) &&
    ((d.be_i ||| t.be_i).setWidth (max WidthBytes AddrWidth) &&&
      t.addr_i.setWidth (max WidthBytes AddrWidth)) != 0)

/-- Next value of the flag for a tainted request. -/
def was_req_addr_tainted_d (t d : Ports AddrWidth DataWidth WidthBytes) : Bool :=
  t.addr_i != 0 || t.req_i || (d.req_i && t.we_i)

/-- Taint of the read data. -/
def rdata_o_t0 (s : State AddrWidth DataWidth) : BitVec DataWidth :=
  s.rdata_o_taint_before_conservative |||
    BitVec.fill DataWidth (s.was_req_addr_tainted_q || s.is_mem_fully_tainted_q)

/-- A word with its enabled bytes replaced. -/
def writeBits (old wdata : BitVec DataWidth) (be_i : BitVec WidthBytes) : BitVec DataWidth :=
  ofBits (fun i => if be_i.getLsbD (i.val>>>3) then wdata.getLsbD i else old.getLsbD i)

/-- One clock edge. -/
def step (s : State AddrWidth DataWidth) (t d : Ports AddrWidth DataWidth WidthBytes) :
    State AddrWidth DataWidth where
  memory := fun a =>
    if d.req_i && d.we_i && a == d.addr_i then writeBits (s.memory a) d.wdata_i d.be_i
    else s.memory a
  mem_taints := fun a =>
    if d.req_i && d.we_i && a == d.addr_i then writeBits (s.mem_taints a) t.wdata_i d.be_i
    else s.mem_taints a
  rdata_o := if d.req_i && !d.we_i then s.memory d.addr_i else s.rdata_o
  rdata_o_taint_before_conservative :=
    if d.req_i && !d.we_i then s.mem_taints d.addr_i else s.rdata_o_taint_before_conservative
  is_mem_fully_tainted_q := is_mem_fully_tainted_d s t d
  was_req_addr_tainted_q := was_req_addr_tainted_d t d

/-- One cycle of two runs: equal taints, and data that agree outside them. -/
structure Cycle (AddrWidth DataWidth WidthBytes : ℕ) where
  /-- Taint inputs of both runs. -/
  taint : Ports AddrWidth DataWidth WidthBytes
  /-- Data inputs of the first run. -/
  left : Ports AddrWidth DataWidth WidthBytes
  /-- Data inputs of the second run. -/
  right : Ports AddrWidth DataWidth WidthBytes
  /-- Requests agree. -/
  req : AgreeFlag taint.req_i left.req_i right.req_i
  /-- Write enables agree. -/
  we : AgreeFlag taint.we_i left.we_i right.we_i
  /-- Addresses agree. -/
  addr : Agree taint.addr_i left.addr_i right.addr_i
  /-- Write data agree. -/
  wdata : Agree taint.wdata_i left.wdata_i right.wdata_i
  /-- Byte enables agree. -/
  be : Agree taint.be_i left.be_i right.be_i

/-- Two runs side by side. -/
structure Runs (AddrWidth DataWidth : ℕ) where
  /-- First run. -/
  left : State AddrWidth DataWidth
  /-- Second run. -/
  right : State AddrWidth DataWidth

/-- One clock edge of both runs. -/
def Runs.step (s : Runs AddrWidth DataWidth) (c : Cycle AddrWidth DataWidth WidthBytes) :
    Runs AddrWidth DataWidth :=
  ⟨IftSram.step s.left c.taint c.left,IftSram.step s.right c.taint c.right⟩

/-- The runs start after reset with equal taints and with data that agree
outside them. -/
structure Runs.Start (s : Runs AddrWidth DataWidth) : Prop where
  /-- Equal taint memories. -/
  mem_taints : s.left.mem_taints=s.right.mem_taints
  /-- Equal taints of the word read. -/
  rdata_taint : s.left.rdata_o_taint_before_conservative=s.right.rdata_o_taint_before_conservative
  /-- Flags of the first run after reset. -/
  left_reset : s.left.is_mem_fully_tainted_q=false ∧ s.left.was_req_addr_tainted_q=false
  /-- Flags of the second run after reset. -/
  right_reset : s.right.is_mem_fully_tainted_q=false ∧ s.right.was_req_addr_tainted_q=false
  /-- The memories agree outside their taint. -/
  memory : ∀ a, Agree (s.left.mem_taints a) (s.left.memory a) (s.right.memory a)
  /-- So does the word read. -/
  rdata : Agree s.left.rdata_o_taint_before_conservative s.left.rdata_o s.right.rdata_o

/-- Every bit where the read data differ is tainted in both runs. -/
def Runs.ReadsCovered (s : Runs AddrWidth DataWidth) : Prop :=
  ∀ k<DataWidth, s.left.rdata_o.getLsbD k≠s.right.rdata_o.getLsbD k →
    (rdata_o_t0 s.left).getLsbD k=true ∧ (rdata_o_t0 s.right).getLsbD k=true

/-- Taint soundness of a run: at every point of it the read data agree on
every bit that either run leaves untainted. -/
def TaintSound (s : Runs AddrWidth DataWidth)
    (cycles : List (Cycle AddrWidth DataWidth WidthBytes)) : Prop :=
  s.Start → ∀ before later, before++later=cycles → (after Runs.step s before).ReadsCovered

/-- Every bit where the memories differ is tainted in both runs. -/
def Runs.MemoryCovered (s : Runs AddrWidth DataWidth) : Prop :=
  ∀ a, ∀ k<DataWidth, (s.left.memory a).getLsbD k≠(s.right.memory a).getLsbD k →
    (s.left.mem_taints a).getLsbD k=true ∧ (s.right.mem_taints a).getLsbD k=true

/-- What two runs keep: equal flags, and all differences under taint. -/
structure Runs.Related (s : Runs AddrWidth DataWidth) : Prop where
  /-- The memories count as fully tainted in both runs or in none. -/
  full : s.left.is_mem_fully_tainted_q=s.right.is_mem_fully_tainted_q
  /-- The last request was tainted in both runs or in none. -/
  was : s.left.was_req_addr_tainted_q=s.right.was_req_addr_tainted_q
  /-- Memory differences are tainted. -/
  memory : s.left.is_mem_fully_tainted_q=true ∨ s.MemoryCovered
  /-- Read data differences are tainted. -/
  reads : s.ReadsCovered

/-- A request writes a bit. -/
def Ports.Writes (d : Ports AddrWidth DataWidth WidthBytes) (a : BitVec AddrWidth) (k : ℕ) : Prop :=
  d.req_i=true ∧ d.we_i=true ∧ a=d.addr_i ∧ d.be_i.getLsbD (k>>>3)=true

instance (d : Ports AddrWidth DataWidth WidthBytes) (a : BitVec AddrWidth) (k : ℕ) :
    Decidable (d.Writes a k) :=
  inferInstanceAs (Decidable (_ ∧ _ ∧ _ ∧ _))

/-- A request reads. -/
def Ports.Reads (d : Ports AddrWidth DataWidth WidthBytes) : Prop := d.req_i=true ∧ d.we_i=false

/-- A bit that only this request writes gets the value that the other run
holds there, or taint where the other run has taint. -/
def Ports.Harmless (t d : Ports AddrWidth DataWidth WidthBytes) (other : State AddrWidth DataWidth)
    (a : BitVec AddrWidth) (k : ℕ) : Prop :=
  d.wdata_i.getLsbD k=(other.memory a).getLsbD k ∨
    t.wdata_i.getLsbD k=true ∧ (other.mem_taints a).getLsbD k=true

/-- The cycle keeps differences under taint. Either the memory counts as fully
tainted after it, or every bit that only one run writes is harmless, and a
cycle without a read and without a tainted request finds the held read data
equal outside the taint of the word read. -/
def Covered (s : Runs AddrWidth DataWidth) (c : Cycle AddrWidth DataWidth WidthBytes) : Prop :=
  is_mem_fully_tainted_d s.left c.taint c.left=true ∨
    (∀ a, ∀ k<DataWidth,
      (c.left.Writes a k → ¬c.right.Writes a k → Ports.Harmless c.taint c.left s.right a k) ∧
      (c.right.Writes a k → ¬c.left.Writes a k → Ports.Harmless c.taint c.right s.left a k)) ∧
    (¬c.left.Reads → ¬c.right.Reads → was_req_addr_tainted_d c.taint c.left=false →
      ∀ k<DataWidth, s.left.rdata_o.getLsbD k≠s.right.rdata_o.getLsbD k →
        s.left.rdata_o_taint_before_conservative.getLsbD k=true ∧
          s.right.rdata_o_taint_before_conservative.getLsbD k=true)

section Step

variable (s : State AddrWidth DataWidth) (t d : Ports AddrWidth DataWidth WidthBytes)

/-- A bit of a word after the write port. -/
theorem writePort_getLsbD (a : BitVec AddrWidth) (old wdata : BitVec DataWidth) {k : ℕ}
    (hk : k<DataWidth) :
    (if (d.req_i && d.we_i && a == d.addr_i)=true then writeBits old wdata d.be_i
      else old).getLsbD k=if d.Writes a k then wdata.getLsbD k else old.getLsbD k := by
  have hw : d.Writes a k ↔
      (d.req_i && d.we_i && a == d.addr_i)=true ∧ d.be_i.getLsbD (k>>>3)=true := by
    simp [Ports.Writes,and_assoc]
  by_cases hreq : (d.req_i && d.we_i && a == d.addr_i)=true
  · rw [if_pos hreq,writeBits,getLsbD_ofBits_lt _ hk]
    by_cases hb : d.be_i.getLsbD (k>>>3)=true
    · rw [if_pos hb,if_pos (hw.mpr ⟨hreq,hb⟩)]
    · rw [if_neg hb,if_neg (fun h => hb (hw.mp h).2)]
  · rw [if_neg hreq,if_neg (fun h => hreq (hw.mp h).1)]

/-- A bit of the memory after a cycle. -/
theorem step_memory (a : BitVec AddrWidth) {k : ℕ} (hk : k<DataWidth) :
    ((step s t d).memory a).getLsbD k=
      if d.Writes a k then d.wdata_i.getLsbD k else (s.memory a).getLsbD k :=
  writePort_getLsbD d a (s.memory a) d.wdata_i hk

/-- A bit of the taint memory after a cycle. -/
theorem step_mem_taints (a : BitVec AddrWidth) {k : ℕ} (hk : k<DataWidth) :
    ((step s t d).mem_taints a).getLsbD k=
      if d.Writes a k then t.wdata_i.getLsbD k else (s.mem_taints a).getLsbD k :=
  writePort_getLsbD d a (s.mem_taints a) t.wdata_i hk

/-- Read data and their taint after a cycle. -/
theorem step_reads (hr : d.Reads) : (step s t d).rdata_o=s.memory d.addr_i ∧
    (step s t d).rdata_o_taint_before_conservative=s.mem_taints d.addr_i := by
  simp [step,hr.1,hr.2]

/-- They are held in a cycle without a read. -/
theorem step_holds (hr : ¬d.Reads) : (step s t d).rdata_o=s.rdata_o ∧
    (step s t d).rdata_o_taint_before_conservative=s.rdata_o_taint_before_conservative := by
  unfold Ports.Reads at hr
  have hb : (d.req_i && !d.we_i)=false := by
    cases h : d.req_i <;> cases h' : d.we_i <;> simp_all
  simp [step,hb]

/-- A bit of the taint output. -/
theorem rdata_o_t0_getLsbD {k : ℕ} (hk : k<DataWidth) :
    (rdata_o_t0 s).getLsbD k=(s.rdata_o_taint_before_conservative.getLsbD k ||
      (s.was_req_addr_tainted_q || s.is_mem_fully_tainted_q)) := by
  unfold rdata_o_t0
  rw [BitVec.getLsbD_or,BitVec.getLsbD_fill,decide_eq_true hk,Bool.and_true]

end Step

section Cycle

variable (s : Runs AddrWidth DataWidth) (c : Cycle AddrWidth DataWidth WidthBytes)

/-- The flag for the full memory is computed alike in both runs. -/
theorem fully_tainted_eq
    (h : s.left.is_mem_fully_tainted_q=s.right.is_mem_fully_tainted_q) :
    is_mem_fully_tainted_d s.left c.taint c.left=is_mem_fully_tainted_d s.right c.taint c.right := by
  unfold is_mem_fully_tainted_d
  rw [h,c.req.or_eq,c.we.or_eq,agree_iff_or.mp c.be]

/-- So is the flag for a tainted request. -/
theorem req_tainted_eq :
    was_req_addr_tainted_d c.taint c.left=was_req_addr_tainted_d c.taint c.right := by
  unfold was_req_addr_tainted_d
  cases hr : c.taint.req_i with
  | true => simp
  | false => rw [c.req hr]

/-- Without a tainted request both runs read the same address, or neither reads. -/
theorem reads_eq (h : was_req_addr_tainted_d c.taint c.left=false) :
    c.left.addr_i=c.right.addr_i ∧ (c.left.Reads ↔ c.right.Reads) := by
  unfold was_req_addr_tainted_d at h
  simp only [Bool.or_eq_false_iff,bne_eq_false_iff_eq] at h
  obtain ⟨⟨haddr,hreq⟩,hwe⟩ := h
  have hr : c.left.req_i=c.right.req_i := c.req hreq
  refine ⟨c.addr.eq_of_zero haddr,?_⟩
  unfold Ports.Reads
  cases hl : c.left.req_i with
  | false => simp [←hr,hl]
  | true =>
    have hw : c.taint.we_i=false := by simpa [hl] using hwe
    rw [←hr,hl,c.we hw]

/-- The memory difference after a cycle stays under taint exactly when every
bit that only one run writes is harmless. -/
theorem memoryCovered_step_iff (h : s.MemoryCovered) :
    (s.step c).MemoryCovered ↔ ∀ a, ∀ k<DataWidth,
      (c.left.Writes a k → ¬c.right.Writes a k → Ports.Harmless c.taint c.left s.right a k) ∧
      (c.right.Writes a k → ¬c.left.Writes a k → Ports.Harmless c.taint c.right s.left a k) := by
  unfold Runs.MemoryCovered Ports.Harmless
  refine forall_congr' fun a => forall_congr' fun k => forall_congr' fun hk => ?_
  have hold := h a k hk
  simp only [Runs.step,step_memory _ _ _ a hk,step_mem_taints _ _ _ a hk]
  by_cases hl : c.left.Writes a k <;> by_cases hr : c.right.Writes a k
  · simp only [hl,hr,if_true,not_true,false_implies,implies_true,and_self,iff_true]
    intro hne
    exact c.wdata.marked hne
  · simp only [hl,hr,if_true,if_false,not_false_eq_true,forall_const,false_implies,and_true]
    tauto
  · simp only [hl,hr,if_true,if_false,not_false_eq_true,forall_const,false_implies,true_and]
    have hswap : (s.left.memory a).getLsbD k=c.right.wdata_i.getLsbD k ↔
        c.right.wdata_i.getLsbD k=(s.left.memory a).getLsbD k := eq_comm
    tauto
  · simpa [hl,hr] using hold

/-- The read data difference after a cycle that does not taint the full memory
stays under taint exactly when the held data do, where nothing is read. -/
theorem readsCovered_step_iff (hmem : s.MemoryCovered)
    (hflags : s.left.is_mem_fully_tainted_q=s.right.is_mem_fully_tainted_q)
    (hfull : is_mem_fully_tainted_d s.left c.taint c.left=false) :
    (s.step c).ReadsCovered ↔
      (¬c.left.Reads → ¬c.right.Reads → was_req_addr_tainted_d c.taint c.left=false →
        ∀ k<DataWidth, s.left.rdata_o.getLsbD k≠s.right.rdata_o.getLsbD k →
          s.left.rdata_o_taint_before_conservative.getLsbD k=true ∧
            s.right.rdata_o_taint_before_conservative.getLsbD k=true) := by
  have hfull' : is_mem_fully_tainted_d s.right c.taint c.right=false := by
    rw [←fully_tainted_eq s c hflags,hfull]
  have hleft : ∀ k<DataWidth, (rdata_o_t0 (s.step c).left).getLsbD k=
      ((s.step c).left.rdata_o_taint_before_conservative.getLsbD k ||
        was_req_addr_tainted_d c.taint c.left) := by
    intro k hk
    rw [rdata_o_t0_getLsbD _ hk]
    simp [Runs.step,step,hfull]
  have hright : ∀ k<DataWidth, (rdata_o_t0 (s.step c).right).getLsbD k=
      ((s.step c).right.rdata_o_taint_before_conservative.getLsbD k ||
        was_req_addr_tainted_d c.taint c.left) := by
    intro k hk
    rw [rdata_o_t0_getLsbD _ hk,req_tainted_eq c]
    simp [Runs.step,step,hfull']
  have hreads : (s.step c).ReadsCovered ↔ ∀ k<DataWidth,
      (s.step c).left.rdata_o.getLsbD k≠(s.step c).right.rdata_o.getLsbD k →
      was_req_addr_tainted_d c.taint c.left=true ∨
        (s.step c).left.rdata_o_taint_before_conservative.getLsbD k=true ∧
          (s.step c).right.rdata_o_taint_before_conservative.getLsbD k=true := by
    unfold Runs.ReadsCovered
    refine forall_congr' fun k => forall_congr' fun hk => forall_congr' fun _ => ?_
    rw [hleft k hk,hright k hk]
    cases was_req_addr_tainted_d c.taint c.left <;> simp
  rw [hreads]
  cases hwas : was_req_addr_tainted_d c.taint c.left with
  | true => simp
  | false =>
    obtain ⟨haddr,hboth⟩ := reads_eq c hwas
    simp only [Bool.false_eq_true,false_or,forall_const]
    by_cases hl : c.left.Reads
    · have hr := hboth.mp hl
      simp only [hl,not_true,false_implies,iff_true]
      intro k hk hne
      simp only [Runs.step,step_reads s.left c.taint c.left hl,
        step_reads s.right c.taint c.right hr,haddr] at hne ⊢
      exact hmem c.right.addr_i k hk hne
    · have hr : ¬c.right.Reads := fun h => hl (hboth.mpr h)
      simp only [hl,hr,not_false_eq_true,forall_const,Runs.step,
        step_holds s.left c.taint c.left hl,step_holds s.right c.taint c.right hr]

/-- From related runs a cycle leads to related runs exactly when it is covered. -/
theorem related_step_iff (h : s.Related) : (s.step c).Related ↔ Covered s c := by
  have hfull := fully_tainted_eq s c h.full
  have hwas := req_tainted_eq c
  unfold Covered
  cases hd : is_mem_fully_tainted_d s.left c.taint c.left with
  | true =>
    simp only [true_or,iff_true]
    refine ⟨hfull,hwas,Or.inl hd,fun k hk _ => ?_⟩
    rw [rdata_o_t0_getLsbD _ hk,rdata_o_t0_getLsbD _ hk]
    have hd' : is_mem_fully_tainted_d s.right c.taint c.right=true := hfull.symm.trans hd
    simp [Runs.step,step,hd,hd']
  | false =>
    have hclear : s.left.is_mem_fully_tainted_q≠true := by
      unfold is_mem_fully_tainted_d at hd
      simp only [Bool.or_eq_false_iff] at hd
      simp [hd.1]
    have hmem : s.MemoryCovered := h.memory.resolve_left hclear
    have hmem' := memoryCovered_step_iff s c hmem
    have hreads' := readsCovered_step_iff s c hmem h.full hd
    simp only [Bool.false_eq_true,false_or]
    rw [←hmem',←hreads']
    constructor
    · intro hr
      exact ⟨hr.memory.resolve_left (by simp [Runs.step,step,hd]),hr.reads⟩
    · rintro ⟨hm,hr⟩
      exact ⟨hfull,hwas,Or.inr hm,hr⟩

end Cycle

/-- The runs are related after reset. -/
theorem related_of_start {s : Runs AddrWidth DataWidth} (h : s.Start) : s.Related := by
  have hflags := h.left_reset
  have hflags' := h.right_reset
  refine ⟨hflags.1.trans hflags'.1.symm,hflags.2.trans hflags'.2.symm,Or.inr ?_,?_⟩
  · intro a k _ hne
    rw [←h.mem_taints]
    exact ⟨(h.memory a).marked hne,(h.memory a).marked hne⟩
  · intro k hk hne
    rw [rdata_o_t0_getLsbD _ hk,rdata_o_t0_getLsbD _ hk,←h.rdata_taint,h.rdata.marked hne]
    simp

/-- Untainted controls, unless the cycle taints the full memory, and no cycle
without a read right after a tainted request. -/
def Controlled (s : Runs AddrWidth DataWidth) (c : Cycle AddrWidth DataWidth WidthBytes) : Prop :=
  (is_mem_fully_tainted_d s.left c.taint c.left=true ∨
    c.taint.req_i=false ∧ c.taint.we_i=false ∧ c.taint.addr_i=0 ∧ c.taint.be_i=0) ∧
  (s.left.was_req_addr_tainted_q=false ∨ c.left.Reads)

instance (s : Runs AddrWidth DataWidth) (c : Cycle AddrWidth DataWidth WidthBytes) :
    Decidable (Controlled s c) :=
  inferInstanceAs (Decidable ((_ ∨ _ ∧ _ ∧ _ ∧ _) ∧ (_ ∨ (_ ∧ _))))

/-- Controlled cycles keep differences under taint whatever the data are. -/
theorem covered_of_controlled {s : Runs AddrWidth DataWidth} (h : s.Related)
    {c : Cycle AddrWidth DataWidth WidthBytes} (hc : Controlled s c) : Covered s c := by
  rcases hc with ⟨hfull | ⟨hreq,hwe,haddr,hbe⟩,hheld⟩
  · exact Or.inl hfull
  cases hd : is_mem_fully_tainted_d s.left c.taint c.left with
  | true => exact Or.inl hd
  | false =>
    have hsame : ∀ a k, c.left.Writes a k ↔ c.right.Writes a k := by
      intro a k
      unfold Ports.Writes
      rw [c.req hreq,c.we hwe,c.addr.eq_of_zero haddr,c.be.eq_of_zero hbe]
    refine Or.inr ⟨fun a k _ => ⟨fun hl hr => absurd ((hsame a k).mp hl) hr,
      fun hr hl => absurd ((hsame a k).mpr hr) hl⟩,fun hl _ _ k hk hne => ?_⟩
    have hwas : s.left.was_req_addr_tainted_q=false := hheld.resolve_right hl
    have hclear : s.left.is_mem_fully_tainted_q=false := by
      unfold is_mem_fully_tainted_d at hd
      exact (Bool.or_eq_false_iff.mp hd).1
    have hboth := h.reads k hk hne
    rw [rdata_o_t0_getLsbD _ hk,rdata_o_t0_getLsbD _ hk,←h.was,←h.full,hwas,hclear] at hboth
    simpa using hboth

/-- So do controlled runs. -/
theorem meets_covered {s : Runs AddrWidth DataWidth} (h : s.Related)
    {cycles : List (Cycle AddrWidth DataWidth WidthBytes)}
    (hc : Meets Runs.step Controlled s cycles) : Meets Runs.step Covered s cycles := by
  induction cycles generalizing s with
  | nil => trivial
  | cons c cycles ih =>
    have hcov := covered_of_controlled h hc.1
    exact ⟨hcov,ih ((related_step_iff s c h).mpr hcov) hc.2⟩

/-- A request on the ports of a bank of 32-bit words. -/
def request (req_i we_i : Bool) (addr_i : BitVec 10) (wdata_i : BitVec 32) (be_i : BitVec 4) :
    Ports 10 32 4 := ⟨req_i,we_i,addr_i,wdata_i,be_i⟩

/-- Both runs after reset with cleared memories. -/
def cleared : Runs 10 32 :=
  let s : State 10 32 := ⟨fun _ => 0,fun _ => 0,0,0,false,false⟩
  ⟨s,s⟩

theorem cleared_start : cleared.Start :=
  ⟨rfl,rfl,⟨rfl,rfl⟩,⟨rfl,rfl⟩,fun _ _ _ => rfl,fun _ _ => rfl⟩

instance (s : Runs AddrWidth DataWidth) : Decidable s.ReadsCovered :=
  inferInstanceAs (Decidable (∀ k<DataWidth,_ ≠ _ → _ ∧ _))

end Pulpissimo.Cellift.IftSram
