import Pulpissimo.Cellift.IftSram

/-!
# The memory for FPGAs

`ift_sram_fpga` keeps the flags and registers of `ift_sram`. It writes whole
words, without regard to the byte enables, and its arrays end after `NumWords`:
a write behind them is lost, and a read there gives zero. The two modules show
the same, now and under all later reads, exactly while every write stores the same
word in both.
-/

namespace Pulpissimo.Cellift.IftSramFpga

open Pulpissimo.Machine Pulpissimo.Bits Pulpissimo.Cellift.IftSram

variable {AddrWidth DataWidth WidthBytes : ℕ} (NumWords : ℕ)

/-- Read of an array of `NumWords` words. -/
def row (words : BitVec AddrWidth → BitVec DataWidth) (a : BitVec AddrWidth) : BitVec DataWidth :=
  if a.toNat<NumWords then words a else 0

/-- One clock edge. -/
def step (s : State AddrWidth DataWidth) (t d : Ports AddrWidth DataWidth WidthBytes) :
    State AddrWidth DataWidth where
  memory := fun a => if d.req_i && d.we_i && a == d.addr_i then d.wdata_i else s.memory a
  mem_taints := fun a => if d.req_i && d.we_i && a == d.addr_i then t.wdata_i else s.mem_taints a
  rdata_o := if d.req_i && !d.we_i then row NumWords s.memory d.addr_i else s.rdata_o
  rdata_o_taint_before_conservative :=
    if d.req_i && !d.we_i then row NumWords s.mem_taints d.addr_i
    else s.rdata_o_taint_before_conservative
  is_mem_fully_tainted_q := is_mem_fully_tainted_d s t d
  was_req_addr_tainted_q := was_req_addr_tainted_d t d

/-- One cycle of inputs. -/
structure Inputs (AddrWidth DataWidth WidthBytes : ℕ) where
  /-- Taints. -/
  taint : Ports AddrWidth DataWidth WidthBytes
  /-- Data. -/
  data : Ports AddrWidth DataWidth WidthBytes

/-- Both modules side by side. -/
structure Both (AddrWidth DataWidth : ℕ) where
  /-- `ift_sram`. -/
  sram : State AddrWidth DataWidth
  /-- `ift_sram_fpga`. -/
  fpga : State AddrWidth DataWidth

/-- One clock edge of both. -/
def Both.step (s : Both AddrWidth DataWidth) (i : Inputs AddrWidth DataWidth WidthBytes) :
    Both AddrWidth DataWidth :=
  ⟨IftSram.step s.sram i.taint i.data,IftSramFpga.step NumWords s.fpga i.taint i.data⟩

/-- The modules start after reset with the same contents and read registers. -/
structure Both.Start (s : Both AddrWidth DataWidth) : Prop where
  /-- Data words. -/
  memory : ∀ a, s.sram.memory a=row NumWords s.fpga.memory a
  /-- Taint words. -/
  mem_taints : ∀ a, s.sram.mem_taints a=row NumWords s.fpga.mem_taints a
  /-- Word read. -/
  rdata : s.sram.rdata_o=s.fpga.rdata_o
  /-- Its taint. -/
  rdata_taint : s.sram.rdata_o_taint_before_conservative=s.fpga.rdata_o_taint_before_conservative
  /-- Flags of the first module. -/
  sram_reset : s.sram.is_mem_fully_tainted_q=false ∧ s.sram.was_req_addr_tainted_q=false
  /-- Flags of the second module. -/
  fpga_reset : s.fpga.is_mem_fully_tainted_q=false ∧ s.fpga.was_req_addr_tainted_q=false

/-- The outputs are the same. -/
def Both.SameOutputs (s : Both AddrWidth DataWidth) : Prop :=
  s.sram.rdata_o=s.fpga.rdata_o ∧ rdata_o_t0 s.sram=rdata_o_t0 s.fpga

/-- A cycle without a write. -/
def Inputs.Keeps (i : Inputs AddrWidth DataWidth WidthBytes) : Prop :=
  ¬(i.data.req_i=true ∧ i.data.we_i=true)

/-- The outputs are the same, and stay so whatever is read. -/
def Both.SameReads (WidthBytes : ℕ) (s : Both AddrWidth DataWidth) : Prop :=
  ∀ probe : List (Inputs AddrWidth DataWidth WidthBytes), (∀ i ∈ probe,i.Keeps) →
    (after (Both.step NumWords) s probe).SameOutputs

/-- Equivalence along a run: from the same contents, the modules have the same
outputs in every cycle, and would have them whatever was read from there. -/
def Equivalent (s : Both AddrWidth DataWidth)
    (cycles : List (Inputs AddrWidth DataWidth WidthBytes)) : Prop :=
  s.Start NumWords → ∀ before later, before++later=cycles →
    (after (Both.step NumWords) s before).SameReads NumWords WidthBytes

/-- A write stores the same word in both modules: in the arrays its disabled
bytes hold what is stored, behind them its enabled bytes are zero. The taints
count until the memory is fully tainted. -/
def Whole (s : Both AddrWidth DataWidth) (i : Inputs AddrWidth DataWidth WidthBytes) : Prop :=
  i.data.req_i=true → i.data.we_i=true → ∀ k<DataWidth,
    i.data.be_i.getLsbD (k>>>3)=decide (NumWords ≤ i.data.addr_i.toNat) →
      i.data.wdata_i.getLsbD k=(s.sram.memory i.data.addr_i).getLsbD k ∧
        (is_mem_fully_tainted_d s.sram i.taint i.data=true ∨
          i.taint.wdata_i.getLsbD k=(s.sram.mem_taints i.data.addr_i).getLsbD k)

/-- The modules agree, where taints count until the memory is fully tainted. -/
structure Both.Agree (s : Both AddrWidth DataWidth) : Prop where
  /-- Flag for the full memory. -/
  full : s.sram.is_mem_fully_tainted_q=s.fpga.is_mem_fully_tainted_q
  /-- Flag for a tainted request. -/
  was : s.sram.was_req_addr_tainted_q=s.fpga.was_req_addr_tainted_q
  /-- Word read. -/
  rdata : s.sram.rdata_o=s.fpga.rdata_o
  /-- Data words. -/
  memory : ∀ a, s.sram.memory a=row NumWords s.fpga.memory a
  /-- Taints. -/
  taints : s.sram.is_mem_fully_tainted_q=true ∨
    s.sram.rdata_o_taint_before_conservative=s.fpga.rdata_o_taint_before_conservative ∧
      ∀ a, s.sram.mem_taints a=row NumWords s.fpga.mem_taints a

variable {NumWords}

theorem Both.Start.agree {s : Both AddrWidth DataWidth} (h : s.Start NumWords) : s.Agree NumWords where
  full := h.sram_reset.1.trans h.fpga_reset.1.symm
  was := h.sram_reset.2.trans h.fpga_reset.2.symm
  rdata := h.rdata
  memory := h.memory
  taints := Or.inr ⟨h.rdata_taint,h.mem_taints⟩

/-- Agreeing modules have the same outputs. -/
theorem Both.Agree.sameOutputs {s : Both AddrWidth DataWidth} (h : s.Agree NumWords) :
    s.SameOutputs := by
  refine ⟨h.rdata,?_⟩
  unfold rdata_o_t0
  rw [←h.full,←h.was]
  rcases h.taints with hfull | ⟨hread,-⟩
  · rw [hfull,Bool.or_true]
    apply BitVec.eq_of_getLsbD_eq
    intro k hk
    simp [hk]
  · rw [hread]

section Step

/-- The word stored by a write, where the old words agree: `ift_sram` keeps the
disabled bytes, the other module keeps none, and nothing behind its arrays. -/
theorem stored_eq_iff {old new : BitVec DataWidth} (be_i : BitVec WidthBytes) {a : BitVec AddrWidth}
    (hold : a.toNat<NumWords ∨ old=0) :
    writeBits old new be_i=(if a.toNat<NumWords then new else 0) ↔
      ∀ k<DataWidth, be_i.getLsbD (k>>>3)=decide (NumWords≤a.toNat) →
        new.getLsbD k=old.getLsbD k := by
  have hbit : ∀ k<DataWidth, (writeBits old new be_i).getLsbD k=
      if be_i.getLsbD (k>>>3) then new.getLsbD k else old.getLsbD k :=
    fun k hk => getLsbD_ofBits_lt _ hk
  by_cases ha : a.toNat<NumWords
  · rw [if_pos ha,decide_eq_false (Nat.not_le.mpr ha)]
    constructor
    · intro h k hk hoff
      have hk' := hbit k hk
      rw [h,hoff,if_neg Bool.false_ne_true] at hk'
      exact hk'
    · intro h
      apply BitVec.eq_of_getLsbD_eq
      intro k hk
      rw [hbit k hk]
      split_ifs with hon
      · rfl
      · exact (h k hk (Bool.eq_false_iff.mpr hon)).symm
  · have hzero := hold.resolve_left ha
    rw [if_neg ha,decide_eq_true (Nat.not_lt.mp ha)]
    constructor
    · intro h k hk hon
      have hk' := hbit k hk
      rw [h,hon,if_pos rfl] at hk'
      rw [hzero,←hk']
    · intro h
      apply BitVec.eq_of_getLsbD_eq
      intro k hk
      rw [hbit k hk]
      split_ifs with hon
      · rw [h k hk hon,hzero]
      · rw [hzero]

/-- Arrays that agree still agree after a cycle exactly when a write stores the
same word in both. -/
theorem words_eq_iff {old old' : BitVec AddrWidth → BitVec DataWidth}
    (hold : ∀ a, old a=row NumWords old' a) (d : Ports AddrWidth DataWidth WidthBytes)
    (new : BitVec DataWidth) :
    (∀ a, (if d.req_i && d.we_i && a == d.addr_i then writeBits (old a) new d.be_i else old a)=
      row NumWords (fun a => if d.req_i && d.we_i && a == d.addr_i then new else old' a) a) ↔
      (d.req_i=true → d.we_i=true → ∀ k<DataWidth,
        d.be_i.getLsbD (k>>>3)=decide (NumWords≤d.addr_i.toNat) →
          new.getLsbD k=(old d.addr_i).getLsbD k) := by
  have hbehind : d.addr_i.toNat<NumWords ∨ old d.addr_i=0 := by
    by_cases ha : d.addr_i.toNat<NumWords
    · exact Or.inl ha
    · exact Or.inr ((hold d.addr_i).trans (if_neg ha))
  constructor
  · intro h hreq hwe
    have hrow := h d.addr_i
    unfold row at hrow
    dsimp only at hrow
    rw [hreq,hwe,beq_self_eq_true] at hrow
    exact (stored_eq_iff d.be_i hbehind).mp hrow
  · intro h a
    by_cases hw : (d.req_i && d.we_i && a == d.addr_i)=true
    · rw [Bool.and_eq_true_iff,Bool.and_eq_true_iff,beq_iff_eq] at hw
      rcases hw with ⟨⟨hreq,hwe⟩,rfl⟩
      unfold row
      dsimp only
      rw [hreq,hwe,beq_self_eq_true]
      exact (stored_eq_iff d.be_i hbehind).mpr (h hreq hwe)
    · unfold row
      dsimp only
      rw [if_neg hw,if_neg hw]
      exact hold a

variable (s : Both AddrWidth DataWidth) (i : Inputs AddrWidth DataWidth WidthBytes)

/-- From agreeing modules a cycle leads to agreeing modules exactly when its
write stores the same word. -/
theorem agree_step_iff (h : s.Agree NumWords) :
    (s.step NumWords i).Agree NumWords ↔ Whole NumWords s i := by
  have hfull : is_mem_fully_tainted_d s.sram i.taint i.data=
      is_mem_fully_tainted_d s.fpga i.taint i.data := by
    unfold is_mem_fully_tainted_d
    rw [h.full]
  have hmem := words_eq_iff h.memory i.data i.data.wdata_i
  have hread : (s.step NumWords i).sram.rdata_o=(s.step NumWords i).fpga.rdata_o := by
    unfold Both.step IftSram.step IftSramFpga.step
    dsimp only
    rw [h.rdata,h.memory]
  cases hd : is_mem_fully_tainted_d s.sram i.taint i.data with
  | true =>
    constructor
    · intro h' hreq hwe k hk hbe
      exact ⟨hmem.mp h'.memory hreq hwe k hk hbe,Or.inl hd⟩
    · intro hw
      refine ⟨hfull,rfl,hread,hmem.mpr fun hreq hwe k hk hbe => ?_,Or.inl hd⟩
      exact (hw hreq hwe k hk hbe).1
  | false =>
    have hclear : ¬s.sram.is_mem_fully_tainted_q=true := by
      unfold is_mem_fully_tainted_d at hd
      rw [(Bool.or_eq_false_iff.mp hd).1]
      exact Bool.false_ne_true
    rcases h.taints.resolve_left hclear with ⟨hheld,hwords⟩
    have htaint := words_eq_iff hwords i.data i.taint.wdata_i
    have hread' : (s.step NumWords i).sram.rdata_o_taint_before_conservative=
        (s.step NumWords i).fpga.rdata_o_taint_before_conservative := by
      unfold Both.step IftSram.step IftSramFpga.step
      dsimp only
      rw [hheld,hwords]
    have hd' : ¬is_mem_fully_tainted_d s.sram i.taint i.data=true := by
      rw [hd]
      exact Bool.false_ne_true
    constructor
    · intro h' hreq hwe k hk hbe
      refine ⟨hmem.mp h'.memory hreq hwe k hk hbe,Or.inr ?_⟩
      exact htaint.mp (h'.taints.resolve_left hd').2 hreq hwe k hk hbe
    · intro hw
      refine ⟨hfull,rfl,hread,hmem.mpr fun hreq hwe k hk hbe => ?_,Or.inr ⟨hread',htaint.mpr ?_⟩⟩
      · exact (hw hreq hwe k hk hbe).1
      · exact fun hreq hwe k hk hbe => (hw hreq hwe k hk hbe).2.resolve_left hd'

end Step

/-- The flags are computed alike. -/
structure Both.SameFlags (s : Both AddrWidth DataWidth) : Prop where
  /-- Flag for the full memory. -/
  full : s.sram.is_mem_fully_tainted_q=s.fpga.is_mem_fully_tainted_q
  /-- Flag for a tainted request. -/
  was : s.sram.was_req_addr_tainted_q=s.fpga.was_req_addr_tainted_q

theorem sameFlags_step (s : Both AddrWidth DataWidth) (i : Inputs AddrWidth DataWidth WidthBytes)
    (h : s.SameFlags) : (s.step NumWords i).SameFlags := by
  refine ⟨?_,rfl⟩
  change is_mem_fully_tainted_d s.sram i.taint i.data=is_mem_fully_tainted_d s.fpga i.taint i.data
  unfold is_mem_fully_tainted_d
  rw [h.full]

/-- Ports without taint that read a row, or nothing. -/
def look (req_i : Bool) (a : BitVec AddrWidth) : Ports AddrWidth DataWidth WidthBytes :=
  ⟨req_i,false,a,0,0⟩

/-- Ports without taint. -/
def untainted : Ports AddrWidth DataWidth WidthBytes := look false 0

/-- Untainted inputs set no flag. -/
theorem untainted_flags (s : State AddrWidth DataWidth) (hclear : s.is_mem_fully_tainted_q=false)
    (d : Ports AddrWidth DataWidth WidthBytes) :
    is_mem_fully_tainted_d s untainted d=false ∧ was_req_addr_tainted_d untainted d=false := by
  unfold is_mem_fully_tainted_d was_req_addr_tainted_d untainted look
  rw [hclear]
  simp

/-- Without the flags the taint of the word read is shown. -/
theorem taint_shown {s : State AddrWidth DataWidth} (hfull : s.is_mem_fully_tainted_q=false)
    (hwas : s.was_req_addr_tainted_q=false) :
    rdata_o_t0 s=s.rdata_o_taint_before_conservative := by
  unfold rdata_o_t0
  rw [hfull,hwas]
  apply BitVec.eq_of_getLsbD_eq
  intro k hk
  simp

/-- Modules that no read tells apart agree: a read of each row shows it. -/
theorem agree_of_sameReads {s : Both AddrWidth DataWidth} (hflags : s.SameFlags)
    (h : s.SameReads NumWords WidthBytes) : s.Agree NumWords := by
  let probe (req_i : Bool) (a : BitVec AddrWidth) : Inputs AddrWidth DataWidth WidthBytes :=
    ⟨untainted,look req_i a⟩
  have hprobe : ∀ req_i a,(s.step NumWords (probe req_i a)).SameOutputs := by
    intro req_i a
    refine h [probe req_i a] fun i hi => ?_
    rw [List.mem_singleton.mp hi]
    exact fun hw => Bool.false_ne_true hw.2
  refine ⟨hflags.full,hflags.was,(h [] nofun).1,fun a => (hprobe true a).1,?_⟩
  cases hclear : s.sram.is_mem_fully_tainted_q with
  | true => exact Or.inl rfl
  | false =>
    have hclear' := hflags.full.symm.trans hclear
    have hlook : ∀ req_i a,
        (s.step NumWords (probe req_i a)).sram.rdata_o_taint_before_conservative=
        (s.step NumWords (probe req_i a)).fpga.rdata_o_taint_before_conservative := by
      intro req_i a
      have hout := (hprobe req_i a).2
      rcases untainted_flags s.sram hclear (probe req_i a).data with ⟨hf,hw⟩
      rcases untainted_flags s.fpga hclear' (probe req_i a).data with ⟨hf',hw'⟩
      rw [taint_shown hf hw,taint_shown hf' hw'] at hout
      exact hout
    exact Or.inr ⟨hlook false 0,hlook true⟩

/-- Agreeing modules give the same reads. -/
theorem sameReads_of_agree {s : Both AddrWidth DataWidth} (h : s.Agree NumWords) :
    s.SameReads NumWords WidthBytes := by
  intro probe hprobe
  induction probe generalizing s with
  | nil => exact h.sameOutputs
  | cons i probe ih =>
    have hkeeps := hprobe i (List.mem_cons_self ..)
    have hwhole : Whole NumWords s i := fun hreq hwe => absurd ⟨hreq,hwe⟩ hkeeps
    exact ih ((agree_step_iff s i h).mpr hwhole) fun j hj => hprobe j (List.mem_cons_of_mem i hj)

/-- The flags of a run are the same. -/
theorem sameFlags_after {s : Both AddrWidth DataWidth} (h : s.Start NumWords)
    (cycles : List (Inputs AddrWidth DataWidth WidthBytes)) :
    (after (Both.step NumWords) s cycles).SameFlags :=
  after_invariant sameFlags_step ⟨h.agree.full,h.agree.was⟩ cycles

/-- The modules are equivalent along a run exactly when every write of it stores
the same word in both. -/
theorem equivalent_iff_whole (s : Both AddrWidth DataWidth)
    (cycles : List (Inputs AddrWidth DataWidth WidthBytes)) :
    Equivalent NumWords s cycles ↔
      (s.Start NumWords → Meets (Both.step NumWords) (Whole NumWords) s cycles) := by
  refine forall_congr' fun hs => ?_
  rw [←holds_iff_meets (P:=fun s => s.Agree NumWords) (fun s i h => agree_step_iff s i h) hs.agree]
  refine forall_congr' fun before => forall_congr' fun _ => forall_congr' fun _ => ?_
  exact ⟨agree_of_sameReads (sameFlags_after hs before),sameReads_of_agree⟩

/-- Both memories cleared, in the size of the defaults with words of 32 bits. -/
def cleared : Both 10 32 :=
  let s : State 10 32 := ⟨fun _ => 0,fun _ => 0,0,0,false,false⟩
  ⟨s,s⟩

/-- A request without taint. -/
def request (we_i : Bool) (wdata_i : BitVec 32) (be_i : BitVec 4) : Inputs 10 32 4 :=
  ⟨⟨false,false,0,0,0⟩,⟨true,we_i,0,wdata_i,be_i⟩⟩

/-- A partial write, read back. -/
theorem partial_write_differs :
    ¬∀ (s : Both 10 32) (cycles : List (Inputs 10 32 4)),s.Start 1024 →
      ∀ before later, before++later=cycles → (after (Both.step 1024) s before).SameOutputs := by
  intro h
  have hstart : cleared.Start 1024 :=
    ⟨fun _ => (ite_self _).symm,fun _ => (ite_self _).symm,rfl,rfl,⟨rfl,rfl⟩,⟨rfl,rfl⟩⟩
  have hend := h cleared [request true 0xFFFF 1,request false 0 0] hstart _ [] (List.append_nil _)
  exact absurd hend.1 (by decide)

end Pulpissimo.Cellift.IftSramFpga
