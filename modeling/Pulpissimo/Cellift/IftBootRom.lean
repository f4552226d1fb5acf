import Mathlib.Data.BitVec
import Pulpissimo.Lib.Machine
import Pulpissimo.Lib.Taint

/-!
# Taint soundness of the instrumented boot ROM

`ift_boot_rom_hdac` with one taint, in two-state simulation. The taint of the
output is indexed by the number of the taint, so a read sets bit 0 from the
taint word and leaves the other bits as they were. Chip select and address
taints are not used. What a cycle does to the bits that differ between two runs
is stated exactly.
-/

namespace Pulpissimo.Cellift.IftBootRom

open Pulpissimo.Machine Pulpissimo.Taint

abbrev ROM_ADDR_WIDTH : ℕ := 13

/-- Data inputs that the module reads. -/
structure Ports where
  /-- Byte address. -/
  add : BitVec 32
  /-- Chip select, active low. -/
  csn : Bool

/-- Output registers of one run. -/
structure State where
  /-- Word read. -/
  rdata : BitVec 32
  /-- Taint of the word read. -/
  rdata_t0 : BitVec 32

/-- Index of the word. -/
def word_addr (add : BitVec 32) : BitVec 32 := (add.setWidth ROM_ADDR_WIDTH).setWidth 32 >>> 2

/-- Taint words, which exist only where some taint was loaded. -/
abbrev TaintWords : Type := BitVec 32 → Option (BitVec 32)

/-- A word without taint reads as zero. -/
def TaintWords.read (mem_taints : TaintWords) (a : BitVec 32) : BitVec 32 := (mem_taints a).getD 0

/-- One clock edge. -/
def step (memory : BitVec 32 → BitVec 32) (mem_taints : TaintWords) (s : State) (d : Ports) :
    State where
  rdata := if d.csn then s.rdata else memory (word_addr d.add)
  rdata_t0 :=
    if d.csn then s.rdata_t0
    else s.rdata_t0.extractLsb' 1 31++(mem_taints.read (word_addr d.add)).extractLsb' 0 1

/-- Contents of two ROMs that share their taint words and agree outside them. -/
structure Roms where
  /-- Words of the first run. -/
  left : BitVec 32 → BitVec 32
  /-- Words of the second run. -/
  right : BitVec 32 → BitVec 32
  /-- Taint words of both runs. -/
  mem_taints : TaintWords
  /-- The words agree. -/
  agree : ∀ a, Agree (mem_taints.read a) (left a) (right a)

/-- One cycle of two runs: equal taints, and data that agree outside them. -/
structure Cycle where
  /-- Taint inputs of both runs. -/
  taint : Ports
  /-- Data inputs of the first run. -/
  left : Ports
  /-- Data inputs of the second run. -/
  right : Ports
  /-- Addresses agree. -/
  add : Agree taint.add left.add right.add
  /-- Chip selects agree. -/
  csn : AgreeFlag taint.csn left.csn right.csn

/-- Two runs side by side. -/
structure Runs where
  /-- First run. -/
  left : State
  /-- Second run. -/
  right : State

variable (roms : Roms)

/-- One clock edge of both runs. -/
def Runs.step (s : Runs) (c : Cycle) : Runs :=
  ⟨IftBootRom.step roms.left roms.mem_taints s.left c.left,
    IftBootRom.step roms.right roms.mem_taints s.right c.right⟩

/-- A bit of the output taint is set in both runs. -/
def Runs.Tainted (s : Runs) (k : ℕ) : Prop :=
  s.left.rdata_t0.getLsbD k=true ∧ s.right.rdata_t0.getLsbD k=true

/-- Every bit where the outputs differ is tainted in both runs. -/
def Runs.ReadsCovered (s : Runs) : Prop :=
  ∀ k<32, s.left.rdata.getLsbD k≠s.right.rdata.getLsbD k → s.Tainted k

/-- Taint soundness of a run: from output registers that agree outside their
taint, the outputs agree at every point on every bit that either run leaves
untainted. -/
def TaintSound (s : Runs) (cycles : List Cycle) : Prop :=
  s.ReadsCovered → ∀ before later, before++later=cycles →
    (after (Runs.step roms) s before).ReadsCovered

/-- A bit of a word in one run against a bit in the other: above bit 0 they are
equal or the output holds taint there, at bit 0 they are equal or both tainted. -/
def Matched (s : Runs) (x y tx ty : BitVec 32) : Prop :=
  (∀ k<32, 0<k → x.getLsbD k≠y.getLsbD k → s.Tainted k) ∧
    (x.getLsbD 0≠y.getLsbD 0 → tx.getLsbD 0=true ∧ ty.getLsbD 0=true)

/-- The words that the runs read, or hold where they are not selected, match. -/
structure Covered (s : Runs) (c : Cycle) : Prop where
  /-- Both runs read. -/
  both : c.left.csn=false → c.right.csn=false →
    Matched s (roms.left (word_addr c.left.add)) (roms.right (word_addr c.right.add))
      (roms.mem_taints.read (word_addr c.left.add)) (roms.mem_taints.read (word_addr c.right.add))
  /-- Only the first run reads. -/
  first : c.left.csn=false → c.right.csn=true →
    Matched s (roms.left (word_addr c.left.add)) s.right.rdata
      (roms.mem_taints.read (word_addr c.left.add)) s.right.rdata_t0
  /-- Only the second run reads. -/
  second : c.left.csn=true → c.right.csn=false →
    Matched s s.left.rdata (roms.right (word_addr c.right.add))
      s.left.rdata_t0 (roms.mem_taints.read (word_addr c.right.add))

section Step

variable (memory : BitVec 32 → BitVec 32) (mem_taints : TaintWords) (s : State) (d : Ports)

/-- A cycle without a selection holds the output. -/
theorem step_holds (h : d.csn=true) : step memory mem_taints s d=s := by
  unfold step
  rw [h]
  rfl

/-- A read takes the word. -/
theorem step_reads (h : d.csn=false) :
    (step memory mem_taints s d).rdata=memory (word_addr d.add) := by
  unfold step
  rw [h]
  rfl

/-- A read takes the lowest taint bit and keeps the others. -/
theorem step_reads_taint (h : d.csn=false) {k : ℕ} (hk : k<32) :
    (step memory mem_taints s d).rdata_t0.getLsbD k=
      if k=0 then (mem_taints.read (word_addr d.add)).getLsbD 0 else s.rdata_t0.getLsbD k := by
  unfold step
  rw [h]
  simp only [Bool.false_eq_true,if_false]
  rw [BitVec.getLsbD_append,BitVec.getLsbD_extractLsb',BitVec.getLsbD_extractLsb']
  rcases Nat.eq_zero_or_pos k with rfl | hpos
  · simp
  · have hlow : ¬k<1 := by omega
    have hhigh : k-1<31 := by omega
    rw [decide_eq_false hlow,decide_eq_true hhigh,Nat.add_sub_cancel' hpos]
    simp [hpos.ne']

end Step

/-- Where the outputs of a cycle are known bit by bit, they are covered exactly
when they match. -/
theorem covered_iff_matched (s s' : Runs) {x y tx ty : BitVec 32}
    (hx : s'.left.rdata=x) (hy : s'.right.rdata=y)
    (hl : ∀ k<32, s'.left.rdata_t0.getLsbD k=
      if k=0 then tx.getLsbD 0 else s.left.rdata_t0.getLsbD k)
    (hr : ∀ k<32, s'.right.rdata_t0.getLsbD k=
      if k=0 then ty.getLsbD 0 else s.right.rdata_t0.getLsbD k) :
    s'.ReadsCovered ↔ Matched s x y tx ty := by
  unfold Runs.ReadsCovered Matched Runs.Tainted
  rw [hx,hy]
  constructor
  · intro h
    refine ⟨fun k hk hpos hne => ?_,fun hne => ?_⟩
    · have hk' := h k hk hne
      rw [hl k hk,hr k hk,if_neg (by omega),if_neg (by omega)] at hk'
      exact hk'
    · have h0 := h 0 (by omega) hne
      rw [hl 0 (by omega),hr 0 (by omega)] at h0
      exact h0
  · rintro ⟨hhigh,hlow⟩ k hk hne
    rw [hl k hk,hr k hk]
    rcases Nat.eq_zero_or_pos k with rfl | hpos
    · exact hlow hne
    · rw [if_neg (by omega),if_neg (by omega)]
      exact hhigh k hk hpos hne

/-- A held taint is its own lowest bit and its others. -/
theorem held_taint (t : BitVec 32) (k : ℕ) :
    t.getLsbD k=if k=0 then t.getLsbD 0 else t.getLsbD k := by
  split_ifs with hk
  · rw [hk]
  · rfl

/-- From covered outputs a cycle leads to covered outputs exactly when it is covered. -/
theorem readsCovered_step_iff {s : Runs} (h : s.ReadsCovered) (c : Cycle) :
    (s.step roms c).ReadsCovered ↔ Covered roms s c := by
  cases hl : c.left.csn with
  | false =>
    have hread := step_reads roms.left roms.mem_taints s.left c.left hl
    have htaint := fun k => step_reads_taint roms.left roms.mem_taints s.left c.left hl (k:=k)
    cases hr : c.right.csn with
    | false =>
      rw [covered_iff_matched s (s.step roms c) hread
        (step_reads roms.right roms.mem_taints s.right c.right hr) htaint
        fun k => step_reads_taint roms.right roms.mem_taints s.right c.right hr]
      exact ⟨fun hm => ⟨fun _ _ => hm,fun _ h => by simp [hr] at h,fun h => by simp [hl] at h⟩,
        fun hc => hc.both hl hr⟩
    | true =>
      have hold := step_holds roms.right roms.mem_taints s.right c.right hr
      rw [covered_iff_matched s (s.step roms c) hread (congrArg State.rdata hold) htaint
        fun k _ => (congrArg (fun t => t.rdata_t0.getLsbD k) hold).trans (held_taint _ k)]
      exact ⟨fun hm => ⟨fun _ h => by simp [hr] at h,fun _ _ => hm,fun h => by simp [hl] at h⟩,
        fun hc => hc.first hl hr⟩
  | true =>
    have hold := step_holds roms.left roms.mem_taints s.left c.left hl
    cases hr : c.right.csn with
    | false =>
      rw [covered_iff_matched s (s.step roms c) (congrArg State.rdata hold)
        (step_reads roms.right roms.mem_taints s.right c.right hr)
        (fun k _ => (congrArg (fun t => t.rdata_t0.getLsbD k) hold).trans (held_taint _ k))
        fun k => step_reads_taint roms.right roms.mem_taints s.right c.right hr]
      exact ⟨fun hm => ⟨fun h => by simp [hl] at h,fun h => by simp [hl] at h,fun _ _ => hm⟩,
        fun hc => hc.second hl hr⟩
    | true =>
      have hsame : s.step roms c=s := by
        unfold Runs.step
        rw [hold,step_holds roms.right roms.mem_taints s.right c.right hr]
      rw [hsame]
      exact ⟨fun _ => ⟨fun h => by simp [hl] at h,fun h => by simp [hl] at h,
        fun _ h => by simp [hr] at h⟩,fun _ => h⟩

instance (s : Runs) (k : ℕ) : Decidable (s.Tainted k) := inferInstanceAs (Decidable (_ ∧ _))

instance (s : Runs) : Decidable s.ReadsCovered :=
  inferInstanceAs (Decidable (∀ k<32,_ ≠ _ → _))

/-- Two ROMs that differ in a tainted bit of word 0 above its lowest. -/
def differing : Roms where
  left := fun a => if a=0 then 2 else 0
  right := fun _ => 0
  mem_taints := fun a => if a=0 then some 2 else none
  agree := by
    intro a
    by_cases ha : a=0
    · rw [ha]
      decide
    · rw [if_neg ha]
      exact fun _ _ => rfl

/-- Two equal ROMs without taint. -/
def equal : Roms where
  left := fun a => a
  right := fun a => a
  mem_taints := fun _ => none
  agree := fun _ _ _ => rfl

/-- Outputs after power-up. -/
def cleared : Runs := ⟨⟨0,0⟩,⟨0,0⟩⟩

end Pulpissimo.Cellift.IftBootRom
