import Mathlib.Tactic.Ring
import Pulpissimo.Hwpe.AddressGen
import Pulpissimo.Lib.Machine

/-!
# The sequence of the addresses

What the generator puts out from a clear on, for any pattern of its enable: the
addresses of three nested loops. A loop that is longer than its counter can
count never ends, and the transfer is over when its last address comes.
-/

namespace Pulpissimo.Hwpe.AddressSequence

open Pulpissimo.Odometer Pulpissimo.Machine Pulpissimo.Hwpe.AddressGen

/-- Where a loop ends that is counted with ten bits. -/
def ends (length : BitVec 16) : ℕ := if length.toNat ≤ 2^10 then length.toNat else 0

section Spec

variable (p : Params) (c : Ctrl)

/-- The loops of the configuration's fields. -/
def given : Loops := ⟨c.line_length.toNat,c.feat_length.toNat,c.feat_roll.toNat⟩

/-- The same with the ends that the counters see. -/
def counted : Loops := ⟨ends c.line_length,ends c.feat_length,ends c.feat_roll⟩

/-- Address of an element of nested loops. -/
def address (n : Loops) (STEP k : ℕ) : BitVec 32 :=
  BitVec.ofInt 32 (c.base_addr.toNat+STEP*(k%n.word : ℕ)+c.line_stride.toInt*(k/n.word%n.line : ℕ)+
    c.feat_stride.toInt*(n.feature c.loop_outer k : ℕ))

/-- The generator after some clocks from a clear on, each with its enable. -/
def run (ens : List Bool) : Gen := after (fun g en => AddressGen.step p g c en false) cleared ens

/-- The address shown after some enables is that of the next element. -/
def Follows (n : Loops) : Prop :=
  ∀ ens, gen_addr_o (run p c ens) c=address c n p.STEP (ens.count true)

/-- The transfer goes on while less than a limit has been consumed. What was consumed
is counted in rounds of some size, or without end if that is zero. -/
def FallsAt (limit size : ℕ) : Prop := ∀ ens en,
  (run p c (ens++[en])).in_progress=
    decide (ens.count true%size+(if en then 1 else 0) < limit)

end Spec

section Ends

variable {length : BitVec 16} {x : ℕ} {count : BitVec 10}

/-- A counter of ten bits tells whether an index of such a loop is before the last one. -/
theorem inside_iff (hcount : count=BitVec.ofNat 10 (x%ends length)) :
    count.toNat<(length-1#16).toNat ↔ x%ends length+1≠ends length := by
  have hlt := count.isLt
  unfold ends at hcount ⊢
  split_ifs at hcount ⊢ with hfit
  · rcases Nat.eq_zero_or_pos length.toNat with hzero | hpos
    · have hones : (length-1#16).toNat=2^16-1 := by bv_omega
      omega
    · have hless := Nat.mod_lt x hpos
      have hone : (length-1#16).toNat=length.toNat-1 := by bv_omega
      rw [hcount,BitVec.toNat_ofNat,Nat.mod_eq_of_lt (by omega),hone]
      omega
  · have hone : (length-1#16).toNat=length.toNat-1 := by bv_omega
    omega

/-- It tells whether an index is the last one. -/
theorem last_iff (hcount : count=BitVec.ofNat 10 (x%ends length)) :
    count.toNat=(length-1#16).toNat ↔ x%ends length+1=ends length := by
  have hlt := count.isLt
  unfold ends at hcount ⊢
  split_ifs at hcount ⊢ with hfit
  · rcases Nat.eq_zero_or_pos length.toNat with hzero | hpos
    · have hones : (length-1#16).toNat=2^16-1 := by bv_omega
      omega
    · have hless := Nat.mod_lt x hpos
      have hone : (length-1#16).toNat=length.toNat-1 := by bv_omega
      rw [hcount,BitVec.toNat_ofNat,Nat.mod_eq_of_lt (by omega),hone]
      omega
  · have hone : (length-1#16).toNat=length.toNat-1 := by bv_omega
    exact iff_of_false (by omega) id

end Ends

section Run

variable {p : Params} {c : Ctrl} {g : Gen} {k : ℕ}

/-- The comparisons of the generator tell the ends that its counters see. -/
theorem tells_counted (h : Stands (counted c) c p.STEP k g) (hroll : c.feat_roll≠0#16) :
    Tells (counted c) c k g := by
  have hfeats := h.feats hroll
  have hboth : (rolls g c=true ↔ (counted c).pass k%(counted c).feat+1=(counted c).feat) ∧
      (rollsOn g c=true ↔ (counted c).pass k%(counted c).feat+1≠(counted c).feat) := by
    unfold rolls rollsOn
    rw [beq_eq_false_iff_ne.mpr hroll,Bool.or_false,Bool.or_false,decide_eq_true_iff,
      decide_eq_true_iff]
    exact ⟨last_iff hfeats,inside_iff hfeats⟩
  refine ⟨?_,fun _ => ?_,fun _ _ _ => ⟨hboth.1,hboth.2.mpr⟩,fun _ _ _ => hboth.2⟩
  · unfold inLine line_length_m1
    rw [h.aligned,if_neg Bool.false_ne_true,decide_eq_true_iff]
    exact inside_iff h.words
  · unfold inFeature feat_length_m1
    rw [h.aligned,if_neg Bool.false_ne_true,decide_eq_true_iff]
    exact inside_iff h.lines

/-- The registers after some clocks. -/
structure Sound (c : Ctrl) (STEP k : ℕ) (g : Gen) : Prop where
  stands : Stands (counted c) c STEP k g
  count : g.overall_counter=BitVec.ofNat 16 k

/-- One clock consumes the address if it is enabled. -/
theorem Sound.step (h : Sound c p.STEP k g) (hc : misaligned c=false) (hroll : c.feat_roll≠0#16)
    (en : Bool) :
    Sound c p.STEP (k+if en then 1 else 0) (AddressGen.step p g c en false) := by
  have hcount : (AddressGen.step p g c en false).overall_counter=
      if en then g.overall_counter+1#16 else g.overall_counter := by
    rw [step_aligned h.stands.aligned hc]
  cases en with
  | true =>
    refine ⟨h.stands.step (tells_counted h.stands hroll) hc,?_⟩
    rw [hcount,if_pos rfl,if_pos rfl,BitVec.ofNat_add,h.count]
  | false =>
    refine ⟨h.stands.stay hc,?_⟩
    rw [hcount,if_neg Bool.false_ne_true,if_neg Bool.false_ne_true,Nat.add_zero,h.count]

/-- One more clock. -/
theorem run_append (ens : List Bool) (en : Bool) :
    run p c (ens++[en])=AddressGen.step p (run p c ens) c en false := after_concat _ _ _ _

theorem count_append (ens : List Bool) (en : Bool) :
    (ens++[en]).count true=ens.count true+if en then 1 else 0 := by
  rw [List.count_append]
  cases en <;> rfl

/-- In every run the generator stands at the number of the enables. -/
theorem sound_run (hc : misaligned c=false) (hroll : c.feat_roll≠0#16) (ens : List Bool) :
    Sound c p.STEP (ens.count true) (run p c ens) := by
  induction ens using List.reverseRecOn with
  | nil => exact ⟨stands_cleared,rfl⟩
  | append_singleton ens en ih =>
    rw [run_append,count_append]
    exact ih.step hc hroll en

/-- Strides are signed. -/
theorem gen_addr_int_eq {n : Loops} (h : Stands n c p.STEP k g) :
    gen_addr_int g c=address c n p.STEP k := by
  have hbase : BitVec.ofNat 32 c.base_addr.toNat=c.base_addr := by
    rw [BitVec.ofNat_toNat,BitVec.setWidth_eq]
  rw [h.gen_addr_int]
  unfold address
  rw [BitVec.ofInt_add,BitVec.ofInt_add,BitVec.ofInt_add,BitVec.ofInt_mul,BitVec.ofInt_mul,
    BitVec.ofInt_mul,BitVec.ofInt_natCast,BitVec.ofInt_natCast,BitVec.ofInt_natCast,
    BitVec.ofInt_natCast,BitVec.ofInt_natCast,hbase]
  unfold BitVec.signExtend
  ring

end Run

/-- For an aligned configuration the addresses are those of the loops with the ends that the
counters see, and the transfer goes on while less than all but one of them are consumed, counted
in 16 bits. A sink with a single item keeps it until the clock after. -/
theorem sequence (p : Params) (c : Ctrl) (hc : misaligned c=false) (hstep : 4∣p.STEP)
    (hroll : c.feat_roll≠0#16) : Follows p c (counted c) ∧
      ((p.REALIGN_TYPE=.SINK → c.trans_size≠1#32) →
        FallsAt p c (c.trans_size-1#32).toNat (2^16)) ∧
      (p.REALIGN_TYPE=.SINK → c.trans_size=1#32 → ∀ ens en,
        (run p c (ens++[en])).in_progress=decide (ens.count true%2^16=0)) := by
  have hprogress (ens : List Bool) (en : Bool) :
      (run p c (ens++[en])).in_progress=next_in_progress p (run p c ens) c en := by
    rw [run_append,step_aligned (sound_run hc hroll ens).stands.aligned hc]
  have hcounter (ens : List Bool) :
      (run p c ens).overall_counter.toNat=ens.count true%2^16 := by
    rw [(sound_run hc hroll ens).count,BitVec.toNat_ofNat]
  refine ⟨fun ens => ?_,fun hone ens en => ?_,fun hsink hone ens en => ?_⟩
  · rcases hstep with ⟨P,hP⟩
    have hstands := (sound_run (p := p) hc hroll ens).stands
    exact (hstands.gen_addr_o hc hP).trans (gen_addr_int_eq hstands)
  · rw [hprogress,next_in_progress_eq (sound_run hc hroll ens).stands.aligned hone,hcounter]
  · rw [hprogress,next_in_progress_one (sound_run hc hroll ens).stands.aligned hone hsink,
      ←hcounter,Bool.eq_iff_iff,beq_iff_eq,decide_eq_true_iff,←BitVec.toNat_inj]
    rfl

/-- Loops that the counters can count end where the configuration says. -/
theorem counted_eq_given (c : Ctrl) (hword : c.line_length.toNat ≤ 2^10)
    (hline : c.feat_length.toNat ≤ 2^10) (hfeat : c.feat_roll.toNat ≤ 2^10) :
    counted c=given c := by
  unfold counted given ends
  rw [if_pos hword,if_pos hline,if_pos hfeat]

/-- A source of words. -/
def words : Params := ⟨.SOURCE,4,false⟩

/-- Three words of each of two lines, one behind the other with negative strides. -/
def back : Ctrl := ⟨64#32,6#32,-16#16,3#16,-32#16,2#16,4#16,true⟩

theorem sequence_back : Follows words back (counted back) :=
  (sequence words back (by decide) ⟨1,rfl⟩ (by decide)).1

/-- Lines of 1025 words, and two items. -/
def long : Ctrl := ⟨0#32,2#32,0#16,1025#16,64#16,1#16,2#16,false⟩

/-- The line does not end after 1025 words, and the transfer is over after one. -/
theorem not_sequence : misaligned long=false ∧ ¬Follows words long (given long) ∧
    ¬FallsAt words long long.trans_size.toNat 0 := by
  refine ⟨by decide,fun h => ?_,fun h => ?_⟩
  · have hstands := (sound_run (p := words) (c := long) (by decide) (by decide)
      (List.replicate 1025 true)).stands
    have hshown := (hstands.gen_addr_o (by decide) (P := 1) rfl).trans (gen_addr_int_eq hstands)
    have hgiven := hshown.symm.trans (h (List.replicate 1025 true))
    rw [List.count_replicate_self] at hgiven
    exact absurd hgiven (by decide)
  · exact absurd (h [] true) (by decide)

end Pulpissimo.Hwpe.AddressSequence
