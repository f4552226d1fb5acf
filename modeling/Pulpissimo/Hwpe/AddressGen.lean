import Mathlib.Data.BitVec
import Mathlib.Data.Nat.Log
import Pulpissimo.Lib.Odometer

/-!
# The address generator of the streamers

`hwpe_stream_addressgen` walks through three nested loops: words of a line,
lines of a feature, features. For configurations whose addresses are all word
aligned its counters are the places of the number of the word, which gives
every address in one formula.
-/

namespace Pulpissimo.Hwpe.AddressGen

open Pulpissimo.Odometer

/-- Configuration of a transfer. -/
structure Ctrl where
  /-- Address of the first word. -/
  base_addr : BitVec 32
  /-- Number of items. -/
  trans_size : BitVec 32
  /-- Distance of two lines. -/
  line_stride : BitVec 16
  /-- Words of a line. -/
  line_length : BitVec 16
  /-- Distance of two features. -/
  feat_stride : BitVec 16
  /-- Lines of a feature. -/
  feat_length : BitVec 16
  /-- Features of a round. -/
  feat_roll : BitVec 16
  /-- A round repeats one feature before the next. -/
  loop_outer : Bool
  deriving DecidableEq

/-- Which realigner the addresses are for. -/
inductive Realign
  | SOURCE
  | SINK
  deriving DecidableEq

/-- Parameters of an instance. -/
structure Params where
  /-- Which realigner the addresses are for. -/
  REALIGN_TYPE : Realign
  /-- Bytes of an item. -/
  STEP : ℕ
  /-- The flags come one cycle late. -/
  DELAY_FLAGS : Bool

/-- Registers. -/
structure Gen where
  /-- Address in the line. -/
  word_addr : BitVec 32
  /-- Address of the line in the feature. -/
  line_addr : BitVec 32
  /-- Address of the feature. -/
  feat_addr : BitVec 32
  /-- Words of the line so far. -/
  word_counter : BitVec 10
  /-- Lines of the feature so far. -/
  line_counter : BitVec 10
  /-- Features of the round so far. -/
  feat_counter : BitVec 10
  /-- Items so far. -/
  overall_counter : BitVec 16
  /-- Some address is not aligned. -/
  misalignment : Bool
  /-- The last word of all comes. -/
  last_packet : Bool
  /-- The transfer goes on. -/
  in_progress : Bool
  /-- The same, one cycle late. -/
  aux_in_progress : Bool
  deriving DecidableEq

/-- Values after reset and clear. -/
def cleared : Gen :=
  ⟨0#32,0#32,0#32,0#10,0#10,0#10,0#16,false,false,true,false⟩

/-- Flags for a realigner. Both instances read them without delay. -/
structure RealignFlags where
  /-- The realigner has a clock. -/
  enable : Bool
  /-- It realigns. -/
  realign : Bool
  /-- First word of a line. -/
  first : Bool
  /-- Last word of a line. -/
  last : Bool
  /-- Last word of all. -/
  last_packet : Bool

section Code

variable (p : Params) (g : Gen) (c : Ctrl) (enable_i clear_i : Bool)

/-- Number of items less two, or less one. -/
def trans_size_m2 : BitVec 32 := if g.misalignment then c.trans_size-1#32 else c.trans_size-2#32

/-- Words of a line less one. A line that is not aligned has one more. -/
def line_length_m1 : BitVec 16 := if g.misalignment then c.line_length else c.line_length-1#16

/-- Lines of a feature less one. -/
def feat_length_m1 : BitVec 16 := if g.misalignment then c.feat_length else c.feat_length-1#16

/-- Features of a round less one. -/
def feat_roll_m1 : BitVec 16 := c.feat_roll-1#16

/-- The counter is at the last item but some. -/
def atLast : Bool := g.overall_counter.setWidth 32==trans_size_m2 g c

/-- A sink makes the last write of all by itself. -/
def last_packet_c : Bool := decide (p.REALIGN_TYPE=.SINK) && g.misalignment && atLast g c

/-- The generator moves on. -/
def enable_int : Bool := enable_i || last_packet_c p g c

/-- The last word of a line is not reached. -/
def inLine : Bool := decide (g.word_counter.toNat<(line_length_m1 g c).toNat)

/-- The last line of a feature is not reached. -/
def inFeature : Bool := decide (g.line_counter.toNat<(feat_length_m1 g c).toNat)

def misalignment_first : Bool := g.word_counter==0#10

def misalignment_last : Bool := !inLine g c

/-- Last feature of a round. -/
def rolls : Bool := decide (g.feat_counter.toNat=(feat_roll_m1 c).toNat) || c.feat_roll==0#16

/-- Not the last one. -/
def rollsOn : Bool := decide (g.feat_counter.toNat<(feat_roll_m1 c).toNat) || c.feat_roll==0#16

/-- The next word. -/
def advance : Gen :=
  if inLine g c then
    { g with word_addr := g.word_addr+BitVec.ofNat 32 p.STEP
             word_counter := g.word_counter+1#10 }
  else if inFeature g c then
    { g with word_addr := 0#32
             line_addr := g.line_addr+c.line_stride.signExtend 32
             word_counter := 0#10
             line_counter := g.line_counter+1#10 }
  else if c.loop_outer && rolls g c then
    { g with word_addr := 0#32
             line_addr := 0#32
             feat_addr := g.feat_addr+c.feat_stride.signExtend 32
             word_counter := 0#10
             line_counter := 0#10
             feat_counter := 0#10 }
  else if c.loop_outer && rollsOn g c then
    { g with word_addr := 0#32
             line_addr := 0#32
             word_counter := 0#10
             line_counter := 0#10
             feat_counter := g.feat_counter+1#10 }
  else if !c.loop_outer && rollsOn g c then
    { g with word_addr := 0#32
             line_addr := 0#32
             feat_addr := g.feat_addr+c.feat_stride.signExtend 32
             word_counter := 0#10
             line_counter := 0#10
             feat_counter := g.feat_counter+1#10 }
  else
    { g with word_addr := 0#32
             line_addr := 0#32
             feat_addr := 0#32
             word_counter := 0#10
             line_counter := 0#10
             feat_counter := 0#10 }

/-- Next value of `in_progress`. -/
def next_in_progress : Bool :=
  if trans_size_m2 g c=BitVec.allOnes 32 then
    decide (p.REALIGN_TYPE=.SINK) && g.overall_counter==0#16
  else if g.overall_counter.setWidth 32<trans_size_m2 g c then true
  else atLast g c && !enable_int p g c enable_i

/-- Some address of a configuration is not aligned. -/
def misaligned : Bool :=
  c.base_addr.extractLsb' 0 2 != 0#2 || c.line_stride.extractLsb' 0 2 != 0#2 ||
    c.feat_stride.extractLsb' 0 2 != 0#2

/-- One clock edge. -/
def step : Gen :=
  if clear_i then cleared
  else
    { (if enable_int p g c enable_i then advance p g c else g) with
      -- the first word of a line that is not aligned does not count
      overall_counter :=
        if enable_int p g c enable_i && (!g.misalignment || !misalignment_first g) then
          g.overall_counter+1#16
        else g.overall_counter
      misalignment := misaligned c
      last_packet :=
        if enable_int p g c enable_i then g.misalignment && atLast g c else g.last_packet
      in_progress := next_in_progress p g c enable_i
      aux_in_progress := g.in_progress }

/-- The address with its byte offset. -/
def gen_addr_int : BitVec 32 := c.base_addr+g.feat_addr+g.line_addr+g.word_addr

/-- The address of a word. -/
def gen_addr_o : BitVec 32 := (gen_addr_int g c).extractLsb' 2 30++0#2

/-- Bytes of the item in the word. -/
def gen_strb_o : BitVec p.STEP :=
  let offset := ((gen_addr_int g c).extractLsb' 0 (Nat.clog 2 p.STEP)).toNat
  let first := if misalignment_first g then BitVec.allOnes p.STEP <<< offset
    else BitVec.allOnes p.STEP
  if g.misalignment then
    if misalignment_last g c then ~~~(first <<< offset) else first
  else BitVec.allOnes p.STEP

/-- Flags for the realigner. -/
def realign_flags : RealignFlags where
  enable := g.misalignment
  realign := g.misalignment
  first := misalignment_first g
  last := misalignment_last g c
  last_packet := g.last_packet

/-- The transfer goes on, for the state machine. -/
def in_progress_o : Bool := if p.DELAY_FLAGS then g.aux_in_progress else g.in_progress

end Code

section Places

variable (c : Ctrl)

/-- Words of a line. The counter that is compared with one less takes zero for `2^16`. -/
def lineLength : ℕ := (c.line_length-1#16).toNat+1

/-- Lines of a feature. -/
def featLength : ℕ := (c.feat_length-1#16).toNat+1

/-- Features of a round. -/
def featRoll : ℕ := (feat_roll_m1 c).toNat+1

/-- Features up to that of a word. -/
def pass (k : ℕ) : ℕ := k/lineLength c/featLength c

/-- Which of the feature addresses a word has. -/
def feature (k : ℕ) : ℕ :=
  if c.feat_roll=0#16 then pass c k
  else if c.loop_outer then pass c k/featRoll c
  else pass c k%featRoll c

/-- Address of a word of a transfer. -/
def place (STEP : ℕ) (k : ℕ) : BitVec 32 :=
  c.base_addr+BitVec.ofNat 32 (feature c k)*c.feat_stride.signExtend 32+
    BitVec.ofNat 32 (k/lineLength c%featLength c)*c.line_stride.signExtend 32+
    BitVec.ofNat 32 (k%lineLength c)*BitVec.ofNat 32 STEP

/-- The narrow counters tell the ends of all loops, or the transfer does not reach them. -/
structure Fits : Prop where
  words : lineLength c≤2^10 ∨ c.trans_size.toNat≤lineLength c
  lines : featLength c≤2^10 ∨ c.trans_size.toNat≤lineLength c*featLength c
  features : featRoll c≤2^10 ∨ c.feat_roll=0#16 ∨
    c.trans_size.toNat≤lineLength c*featLength c*featRoll c

/-- The loops of the generator stand at a word. -/
structure At (STEP : ℕ) (k : ℕ) (g : Gen) : Prop where
  aligned : g.misalignment=false
  word : g.word_addr=BitVec.ofNat 32 (k%lineLength c)*BitVec.ofNat 32 STEP
  line : g.line_addr=BitVec.ofNat 32 (k/lineLength c%featLength c)*c.line_stride.signExtend 32
  feat : g.feat_addr=BitVec.ofNat 32 (feature c k)*c.feat_stride.signExtend 32
  words : g.word_counter=BitVec.ofNat 10 (k%lineLength c)
  lines : g.line_counter=BitVec.ofNat 10 (k/lineLength c%featLength c)
  feats : c.feat_roll≠0#16 → g.feat_counter=BitVec.ofNat 10 (pass c k%featRoll c)

end Places

/-- Lengths of the three loops. A loop of length zero never ends. -/
structure Loops where
  word : ℕ
  line : ℕ
  feat : ℕ

section Loops

variable (n : Loops) (c : Ctrl)

/-- Features up to that of a word. -/
def Loops.pass (k : ℕ) : ℕ := k/n.word/n.line

/-- Which of the feature addresses a word has. -/
def Loops.feature (loop_outer : Bool) (k : ℕ) : ℕ :=
  if loop_outer then n.pass k/n.feat else n.pass k%n.feat

/-- The generator stands at a word of such loops. -/
structure Stands (STEP : ℕ) (k : ℕ) (g : Gen) : Prop where
  aligned : g.misalignment=false
  word : g.word_addr=BitVec.ofNat 32 (k%n.word)*BitVec.ofNat 32 STEP
  line : g.line_addr=BitVec.ofNat 32 (k/n.word%n.line)*c.line_stride.signExtend 32
  feat : g.feat_addr=BitVec.ofNat 32 (n.feature c.loop_outer k)*c.feat_stride.signExtend 32
  words : g.word_counter=BitVec.ofNat 10 (k%n.word)
  lines : g.line_counter=BitVec.ofNat 10 (k/n.word%n.line)
  feats : c.feat_roll≠0#16 → g.feat_counter=BitVec.ofNat 10 (n.pass k%n.feat)

/-- The comparisons of its counters tell the ends of the loops. -/
structure Tells (k : ℕ) (g : Gen) : Prop where
  word : inLine g c=true ↔ k%n.word+1≠n.word
  line : k%n.word+1=n.word → (inFeature g c=true ↔ k/n.word%n.line+1≠n.line)
  outer : k%n.word+1=n.word → k/n.word%n.line+1=n.line → c.loop_outer=true →
    (rolls g c=true ↔ n.pass k%n.feat+1=n.feat) ∧
      (n.pass k%n.feat+1≠n.feat → rollsOn g c=true)
  inner : k%n.word+1=n.word → k/n.word%n.line+1=n.line → c.loop_outer=false →
    (rollsOn g c=true ↔ n.pass k%n.feat+1≠n.feat)

end Loops

section Walk

variable {p : Params} {g : Gen} {c : Ctrl} {n : Loops} {k : ℕ}

/-- Before the first word. -/
theorem stands_cleared : Stands n c p.STEP 0 cleared := by
  have hpass : n.pass 0=0 := by
    unfold Loops.pass
    rw [Nat.zero_div,Nat.zero_div]
  refine ⟨rfl,?_,?_,?_,?_,?_,fun _ => ?_⟩
  · rw [Nat.zero_mod]
    exact BitVec.zero_mul.symm
  · rw [Nat.zero_div,Nat.zero_mod]
    exact BitVec.zero_mul.symm
  · unfold Loops.feature
    rw [hpass,Nat.zero_div,Nat.zero_mod,ite_self]
    exact BitVec.zero_mul.symm
  · rw [Nat.zero_mod]
    rfl
  · rw [Nat.zero_div,Nat.zero_mod]
    rfl
  · rw [hpass,Nat.zero_mod]
    rfl

/-- The next index of a loop is one stride further. -/
theorem ofNat_succ_mul (m : ℕ) (stride : BitVec 32) :
    BitVec.ofNat 32 (m+1)*stride=BitVec.ofNat 32 m*stride+stride := by
  rw [BitVec.ofNat_add,BitVec.add_mul,BitVec.one_mul]

/-- Where the next feature is. -/
theorem feature_succ (hword : k%n.word+1=n.word) (hline : k/n.word%n.line+1=n.line) :
    n.pass (k+1)=n.pass k+1 ∧ (k+1)%n.word=0 ∧ (k+1)/n.word%n.line=0 := by
  rcases next_carry hword with ⟨hmod,hdiv⟩
  rcases next_carry hline with ⟨hmod',hdiv'⟩
  unfold Loops.pass
  rw [hdiv]
  exact ⟨hdiv',hmod,hmod'⟩

/-- Inside a line and inside a feature the feature stays. -/
theorem feature_same {outer : Bool} (h : n.pass (k+1)=n.pass k) :
    n.feature outer (k+1)=n.feature outer k := by
  unfold Loops.feature
  rw [h]

/-- The next word of a line. -/
theorem Stands.next_word (h : Stands n c p.STEP k g) (hword : k%n.word+1≠n.word) :
    Stands n c p.STEP (k+1) { g with word_addr := g.word_addr+BitVec.ofNat 32 p.STEP
                                     word_counter := g.word_counter+1#10 } := by
  rcases next_inside hword with ⟨hmod,hdiv⟩
  have hpass : n.pass (k+1)=n.pass k := by
    unfold Loops.pass
    rw [hdiv]
  refine ⟨h.aligned,?_,?_,?_,?_,?_,fun hroll => ?_⟩
  · rw [hmod,ofNat_succ_mul]
    exact congrArg (· +_) h.word
  · rw [hdiv]
    exact h.line
  · rw [feature_same hpass]
    exact h.feat
  · rw [hmod,BitVec.ofNat_add]
    exact congrArg (· +1#10) h.words
  · rw [hdiv]
    exact h.lines
  · rw [hpass]
    exact h.feats hroll

/-- The first word of the next line. -/
theorem Stands.next_line (h : Stands n c p.STEP k g) (hword : k%n.word+1=n.word)
    (hline : k/n.word%n.line+1≠n.line) :
    Stands n c p.STEP (k+1) { g with word_addr := 0#32
                                     line_addr := g.line_addr+c.line_stride.signExtend 32
                                     word_counter := 0#10
                                     line_counter := g.line_counter+1#10 } := by
  rcases next_carry hword with ⟨hmod,hdiv⟩
  rcases next_inside hline with ⟨hmod',hdiv'⟩
  have hpass : n.pass (k+1)=n.pass k := by
    unfold Loops.pass
    rw [hdiv]
    exact hdiv'
  refine ⟨h.aligned,?_,?_,?_,?_,?_,fun hroll => ?_⟩
  · rw [hmod]
    exact BitVec.zero_mul.symm
  · rw [hdiv,hmod',ofNat_succ_mul]
    exact congrArg (· +_) h.line
  · rw [feature_same hpass]
    exact h.feat
  · rw [hmod]
  · rw [hdiv,hmod',BitVec.ofNat_add]
    exact congrArg (· +1#10) h.lines
  · rw [hpass]
    exact h.feats hroll

/-- The first word of the next feature, whose address and number are given. -/
theorem Stands.next_feature (h : Stands n c p.STEP k g) (hword : k%n.word+1=n.word)
    (hline : k/n.word%n.line+1=n.line) {addr : BitVec 32} {count : BitVec 10}
    (haddr : addr=BitVec.ofNat 32 (n.feature c.loop_outer (k+1))*c.feat_stride.signExtend 32)
    (hcount : c.feat_roll≠0#16 → count=BitVec.ofNat 10 ((n.pass k+1)%n.feat)) :
    Stands n c p.STEP (k+1) { g with word_addr := 0#32
                                     line_addr := 0#32
                                     feat_addr := addr
                                     word_counter := 0#10
                                     line_counter := 0#10
                                     feat_counter := count } := by
  rcases feature_succ hword hline with ⟨hpass,hmod,hmod'⟩
  refine ⟨h.aligned,?_,?_,haddr,?_,?_,fun hroll => ?_⟩
  · rw [hmod]
    exact BitVec.zero_mul.symm
  · rw [hmod']
    exact BitVec.zero_mul.symm
  · rw [hmod]
  · rw [hmod']
  · rw [hpass]
    exact hcount hroll

/-- At the end of a feature an outer loop goes on to the next round or repeats the feature. -/
theorem Stands.end_outer (h : Stands n c p.STEP k g) (ht : Tells n c k g)
    (hword : k%n.word+1=n.word) (hline : k/n.word%n.line+1=n.line)
    (houter : c.loop_outer=true) (hin : inLine g c=false) (hfeat : inFeature g c=false) :
    Stands n c p.STEP (k+1) (advance p g c) := by
  have hpass := (feature_succ hword hline).1
  have hends := ht.outer hword hline houter
  unfold AddressGen.advance
  rw [if_neg (Bool.eq_false_iff.mp hin),if_neg (Bool.eq_false_iff.mp hfeat),houter]
  by_cases hlast : n.pass k%n.feat+1=n.feat
  · rcases next_carry hlast with ⟨hmod,hdiv⟩
    rw [hends.1.mpr hlast]
    refine h.next_feature hword hline ?_ fun _ => by rw [hmod]
    have hsucc : n.feature c.loop_outer (k+1)=n.feature c.loop_outer k+1 := by
      unfold Loops.feature
      rw [houter,if_pos rfl,if_pos rfl,hpass,hdiv]
    rw [hsucc,ofNat_succ_mul,h.feat]
  · rcases next_inside hlast with ⟨hmod,hdiv⟩
    rw [Bool.eq_false_iff.mpr fun htrue => hlast (hends.1.mp htrue),hends.2 hlast]
    refine h.next_feature hword hline ?_ fun hne => ?_
    · have hsame : n.feature c.loop_outer (k+1)=n.feature c.loop_outer k := by
        unfold Loops.feature
        rw [houter,if_pos rfl,if_pos rfl,hpass,hdiv]
      rw [hsame]
      exact h.feat
    · rw [hmod,BitVec.ofNat_add,h.feats hne]

/-- An inner loop goes on to the next feature or back to the first. -/
theorem Stands.end_inner (h : Stands n c p.STEP k g) (ht : Tells n c k g)
    (hword : k%n.word+1=n.word) (hline : k/n.word%n.line+1=n.line)
    (hinner : c.loop_outer=false) (hin : inLine g c=false) (hfeat : inFeature g c=false) :
    Stands n c p.STEP (k+1) (advance p g c) := by
  have hpass := (feature_succ hword hline).1
  have hends := ht.inner hword hline hinner
  unfold AddressGen.advance
  rw [if_neg (Bool.eq_false_iff.mp hin),if_neg (Bool.eq_false_iff.mp hfeat),hinner]
  by_cases hlast : n.pass k%n.feat+1=n.feat
  · have hmod := (next_carry hlast).1
    rw [Bool.eq_false_iff.mpr fun htrue => hends.mp htrue hlast]
    refine h.next_feature hword hline ?_ fun _ => by rw [hmod]
    have hzero : n.feature c.loop_outer (k+1)=0 := by
      unfold Loops.feature
      rw [hinner,if_neg Bool.false_ne_true,hpass,hmod]
    rw [hzero]
    exact BitVec.zero_mul.symm
  · have hmod := (next_inside hlast).1
    rw [hends.mpr hlast]
    refine h.next_feature hword hline ?_ fun hne => ?_
    · have hsucc : n.feature c.loop_outer (k+1)=n.feature c.loop_outer k+1 := by
        unfold Loops.feature
        rw [hinner,if_neg Bool.false_ne_true,if_neg Bool.false_ne_true,hpass,hmod]
      rw [hsucc,ofNat_succ_mul,h.feat]
    · rw [hmod,BitVec.ofNat_add,h.feats hne]

/-- The generator walks from word to word. -/
theorem Stands.advance (h : Stands n c p.STEP k g) (ht : Tells n c k g) :
    Stands n c p.STEP (k+1) (advance p g c) := by
  by_cases hword : k%n.word+1=n.word
  · have hout : inLine g c=false := Bool.eq_false_iff.mpr fun htrue => ht.word.mp htrue hword
    by_cases hline : k/n.word%n.line+1=n.line
    · have hend : inFeature g c=false :=
        Bool.eq_false_iff.mpr fun htrue => (ht.line hword).mp htrue hline
      cases houter : c.loop_outer with
      | true => exact h.end_outer ht hword hline houter hout hend
      | false => exact h.end_inner ht hword hline houter hout hend
    · unfold AddressGen.advance
      rw [hout,if_neg Bool.false_ne_true,if_pos ((ht.line hword).mpr hline)]
      exact h.next_line hword hline
  · unfold AddressGen.advance
    rw [if_pos (ht.word.mpr hword)]
    exact h.next_word hword

/-- The address of a generator that stands at a word. -/
theorem Stands.gen_addr_int (h : Stands n c p.STEP k g) : gen_addr_int g c=
    c.base_addr+BitVec.ofNat 32 (n.feature c.loop_outer k)*c.feat_stride.signExtend 32+
      BitVec.ofNat 32 (k/n.word%n.line)*c.line_stride.signExtend 32+
      BitVec.ofNat 32 (k%n.word)*BitVec.ofNat 32 p.STEP := by
  unfold AddressGen.gen_addr_int
  rw [h.feat,h.line,h.word]

/-- The loops of a configuration. Without a roll the features go on for ever. -/
def loops (c : Ctrl) : Loops where
  word := lineLength c
  line := featLength c
  feat := if c.feat_roll=0#16 then if c.loop_outer then 1 else 0 else featRoll c

/-- The features of a round are those of its loops. -/
theorem feature_loops : (loops c).feature c.loop_outer k=feature c k := by
  unfold Loops.feature feature loops
  by_cases hroll : c.feat_roll=0#16
  · rw [if_pos hroll,if_pos hroll]
    cases c.loop_outer with
    | true =>
      rw [if_pos rfl,if_pos rfl]
      exact Nat.div_one _
    | false =>
      rw [if_neg Bool.false_ne_true,if_neg Bool.false_ne_true]
      exact Nat.mod_zero _
  · rw [if_neg hroll,if_neg hroll]
    rfl

/-- Loops that stand at a word are loops of the configuration. -/
theorem at_iff_stands : At c p.STEP k g ↔ Stands (loops c) c p.STEP k g := by
  have hfeat (hroll : c.feat_roll≠0#16) : (loops c).feat=featRoll c := if_neg hroll
  constructor
  · intro h
    refine ⟨h.aligned,h.word,h.line,?_,h.words,h.lines,fun hroll => ?_⟩
    · rw [feature_loops]
      exact h.feat
    · rw [hfeat hroll]
      exact h.feats hroll
  · intro h
    refine ⟨h.aligned,h.word,h.line,?_,h.words,h.lines,fun hroll => ?_⟩
    · rw [←feature_loops]
      exact h.feat
    · rw [←hfeat hroll]
      exact h.feats hroll

/-- Before the first word. -/
theorem at_cleared : At c p.STEP 0 cleared := at_iff_stands.mpr stands_cleared

/-- The address of a generator that stands at a word. -/
theorem At.gen_addr_int (h : At c p.STEP k g) : gen_addr_int g c=place c p.STEP k := by
  rw [(at_iff_stands.mp h).gen_addr_int,feature_loops]
  rfl

theorem At.inLine_iff (h : At c p.STEP k g) (hf : Fits c) (hk : k+1 < c.trans_size.toNat) :
    inLine g c=true ↔ k%lineLength c+1<lineLength c := by
  have hpos : 0<lineLength c := Nat.succ_pos _
  unfold inLine line_length_m1
  rw [h.aligned,if_neg Bool.false_ne_true,decide_eq_true_iff]
  refine counter_lt h.words (Nat.mod_lt _ hpos) (hf.words.imp_right fun hle => ?_)
  rw [Nat.mod_eq_of_lt (by omega)]
  omega

theorem At.inFeature_iff (h : At c p.STEP k g) (hf : Fits c) (hk : k+1 < c.trans_size.toNat)
    (hword : k%lineLength c+1=lineLength c) :
    inFeature g c=true ↔ k/lineLength c%featLength c+1<featLength c := by
  have hpos : 0<featLength c := Nat.succ_pos _
  unfold inFeature feat_length_m1
  rw [h.aligned,if_neg Bool.false_ne_true,decide_eq_true_iff]
  refine counter_lt h.lines (Nat.mod_lt _ hpos) (hf.lines.imp_right fun hle => ?_)
  have hrounds := rounds_of_last hword
  have hlt : k/lineLength c+1<featLength c :=
    Nat.lt_of_mul_lt_mul_left (hrounds ▸ Nat.lt_of_lt_of_le hk hle)
  rw [Nat.mod_eq_of_lt (by omega)]
  exact hlt

/-- At the end of a feature the counter of the features tells the end of a round. -/
theorem At.roll (h : At c p.STEP k g) (hf : Fits c) (hk : k+1 < c.trans_size.toNat)
    (hword : k%lineLength c+1=lineLength c)
    (hline : k/lineLength c%featLength c+1=featLength c) (hroll : c.feat_roll≠0#16) :
    (rolls g c=true ↔ pass c k%featRoll c+1=featRoll c) ∧
      (rollsOn g c=true ↔ pass c k%featRoll c+1<featRoll c) := by
  have hpos : 0<featRoll c := Nat.succ_pos _
  have hfit : featRoll c≤2^10 ∨ pass c k%featRoll c+1<featRoll c := by
    rcases hf.features with hle | hzero | hle
    · exact Or.inl hle
    · exact absurd hzero hroll
    · have hrounds := rounds_of_last hword
      rw [rounds_of_last hline,←Nat.mul_assoc] at hrounds
      have hlt : pass c k+1<featRoll c :=
        Nat.lt_of_mul_lt_mul_left (hrounds ▸ Nat.lt_of_lt_of_le hk hle)
      rw [Nat.mod_eq_of_lt (by omega)]
      exact Or.inr hlt
  unfold rolls rollsOn
  rw [beq_eq_false_iff_ne.mpr hroll,Bool.or_false,Bool.or_false,decide_eq_true_iff,
    decide_eq_true_iff]
  exact ⟨counter_eq (h.feats hroll) (Nat.mod_lt _ hpos) hfit,
    counter_lt (h.feats hroll) (Nat.mod_lt _ hpos) hfit⟩

/-- Before the last word of the transfer the comparisons tell the ends of the loops. -/
theorem At.tells (h : At c p.STEP k g) (hf : Fits c) (hk : k+1 < c.trans_size.toNat) :
    Tells (loops c) c k g := by
  have hltw := Nat.mod_lt k (show 0<lineLength c from Nat.succ_pos _)
  have hltl := Nat.mod_lt (k/lineLength c) (show 0<featLength c from Nat.succ_pos _)
  have hltf := Nat.mod_lt (pass c k) (show 0<featRoll c from Nat.succ_pos _)
  have hfeat (hroll : c.feat_roll≠0#16) : (loops c).feat=featRoll c := if_neg hroll
  have hfree (hroll : c.feat_roll=0#16) : rolls g c=true ∧ rollsOn g c=true := by
    unfold rolls rollsOn
    rw [beq_iff_eq.mpr hroll,Bool.or_true,Bool.or_true]
    exact ⟨rfl,rfl⟩
  refine ⟨?_,fun hword => ?_,fun hword hline houter => ?_,fun hword hline hinner => ?_⟩
  · rw [h.inLine_iff hf hk]
    show _ ↔ k%lineLength c+1≠lineLength c
    omega
  · rw [h.inFeature_iff hf hk hword]
    show _ ↔ k/lineLength c%featLength c+1≠featLength c
    omega
  · by_cases hroll : c.feat_roll=0#16
    · have hone : (loops c).feat=1 := by
        unfold loops
        rw [if_pos hroll,houter,if_pos rfl]
      rw [hone,Nat.mod_one]
      exact ⟨iff_of_true (hfree hroll).1 rfl,fun hne => absurd rfl hne⟩
    · have hends := h.roll hf hk hword hline hroll
      rw [hfeat hroll]
      refine ⟨hends.1,fun hne => hends.2.mpr ?_⟩
      change pass c k%featRoll c+1≠featRoll c at hne
      omega
  · by_cases hroll : c.feat_roll=0#16
    · have hzero : (loops c).feat=0 := by
        unfold loops
        rw [if_pos hroll,hinner,if_neg Bool.false_ne_true]
      rw [hzero]
      exact iff_of_true (hfree hroll).2 (Nat.succ_ne_zero _)
    · rw [hfeat hroll,(h.roll hf hk hword hline hroll).2]
      show _ ↔ pass c k%featRoll c+1≠featRoll c
      omega

/-- The generator walks from word to word. -/
theorem At.advance (h : At c p.STEP k g) (hf : Fits c) (hk : k+1 < c.trans_size.toNat) :
    At c p.STEP (k+1) (advance p g c) :=
  at_iff_stands.mpr ((at_iff_stands.mp h).advance (h.tells hf hk))

end Walk

section Aligned

variable {p : Params} {g : Gen} {c : Ctrl} {k : ℕ} {en : Bool}

/-- Without misalignment the generator moves on only when it is told. -/
theorem enable_int_aligned (h : g.misalignment=false) : enable_int p g c en=en := by
  unfold enable_int last_packet_c
  rw [h,Bool.and_false,Bool.false_and,Bool.or_false]

/-- One edge of an aligned transfer. -/
theorem step_aligned (h : g.misalignment=false) (hc : misaligned c=false) : step p g c en false=
    { (if en then advance p g c else g) with
      overall_counter := if en then g.overall_counter+1#16 else g.overall_counter
      misalignment := false
      last_packet := if en then false else g.last_packet
      in_progress := next_in_progress p g c en
      aux_in_progress := g.in_progress } := by
  unfold step
  rw [if_neg Bool.false_ne_true,enable_int_aligned h,h,hc]
  cases en <;> rfl

/-- A generator that is told to go on walks. -/
theorem Stands.step {n : Loops} (h : Stands n c p.STEP k g) (ht : Tells n c k g)
    (hc : misaligned c=false) : Stands n c p.STEP (k+1) (step p g c true false) := by
  have hnext := h.advance ht
  rw [step_aligned h.aligned hc]
  exact ⟨rfl,hnext.word,hnext.line,hnext.feat,hnext.words,hnext.lines,hnext.feats⟩

/-- Else it stays where it is. -/
theorem Stands.stay {n : Loops} (h : Stands n c p.STEP k g) (hc : misaligned c=false) :
    Stands n c p.STEP k (AddressGen.step p g c false false) := by
  rw [step_aligned h.aligned hc]
  exact ⟨rfl,h.word,h.line,h.feat,h.words,h.lines,h.feats⟩

/-- The loops of an aligned transfer. -/
theorem At.step (h : At c p.STEP k g) (hc : misaligned c=false) (hf : Fits c)
    (hk : k+1 < c.trans_size.toNat) : At c p.STEP (k+1) (step p g c true false) :=
  at_iff_stands.mpr ((at_iff_stands.mp h).step (h.tells hf hk) hc)

/-- Between words the configuration may change. -/
theorem At.stay {c' : Ctrl} (h : At c p.STEP k g) (hc : misaligned c'=false) :
    At c p.STEP k (AddressGen.step p g c' false false) := by
  rw [step_aligned h.aligned hc]
  exact ⟨rfl,h.word,h.line,h.feat,h.words,h.lines,h.feats⟩

/-- The transfer goes on until the last item but one has been counted. -/
theorem next_in_progress_eq (h : g.misalignment=false)
    (hone : p.REALIGN_TYPE=.SINK → c.trans_size≠1#32) : next_in_progress p g c en=
      decide (g.overall_counter.toNat+(if en then 1 else 0) < (c.trans_size-1#32).toNat) := by
  have htwo : trans_size_m2 g c=c.trans_size-2#32 := by
    unfold trans_size_m2
    rw [h,if_neg Bool.false_ne_true]
  have hcounter : (g.overall_counter.setWidth 32).toNat=g.overall_counter.toNat := by
    rw [BitVec.toNat_setWidth]
    omega
  have hbound := g.overall_counter.isLt
  unfold next_in_progress
  rw [enable_int_aligned h,atLast,htwo]
  by_cases hsize : c.trans_size=1#32
  · rw [hsize,if_pos (by decide)]
    have hsource : decide (p.REALIGN_TYPE=.SINK)=false := decide_eq_false fun hsink => hone hsink hsize
    rw [hsource,Bool.false_and]
    exact (decide_eq_false (Nat.not_lt_zero _)).symm
  · have hones : c.trans_size-2#32≠BitVec.allOnes 32 := by
      intro heq
      apply hsize
      rw [show BitVec.allOnes 32=0xFFFFFFFF#32 from rfl] at heq
      bv_omega
    have hsucc : (c.trans_size-1#32).toNat=(c.trans_size-2#32).toNat+1 := by bv_omega
    rw [if_neg hones,hsucc]
    generalize c.trans_size-2#32=size
    by_cases hlt : g.overall_counter.setWidth 32 < size
    · rw [if_pos hlt]
      rw [BitVec.lt_def,hcounter] at hlt
      refine (decide_eq_true ?_).symm
      split_ifs <;> omega
    · rw [if_neg hlt]
      rw [BitVec.lt_def,hcounter] at hlt
      rw [Bool.eq_iff_iff,Bool.and_eq_true,beq_iff_eq,decide_eq_true_iff,←BitVec.toNat_inj,hcounter]
      cases en <;> simp <;> omega

/-- A transfer of one item goes on, for a sink, until it has been counted. -/
theorem next_in_progress_one (h : g.misalignment=false) (hsize : c.trans_size=1#32)
    (hsink : p.REALIGN_TYPE=.SINK) : next_in_progress p g c en=(g.overall_counter==0#16) := by
  have hones : trans_size_m2 g c=BitVec.allOnes 32 := by
    unfold trans_size_m2
    rw [h,hsize]
    rfl
  unfold next_in_progress
  rw [if_pos hones,hsink]
  rfl

/-- Addresses of an aligned transfer are those of words, at any indices. -/
theorem sum_aligned (hc : misaligned c=false) (P : ℕ) (feat line word : BitVec 32) :
    (c.base_addr+feat*c.feat_stride.signExtend 32+line*c.line_stride.signExtend 32+
      word*BitVec.ofNat 32 (4*P)).setWidth 2=0#2 := by
  have hlow {n : ℕ} (hn : 2≤n) (x : BitVec n) : x.extractLsb' 0 2=x.setWidth 2 :=
    (BitVec.setWidth_eq_extractLsb' hn).symm
  unfold misaligned at hc
  rw [Bool.or_eq_false_iff,Bool.or_eq_false_iff,bne_eq_false_iff_eq,bne_eq_false_iff_eq,
    bne_eq_false_iff_eq,hlow (by decide),hlow (by decide),hlow (by decide)] at hc
  rcases hc with ⟨⟨hbase,hline⟩,hfeat⟩
  have hsign : ∀ x : BitVec 16,x.setWidth 2=0#2 → (x.signExtend 32).setWidth 2=0#2 := by
    intro x hx
    apply BitVec.eq_of_getLsbD_eq
    intro i hi
    have hbit := congrArg (fun v => v.getLsbD i) hx
    simp only [BitVec.getLsbD_setWidth,BitVec.getLsbD_signExtend] at hbit ⊢
    rw [if_pos (by omega),decide_eq_true (show i<32 by omega),Bool.true_and]
    exact hbit
  have hstep : (BitVec.ofNat 32 (4*P)).setWidth 2=0#2 := by
    apply BitVec.eq_of_toNat_eq
    rw [BitVec.toNat_setWidth,BitVec.toNat_ofNat,BitVec.toNat_zero]
    omega
  rw [BitVec.setWidth_add _ _ (by decide),BitVec.setWidth_add _ _ (by decide),
    BitVec.setWidth_add _ _ (by decide),BitVec.setWidth_mul _ _ (by decide),
    BitVec.setWidth_mul _ _ (by decide),BitVec.setWidth_mul _ _ (by decide),hsign _ hline,
    hsign _ hfeat,hbase,hstep,BitVec.mul_zero,BitVec.mul_zero,BitVec.mul_zero]
  rfl

/-- The address of a word is put out as it is. -/
theorem gen_addr_o_eq (hlow : (gen_addr_int g c).setWidth 2=0#2) :
    gen_addr_o g c=gen_addr_int g c := by
  unfold AddressGen.gen_addr_o
  apply BitVec.eq_of_getLsbD_eq
  intro i hi
  rw [BitVec.getLsbD_append]
  split_ifs with htwo
  · have hbit := congrArg (fun v => v.getLsbD i) hlow
    simp only [BitVec.getLsbD_setWidth] at hbit
    rw [decide_eq_true htwo,Bool.true_and] at hbit
    rw [hbit]
  · rw [BitVec.getLsbD_extractLsb',decide_eq_true (by omega),Bool.true_and]
    exact congrArg _ (by omega)

/-- The address that is put out. -/
theorem Stands.gen_addr_o {n : Loops} {P : ℕ} (h : Stands n c p.STEP k g)
    (hc : misaligned c=false) (hP : p.STEP=4*P) :
    AddressGen.gen_addr_o g c=AddressGen.gen_addr_int g c := by
  apply gen_addr_o_eq
  rw [h.gen_addr_int,hP]
  exact sum_aligned hc P _ _ _

/-- The address that is put out. -/
theorem At.gen_addr_o {P : ℕ} (h : At c p.STEP k g) (hc : misaligned c=false)
    (hP : p.STEP=4*P) : gen_addr_o g c=place c p.STEP k :=
  ((at_iff_stands.mp h).gen_addr_o hc hP).trans h.gen_addr_int

end Aligned

end Pulpissimo.Hwpe.AddressGen
