import Mathlib.Data.BitVec
import Pulpissimo.Lib.BitClock
import Pulpissimo.Lib.Indices
import Pulpissimo.Lib.Machine
import Pulpissimo.Lib.MovingSum
import Pulpissimo.Lib.Signed

/-!
# The decimator of the microphone channels

`varcic` is a chain of integrators that run with the samples and a chain of combs that run with one
sample of `cfg_decimation_i+1`. The integrators wrap around, but their words are the residues of
running sums, and the combs take differences, so the output is the residue of a moving sum of
moving sums. Each integrator is one sample late and each comb one output.
-/

namespace Pulpissimo.Udma.Varcic

open Pulpissimo.Machine Pulpissimo.MovingSum

variable {STAGES ACC_WIDTH : ℕ}

/-- Configuration. -/
structure Config where
  cfg_decimation_i : BitVec 10
  cfg_shift_i : BitVec 3

/-- Registers, those of the integrators and combs one for each stage. -/
structure State (STAGES ACC_WIDTH : ℕ) where
  r_sample_nr : BitVec 10
  data_valid_o : Bool
  /-- Of the integrators. -/
  r_accumulator : Fin STAGES → BitVec ACC_WIDTH
  /-- Of the combs. -/
  r_previousdata : Fin STAGES → BitVec ACC_WIDTH
  /-- `data_o` of the combs. -/
  r_comb : Fin STAGES → BitVec ACC_WIDTH

/-- One cycle of inputs. -/
structure Input where
  cfg_update_i : Bool
  data_i : Bool
  data_valid_i : Bool

/-- Values after reset and after an update. -/
def reset : State STAGES ACC_WIDTH := ⟨0,false,fun _ => 0,fun _ => 0,fun _ => 0⟩

section Code

variable (c : Config) (s : State STAGES ACC_WIDTH) (i : Input)

/-- Input of the integrators, and the output of each. -/
def integrator_data : Fin (STAGES+1) → BitVec ACC_WIDTH :=
  Fin.cons (if i.data_i then 1 else BitVec.allOnes ACC_WIDTH) s.r_accumulator

/-- Input of the combs, and the output of each. -/
def comb_data : Fin (STAGES+1) → BitVec ACC_WIDTH :=
  Fin.cons (integrator_data s i (Fin.last STAGES)) s.r_comb

/-- Sixteen bits, lower by five with each step of the shift. -/
def data_o : BitVec 16 :=
  (comb_data s i (Fin.last STAGES)).extractLsb' (ACC_WIDTH-(16+5*c.cfg_shift_i.toNat)) 16

/-- One clock edge. -/
def step : State STAGES ACC_WIDTH :=
  if i.cfg_update_i then reset
  else {
    r_sample_nr :=
      if i.data_valid_i then if s.r_sample_nr=c.cfg_decimation_i then 0 else s.r_sample_nr+1
      else s.r_sample_nr
    data_valid_o := i.data_valid_i && s.r_sample_nr==c.cfg_decimation_i
    r_accumulator := fun j =>
      if i.data_valid_i then s.r_accumulator j+integrator_data s i j.castSucc
      else s.r_accumulator j
    r_previousdata := fun j =>
      if s.data_valid_o then comb_data s i j.castSucc else s.r_previousdata j
    r_comb := fun j =>
      if s.data_valid_o then comb_data s i j.castSucc-s.r_previousdata j else s.r_comb j }

end Code

/-- Samples of an output. -/
def Config.R (c : Config) : ℕ := c.cfg_decimation_i.toNat+1

/-- Samples of a run. -/
def samples (is : List Input) : List Bool := (is.filter (·.data_valid_i)).map (·.data_i)

/-- A sample as a number. -/
def sign (b : Bool) : ℤ := if b then 1 else -1

/-- The samples as a sequence, which is zero before them. -/
def signal (xs : List Bool) (n : ℤ) : ℤ := if n < 0 then 0 else xs[n.toNat]?.elim 0 sign

/-- The moving sum of moving sums for the last output, which is late by two outputs for each
stage. -/
def value (c : Config) (STAGES : ℕ) (xs : List Bool) : ℤ :=
  (movingSum c.R)^[STAGES] (signal xs) (((xs.length/c.R : ℕ)-2*STAGES)*c.R)

/-- Outputs that the combs have taken after `n` samples. -/
def taken (c : Config) (n : ℕ) (s : State STAGES ACC_WIDTH) : ℤ :=
  (n/c.R : ℕ)-if s.data_valid_o then 1 else 0

/-- Every `R`-th value of the last integrator. -/
def last (c : Config) (STAGES : ℕ) (x : ℤ → BitVec ACC_WIDTH) : ℤ → BitVec ACC_WIDTH :=
  decimate c.R (sums x STAGES)

/-- The registers after `n` samples of a sequence. -/
structure Inv (c : Config) (x : ℤ → BitVec ACC_WIDTH) (n : ℕ) (s : State STAGES ACC_WIDTH) :
    Prop where
  sample : s.r_sample_nr.toNat=n%c.R
  valid : s.data_valid_o=true → n%c.R=0
  acc : ∀ j,s.r_accumulator j=sums x (j+1) n
  previous : ∀ j,s.r_previousdata j=(fwdDiff 1)^[j] (last c STAGES x) (taken c n s-2*j)
  comb : ∀ j,s.r_comb j=(fwdDiff 1)^[j+1] (last c STAGES x) (taken c n s-2*j-1)

section Inv

variable {c : Config} {x : ℤ → BitVec ACC_WIDTH} {n : ℕ} {s : State STAGES ACC_WIDTH} {i : Input}

/-- Before the first output there is nothing to take a difference of. -/
theorem iterate_fwdDiff_eq_zero {G : Type*} [AddCommGroup G] {f : ℤ → G}
    (hf : ∀ k,k ≤ 0 → f k=0) (j : ℕ) {k : ℤ} (hk : k+j ≤ 0) : (fwdDiff 1)^[j] f k=0 := by
  induction j generalizing k with
  | zero => exact hf k (by omega)
  | succ j ih =>
    rw [Function.iterate_succ_apply',fwdDiff,ih (by push_cast at hk; omega),
      ih (by push_cast at hk; omega),sub_zero]

theorem last_eq_zero (hx : ∀ k,k < 0 → x k=0) (hpos : 0 < STAGES) {k : ℤ} (hk : k ≤ 0) :
    last c STAGES x k=0 := by
  obtain ⟨N,rfl⟩ := Nat.exists_eq_succ_of_ne_zero hpos.ne'
  unfold last decimate
  rcases hk.lt_or_eq with hneg | rfl
  · have hR : (0 : ℤ) < c.R := by exact_mod_cast Nat.succ_pos _
    exact sums_of_neg hx _ (mul_neg_of_neg_of_pos hneg hR)
  · rw [zero_mul]
    exact sums_succ_zero x N

theorem inv_reset (hx : ∀ k,k < 0 → x k=0) : Inv c x 0 (reset : State STAGES ACC_WIDTH) := by
  have htaken : taken c 0 (reset : State STAGES ACC_WIDTH)=0 := by
    simp [taken,reset]
  refine ⟨(Nat.zero_mod _).symm,fun h => (nomatch h),fun j => (sums_succ_zero x j).symm,fun j => ?_,
    fun j => ?_⟩
  · rw [htaken]
    exact (iterate_fwdDiff_eq_zero (fun k => last_eq_zero hx j.pos) j (by omega)).symm
  · rw [htaken]
    exact (iterate_fwdDiff_eq_zero (fun k => last_eq_zero hx j.pos) (j+1)
      (by push_cast; omega)).symm

/-- The integrators carry the running sums, and the sample where there is one. -/
theorem Inv.integrator_eq (h : Inv c x n s) {l : Fin (STAGES+1)}
    (hsample : l=0 → (if i.data_i then 1 else BitVec.allOnes ACC_WIDTH)=x n) :
    integrator_data s i l=sums x l n := by
  cases l using Fin.cases with
  | zero => exact hsample rfl
  | succ j => exact h.acc j

/-- Where an output is there, the combs carry the differences of the outputs up to it. -/
theorem Inv.comb_eq (h : Inv c x n s) (hvalid : s.data_valid_o=true) (l : Fin (STAGES+1))
    (hpos : 0 < STAGES) :
    comb_data s i l=(fwdDiff 1)^[l] (last c STAGES x) ((n/c.R : ℕ)-2*l) := by
  have htaken : taken c n s=(n/c.R : ℕ)-1 := by
    rw [taken,if_pos hvalid]
  have hn : ((n/c.R : ℕ) : ℤ)*c.R=n := by
    have hdiv := Nat.div_add_mod n c.R
    rw [h.valid hvalid,Nat.add_zero,Nat.mul_comm] at hdiv
    exact_mod_cast hdiv
  cases l using Fin.cases with
  | zero =>
    have hlast : integrator_data s i (Fin.last STAGES)=sums x STAGES n := by
      refine h.integrator_eq fun hzero => ?_
      exact absurd (congrArg Fin.val hzero) hpos.ne'
    refine hlast.trans ?_
    simp only [Fin.coe_ofNat_eq_mod,Nat.zero_mod,Function.iterate_zero,id,last,decimate,
      Nat.cast_zero,mul_zero,sub_zero]
    rw [hn]
  | succ j =>
    have hcomb := h.comb j
    rw [htaken] at hcomb
    have hplace : ((n/c.R : ℕ) : ℤ)-1-2*(j : ℕ)-1=(n/c.R : ℕ)-2*((j.succ : ℕ) : ℤ) := by
      rw [Fin.val_succ]
      generalize n/c.R=m
      push_cast
      omega
    rw [←hplace]
    exact hcomb

theorem R_pos (c : Config) : 0 < c.R := Nat.succ_pos _

/-- The counter of the samples ends with the last one of an output. -/
theorem Inv.last_iff (h : Inv c x n s) :
    s.r_sample_nr=c.cfg_decimation_i ↔ (n+1)%c.R=0 := by
  have hlt := Nat.mod_lt n (R_pos c)
  have hlast : n%c.R=c.cfg_decimation_i.toNat ↔ n%c.R+1=c.R := (Nat.succ_inj).symm
  rw [←BitVec.toNat_inj,h.sample,hlast,BitClock.succ_mod (R_pos c)]
  by_cases hend : n%c.R+1=c.R
  · rw [if_pos hend]
    exact iff_of_true hend rfl
  · rw [if_neg hend]
    exact iff_of_false hend (Nat.succ_ne_zero _)

theorem Inv.sample_step (h : Inv c x n s) :
    (if s.r_sample_nr=c.cfg_decimation_i then 0 else s.r_sample_nr+1 : BitVec 10).toNat=
      (n+1)%c.R := by
  have hlt := Nat.mod_lt n (R_pos c)
  have hlast := h.last_iff
  have hwide := c.cfg_decimation_i.isLt
  by_cases heq : s.r_sample_nr=c.cfg_decimation_i
  · rw [if_pos heq,hlast.mp heq]
    rfl
  · have hmod := BitClock.succ_mod (p:=n) (R_pos c)
    have hne : n%c.R+1≠c.R := fun hend => heq (hlast.mpr (by rw [hmod,if_pos hend]))
    rw [if_neg heq,hmod,if_neg hne,BitVec.toNat_add,h.sample]
    have hone : (1 : BitVec 10).toNat=1 := rfl
    have hbound : c.R ≤ 2^10 := hwide
    rw [hone]
    exact Nat.mod_eq_of_lt (by omega)

/-- The next output is there after the last of its samples. -/
theorem Inv.valid_step (h : Inv c x n s) (hno : i.cfg_update_i=false) :
    (step c s i).data_valid_o=true ↔ i.data_valid_i=true ∧ (n+1)%c.R=0 := by
  rw [step,if_neg (by rw [hno]; exact Bool.false_ne_true),Bool.and_eq_true_iff,beq_iff_eq,h.last_iff]

/-- After a cycle the combs have taken every output that was there. -/
theorem Inv.taken_step (h : Inv c x n s) (hno : i.cfg_update_i=false) :
    taken c (n+if i.data_valid_i then 1 else 0) (step c s i)=(n/c.R : ℕ) := by
  have hvalid := h.valid_step hno
  unfold taken
  cases hi : i.data_valid_i with
  | false =>
    have hnone : (step c s i).data_valid_o=false := Bool.eq_false_of_not_eq_true fun ht =>
      Bool.false_ne_true (hi.symm.trans (hvalid.mp ht).1)
    rw [hnone,if_neg Bool.false_ne_true,if_neg Bool.false_ne_true,Nat.add_zero,sub_zero]
  | true =>
    rw [if_pos rfl,Nat.succ_div]
    by_cases hlast : (n+1)%c.R=0
    · rw [if_pos (hvalid.mpr ⟨hi,hlast⟩),if_pos (Nat.dvd_of_mod_eq_zero hlast)]
      generalize n/c.R=m
      push_cast
      omega
    · rw [if_neg (fun ht => hlast (hvalid.mp ht).2),if_neg (fun hd => hlast (Nat.mod_eq_zero_of_dvd hd)),
        Nat.add_zero,sub_zero]

/-- One cycle of the filter. -/
theorem Inv.step (h : Inv c x n s) (hx : ∀ k,k < 0 → x k=0) (hno : i.cfg_update_i=false)
    (hsample : i.data_valid_i=true → (if i.data_i then 1 else BitVec.allOnes ACC_WIDTH)=x n) :
    Inv c x (n+if i.data_valid_i then 1 else 0) (Varcic.step c s i) := by
  have hgo : ¬i.cfg_update_i=true := by
    rw [hno]
    exact Bool.false_ne_true
  have hvalid := h.valid_step hno
  have htaken := h.taken_step hno
  refine ⟨?_,fun ht => ?_,fun j => ?_,fun j => ?_,fun j => ?_⟩
  · rw [Varcic.step,if_neg hgo]
    cases i.data_valid_i with
    | false => exact h.sample
    | true => exact h.sample_step
  · obtain ⟨hi,hlast⟩ := hvalid.mp ht
    rw [if_pos hi]
    exact hlast
  · rw [Varcic.step,if_neg hgo]
    cases hi : i.data_valid_i with
    | false => exact h.acc j
    | true =>
      have hinput := h.integrator_eq (l:=j.castSucc) fun _ => hsample hi
      have hruns := sums_runs hx j n
      simp only [if_true]
      rw [hinput,h.acc j,Nat.cast_succ,hruns]
      rfl
  · rw [htaken,Varcic.step,if_neg hgo]
    cases hv : s.data_valid_o with
    | false =>
      have hprevious := h.previous j
      rw [taken,hv,if_neg Bool.false_ne_true,sub_zero] at hprevious
      exact hprevious
    | true => exact h.comb_eq hv j.castSucc j.pos
  · rw [htaken,Varcic.step,if_neg hgo]
    cases hv : s.data_valid_o with
    | false =>
      have hcomb := h.comb j
      rw [taken,hv,if_neg Bool.false_ne_true,sub_zero] at hcomb
      exact hcomb
    | true =>
      have hinput := h.comb_eq (i:=i) hv j.castSucc j.pos
      have hprevious := h.previous j
      rw [taken,hv,if_pos rfl] at hprevious
      simp only [if_true]
      rw [hinput,hprevious,Function.iterate_succ_apply',fwdDiff]
      rw [sub_add_cancel,sub_right_comm ((n/c.R : ℕ) : ℤ) 1]
      rfl

/-- The output is there in residues. -/
theorem Inv.output_eq (h : Inv c x n s) (hx : ∀ k,k < 0 → x k=0) (hpos : 0 < STAGES)
    (hvalid : s.data_valid_o=true) :
    comb_data s i (Fin.last STAGES)=
      (movingSum c.R)^[STAGES] x (((n/c.R : ℕ)-2*STAGES)*c.R) := by
  rw [h.comb_eq hvalid (Fin.last STAGES) hpos,Fin.val_last,last,iterate_fwdDiff_sums hx]
  rfl

end Inv

section Runs

variable {c : Config} {is : List Input}

theorem signal_of_neg (xs : List Bool) {k : ℤ} (hk : k < 0) : signal xs k=0 := if_pos hk

theorem signal_eq {xs : List Bool} {n : ℕ} {b : Bool} (h : xs[n]?=some b) :
    signal xs n=sign b := by
  rw [signal,if_neg (by omega),Int.toNat_natCast,h]
  rfl

/-- The words of the samples. -/
def words (ACC_WIDTH : ℕ) (xs : List Bool) : ℤ → BitVec ACC_WIDTH :=
  Int.castAddHom (BitVec ACC_WIDTH) ∘ signal xs

theorem words_of_neg (xs : List Bool) {k : ℤ} (hk : k < 0) : words ACC_WIDTH xs k=0 := by
  rw [words,Function.comp_apply,signal_of_neg xs hk,map_zero]

theorem word_eq (b : Bool) :
    (if b then 1 else BitVec.allOnes ACC_WIDTH)=Int.castAddHom (BitVec ACC_WIDTH) (sign b) := by
  cases b with
  | false => simp [sign,BitVec.neg_one_eq_allOnes]
  | true => simp [sign]

theorem samples_concat (js : List Input) (i : Input) :
    samples (js++[i])=samples js++if i.data_valid_i then [i.data_i] else [] := by
  unfold samples
  cases hv : i.data_valid_i <;> simp [hv]

theorem length_samples (js : List Input) (i : Input) :
    (samples (js++[i])).length=(samples js).length+if i.data_valid_i then 1 else 0 := by
  rw [samples_concat,List.length_append]
  cases i.data_valid_i <;> rfl

/-- The registers after a run without an update, over the samples of a longer one. -/
theorem inv_run {xs : List Bool} (hno : ∀ i ∈ is,i.cfg_update_i=false)
    (hpre : samples is <+: xs) :
    Inv c (words ACC_WIDTH xs) (samples is).length (after (step c) (reset : State STAGES _) is) := by
  have hx : ∀ k,k < 0 → words ACC_WIDTH xs k=0 := fun k hk => words_of_neg xs hk
  induction is using List.reverseRecOn with
  | nil => exact inv_reset hx
  | append_singleton js i ih =>
    have hjs := ih (fun j hj => hno j (List.mem_append_left _ hj))
    have hi := hno i (List.mem_append_right _ (List.mem_singleton_self i))
    rw [after_concat,length_samples]
    rw [samples_concat] at hpre
    refine (hjs ((List.prefix_append _ _).trans hpre)).step hx hi fun hv => ?_
    rw [hv,if_pos rfl] at hpre
    obtain ⟨rest,rfl⟩ := hpre
    rw [word_eq,words,Function.comp_apply,signal_eq (b:=i.data_i)]
    simp

/-- After an update and in every run from there the output is there once for every
`cfg_decimation_i+1` samples, in the cycle after the last of them. It is then the residue of the
moving sum of moving sums, which is the sum itself where that fits, and `data_o` has the bits of
the sum that the shift selects. -/
theorem decimates (c : Config) (hpos : 0 < STAGES) (s : State STAGES ACC_WIDTH) {i : Input}
    (hupdate : i.cfg_update_i=true) {is : List Input} (hno : ∀ j ∈ is,j.cfg_update_i=false)
    (j : Input) :
    ((after (step c) (step c s i) is).data_valid_o=true ↔
        ∃ js k,is=js++[k] ∧ k.data_valid_i=true ∧ c.R ∣ (samples is).length) ∧
      ((after (step c) (step c s i) is).data_valid_o=true →
        comb_data (after (step c) (step c s i) is) j (Fin.last STAGES)=
            BitVec.ofInt ACC_WIDTH (value c STAGES (samples is)) ∧
          (0 < ACC_WIDTH → -2^(ACC_WIDTH-1) ≤ value c STAGES (samples is) →
            value c STAGES (samples is) < 2^(ACC_WIDTH-1) →
              (comb_data (after (step c) (step c s i) is) j (Fin.last STAGES)).toInt=
                value c STAGES (samples is)) ∧
          (16+5*c.cfg_shift_i.toNat ≤ ACC_WIDTH →
            data_o c (after (step c) (step c s i) is) j=BitVec.ofInt 16
              (value c STAGES (samples is)/2^(ACC_WIDTH-(16+5*c.cfg_shift_i.toNat))))) := by
  have hstart : step c s i=reset := if_pos hupdate
  rw [hstart]
  refine ⟨?_,fun hvalid => ?_⟩
  · induction is using List.reverseRecOn with
    | nil => exact ⟨fun h => (nomatch h),fun ⟨js,k,h,_⟩ => absurd h.symm (by simp)⟩
    | append_singleton js k _ =>
      have hjs : Inv c (words ACC_WIDTH (samples js)) (samples js).length
          (after (step c) (reset : State STAGES ACC_WIDTH) js) :=
        inv_run (fun l hl => hno l (List.mem_append_left _ hl)) (List.prefix_refl (samples js))
      have hk := hno k (List.mem_append_right _ (List.mem_singleton_self k))
      rw [after_concat,hjs.valid_step hk,length_samples,←Nat.dvd_iff_mod_eq_zero]
      constructor
      · rintro ⟨hv,hdvd⟩
        exact ⟨js,k,rfl,hv,by rw [if_pos hv]; exact hdvd⟩
      · rintro ⟨js',k',heq,hv,hdvd⟩
        obtain ⟨-,hlast⟩ := List.append_inj' heq rfl
        obtain rfl := (List.cons.inj hlast).1
        rw [if_pos hv] at hdvd
        exact ⟨hv,hdvd⟩
  · have hinv : Inv c (words ACC_WIDTH (samples is)) (samples is).length
        (after (step c) (reset : State STAGES ACC_WIDTH) is) :=
      inv_run hno (List.prefix_refl (samples is))
    have hcomb : comb_data (after (step c) reset is) j (Fin.last STAGES)=
        BitVec.ofInt ACC_WIDTH (value c STAGES (samples is)) := by
      rw [hinv.output_eq (fun k hk => words_of_neg _ hk) hpos hvalid,words,iterate_movingSum_map]
      rfl
    refine ⟨hcomb,fun hwide hlow hhigh => ?_,fun hslice => ?_⟩
    · rw [hcomb]
      exact BitVec.toInt_ofInt_eq_self hwide hlow hhigh
    · rw [data_o,hcomb]
      exact Signed.extract_ofInt _ _ (by omega)

/-- One stage and two samples for each output: the sum of the first two ones and of the last two. -/
theorem decimates_example :
    comb_data (after (step ⟨1,0⟩) (step ⟨1,0⟩ (reset : State 1 16) ⟨true,false,false⟩)
        [⟨false,true,true⟩,⟨false,true,true⟩,⟨false,true,true⟩,⟨false,true,true⟩]) ⟨false,true,true⟩
        (Fin.last 1)=BitVec.ofInt 16 2 := by
  have hno : ∀ j ∈ ([⟨false,true,true⟩,⟨false,true,true⟩,⟨false,true,true⟩,
      ⟨false,true,true⟩] : List Input),j.cfg_update_i=false := by decide
  have hrun := (decimates ⟨1,0⟩ (by decide) (reset : State 1 16) (i:=⟨true,false,false⟩) rfl hno
    ⟨false,true,true⟩).2 (by decide +kernel)
  exact hrun.1.trans (by decide +kernel)

end Runs

end Pulpissimo.Udma.Varcic
