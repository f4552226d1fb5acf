import Mathlib.Algebra.BigOperators.Group.List.Basic
import Pulpissimo.Lib.Machine
import Pulpissimo.Lib.Signed

/-!
# The MAC engine

`mac_engine` takes pairs from two streams. In one mode every pair gives a word, in the other the
results of the first pairs are added to a start value and give one word. The
multiplier was replaced by `mux_func`, which has a register of its own, while
the engine still takes its output as that of the pair that is accepted. Pairs are accepted whenever
both are valid, and the word of a sum is offered as soon as the count is reached and
from then on.
-/

namespace Pulpissimo.Hwpe.MacEngine

open Pulpissimo.Machine Pulpissimo.Signed

/-- Controls, `ctrl_engine_t`. -/
structure Ctrl where
  clear : Bool
  enable : Bool
  simple_mul : Bool
  start : Bool
  shift : BitVec 5
  len : BitVec 11

/-- The streams in one cycle, and what the other blocks of `mux_func` put out. -/
structure Streams where
  a_valid : Bool
  a : BitVec 32
  b_valid : Bool
  b : BitVec 32
  c_valid : Bool
  c : BitVec 32
  d_ready : Bool
  aes_out : BitVec 128
  sha_out : BitVec 128
  md5_out : BitVec 128

/-- Registers. -/
structure State where
  /-- The output of `mux_func`. -/
  mult : BitVec 128
  r_mult : BitVec 64
  r_mult_valid : Bool
  r_acc : BitVec 74
  r_acc_valid : Bool
  r_cnt : BitVec 11

/-- The temperature sensor. -/
def tempsen (x : BitVec 128) : BitVec 128 := if x.getLsbD 127 then x else ~~~x

/-- The next output of `mux_func`. The `else` belongs to the last choice only. -/
def mux_func (x : Streams) (c : BitVec 128) : BitVec 128 := Id.run do
  let d := x.c.setWidth 128
  let mut c := c
  if d.getLsbD 0 then c := x.aes_out
  if d.getLsbD 1 then c := x.sha_out
  if d.getLsbD 2 then c := x.md5_out
  if d.getLsbD 3 then c := tempsen (x.a.setWidth 128)
  else c := 0
  return c

section Code

variable (ctrl : Ctrl) (s : State) (x : Streams)

def c_shifted (shift : BitVec 5) (c : BitVec 32) : BitVec 64 :=
  (c <<< shift.toNat).signExtend 64

def r_acc_ready : Bool := x.d_ready || !s.r_acc_valid

def r_mult_ready : Bool :=
  if ctrl.simple_mul then x.d_ready || !s.r_mult_valid else r_acc_ready s x || !s.r_mult_valid

/-- Ready of both streams of a pair. -/
def ab_ready : Bool := (x.a_valid && x.b_valid) || (!x.a_valid && !x.b_valid)

def c_ready : Bool := r_acc_ready s x || !x.c_valid

/-- A pair is accepted. -/
def accepts : Bool := x.a_valid && x.b_valid && ab_ready x && ab_ready x

/-- A start value is taken. -/
def takes : Bool := x.c_valid && c_ready s x

/-- The multiplier hands over. -/
def passes : Bool := s.r_mult_valid && r_mult_ready ctrl s x

def d_nonshifted : BitVec 74 := if ctrl.simple_mul then s.r_mult.signExtend 74 else s.r_acc

def d_nonshifted_valid : Bool := if ctrl.simple_mul then s.r_mult_valid else s.r_acc_valid

def d_data : BitVec 32 := ((d_nonshifted ctrl s).sshiftRight ctrl.shift.toNat).setWidth 32

def d_valid : Bool := ctrl.enable && d_nonshifted_valid ctrl s

def cnt : BitVec 11 := s.r_cnt+1#11

/-- The count goes on. -/
def counts : Bool :=
  ctrl.start || (decide (0#11 < s.r_cnt) && decide (s.r_cnt < ctrl.len) && passes ctrl s x)

/-- One clock edge. -/
def step : State where
  mult := mux_func x s.mult
  r_mult :=
    if ctrl.clear then 0
    else if ctrl.enable then if accepts x then s.mult.setWidth 64 else s.r_mult
    else s.r_mult
  r_mult_valid :=
    if ctrl.clear then false
    else if ctrl.enable then
      if (x.a_valid && x.b_valid) || passes ctrl s x then x.a_valid && x.b_valid
      else s.r_mult_valid
    else s.r_mult_valid
  r_acc :=
    if ctrl.clear then 0
    else if ctrl.enable then
      if takes s x then (c_shifted ctrl.shift x.c).signExtend 74
      else if passes ctrl s x then s.r_acc+s.r_mult.signExtend 74 else s.r_acc
    else s.r_acc
  r_acc_valid :=
    if ctrl.clear then false
    else if ctrl.enable then
      if s.r_cnt==ctrl.len || (s.r_acc_valid && r_acc_ready s x) then s.r_cnt==ctrl.len
      else s.r_acc_valid
    else s.r_acc_valid
  r_cnt :=
    if ctrl.clear then 0
    else if ctrl.enable then if counts ctrl s x then cnt s else s.r_cnt
    else s.r_cnt

end Code

/-- What the engine is started for. -/
structure Job where
  simple_mul : Bool
  shift : BitVec 5
  len : BitVec 11

/-- Controls of the cycles from the start on. -/
def Job.ctrl (p : Job) (t : ℕ) : Ctrl := ⟨false,true,p.simple_mul,t==0,p.shift,p.len⟩

/-- The controls of the cycle before the start. -/
def Job.before (p : Job) : Ctrl := ⟨true,true,p.simple_mul,false,p.shift,p.len⟩

/-- The engine from its start on. `first` are the streams in the cycle before. -/
def run (p : Job) (s : State) (first : Streams) (env : ℕ → Streams) : ℕ → State :=
  states (fun s (i : Ctrl×Streams) => step i.1 s i.2) (step p.before s first)
    fun t => (p.ctrl t,env t)

/-- The result of a pair. -/
def result (x : Streams) : BitVec 128 := mux_func x 0

/-- A number, shifted to the right and cut to a word. -/
def word (shift : BitVec 5) (z : ℤ) : BitVec 32 := BitVec.ofInt 32 (z/2^shift.toNat)

section Events

variable (p : Job) (s : ℕ → State) (env : ℕ → Streams) (t : ℕ)

/-- Results of the pairs that are accepted. -/
def pairs : List (BitVec 128) := if accepts (env t) then [result (env t)] else []

/-- Start values that are taken. -/
def starts : List (BitVec 32) := if takes (s t) (env t) then [(env t).c] else []

/-- Words that are taken at the output. -/
def words : List (BitVec 32) :=
  if d_valid (p.ctrl t) (s t) && (env t).d_ready then [d_data (p.ctrl t) (s t)] else []

end Events

section Claims

variable (p : Job) (s : ℕ → State) (env : ℕ → Streams)

/-- One word for every pair, in their order. -/
structure EachPair : Prop where
  order : ∀ n,∃ rest,logged (words p s env) n++rest=
    (logged (pairs env) n).map fun r => word p.shift r.toInt
  all : (∀ t,∃ u,t ≤ u ∧ (env u).d_ready=true) → ∀ n,∃ k rest,n ≤ k ∧
    ((logged (pairs env) n).map fun r => word p.shift r.toInt)++rest=logged (words p s env) k

/-- The word of the first pairs. -/
def Total (n : ℕ) : Prop :=
  ∃ c ps rest,logged (starts s env) n=[c] ∧ logged (pairs env) n=ps++rest ∧ ps.length=p.len.toNat ∧
    logged (words p s env) n=
      [word p.shift ((c_shifted p.shift c).toInt+(ps.map BitVec.toInt).sum)]

/-- One word for the first pairs and the start value. -/
structure OneSum : Prop where
  one : ∀ n,logged (words p s env) n=[] ∨ Total p s env n
  comes : (∃ n,p.len.toNat ≤ (logged (pairs env) n).length) →
    (∀ t,∃ u,t ≤ u ∧ ((env u).d_ready=true ∨ logged (words p s env) u≠[])) →
      ∃ n,Total p s env n

/-- The assertions of the module. -/
structure Asserts : Prop where
  r_acc_change_rule : ∀ t,(s t).r_acc_valid=true →
    ((s t).r_acc_valid && r_acc_ready (s t) (env t))=false → (s (t+1)).r_acc=(s t).r_acc
  r_mult_change_rule : ∀ t,(s t).r_mult_valid=true →
    passes (p.ctrl t) (s t) (env t)=false → (s (t+1)).r_mult=(s t).r_mult
  r_acc_valid_deassert_rule : ∀ t,(s t).r_acc_valid=true → (s (t+1)).r_acc_valid=false →
    ((s t).r_acc_valid && r_acc_ready (s t) (env t))=true
  r_mult_valid_deassert_rule : ∀ t,(s t).r_mult_valid=true → (s (t+1)).r_mult_valid=false →
    passes (p.ctrl t) (s t) (env t)=true

/-- What the engine has to do. -/
structure Works : Prop where
  simple : p.simple_mul=true → EachPair p s env
  scalar : p.simple_mul=false → OneSum p s env
  /-- No pair comes over one that waits. -/
  kept : ∀ t,accepts (env t)=true → (s t).r_mult_valid=true →
    r_mult_ready (p.ctrl t) (s t) (env t)=true
  asserts : Asserts p s env

/-- The streams one cycle before. -/
def past (first : Streams) (env : ℕ → Streams) : ℕ → Streams
  | 0 => first
  | t+1 => env t

/-- A pair is accepted only while its result was already that of the cycle before, and while the
multiplier can hand over. For a sum, one start value comes before the products, the last product
follows the others without a gap, and after the word no more are asked for. -/
structure Clear (first : Streams) (t : ℕ) : Prop where
  own : accepts (env t)=true →
    (result (past first env t)).setWidth 64=(result (env t)).setWidth 64
  room : accepts (env t)=true → (s t).r_mult_valid=true →
    r_mult_ready (p.ctrl t) (s t) (env t)=true
  early : p.simple_mul=false → takes (s t) (env t)=true →
    logged (starts s env) t=[] ∧ (s t).r_mult_valid=false ∧ (s t).r_cnt ≤ 1#11
  last : p.simple_mul=false → (s t).r_cnt=p.len → (s t).r_acc_valid=false →
    (s t).r_mult_valid=true ∧ logged (starts s env) t≠[]
  once : p.simple_mul=false → logged (words p s env) t≠[] → (env t).d_ready=false

end Claims

section Numbers

/-- The choices before the last have no effect. -/
theorem mux_func_eq (x : Streams) (c : BitVec 128) : mux_func x c=result x := by
  unfold result mux_func
  simp [Id.run]

theorem setWidth_eq_ofInt {w v : ℕ} (x : BitVec v) (h : w ≤ v) :
    x.setWidth w=BitVec.ofInt w x.toInt := by
  rw [←setWidth_ofInt x.toInt h,BitVec.ofInt_toInt]

/-- The word at the output depends on the lowest bits of what is shifted. -/
theorem word_of_low {shift : BitVec 5} {x : BitVec 74} {z : ℤ}
    (h : x.setWidth 64=BitVec.ofInt 64 z) : (x.sshiftRight shift.toNat).setWidth 32=word shift z := by
  have hshift := shift.isLt
  rw [word,←extract_ofInt z shift.toNat (show shift.toNat+32 ≤ 64 by omega),←h]
  refine BitVec.eq_of_getLsbD_eq fun k hk => ?_
  rw [BitVec.getLsbD_setWidth,BitVec.getLsbD_extractLsb',BitVec.getLsbD_setWidth,
    BitVec.getLsbD_sshiftRight,decide_eq_true hk,decide_eq_true (by omega : shift.toNat+k<64),
    decide_eq_false (by omega : ¬74 ≤ k),if_pos (by omega)]
  rfl

theorem signExtend_low (x : BitVec 64) : (x.signExtend 74).setWidth 64=x := by
  rw [setWidth_eq_ofInt _ (by decide),BitVec.toInt_signExtend_of_le (by decide),BitVec.ofInt_toInt]

end Numbers

section Runs

variable {p : Job} {s : State} {first : Streams} {env : ℕ → Streams} {t : ℕ}

theorem mult_run (t : ℕ) : (run p s first env t).mult=result (past first env t) := by
  cases t with
  | zero => exact mux_func_eq first s.mult
  | succ t => exact mux_func_eq (env t) (run p s first env t).mult

theorem accepts_eq (x : Streams) : accepts x=(x.a_valid && x.b_valid) := by
  rw [accepts,ab_ready]
  cases x.a_valid <;> cases x.b_valid <;> rfl

theorem r_mult_succ : (run p s first env (t+1)).r_mult=
    if accepts (env t) then (run p s first env t).mult.setWidth 64
    else (run p s first env t).r_mult := rfl

theorem r_mult_valid_succ : (run p s first env (t+1)).r_mult_valid=
    (accepts (env t) || ((run p s first env t).r_mult_valid &&
      !passes (p.ctrl t) (run p s first env t) (env t))) := by
  have hstep : (run p s first env (t+1)).r_mult_valid=
      if accepts (env t) || passes (p.ctrl t) (run p s first env t) (env t) then accepts (env t)
      else (run p s first env t).r_mult_valid := by
    rw [accepts_eq]
    rfl
  rw [hstep]
  cases accepts (env t) with
  | true => rfl
  | false =>
    cases passes (p.ctrl t) (run p s first env t) (env t) with
    | true => exact (Bool.and_false _).symm
    | false => exact (Bool.and_true _).symm

theorem r_acc_succ : (run p s first env (t+1)).r_acc=
    if takes (run p s first env t) (env t) then (c_shifted p.shift (env t).c).signExtend 74
    else if passes (p.ctrl t) (run p s first env t) (env t) then
      (run p s first env t).r_acc+(run p s first env t).r_mult.signExtend 74
    else (run p s first env t).r_acc := rfl

theorem r_acc_valid_succ : (run p s first env (t+1)).r_acc_valid=
    if (run p s first env t).r_cnt==p.len || ((run p s first env t).r_acc_valid &&
        r_acc_ready (run p s first env t) (env t)) then (run p s first env t).r_cnt==p.len
    else (run p s first env t).r_acc_valid := rfl

theorem r_cnt_succ : (run p s first env (t+1)).r_cnt=
    if (t==0) || (decide (0#11<(run p s first env t).r_cnt) &&
        decide ((run p s first env t).r_cnt<p.len) &&
          passes (p.ctrl t) (run p s first env t) (env t)) then (run p s first env t).r_cnt+1#11
    else (run p s first env t).r_cnt := rfl

/-- The result in the multiplier is that of the pair that was accepted. -/
theorem r_mult_of_accepts (hown : (result (past first env t)).setWidth 64=
    (result (env t)).setWidth 64) (ha : accepts (env t)=true) :
    (run p s first env (t+1)).r_mult=(result (env t)).setWidth 64 := by
  rw [r_mult_succ,if_pos ha,mult_run]
  exact hown

theorem asserts_run (hroom : ∀ t,accepts (env t)=true → (run p s first env t).r_mult_valid=true →
    r_mult_ready (p.ctrl t) (run p s first env t) (env t)=true) :
    Asserts p (run p s first env) env := by
  refine ⟨fun t hvalid hwait => ?_,fun t hvalid hwait => ?_,fun t hvalid hfall => ?_,
    fun t hvalid hfall => ?_⟩
  · rw [hvalid,Bool.true_and] at hwait
    have hready : (env t).d_ready=false := (Bool.or_eq_false_iff.mp hwait).1
    have htakes : takes (run p s first env t) (env t)=false := by
      rw [takes,c_ready,hwait]
      cases (env t).c_valid <;> rfl
    have hpass : passes (p.ctrl t) (run p s first env t) (env t)=false := by
      rw [passes,r_mult_ready,hwait,hready]
      cases (run p s first env t).r_mult_valid <;> cases (p.ctrl t).simple_mul <;> rfl
    rw [r_acc_succ,htakes,hpass]
    rfl
  · have hnone : accepts (env t)=false := Bool.eq_false_iff.mpr fun ha => by
      rw [passes,hvalid,hroom t ha hvalid] at hwait
      exact absurd hwait (by decide)
    rw [r_mult_succ,hnone]
    rfl
  · rw [hvalid,Bool.true_and]
    by_contra hwait
    rw [r_acc_valid_succ,hvalid,Bool.true_and,Bool.eq_false_iff.mpr hwait,Bool.or_false] at hfall
    split_ifs at hfall with hlen
    exact absurd (hlen.symm.trans hfall) (by decide)
  · rw [r_mult_valid_succ,hvalid,Bool.true_and,Bool.or_eq_false_iff,Bool.not_eq_false'] at hfall
    exact hfall.2

section Simple

/-- The word that waits in the multiplier. -/
def pending (p : Job) (s : ℕ → State) (t : ℕ) : List (BitVec 32) :=
  if (s t).r_mult_valid then [d_data (p.ctrl t) (s t)] else []

theorem words_simple (hp : p.simple_mul=true) : words p (run p s first env) env t=
    if (env t).d_ready then pending p (run p s first env) t else [] := by
  rw [words,pending,d_valid,d_nonshifted_valid,show (p.ctrl t).simple_mul=true from hp,
    show (p.ctrl t).enable=true from rfl,Bool.true_and,if_pos rfl]
  cases (env t).d_ready <;> cases (run p s first env t).r_mult_valid <;> rfl

theorem pending_step (hp : p.simple_mul=true) (hC : Clear p (run p s first env) env first t) :
    pending p (run p s first env) t++(pairs env t).map (fun r => word p.shift r.toInt)=
      words p (run p s first env) env t++pending p (run p s first env) (t+1) := by
  have hpass : passes (p.ctrl t) (run p s first env t) (env t)=
      ((run p s first env t).r_mult_valid && (env t).d_ready) := by
    rw [passes,r_mult_ready,show (p.ctrl t).simple_mul=true from hp,if_pos rfl]
    cases (run p s first env t).r_mult_valid <;> cases (env t).d_ready <;> rfl
  rw [words_simple hp]
  cases ha : accepts (env t) with
  | true =>
    have hfull : (run p s first env (t+1)).r_mult_valid=true := by
      rw [r_mult_valid_succ,ha]
      rfl
    have hdata : d_data (p.ctrl (t+1)) (run p s first env (t+1))=
        word p.shift (result (env t)).toInt := by
      rw [d_data,d_nonshifted,show (p.ctrl (t+1)).simple_mul=true from hp,if_pos rfl]
      refine word_of_low ?_
      rw [signExtend_low,r_mult_of_accepts (hC.own ha) ha]
      exact setWidth_eq_ofInt _ (by decide)
    have hnext : pending p (run p s first env) (t+1)=
        [word p.shift (result (env t)).toInt] := by
      rw [pending,hfull,if_pos rfl,hdata]
    have hgone : (if (env t).d_ready then pending p (run p s first env) t else [])=
        pending p (run p s first env) t := by
      cases hready : (env t).d_ready with
      | true => rfl
      | false =>
        have hempty : (run p s first env t).r_mult_valid=false :=
          Bool.eq_false_iff.mpr fun hvalid => by
            have hroom := hC.room ha hvalid
            rw [r_mult_ready,show (p.ctrl t).simple_mul=true from hp,if_pos rfl,hready,hvalid]
              at hroom
            exact absurd hroom (by decide)
        rw [pending,hempty]
        rfl
    rw [hgone,hnext,pairs,ha]
    rfl
  | false =>
    have hkeep : (run p s first env (t+1)).r_mult=(run p s first env t).r_mult := by
      rw [r_mult_succ,ha]
      rfl
    have hvalid : (run p s first env (t+1)).r_mult_valid=
        ((run p s first env t).r_mult_valid &&
          !((run p s first env t).r_mult_valid && (env t).d_ready)) := by
      rw [r_mult_valid_succ,ha,hpass,Bool.false_or]
    have hdata : d_data (p.ctrl (t+1)) (run p s first env (t+1))=
        d_data (p.ctrl t) (run p s first env t) := by
      rw [d_data,d_data,d_nonshifted,d_nonshifted,show (p.ctrl (t+1)).simple_mul=true from hp,
        show (p.ctrl t).simple_mul=true from hp,if_pos rfl,if_pos rfl,hkeep]
      rfl
    rw [pairs,ha,pending,pending,hvalid,hdata]
    cases (run p s first env t).r_mult_valid <;> cases (env t).d_ready <;> rfl

theorem eachPair_run (hp : p.simple_mul=true)
    (hC : ∀ t,Clear p (run p s first env) env first t) :
    EachPair p (run p s first env) env := by
  have hledger : ∀ n,(logged (pairs env) n).map (fun r => word p.shift r.toInt)=
      logged (words p (run p s first env) env) n++pending p (run p s first env) n := by
    intro n
    rw [logged_hom (f:=List.map fun r : BitVec 128 => word p.shift r.toInt) rfl
      (fun xs ys => List.map_append)]
    exact logged_ledger (l:=pending p (run p s first env)) rfl fun t _ => pending_step hp (hC t)
  refine ⟨fun n => ⟨_,(hledger n).symm⟩,fun hready n => ?_⟩
  rcases hready n with ⟨u,hu,hd⟩
  rcases logged_le (pairs env) hu with ⟨rest,hrest⟩
  refine ⟨u+1,rest.map fun r => word p.shift r.toInt,Nat.le_succ_of_le hu,?_⟩
  rw [←List.map_append,←hrest,hledger,logged_succ,words_simple hp,hd]
  rfl

end Simple

section Scalar

/-- The result that waits in the multiplier. -/
def Waits (s : State) (l : List (BitVec 128)) : Prop :=
  (s.r_mult_valid=false ∧ l=[]) ∨ (s.r_mult_valid=true ∧ ∃ r,l=[r] ∧ s.r_mult=r.setWidth 64)

/-- The sum of start values and results. -/
def total (p : Job) (cs : List (BitVec 32)) (ps : List (BitVec 128)) : ℤ :=
  (cs.map fun c => (c_shifted p.shift c).toInt).sum+(ps.map BitVec.toInt).sum

/-- Before the word: the accumulator has the results of all pairs but the one that waits. -/
structure Gathers (p : Job) (s : ℕ → State) (env : ℕ → Streams) (n : ℕ) : Prop where
  silent : logged (words p s env) n=[]
  quiet : (s n).r_acc_valid=false
  few : (logged (starts s env) n).length ≤ 1
  sum : ∃ ps l,logged (pairs env) n=ps++l ∧ Waits (s n) l ∧
    (s n).r_cnt.toNat=ps.length+min n 1 ∧ ps.length<p.len.toNat ∧
      (s n).r_acc.setWidth 64=BitVec.ofInt 64 (total p (logged (starts s env) n) ps)

/-- The word is offered. -/
structure Offers (p : Job) (s : ℕ → State) (env : ℕ → Streams) (n : ℕ) : Prop where
  silent : logged (words p s env) n=[]
  started : 0<n
  valid : (s n).r_acc_valid=true
  full : (s n).r_cnt=p.len
  sum : ∃ c ps rest,logged (starts s env) n=[c] ∧ logged (pairs env) n=ps++rest ∧
    ps.length=p.len.toNat ∧ (s n).r_acc.setWidth 64=BitVec.ofInt 64 (total p [c] ps)

theorem words_scalar (hp : p.simple_mul=false) : words p (run p s first env) env t=
    if (run p s first env t).r_acc_valid && (env t).d_ready then
      [d_data (p.ctrl t) (run p s first env t)] else [] := by
  rw [words,d_valid,d_nonshifted_valid,show (p.ctrl t).simple_mul=false from hp,
    show (p.ctrl t).enable=true from rfl,Bool.true_and,if_neg Bool.false_ne_true]

theorem passes_quiet (hp : p.simple_mul=false) (hquiet : (run p s first env t).r_acc_valid=false) :
    passes (p.ctrl t) (run p s first env t) (env t)=(run p s first env t).r_mult_valid := by
  rw [passes,r_mult_ready,r_acc_ready,hquiet,show (p.ctrl t).simple_mul=false from hp,
    if_neg Bool.false_ne_true,Bool.not_false,Bool.or_true,Bool.true_or,Bool.and_true]

/-- What waits after a cycle. -/
theorem waits_step {l : List (BitVec 128)} (hC : Clear p (run p s first env) env first t)
    (h : Waits (run p s first env t) l) : Waits (run p s first env (t+1))
      ((if passes (p.ctrl t) (run p s first env t) (env t) then [] else l)++pairs env t) := by
  cases ha : accepts (env t) with
  | true =>
    have hgone : (if passes (p.ctrl t) (run p s first env t) (env t) then [] else l)=[] := by
      rcases h with ⟨-,rfl⟩ | ⟨hvalid,-⟩
      · exact ite_self []
      · rw [passes,hvalid,hC.room ha hvalid]
        rfl
    refine Or.inr ⟨?_,result (env t),?_,r_mult_of_accepts (hC.own ha) ha⟩
    · rw [r_mult_valid_succ,ha]
      rfl
    · rw [hgone,pairs,ha]
      rfl
  | false =>
    have hkeep : (run p s first env (t+1)).r_mult=(run p s first env t).r_mult := by
      rw [r_mult_succ,ha]
      rfl
    rw [pairs,ha,if_neg Bool.false_ne_true,List.append_nil]
    cases hpass : passes (p.ctrl t) (run p s first env t) (env t) with
    | true =>
      refine Or.inl ⟨?_,rfl⟩
      rw [r_mult_valid_succ,ha,hpass,Bool.not_true,Bool.and_false]
      rfl
    | false =>
      have hvalid : (run p s first env (t+1)).r_mult_valid=
          (run p s first env t).r_mult_valid := by
        rw [r_mult_valid_succ,ha,hpass,Bool.not_false,Bool.and_true,Bool.false_or]
      unfold Waits
      rw [hvalid,hkeep]
      exact h

/-- The accumulator takes a result. -/
theorem acc_add {x : BitVec 74} {z : ℤ} {r : BitVec 128} {y : BitVec 64}
    (hx : x.setWidth 64=BitVec.ofInt 64 z) (hy : y=r.setWidth 64) :
    (x+y.signExtend 74).setWidth 64=BitVec.ofInt 64 (z+r.toInt) := by
  rw [BitVec.setWidth_add _ _ (by decide),hx,signExtend_low,hy,setWidth_eq_ofInt r (by decide),
    ←BitVec.ofInt_add]

theorem total_concat (cs : List (BitVec 32)) (ps : List (BitVec 128)) (r : BitVec 128) :
    total p cs (ps++[r])=total p cs ps+r.toInt := by
  rw [total,total,List.map_append,List.sum_append,List.map_singleton,List.sum_singleton]
  ring

theorem gathers_start (hlen : 0<p.len.toNat) : Gathers p (run p s first env) env 0 :=
  ⟨rfl,rfl,Nat.zero_le 1,[],[],rfl,Or.inl ⟨rfl,rfl⟩,rfl,hlen,rfl⟩

theorem words_quiet (hp : p.simple_mul=false) (hquiet : (run p s first env t).r_acc_valid=false) :
    words p (run p s first env) env t=[] := by
  rw [words_scalar hp,hquiet]
  rfl

/-- No start value is taken any more. -/
theorem starts_over (hp : p.simple_mul=false) (hC : Clear p (run p s first env) env first t)
    (hsome : logged (starts (run p s first env) env) t≠[]) :
    takes (run p s first env t) (env t)=false ∧ starts (run p s first env) env t=[] := by
  have hnone : takes (run p s first env t) (env t)=false :=
    Bool.eq_false_iff.mpr fun htakes => hsome (hC.early hp htakes).1
  exact ⟨hnone,by rw [starts,hnone]; rfl⟩

/-- The count is reached: the last result comes to the others, and the word is offered. -/
theorem gathers_last (hp : p.simple_mul=false) (hC : Clear p (run p s first env) env first t)
    (h : Gathers p (run p s first env) env t) (hfull : (run p s first env t).r_cnt=p.len) :
    Offers p (run p s first env) env (t+1) := by
  rcases h with ⟨hsilent,hquiet,hfew,ps,l,hpairs,hwaits,hcnt,hroom,hacc⟩
  rcases hC.last hp hfull hquiet with ⟨hvalid,hsome⟩
  rcases starts_over hp hC hsome with ⟨htakes,hstarts⟩
  have hpass : passes (p.ctrl t) (run p s first env t) (env t)=true :=
    (passes_quiet hp hquiet).trans hvalid
  rcases hwaits with ⟨hempty,-⟩ | ⟨-,r,rfl,hr⟩
  · exact absurd (hvalid.symm.trans hempty) (by decide)
  obtain ⟨c,hc⟩ : ∃ c,logged (starts (run p s first env) env) t=[c] := by
    rcases List.exists_cons_of_ne_nil hsome with ⟨c,cs,hcs⟩
    rw [hcs,List.length_cons] at hfew
    rw [hcs,List.eq_nil_of_length_eq_zero (Nat.le_zero.mp (Nat.le_of_succ_le_succ hfew))]
    exact ⟨c,rfl⟩
  refine ⟨?_,Nat.succ_pos t,?_,?_,c,ps++[r],pairs env t,?_,?_,?_,?_⟩
  · rw [logged_succ,hsilent,words_quiet hp hquiet]
    rfl
  · rw [r_acc_valid_succ,hfull,beq_self_eq_true]
    rfl
  · have hzero : (t==0)=false := by
      rw [beq_eq_false_iff_ne]
      rintro rfl
      rw [hfull,Nat.zero_min] at hcnt
      omega
    rw [r_cnt_succ,hfull,hzero,decide_eq_false (BitVec.lt_irrefl p.len),Bool.and_false]
    rfl
  · rw [logged_succ,hc,hstarts]
    rfl
  · rw [logged_succ,hpairs]
  · rw [hfull] at hcnt
    rw [List.length_append,List.length_singleton]
    omega
  · rw [r_acc_succ,htakes,hpass,←hc,total_concat]
    exact acc_add hacc hr

theorem cnt_step {k : ℕ} {v : Bool}
    (hpass : passes (p.ctrl t) (run p s first env t) (env t)=v)
    (hcnt : (run p s first env t).r_cnt.toNat=k+min t 1)
    (hlt : (run p s first env t).r_cnt.toNat<p.len.toNat) (hzero : t=0 → v=false) :
    (run p s first env (t+1)).r_cnt.toNat=k+v.toNat+1 := by
  have hlen := p.len.isLt
  have hup : ((run p s first env t).r_cnt+1#11).toNat=(run p s first env t).r_cnt.toNat+1 := by
    rw [BitVec.toNat_add]
    exact Nat.mod_eq_of_lt (by rw [BitVec.toNat_ofNat]; omega)
  rw [r_cnt_succ,hpass]
  cases t with
  | zero =>
    rw [hzero rfl,show ((0 : ℕ)==0)=true from rfl,Bool.true_or,if_pos rfl,hup,hcnt]
    rfl
  | succ t =>
    have hpos : 0#11<(run p s first env (t+1)).r_cnt := by
      rw [BitVec.lt_def,hcnt,Nat.min_eq_right (Nat.succ_pos t)]
      exact Nat.succ_pos k
    rw [decide_eq_true hpos,decide_eq_true (BitVec.lt_def.mpr hlt),Bool.true_and,Bool.true_and,
      show ((t+1 : ℕ)==0)=false from rfl,Bool.false_or]
    cases v with
    | true =>
      rw [if_pos rfl,hup,hcnt,Bool.toNat_true]
      omega
    | false =>
      rw [if_neg Bool.false_ne_true,hcnt,Bool.toNat_false]
      omega

/-- The count is not reached: all goes on. -/
theorem gathers_step (hp : p.simple_mul=false) (hC : Clear p (run p s first env) env first t)
    (h : Gathers p (run p s first env) env t) (hfull : (run p s first env t).r_cnt≠p.len) :
    Gathers p (run p s first env) env (t+1) := by
  rcases h with ⟨hsilent,hquiet,hfew,ps,l,hpairs,hwaits,hcnt,hroom,hacc⟩
  have hpass : passes (p.ctrl t) (run p s first env t) (env t)=
      (run p s first env t).r_mult_valid := passes_quiet hp hquiet
  have hnext := waits_step hC hwaits
  have hne : (run p s first env t).r_cnt.toNat≠p.len.toNat := fun heq =>
    hfull (BitVec.eq_of_toNat_eq heq)
  have hlt : (run p s first env t).r_cnt.toNat<p.len.toNat := by omega
  have hfirst : t=0 → ps=[] ∧ l=[] := by
    rintro rfl
    exact List.append_eq_nil_iff.mp hpairs.symm
  refine ⟨?_,?_,?_,?_⟩
  · rw [logged_succ,hsilent,words_quiet hp hquiet]
    rfl
  · rw [r_acc_valid_succ,hquiet,beq_eq_false_iff_ne.mpr hfull]
    rfl
  · rw [logged_succ,List.length_append,starts]
    split_ifs with htakes
    · rw [(hC.early hp htakes).1]
      exact Nat.le_refl 1
    · exact hfew
  · rcases hwaits with ⟨hvalid,rfl⟩ | ⟨hvalid,r,rfl,hr⟩
    · rw [hvalid] at hpass
      rw [hpass] at hnext
      refine ⟨ps,pairs env t,?_,hnext,?_,hroom,?_⟩
      · rw [logged_succ,hpairs,List.append_nil]
      · rw [cnt_step hpass hcnt hlt fun _ => rfl,Nat.min_eq_right (Nat.succ_pos t)]
        rfl
      · rw [r_acc_succ,hpass,logged_succ,starts]
        cases htakes : takes (run p s first env t) (env t) with
        | true =>
          rcases hC.early hp htakes with ⟨hnone,-,hone⟩
          have hps : ps=[] := by
            by_cases ht : t=0
            · exact (hfirst ht).1
            · rw [BitVec.le_def,hcnt] at hone
              have hone' : ps.length+min t 1 ≤ 1 := hone
              exact List.eq_nil_of_length_eq_zero (by omega)
          rw [if_pos rfl,if_pos rfl,hnone,hps,signExtend_low,total]
          simp
        | false =>
          rw [if_neg Bool.false_ne_true,if_neg Bool.false_ne_true,if_neg Bool.false_ne_true,
            List.append_nil]
          exact hacc
    · rw [hvalid] at hpass
      rw [hpass] at hnext
      have hpos : t≠0 := fun ht => absurd (hfirst ht).2 (List.cons_ne_nil _ _)
      have htakes : takes (run p s first env t) (env t)=false :=
        Bool.eq_false_iff.mpr fun htakes =>
          absurd (hvalid.symm.trans (hC.early hp htakes).2.1) (by decide)
      refine ⟨ps++[r],pairs env t,?_,hnext,?_,?_,?_⟩
      · rw [logged_succ,hpairs]
      · rw [cnt_step hpass hcnt hlt fun ht => absurd ht hpos,List.length_append,
          Nat.min_eq_right (Nat.succ_pos t)]
        rfl
      · rw [List.length_append,List.length_singleton]
        omega
      · rw [r_acc_succ,htakes,hpass,logged_succ,starts,htakes,total_concat,
          if_neg Bool.false_ne_true,if_neg Bool.false_ne_true,List.append_nil,if_pos rfl]
        exact acc_add hacc hr

/-- The word is offered until it is taken. -/
theorem offers_step (hp : p.simple_mul=false) (hC : Clear p (run p s first env) env first t)
    (h : Offers p (run p s first env) env t) :
    ((env t).d_ready=false ∧ Offers p (run p s first env) env (t+1)) ∨
      ((env t).d_ready=true ∧ Total p (run p s first env) env (t+1)) := by
  rcases h with ⟨hsilent,hpos,hvalid,hfull,c,ps,rest,hc,hpairs,hlen,hacc⟩
  rcases starts_over hp hC (by rw [hc]; exact List.cons_ne_nil _ _) with ⟨htakes,hstarts⟩
  have hwords : words p (run p s first env) env t=
      if (env t).d_ready then [d_data (p.ctrl t) (run p s first env t)] else [] := by
    rw [words_scalar hp,hvalid,Bool.true_and]
  have hc' : logged (starts (run p s first env) env) (t+1)=[c] := by
    rw [logged_succ,hc,hstarts]
    rfl
  have hpairs' : logged (pairs env) (t+1)=ps++(rest++pairs env t) := by
    rw [logged_succ,hpairs,List.append_assoc]
  cases hready : (env t).d_ready with
  | false =>
    have hpass : passes (p.ctrl t) (run p s first env t) (env t)=false := by
      rw [passes,r_mult_ready,r_acc_ready,hready,hvalid,show (p.ctrl t).simple_mul=false from hp]
      cases (run p s first env t).r_mult_valid <;> rfl
    refine Or.inl ⟨rfl,?_,Nat.succ_pos t,?_,?_,c,ps,_,hc',hpairs',hlen,?_⟩
    · rw [logged_succ,hsilent,hwords,hready]
      rfl
    · rw [r_acc_valid_succ,hfull,beq_self_eq_true]
      rfl
    · rw [r_cnt_succ,hpass,Bool.and_false,Bool.or_false,hfull,
        beq_eq_false_iff_ne.mpr (Nat.ne_of_gt hpos)]
      rfl
    · rw [r_acc_succ,htakes,hpass]
      exact hacc
  | true =>
    refine Or.inr ⟨rfl,c,ps,_,hc',hpairs',hlen,?_⟩
    rw [logged_succ,hsilent,hwords,hready,if_pos rfl,d_data,d_nonshifted,
      show (p.ctrl t).simple_mul=false from hp,if_neg Bool.false_ne_true]
    have htotal : total p [c] ps=(c_shifted p.shift c).toInt+(ps.map BitVec.toInt).sum := by
      rw [total,List.map_singleton,List.sum_singleton]
    rw [←htotal]
    exact congrArg ([·]) (word_of_low hacc)

/-- After the word nothing is taken at the output. -/
theorem total_step (hp : p.simple_mul=false) (hC : Clear p (run p s first env) env first t)
    (h : Total p (run p s first env) env t) : Total p (run p s first env) env (t+1) := by
  rcases h with ⟨c,ps,rest,hc,hpairs,hlen,hwords⟩
  have hready := hC.once hp (by rw [hwords]; exact List.cons_ne_nil _ _)
  have hstarts := (starts_over hp hC (by rw [hc]; exact List.cons_ne_nil _ _)).2
  refine ⟨c,ps,rest++pairs env t,?_,?_,hlen,?_⟩
  · rw [logged_succ,hc,hstarts]
    rfl
  · rw [logged_succ,hpairs,List.append_assoc]
  · rw [logged_succ,hwords,words_scalar hp,hready,Bool.and_false]
    rfl

theorem phases_run (hp : p.simple_mul=false) (hlen : 0<p.len.toNat)
    (hC : ∀ t,Clear p (run p s first env) env first t) (n : ℕ) :
    Gathers p (run p s first env) env n ∨ Offers p (run p s first env) env n ∨
      Total p (run p s first env) env n := by
  induction n with
  | zero => exact Or.inl (gathers_start hlen)
  | succ n ih =>
    rcases ih with h | h | h
    · by_cases hfull : (run p s first env n).r_cnt=p.len
      · exact Or.inr (Or.inl (gathers_last hp (hC n) h hfull))
      · exact Or.inl (gathers_step hp (hC n) h hfull)
    · rcases offers_step hp (hC n) h with ⟨-,h⟩ | ⟨-,h⟩
      · exact Or.inr (Or.inl h)
      · exact Or.inr (Or.inr h)
    · exact Or.inr (Or.inr (total_step hp (hC n) h))

/-- An offered word is taken once the output is ready. -/
theorem total_of_offers (hp : p.simple_mul=false)
    (hC : ∀ t,Clear p (run p s first env) env first t)
    (hready : ∀ t,∃ u,t ≤ u ∧ ((env u).d_ready=true ∨
      logged (words p (run p s first env) env) u≠[])) {n : ℕ}
    (h : Offers p (run p s first env) env n) : ∃ n,Total p (run p s first env) env n := by
  by_contra hnot
  have hoffers : ∀ k,Offers p (run p s first env) env (n+k) := by
    intro k
    induction k with
    | zero => exact h
    | succ k ih =>
      rcases offers_step hp (hC (n+k)) ih with ⟨-,h⟩ | ⟨-,h⟩
      · exact h
      · exact absurd ⟨_,h⟩ hnot
  rcases hready n with ⟨u,hu,htaken⟩
  have hu' := hoffers (u-n)
  rw [Nat.add_sub_cancel' hu] at hu'
  rcases htaken with htaken | htaken
  · rcases offers_step hp (hC u) hu' with ⟨hwait,-⟩ | ⟨-,h⟩
    · exact absurd (htaken.symm.trans hwait) (by decide)
    · exact hnot ⟨_,h⟩
  · exact htaken hu'.silent

theorem oneSum_run (hp : p.simple_mul=false) (hlen : 0<p.len.toNat)
    (hC : ∀ t,Clear p (run p s first env) env first t) : OneSum p (run p s first env) env := by
  refine ⟨fun n => ?_,fun ⟨n,hn⟩ hready => ?_⟩
  · rcases phases_run hp hlen hC n with h | h | h
    · exact Or.inl h.silent
    · exact Or.inl h.silent
    · exact Or.inr h
  · rcases phases_run hp hlen hC n with h | h | h
    · rcases h.sum with ⟨ps,l,hpairs,hwaits,hcnt,hroom,-⟩
      have hl : l.length ≤ 1 := by
        rcases hwaits with ⟨-,rfl⟩ | ⟨-,r,rfl,-⟩
        · exact Nat.zero_le 1
        · exact Nat.le_refl 1
      rw [hpairs,List.length_append] at hn
      have hpos : n≠0 := by
        rintro rfl
        have hnil := List.append_eq_nil_iff.mp hpairs.symm
        rw [hnil.1,hnil.2] at hn
        exact absurd hn (Nat.not_le.mpr hlen)
      have hfull : (run p s first env n).r_cnt=p.len := BitVec.eq_of_toNat_eq (by omega)
      exact total_of_offers hp hC hready (gathers_last hp (hC n) h hfull)
    · exact total_of_offers hp hC hready h
    · exact ⟨n,h⟩

end Scalar

/-- In every run whose cycles are clear the engine does what it has to. -/
theorem works_of_clear (hlen : 1 ≤ p.len.toNat)
    (hC : ∀ t,Clear p (run p s first env) env first t) : Works p (run p s first env) env :=
  ⟨fun hp => eachPair_run hp hC,fun hp => oneSum_run hp hlen hC,fun t => (hC t).room,
    asserts_run fun t => (hC t).room⟩

end Runs

section Examples

/-- One cycle of the streams, with the temperature sensor chosen or not. -/
def cycle (valid sensor : Bool) (a : BitVec 32) : Streams :=
  ⟨valid,a,valid,0,false,if sensor then 8 else 0,true,0,0,0⟩

/-- A job for products. -/
def products : Job := ⟨true,0,1⟩

theorem works_of_clear_held : Works products
    (run products ⟨0,0,false,0,false,0⟩ (cycle false true 5) fun t => cycle (t==0) true 5)
    fun t => cycle (t==0) true 5 := by
  refine works_of_clear (by decide) fun t => ⟨fun _ => ?_,fun _ _ => rfl,nofun,nofun,nofun⟩
  cases t with
  | zero => rfl
  | succ t =>
    show (result (cycle (t==0) true 5)).setWidth 64=_
    cases t <;> rfl

/-- The word of a pair is the result of what was on the streams before it. -/
theorem not_works_late : ¬∀ (p : Job) (s : State) (first : Streams) (env : ℕ → Streams),
    1 ≤ p.len.toNat → Works p (run p s first env) env := by
  intro h
  have hworks := h products ⟨0,0,false,0,false,0⟩ (cycle false false 0)
    (fun t => cycle (t==0) (t==0) 5) (by decide)
  rcases (hworks.simple rfl).order 2 with ⟨rest,hrest⟩
  have hwords : logged (words products (run products ⟨0,0,false,0,false,0⟩ (cycle false false 0)
      fun t => cycle (t==0) (t==0) 5) fun t => cycle (t==0) (t==0) 5) 2=[0] := by decide +kernel
  have hpairs : (logged (pairs fun t => cycle (t==0) (t==0) 5) 2).map
      (fun r => word products.shift r.toInt)=[0xFFFFFFFA] := by decide +kernel
  rw [hwords,hpairs] at hrest
  exact absurd (List.cons.inj hrest).1 (by decide)

end Examples

end Pulpissimo.Hwpe.MacEngine
