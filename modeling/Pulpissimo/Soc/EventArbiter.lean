import Mathlib.Data.BitVec
import Mathlib.Data.Nat.Log
import Pulpissimo.Lib.Indices
import Pulpissimo.Lib.Machine
import Pulpissimo.Lib.PrefixScan
import Pulpissimo.Lib.RoundRobin

/-!
# The arbiter of the SoC events

`soc_event_arbiter` passes a one-hot priority through a parallel prefix network that
runs in a circle, and moves it behind the granted request with every acknowledged
grant. For every number of requests, a power of two or not, it grants the first request
at or after the priority, so a request is passed over by each other one at most once.
-/

namespace Pulpissimo.Soc.EventArbiter

open Pulpissimo.Machine Pulpissimo.RoundRobin

variable {EVNT_NUM : ℕ}

/-- Registers. -/
structure State (EVNT_NUM : ℕ) where
  /-- One-hot priority. -/
  r_priority : Fin EVNT_NUM → Bool

/-- One cycle of inputs. -/
structure Input (EVNT_NUM : ℕ) where
  /-- Requests. -/
  req_i : Fin EVNT_NUM → Bool
  /-- The grant is accepted. -/
  grant_ack_i : Bool

/-- Values after reset. -/
def reset : State EVNT_NUM := ⟨fun j => j.val==0⟩

/-- The index `j-d`, from the top where it is negative. -/
def back (d : ℕ) (j : Fin EVNT_NUM) : Fin EVNT_NUM :=
  ⟨if j.val<d then EVNT_NUM+j.val-d else j.val-d,by
    have hj := j.isLt
    split_ifs <;> omega⟩

/-- Number of prefix levels. -/
def S (EVNT_NUM : ℕ) : ℕ := Nat.clog 2 EVNT_NUM

section Code

variable (s : State EVNT_NUM) (req_i : Fin EVNT_NUM → Bool)

/-- Request vector in the first propagate positions. -/
def p0 : Fin EVNT_NUM → Bool := fun j => !req_i (back 1 j)

/-- Generate signals `g[i]`. -/
def g (i : ℕ) : Fin EVNT_NUM → Bool :=
  (PrefixScan.level (fun i => back (2^i)) s.r_priority (p0 req_i) i).1

/-- Propagate signals `p[i]`. -/
def p (i : ℕ) : Fin EVNT_NUM → Bool :=
  (PrefixScan.level (fun i => back (2^i)) s.r_priority (p0 req_i) i).2

def gnt : Fin EVNT_NUM → Bool := fun j => req_i j && g s req_i (S EVNT_NUM) j

end Code

def anyGnt [NeZero EVNT_NUM] (s : State EVNT_NUM) (req_i : Fin EVNT_NUM → Bool) : Bool :=
  have hpos := Nat.pos_of_neZero EVNT_NUM
  !(p s req_i (S EVNT_NUM-1) ⟨EVNT_NUM-1,by omega⟩ &&
    p s req_i (S EVNT_NUM-1) ⟨EVNT_NUM/2-1,by omega⟩)

/-- One clock edge. -/
def step [NeZero EVNT_NUM] (s : State EVNT_NUM) (i : Input EVNT_NUM) : State EVNT_NUM :=
  if anyGnt s i.req_i && i.grant_ack_i then ⟨fun j => gnt s i.req_i (back 1 j)⟩ else s

section Circle

/-- The place before is one back. -/
theorem back_ahead (q : Fin EVNT_NUM) (k : ℕ) : back 1 (ahead q (k+1))=ahead q k := by
  have hpos : 0<EVNT_NUM := q.pos
  have hlt : (q.val+k)%EVNT_NUM<EVNT_NUM := Nat.mod_lt _ hpos
  have hsucc : (q.val+(k+1))%EVNT_NUM=((q.val+k)%EVNT_NUM+1)%EVNT_NUM := by
    rw [Nat.mod_add_mod,Nat.add_assoc]
  have hnext : ((q.val+k)%EVNT_NUM+1)%EVNT_NUM=
      if (q.val+k)%EVNT_NUM+1=EVNT_NUM then 0 else (q.val+k)%EVNT_NUM+1 := by
    split_ifs with h
    · rw [h,Nat.mod_self]
    · exact Nat.mod_eq_of_lt (by omega)
  apply Fin.ext
  change (if (q.val+(k+1))%EVNT_NUM<1 then EVNT_NUM+(q.val+(k+1))%EVNT_NUM-1
    else (q.val+(k+1))%EVNT_NUM-1)=(q.val+k)%EVNT_NUM
  rw [hsucc,hnext]
  split_ifs <;> omega

theorem ahead_back (j : Fin EVNT_NUM) : ahead (back 1 j) 1=j := by
  have hj := j.isLt
  apply Fin.ext
  change ((if j.val<1 then EVNT_NUM+j.val-1 else j.val-1)+1)%EVNT_NUM=j.val
  split_ifs with h
  · have hsum : EVNT_NUM+j.val-1+1=j.val+EVNT_NUM := by omega
    rw [hsum,Nat.add_mod_right,Nat.mod_eq_of_lt hj]
  · rw [Nat.sub_add_cancel (by omega),Nat.mod_eq_of_lt hj]

theorem back_back (j : Fin EVNT_NUM) {d : ℕ} (hd : d<EVNT_NUM) : back 1 (back d j)=back (d+1) j := by
  have hj := j.isLt
  apply Fin.ext
  change (if (if j.val<d then EVNT_NUM+j.val-d else j.val-d)<1 then
      EVNT_NUM+(if j.val<d then EVNT_NUM+j.val-d else j.val-d)-1
    else (if j.val<d then EVNT_NUM+j.val-d else j.val-d)-1)=
      if j.val<d+1 then EVNT_NUM+j.val-(d+1) else j.val-(d+1)
  split_ifs <;> omega

/-- Going back by an index is going back step by step. -/
theorem iterate_back {d : ℕ} (hd : d≤EVNT_NUM) : (back 1)^[d]=(back d : Fin EVNT_NUM → Fin EVNT_NUM) := by
  induction d with
  | zero =>
    funext j
    apply Fin.ext
    change j.val=if j.val<0 then EVNT_NUM+j.val-0 else j.val-0
    rw [if_neg (Nat.not_lt_zero _),Nat.sub_zero]
  | succ d ih =>
    rw [Function.iterate_succ',ih (by omega)]
    funext j
    exact back_back j (by omega)

theorem iterate_back_ahead (q : Fin EVNT_NUM) {m k : ℕ} (hm : m≤k) :
    (back 1)^[m] (ahead q k)=ahead q (k-m) := by
  induction m with
  | zero => rfl
  | succ m ih =>
    have hk : k-m=k-(m+1)+1 := by omega
    rw [Function.iterate_succ_apply',ih (by omega),hk,back_ahead]

/-- Every place is some places behind another. -/
theorem iterate_back_eq (q j : Fin EVNT_NUM) {k : ℕ} (hk : k<EVNT_NUM) :
    (back 1)^[k] j=q ↔ k=dist q j := by
  constructor
  · intro h
    have hj : j=ahead ((back 1)^[k] j) k := by
      have hpoint := iterate_back_ahead j (m:=k) (k:=EVNT_NUM) (by omega)
      rw [ahead_turn] at hpoint
      rw [hpoint,ahead_ahead,Nat.sub_add_cancel (by omega),ahead_turn]
    rw [h] at hj
    rw [hj,dist_ahead q hk]
  · rintro rfl
    have hback := iterate_back_ahead q (Nat.le_refl (dist q j))
    rwa [ahead_dist,Nat.sub_self,ahead_zero] at hback

end Circle

/-- The vector has its only set bit at `q`. -/
def OneHot (v : Fin EVNT_NUM → Bool) (q : Fin EVNT_NUM) : Prop := ∀ j, v j=true ↔ j=q

section Network

variable (s : State EVNT_NUM) (req_i : Fin EVNT_NUM → Bool)

/-- The levels reach back with whole numbers of places, the last of them once around at most. -/
theorem hop_eq {L : ℕ} (hL : 2^(L-1) ≤ EVNT_NUM) :
    ∀ i, i<L → (back (2^i) : Fin EVNT_NUM → Fin EVNT_NUM)=(back 1)^[2^i] := by
  intro i hi
  have hle : 2^i ≤ 2^(L-1) := Nat.pow_le_pow_right (by omega) (by omega)
  exact (iterate_back (by omega)).symm

theorem pow_S_le (hN : 2 ≤ EVNT_NUM) : 2^(S EVNT_NUM-1) ≤ EVNT_NUM :=
  (Nat.pow_pred_clog_lt_self (by omega) (by omega)).le

/-- A network of enough levels grants exactly the first request at or after the priority. -/
theorem granted_iff {L : ℕ} (hL : 2^(L-1) ≤ EVNT_NUM) (hspan : EVNT_NUM ≤ 2^L) {q : Fin EVNT_NUM}
    (hq : OneHot s.r_priority q) (j : Fin EVNT_NUM) :
    (req_i j && g s req_i L j)=true ↔ First req_i q j := by
  have hfind : g s req_i L j=true ↔ ∃ k, k<2^L ∧ (back 1)^[k] j=q ∧
      ∀ m, m<k → req_i ((back 1)^[m+1] j)=false := by
    unfold g
    rw [PrefixScan.generate_iff (hop_eq hL)]
    simp only [hq _,p0,Bool.not_eq_eq_eq_not,Bool.not_true,Function.iterate_succ_apply']
  have hturn : (back 1)^[EVNT_NUM] j=j := by
    rw [iterate_back (Nat.le_refl _)]
    have hj := j.isLt
    apply Fin.ext
    change (if j.val<EVNT_NUM then EVNT_NUM+j.val-EVNT_NUM else j.val-EVNT_NUM)=j.val
    split_ifs
    omega
  have hplace : ∀ m, m<dist q j → (back 1)^[m+1] j=ahead q (dist q j-(m+1)) := by
    intro m hm
    have hback := iterate_back_ahead q (m:=m+1) (k:=dist q j) hm
    rwa [ahead_dist] at hback
  rw [Bool.and_eq_true_iff,hfind]
  constructor
  · rintro ⟨hreq,k,hk,hpoint,hbetween⟩
    have hpos : 0<EVNT_NUM := j.pos
    have hlt : k<EVNT_NUM := by
      by_contra hge
      have hno := hbetween (EVNT_NUM-1) (by omega)
      rw [Nat.sub_add_cancel (by omega),hturn,hreq] at hno
      exact absurd hno nofun
    obtain rfl := (iterate_back_eq q j hlt).mp hpoint
    refine ⟨hreq,fun m hm => ?_⟩
    have hno := hbetween (dist q j-(m+1)) (by omega)
    rw [hplace _ (by omega)] at hno
    have hm' : dist q j-(dist q j-(m+1)+1)=m := by omega
    rwa [hm'] at hno
  · rintro ⟨hreq,hbefore⟩
    have hlt := dist_lt q j
    refine ⟨hreq,dist q j,by omega,(iterate_back_eq q j hlt).mpr rfl,fun m hm => ?_⟩
    rw [hplace m hm]
    exact hbefore _ (by omega)

/-- Exactly the first request at or after the priority is granted. -/
theorem gnt_iff (hN : 2≤EVNT_NUM) {q : Fin EVNT_NUM} (hq : OneHot s.r_priority q) (j : Fin EVNT_NUM) :
    gnt s req_i j=true ↔ First req_i q j :=
  granted_iff s req_i (pow_S_le hN) (Nat.le_pow_clog (by omega) _) hq j

/-- The two halves of a propagate level see every request, if they reach half around. -/
theorem halves_iff [NeZero EVNT_NUM] {L : ℕ} (hL : 2^L ≤ EVNT_NUM) (hhalf : EVNT_NUM ≤ 2*2^L) :
    (p s req_i L ⟨EVNT_NUM-1,Nat.sub_lt (Nat.pos_of_neZero _) Nat.one_pos⟩ &&
      p s req_i L ⟨EVNT_NUM/2-1,by have := Nat.pos_of_neZero EVNT_NUM; omega⟩)=true ↔
        ∀ j, req_i j=false := by
  have hpos := Nat.pos_of_neZero EVNT_NUM
  have hlow : 2^(L-1) ≤ EVNT_NUM := (Nat.pow_le_pow_right (by omega) (Nat.sub_le _ _)).trans hL
  have hp : ∀ j, p s req_i L j=true ↔ ∀ m, m<2^L → req_i ((back 1)^[m+1] j)=false := by
    intro j
    unfold p
    rw [PrefixScan.propagate_iff (hop_eq hlow)]
    simp only [p0,Bool.not_eq_eq_eq_not,Bool.not_true,Function.iterate_succ_apply']
  rw [Bool.and_eq_true_iff,hp,hp]
  constructor
  · rintro ⟨htop,hmid⟩ r
    have hr := r.isLt
    by_cases hlow : r.val<EVNT_NUM/2-1
    · have hno := hmid (EVNT_NUM/2-1-r.val-1) (by omega)
      rw [iterate_back (by omega)] at hno
      have hplace : back (EVNT_NUM/2-1-r.val-1+1) ⟨EVNT_NUM/2-1,by omega⟩=r := Fin.ext (by
        simp only [back]
        split_ifs <;> omega)
      rwa [hplace] at hno
    · by_cases hlast : r.val=EVNT_NUM-1
      · have hno := hmid (EVNT_NUM/2-1) (by omega)
        rw [iterate_back (by omega)] at hno
        have hplace : back (EVNT_NUM/2-1+1) ⟨EVNT_NUM/2-1,by omega⟩=r := Fin.ext (by
          simp only [back]
          split_ifs <;> omega)
        rwa [hplace] at hno
      · have hno := htop (EVNT_NUM-1-r.val-1) (by omega)
        rw [iterate_back (by omega)] at hno
        have hplace : back (EVNT_NUM-1-r.val-1+1) ⟨EVNT_NUM-1,by omega⟩=r := Fin.ext (by
          simp only [back]
          split_ifs <;> omega)
        rwa [hplace] at hno
  · exact fun h => ⟨fun _ _ => h _,fun _ _ => h _⟩

/-- Any grant is any request. -/
theorem anyGnt_iff [NeZero EVNT_NUM] (hN : 2≤EVNT_NUM) :
    anyGnt s req_i=true ↔ ∃ j, req_i j=true := by
  have hS : 0<S EVNT_NUM := Nat.clog_pos (by omega) hN
  have hspan : EVNT_NUM ≤ 2^S EVNT_NUM := Nat.le_pow_clog (by omega) _
  have hhalf : EVNT_NUM ≤ 2*2^(S EVNT_NUM-1) := by
    have hdouble := Nat.pow_succ' (m:=2) (n:=S EVNT_NUM-1)
    rw [Nat.succ_eq_add_one,Nat.sub_add_cancel hS] at hdouble
    omega
  have hboth : anyGnt s req_i=false ↔ ∀ j, req_i j=false := by
    rw [←halves_iff s req_i (pow_S_le hN) hhalf]
    exact iff_of_eq (Bool.not_eq_false' _)
  rw [←Bool.not_eq_false,hboth,not_forall]
  simp only [Bool.not_eq_false]

end Network

section Runs

variable [NeZero EVNT_NUM]

/-- The priority has exactly one set bit. -/
def Sound (s : State EVNT_NUM) : Prop := ∃ q, OneHot s.r_priority q

theorem sound_reset : Sound (reset : State EVNT_NUM) := by
  refine ⟨⟨0,Nat.pos_of_neZero EVNT_NUM⟩,fun j => ?_⟩
  rw [Fin.ext_iff]
  exact beq_iff_eq

/-- An acknowledged grant moves the priority to the place behind it. -/
theorem step_priority (hN : 2≤EVNT_NUM) {s : State EVNT_NUM} {i : Input EVNT_NUM}
    {q j : Fin EVNT_NUM} (hq : OneHot s.r_priority q) (hj : First i.req_i q j)
    (hack : i.grant_ack_i=true) : OneHot (step s i).r_priority (ahead j 1) := by
  have hany : anyGnt s i.req_i=true := (anyGnt_iff s i.req_i hN).mpr ⟨j,hj.requests⟩
  have hstep : (step s i).r_priority=fun j => gnt s i.req_i (back 1 j) := by
    unfold step
    rw [hany,hack]
    rfl
  intro x
  rw [hstep,gnt_iff s i.req_i hN hq]
  constructor
  · intro hfirst
    rw [hj.unique hfirst,ahead_back]
  · rintro rfl
    have hback : back 1 (ahead j 1)=j := by
      rw [show (1 : ℕ)=0+1 from rfl,back_ahead,ahead_zero]
    rwa [hback]

/-- Other cycles keep the priority. -/
theorem step_idle (hN : 2≤EVNT_NUM) {s : State EVNT_NUM} {i : Input EVNT_NUM}
    (h : ¬(∃ j, i.req_i j=true) ∨ i.grant_ack_i=false) : step s i=s := by
  unfold step
  rw [if_neg]
  rw [Bool.and_eq_true_iff,anyGnt_iff s i.req_i hN]
  rcases h with h | h
  · exact fun hboth => h hboth.1
  · rw [h]
    exact fun hboth => absurd hboth.2 nofun

theorem sound_step (hN : 2≤EVNT_NUM) (s : State EVNT_NUM) (i : Input EVNT_NUM) (hs : Sound s) :
    Sound (step s i) := by
  rcases hs with ⟨q,hq⟩
  by_cases hreq : ∃ j, i.req_i j=true
  · rcases exists_first q hreq with ⟨j,hj⟩
    cases hack : i.grant_ack_i with
    | true => exact ⟨_,step_priority hN hq hj hack⟩
    | false =>
      rw [step_idle hN (Or.inr hack)]
      exact ⟨q,hq⟩
  · rw [step_idle hN (Or.inl hreq)]
    exact ⟨q,hq⟩

/-- The grant of the cycle is acknowledged. -/
def acknowledged (s : State EVNT_NUM) (i : Input EVNT_NUM) : Bool :=
  anyGnt s i.req_i && i.grant_ack_i

/-- The request `r` is up and its grant is not acknowledged. -/
def Waits (r : Fin EVNT_NUM) (s : State EVNT_NUM) (i : Input EVNT_NUM) : Prop :=
  i.req_i r=true ∧ ¬(gnt s i.req_i r=true ∧ i.grant_ack_i=true)

/-- A waiting request is passed over at most once from each place before it. -/
theorem passed_le (hN : 2≤EVNT_NUM) {s : State EVNT_NUM} {q r : Fin EVNT_NUM}
    (hq : OneHot s.r_priority q) {is : List (Input EVNT_NUM)} (hw : Meets step (Waits r) s is) :
    count step acknowledged s is≤dist q r := by
  induction is generalizing s q with
  | nil => exact Nat.zero_le _
  | cons i is ih =>
    rcases hw with ⟨⟨hreq,hno⟩,hrest⟩
    rcases exists_first q ⟨r,hreq⟩ with ⟨j,hj⟩
    have hany : anyGnt s i.req_i=true := (anyGnt_iff s i.req_i hN).mpr ⟨r,hreq⟩
    have hacked : acknowledged s i=i.grant_ack_i := by
      unfold acknowledged
      rw [hany,Bool.true_and]
    unfold count
    rw [hacked]
    cases hack : i.grant_ack_i with
    | false =>
      rw [step_idle hN (Or.inr hack)] at hrest ⊢
      have hle := ih hq hrest
      rw [if_neg Bool.false_ne_true,Nat.zero_add]
      exact hle
    | true =>
      have hne : r≠j := by
        rintro rfl
        exact hno ⟨(gnt_iff s i.req_i hN hq r).mpr hj,hack⟩
      have hle := ih (step_priority hN hq hj hack) hrest
      have hlt := hj.nearer hreq hne
      rw [if_pos rfl]
      omega

/-- What the arbiter does in a state. -/
structure Arbitrates (s : State EVNT_NUM) : Prop where
  /-- The grant vector has one set bit when there is a request, and else none. -/
  oneHot : ∀ req_i : Fin EVNT_NUM → Bool,
    ((∃ j, req_i j=true) → ∃ j, OneHot (gnt s req_i) j) ∧
      ((∀ j, req_i j=false) → ∀ j, gnt s req_i j=false)
  /-- Any grant is any request. -/
  any : ∀ req_i : Fin EVNT_NUM → Bool, anyGnt s req_i=true ↔ ∃ j, req_i j=true
  /-- The grant is that of the first request at or after the priority. -/
  first : ∃ q, OneHot s.r_priority q ∧
    ∀ req_i : Fin EVNT_NUM → Bool, ∀ j, gnt s req_i j=true ↔ First req_i q j
  /-- While a request waits, fewer grants are acknowledged than there are places. -/
  fair : ∀ (r : Fin EVNT_NUM) (is : List (Input EVNT_NUM)), Meets step (Waits r) s is →
    count step acknowledged s is<EVNT_NUM

theorem Sound.arbitrates (hN : 2≤EVNT_NUM) {s : State EVNT_NUM} (hs : Sound s) : Arbitrates s := by
  rcases hs with ⟨q,hq⟩
  refine ⟨fun req_i => ⟨fun hreq => ?_,fun hnone j => ?_⟩,fun req_i => anyGnt_iff s req_i hN,
    ⟨q,hq,fun req_i => gnt_iff s req_i hN hq⟩,fun r is hw => ?_⟩
  · rcases exists_first q hreq with ⟨j,hj⟩
    refine ⟨j,fun x => ?_⟩
    rw [gnt_iff s req_i hN hq]
    constructor
    · exact fun hx => hx.unique hj
    · rintro rfl
      exact hj
  · unfold gnt
    rw [hnone j]
    rfl
  · exact Nat.lt_of_le_of_lt (passed_le hN hq hw) (dist_lt q r)

/-- After every run from reset the arbiter grants in turn. -/
theorem round_robin (hN : 2≤EVNT_NUM) (is : List (Input EVNT_NUM)) :
    Arbitrates (after step (reset : State EVNT_NUM) is) :=
  (after_invariant (sound_step hN) sound_reset is).arbitrates hN

/-- Three requests, of which two are up. The second is granted first after the priority
moved on from the first. -/
theorem round_robin_three : Arbitrates (after step (reset : State 3)
      [⟨fun j => j.val != 2,true⟩]) ∧
    gnt (after step (reset : State 3) [⟨fun j => j.val != 2,true⟩]) (fun j => j.val != 2) 1=true :=
  ⟨round_robin (by decide) _,by decide⟩

end Runs

end Pulpissimo.Soc.EventArbiter
