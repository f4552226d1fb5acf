import Mathlib.Data.BitVec
import Pulpissimo.Soc.EventArbiter

/-!
# The arbiter of the channels

`udma_arbiter` is the prefix network of the events' arbiter with its number of levels as a
parameter. Enough levels grant one of the requests, and no more levels than the ports allow
see whether there is one.
-/

namespace Pulpissimo.Udma.Arbiter

open Pulpissimo.RoundRobin Pulpissimo.Soc.EventArbiter

variable {N : ℕ}

/-- The last port. -/
theorem last_lt (hpos : 0 < N) : N-1 < N := by omega

/-- The last port of the lower half. -/
theorem half_lt (hpos : 0 < N) : N/2-1 < N := by omega

section Code

variable (S : ℕ) (s : State N) (req_i : Fin N → Bool)

/-- Grants. -/
def gnt : Fin N → Bool := fun j => req_i j && g s req_i S j

/-- Any grant, from the last propagate level. -/
def anyGnt [NeZero N] : Bool :=
  have hpos := Nat.pos_of_neZero N
  !(p s req_i (S-1) ⟨N-1,last_lt hpos⟩ && p s req_i (S-1) ⟨N/2-1,half_lt hpos⟩)

/-- One clock edge. -/
def step [NeZero N] (grant_ack_i : Bool) : State N :=
  if anyGnt S s req_i && grant_ack_i then ⟨fun j => gnt S s req_i (back 1 j)⟩ else s

end Code

/-- The levels fit the ports. -/
structure Fits (S N : ℕ) : Prop where
  pos : 0 < S
  /-- The levels reach around. -/
  span : N ≤ 2^S
  /-- The last level reaches around once at most. -/
  turn : 2^(S-1) ≤ N

theorem fits_clog (hN : 2 ≤ N) : Fits (Nat.clog 2 N) N :=
  ⟨Nat.clog_pos (by omega) hN,Nat.le_pow_clog (by omega) _,pow_S_le hN⟩

/-- The number of levels that the receiver takes. -/
def log2 (VALUE : ℕ) : ℕ := ((List.range 25).find? fun k => decide (VALUE < 2^k)).getD 25

theorem fits_log2 (hpos : 0 < N) (hN : N < 2^25) : Fits (log2 N) N := by
  unfold log2
  cases hfind : (List.range 25).find? fun k => decide (N < 2^k) with
  | none =>
    have hno := List.find?_range_eq_none.mp hfind 24 (by decide)
    refine ⟨by decide,hN.le,?_⟩
    simpa using hno
  | some k =>
    obtain ⟨hk,_,hno⟩ := List.find?_range_eq_some.mp hfind
    have hlt : N < 2^k := of_decide_eq_true hk
    rw [Option.getD_some]
    cases k with
    | zero => exact absurd hlt (Nat.not_lt.mpr hpos)
    | succ k =>
      have hbelow := hno k (Nat.lt_succ_self k)
      exact ⟨Nat.succ_pos k,hlt.le,by simpa using hbelow⟩

/-- The grants of a cycle: none where there is no request, and else one of the requests. -/
inductive Grants (req_i grant : Fin N → Bool) (any : Bool) : Prop
  | idle (hreq : ∀ j, req_i j=false) (hgrant : ∀ j, grant j=false) (hany : any=false)
  | one (q : Fin N) (hreq : req_i q=true) (hgrant : OneHot grant q) (hany : any=true)

section Runs

variable [NeZero N] {S : ℕ} {s : State N} {req_i : Fin N → Bool}

theorem anyGnt_iff (h : Fits S N) : anyGnt S s req_i=true ↔ ∃ j, req_i j=true := by
  have hhalf : N ≤ 2*2^(S-1) := by
    have hdouble := Nat.pow_succ' (m:=2) (n:=S-1)
    rw [Nat.succ_eq_add_one,Nat.sub_add_cancel h.pos] at hdouble
    exact hdouble ▸ h.span
  have hboth : anyGnt S s req_i=false ↔ ∀ j, req_i j=false := by
    rw [←halves_iff s req_i h.turn hhalf]
    exact iff_of_eq (Bool.not_eq_false' _)
  rw [←Bool.not_eq_false,hboth,not_forall]
  simp only [Bool.not_eq_false]

theorem grants_of_sound (h : Fits S N) (hs : Sound s) :
    Grants req_i (gnt S s req_i) (anyGnt S s req_i) := by
  rcases hs with ⟨q,hq⟩
  by_cases hreq : ∃ j, req_i j=true
  · rcases exists_first q hreq with ⟨j,hj⟩
    refine .one j hj.requests (fun k => ?_) ((anyGnt_iff h).mpr hreq)
    rw [gnt,granted_iff s req_i h.turn h.span hq]
    constructor
    · exact fun hk => hk.unique hj
    · rintro rfl
      exact hj
  · have hnone : ∀ j, req_i j=false := fun j => Bool.not_eq_true _ ▸ fun hj => hreq ⟨j,hj⟩
    refine .idle hnone (fun j => ?_) (Bool.not_eq_true _ ▸ fun hany => hreq ((anyGnt_iff h).mp hany))
    rw [gnt,hnone j,Bool.false_and]

/-- The priority keeps its one place. -/
theorem sound_step (h : Fits S N) (hs : Sound s) (grant_ack_i : Bool) :
    Sound (step S s req_i grant_ack_i) := by
  unfold step
  split_ifs with hack
  · rcases (grants_of_sound h hs : Grants req_i _ _) with ⟨_,_,hany⟩ | ⟨j,_,hgrant,_⟩
    · rw [hany] at hack
      exact absurd hack Bool.false_ne_true
    · refine ⟨ahead j 1,fun k => (hgrant (back 1 k)).trans ?_⟩
      constructor
      · rintro rfl
        exact (ahead_back k).symm
      · rintro rfl
        rw [show (1 : ℕ)=0+1 from rfl,back_ahead,ahead_zero]
  · exact hs

end Runs

end Pulpissimo.Udma.Arbiter
