import Mathlib.Data.Nat.Log
import Mathlib.Data.BitVec
import Pulpissimo.Lib.ArbTree

/-!
# The arbiter of the crossbar

`axi_ArbitrationTree` is a binary tree of `axi_FanInPrimitive_Req` over its inputs, filled
up to a power of two with inputs that never request. The level next to the output takes
the lowest bit of the round robin flag. The input that gets through is the only one
that is granted, and its data are those at the output.
-/

namespace Pulpissimo.Axi.NodeArb

variable {N_MASTER : ℕ} {α : Type*}

/-- Number of levels. -/
abbrev LOG_MASTER (N_MASTER : ℕ) : ℕ := Nat.clog 2 N_MASTER

section Code

variable (RR_FLAG : BitVec (LOG_MASTER N_MASTER)) (data_req_i : Fin N_MASTER → Bool)

/-- `RR_FLAG_FLIPPED`, by the number of levels below an arbiter. -/
def RR_FLAG_FLIPPED (d : ℕ) : Bool := RR_FLAG.getLsbD (LOG_MASTER N_MASTER-1-d)

/-- Requests of all inputs. -/
def data_req_int (k : ℕ) : Bool := if h : k<N_MASTER then data_req_i ⟨k,h⟩ else false

def data_req_o : Bool := ArbTree.anyReq (data_req_int data_req_i) (LOG_MASTER N_MASTER) 0

/-- Data that get through to a node. -/
def node (data : ℕ → α) : ℕ → ℕ → α
  | 0,k => data k
  | d+1,k =>
    if ArbTree.SEL (RR_FLAG_FLIPPED RR_FLAG d) (ArbTree.anyReq (data_req_int data_req_i) d (2*k))
        (ArbTree.anyReq (data_req_int data_req_i) d (2*k+1)) then node data d (2*k+1)
    else node data d (2*k)

/-- `data_AUX_o` and `data_ID_o`. -/
def data_o (data : Fin N_MASTER → α) (dummy : α) : α :=
  node RR_FLAG data_req_i (fun k => if h : k<N_MASTER then data ⟨k,h⟩ else dummy)
    (LOG_MASTER N_MASTER) 0

def data_gnt_o (data_gnt_i : Bool) (k : Fin N_MASTER) : Bool :=
  ArbTree.granted (data_req_int data_req_i) (RR_FLAG_FLIPPED RR_FLAG) (LOG_MASTER N_MASTER)
    data_gnt_i (LOG_MASTER N_MASTER) k.val

/-- `axi_RR_Flag_Req` after a cycle. -/
def RR_FLAG_next (data_gnt_i : Bool) : BitVec (LOG_MASTER N_MASTER) :=
  if data_req_o data_req_i && data_gnt_i then
    if RR_FLAG.toNat<N_MASTER-1 then RR_FLAG+1 else 0
  else RR_FLAG

/-- The leaf that wins. -/
def leaf : ℕ :=
  ArbTree.winner (data_req_int data_req_i) (RR_FLAG_FLIPPED RR_FLAG) (LOG_MASTER N_MASTER) 0

/-- The input that gets through. -/
def chosen : Option (Fin N_MASTER) :=
  if data_req_o data_req_i=true then
    if h : leaf RR_FLAG data_req_i<N_MASTER then some ⟨leaf RR_FLAG data_req_i,h⟩ else none
  else none

end Code

variable {RR_FLAG : BitVec (LOG_MASTER N_MASTER)} {data_req_i : Fin N_MASTER → Bool}

theorem node_eq (data : ℕ → α) (d k : ℕ) : node RR_FLAG data_req_i data d k=
    data (ArbTree.winner (data_req_int data_req_i) (RR_FLAG_FLIPPED RR_FLAG) d k) := by
  induction d generalizing k with
  | zero => rfl
  | succ d ih =>
    rw [node,ih,ih,ArbTree.winner]
    split_ifs <;> rfl

theorem data_req_int_val (k : Fin N_MASTER) : data_req_int data_req_i k.val=data_req_i k :=
  dif_pos k.isLt

theorem lt_of_data_req_int {k : ℕ} (h : data_req_int data_req_i k=true) : k<N_MASTER := by
  unfold data_req_int at h
  split_ifs at h with hlt
  exact hlt

/-- What gets through is the leaf that wins. -/
theorem chosen_iff {k : Fin N_MASTER} : chosen RR_FLAG data_req_i=some k ↔
    data_req_o data_req_i=true ∧ leaf RR_FLAG data_req_i=k.val := by
  unfold chosen
  constructor
  · intro h
    split_ifs at h with hreq
    exact ⟨hreq,congrArg Fin.val (Option.some.inj h)⟩
  · rintro ⟨hreq,hwin⟩
    rw [if_pos hreq]
    simp only [hwin,k.isLt,dif_pos]

theorem data_req_o_iff (RR_FLAG : BitVec (LOG_MASTER N_MASTER)) :
    data_req_o data_req_i=true ↔ ∃ k,chosen RR_FLAG data_req_i=some k := by
  constructor
  · intro hreq
    have hwin := lt_of_data_req_int (ArbTree.winner_requests (f:=RR_FLAG_FLIPPED RR_FLAG) hreq)
    exact ⟨⟨_,hwin⟩,(chosen_iff).mpr ⟨hreq,rfl⟩⟩
  · rintro ⟨k,hk⟩
    exact ((chosen_iff).mp hk).1

/-- What gets through is a request. -/
theorem chosen_requests {k : Fin N_MASTER} (h : chosen RR_FLAG data_req_i=some k) :
    data_req_i k=true := by
  rcases (chosen_iff).mp h with ⟨hreq,hwin⟩
  have hwinner := ArbTree.winner_requests (f:=RR_FLAG_FLIPPED RR_FLAG) hreq
  rw [show ArbTree.winner _ _ _ 0=k.val from hwin,data_req_int_val] at hwinner
  exact hwinner

theorem data_o_eq {k : Fin N_MASTER} (h : chosen RR_FLAG data_req_i=some k)
    (data : Fin N_MASTER → α) (dummy : α) : data_o RR_FLAG data_req_i data dummy=data k := by
  rw [data_o,node_eq]
  show (if h' : leaf RR_FLAG data_req_i<N_MASTER then data ⟨_,h'⟩ else dummy)=data k
  simp only [((chosen_iff).mp h).2,k.isLt,dif_pos]

/-- A leaf without a request is not granted. -/
theorem request_of_granted {r f : ℕ → Bool} {n p : ℕ} {gnt : Bool} (hn : 0<n)
    (h : ArbTree.granted r f n gnt n p=true) : r p=true := by
  obtain ⟨j,rfl⟩ : ∃ j,n=j+1 := ⟨n-1,by omega⟩
  rw [ArbTree.granted,show j+1-j-1=0 by omega] at h
  split_ifs at h with hside
  · rw [show 2*(p/2)=p by omega,Bool.and_eq_true_iff] at h
    change ((r p && !r (p+1)) || (r p && !f 0))=true ∧ _ at h
    revert h
    cases r p <;> simp
  · rw [show 2*(p/2)+1=p by omega,Bool.and_eq_true_iff] at h
    change ((!r (2*(p/2)) && r p) || (r p && f 0))=true ∧ _ at h
    revert h
    cases r p <;> simp

/-- The grant goes to the input that gets through. -/
theorem data_gnt_o_iff (hN : 2 ≤ N_MASTER) {data_gnt_i : Bool} {k : Fin N_MASTER} :
    data_gnt_o RR_FLAG data_req_i data_gnt_i k=true ↔
      data_gnt_i=true ∧ chosen RR_FLAG data_req_i=some k := by
  have hpos : 0<LOG_MASTER N_MASTER := Nat.clog_pos (by omega) hN
  have hfit : k.val<2^LOG_MASTER N_MASTER :=
    k.isLt.trans_le (Nat.le_pow_clog (by omega) N_MASTER)
  rw [chosen_iff,data_gnt_o]
  by_cases hreq : data_req_o data_req_i=true
  · rw [ArbTree.granted_iff (fun _ => hreq) (Nat.le_refl _) hfit,Nat.sub_self,ArbTree.below_zero]
    exact and_congr_right fun _ => ⟨fun h => ⟨hreq,h⟩,fun h => h.2⟩
  · refine ⟨fun h => absurd ?_ hreq,fun h => absurd h.2.1 hreq⟩
    have hleaf := request_of_granted hpos h
    refine (ArbTree.anyReq_iff).mpr ⟨k.val,⟨?_,?_⟩,hleaf⟩
    · rw [Nat.zero_mul]
      exact Nat.zero_le _
    · rwa [Nat.zero_add,Nat.one_mul]

end Pulpissimo.Axi.NodeArb
