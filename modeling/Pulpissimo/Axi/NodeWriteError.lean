import Pulpissimo.Axi.NodeWriteRoute

/-!
# Failing writes and the writes that are outstanding

A master port counts the writes that slaves took and did not yet respond to. A write
for no slave waits until there are none, its data are thrown away, and it gets an error
response. The decoder goes on when that response is offered, not when it is
taken, and the counter takes it for a response of a slave.
-/

namespace Pulpissimo.Axi.NodeWrite

open Pulpissimo.Axi.NodeDecode Pulpissimo.CommonCells Pulpissimo.Machine Pulpissimo.Tickets

variable {w : Widths}

section Responses

variable (n : Node w) (i : Input w) (m : Fin w.N_TARG_PORT)

/-- The error response that a cycle makes due. -/
def due : List (BBeat w) :=
  if aw_taken n i m && match_error (i.master m).regions (i.master m).awaddr_i then
    [⟨(i.master m).awid_i,DECERR,(i.master m).awuser_i⟩]
  else []

/-- The response that the port makes by itself and the master takes. -/
def answered : List (BBeat w) :=
  if error_gnt_o (n.resp m) && bvalid_o n i m && (i.master m).bready_i then [b_o n i m] else []

/-- The error response that is not yet taken. -/
def owed : List (BBeat w) :=
  if (n.resp m).aw_CS != .OPERATIVE || error_gnt_o (n.resp m) then
    [⟨(n.resp m).error_id_S,DECERR,(n.resp m).error_user_S⟩]
  else []

end Responses

section Step

variable {s : Watch w} {i : Input w} {m : Fin w.N_TARG_PORT}

theorem error_iff (htaken : aw_taken s.node i m=true) :
    error_detected (s.node.resp m) (i.master m)=
      match_error (i.master m).regions (i.master m).awaddr_i := by
  rw [aw_taken,awready_o,Bool.and_eq_true_iff,Bool.and_eq_true_iff] at htaken
  rcases htaken with ⟨hvalid,-,hready⟩
  have hgrant : grant_FIFO_DEST (s.node.resp m)=true := by
    rw [Bool.or_eq_true_iff] at hready
    rcases hready with herr | hint
    · unfold error_detected at herr
      rw [Bool.and_eq_true_iff,Bool.and_eq_true_iff] at herr
      exact herr.1.1
    · exact (Bool.and_eq_true_iff.mp hint).1
  rw [error_detected,hgrant,hvalid]
  rfl

/-- A write that a master hands over is for no slave exactly if no slave takes it. -/
theorem aw_dest_none_iff (ha : Alone i m) (htaken : aw_taken s.node i m=true) :
    aw_dest s.node i m=none ↔ match_error (i.master m).regions (i.master m).awaddr_i=true := by
  rw [←error_iff htaken]
  rcases (aw_taken_cases ha htaken).2 with ⟨herr,hnone⟩ | ⟨herr,j,hj⟩
  · exact ⟨fun _ => herr,fun _ => hnone⟩
  · rw [herr,hj]
    exact ⟨nofun,nofun⟩

theorem due_eq : due s.node i m=
    if sample_awdata_info_o (s.node.resp m) (i.master m) then
      [⟨(i.master m).awid_i,DECERR,(i.master m).awuser_i⟩] else [] := by
  rw [due,sample_awdata_info_o]
  cases htaken : aw_taken s.node i m with
  | true =>
    have hCS : ((s.node.resp m).aw_CS==.OPERATIVE)=true := by
      rw [aw_taken,awready_o,Bool.and_eq_true_iff,Bool.and_eq_true_iff] at htaken
      exact htaken.2.1
    rw [hCS,error_iff htaken]
  | false =>
    have hnone : ((s.node.resp m).aw_CS==.OPERATIVE &&
        error_detected (s.node.resp m) (i.master m))=false := by
      refine Bool.eq_false_iff.mpr fun h => ?_
      rw [Bool.and_eq_true_iff,beq_iff_eq] at h
      exact absurd ((error_taken h.1 h.2).symm.trans htaken) (by decide)
    rw [hnone]
    rfl

/-- The error response that is owed is the one that the master takes, and what becomes due is
owed then. -/
theorem answered_step (h : Inv s) (hC : Clear s i) :
    answered s.node i m++owed (s.step i).node m=owed s.node m++due s.node i m := by
  have hm := h.master m
  rw [due_eq]
  have hnext : owed (s.step i).node m=
      if aw_NS s.node i m != .OPERATIVE || bw_NS s.node i m==.ERROR_SINGLE then
        [⟨if sample_awdata_info_o (s.node.resp m) (i.master m) then (i.master m).awid_i
            else (s.node.resp m).error_id_S,DECERR,
          if sample_awdata_info_o (s.node.resp m) (i.master m) then (i.master m).awuser_i
            else (s.node.resp m).error_user_S⟩]
      else [] := rfl
  rw [hnext]
  cases hbw : (s.node.resp m).bw_CS with
  | OPERATIVE =>
    have hgnt : error_gnt_o (s.node.resp m)=false := by rw [error_gnt_o,hbw]; rfl
    have hnone : answered s.node i m=[] := by
      rw [answered,hgnt,Bool.false_and,Bool.false_and]
      rfl
    rw [hnone,List.nil_append]
    cases haw : (s.node.resp m).aw_CS with
    | OPERATIVE =>
      have howed : owed s.node m=[] := by rw [owed,haw,hgnt]; rfl
      have hrest : bw_NS s.node i m=.OPERATIVE := by
        rw [bw_NS,hbw,error_req_o,haw]
        rfl
      rw [howed,hrest,aw_NS,sample_awdata_info_o,haw]
      cases error_detected (s.node.resp m) (i.master m) <;> rfl
    | COMPLETE_PENDING | ACCEPT_WDATA | COMPLETE_ERROR_RESP =>
      have howed : owed s.node m=
          [⟨(s.node.resp m).error_id_S,DECERR,(s.node.resp m).error_user_S⟩] := by
        rw [owed,haw]
        rfl
      have hbusy : (aw_NS s.node i m != .OPERATIVE)=true := by
        rw [bne_iff_ne,aw_NS,haw]
        dsimp only
        first
          | rw [hgnt]
            decide
          | split_ifs <;> decide
      rw [howed,hbusy,sample_awdata_info_o,haw]
      rfl
  | ERROR_SINGLE =>
    rcases aw_NS_of_single h hC hbw with ⟨haw,hsample⟩
    have hgnt : error_gnt_o (s.node.resp m)=true := by rw [error_gnt_o,hbw]; rfl
    have howed : owed s.node m=
        [⟨(s.node.resp m).error_id_S,DECERR,(s.node.resp m).error_user_S⟩] := by
      rw [owed,hgnt,Bool.or_true]
      rfl
    rw [haw,hsample,howed,bw_NS,hbw,answered,bvalid_o,b_o,hgnt]
    cases (i.master m).bready_i <;> rfl
  | ERROR_BURST => exact absurd hbw hm.single

/-- Data for a failing write in front get to no slave, and wait until they are thrown away. -/
theorem swallows (h : Inv s) {q : ℕ} {p : List (ℕ×Option (Fin w.N_INIT_PORT))}
    (hp : s.pend m=(q,none)::p) : (∀ j,wvalid_o s.node i m j=false) ∧
      (w_taken s.node i m=true → handle_error_o (s.node.resp m)=true) := by
  have hm := h.master m
  have hnil : mapped (s.pend m)=[] := by
    by_contra hne
    have hfront := hm.shape.frontMapped_iff.mpr hne
    rw [hp] at hfront
    exact absurd hfront Bool.false_ne_true
  refine ⟨fun j => master_empty hm hnil,fun htaken => ?_⟩
  rcases ((w_taken_iff h).mp htaken).2 with hCS | ⟨j,⟨q',l,r,hl,-⟩,-⟩
  · rw [handle_error_o,hCS]
    rfl
  · exact absurd (hnil.symm.trans hl).symm (List.cons_ne_nil _ _)

/-- Steps to the end of an error response, those that wait not counted. -/
def rank (m : Fin w.N_TARG_PORT) (s : Watch w) : ℕ := match (s.node.resp m).aw_CS with
  | .COMPLETE_PENDING => 4+(s.node.resp m).outstanding_counter.toNat
  | .ACCEPT_WDATA => 3
  | .COMPLETE_ERROR_RESP => if error_gnt_o (s.node.resp m) then 1 else 2
  | .OPERATIVE => if error_gnt_o (s.node.resp m) then 1 else 0

theorem owed_of_rank (hr : rank m s=0) : owed s.node m=[] := by
  unfold rank at hr
  cases haw : (s.node.resp m).aw_CS with
  | OPERATIVE =>
    rw [haw] at hr
    dsimp only at hr
    split_ifs at hr with hgnt
    rw [owed,haw,Bool.eq_false_iff.mpr hgnt]
    rfl
  | COMPLETE_PENDING | ACCEPT_WDATA | COMPLETE_ERROR_RESP =>
    rw [haw] at hr
    dsimp only at hr
    first
      | omega
      | split_ifs at hr

/-- An error response waits for earlier responses, for the data and for the master, in this
order. -/
def Waits (m : Fin w.N_TARG_PORT) (s : Watch w) (i : Input w) : Prop :=
  (4 ≤ rank m s ∧ outstanding_trans_o (s.node.resp m)=true ∧ b_taken s.node i m=false) ∨
    (rank m s=3 ∧ ((i.master m).wvalid_i && (i.master m).w_i.wlast)=false) ∨
      (rank m s=1 ∧ (i.master m).bready_i=false)

/-- Responses of slaves count down while no write comes in. -/
theorem counter_down (h : Inv s) (hC : Clear s i) (hR : Responds s i)
    (hCS : (s.node.resp m).aw_CS≠.OPERATIVE) :
    ((s.step i).node.resp m).outstanding_counter.toNat+(b_taken s.node i m).toNat=
      (s.node.resp m).outstanding_counter.toNat := by
  have hnone : aw_dest s.node i m=none := by
    cases hdest : aw_dest s.node i m with
    | none => rfl
    | some j =>
      have htaken := (aw_taken_of_given ((aw_dest_iff (hC.alone m)).mp hdest)).1
      exact absurd (aw_taken_cases (hC.alone m) htaken).1 hCS
  have hcounter := counter_step (m:=m) h hC hR
  rw [hnone] at hcounter
  exact hcounter

theorem rank_step (h : Inv s) (hC : Clear s i) (hR : Responds s i) (hpos : 0 < rank m s) :
    rank m (s.step i) < rank m s ∨ (rank m (s.step i)=rank m s ∧ Waits m s i) := by
  have hm := h.master m
  have hnext : rank m (s.step i)=match aw_NS s.node i m with
      | .COMPLETE_PENDING => 4+((s.step i).node.resp m).outstanding_counter.toNat
      | .ACCEPT_WDATA => 3
      | .COMPLETE_ERROR_RESP => if bw_NS s.node i m==.ERROR_SINGLE then 1 else 2
      | .OPERATIVE => if bw_NS s.node i m==.ERROR_SINGLE then 1 else 0 := rfl
  cases hbw : (s.node.resp m).bw_CS with
  | OPERATIVE =>
    have hgnt : error_gnt_o (s.node.resp m)=false := by rw [error_gnt_o,hbw]; rfl
    cases haw : (s.node.resp m).aw_CS with
    | OPERATIVE =>
      rw [rank,haw,hgnt] at hpos
      exact absurd hpos (Nat.lt_irrefl 0)
    | COMPLETE_PENDING =>
      have hrank : rank m s=4+(s.node.resp m).outstanding_counter.toNat := by rw [rank,haw]
      have hdown := counter_down (m:=m) h hC hR (by rw [haw]; decide)
      cases hout : outstanding_trans_o (s.node.resp m) with
      | true =>
        have hstay : rank m (s.step i)=
            4+((s.step i).node.resp m).outstanding_counter.toNat := by
          rw [hnext,aw_NS,haw]
          dsimp only
          rw [hout]
          rfl
        cases hb : b_taken s.node i m with
        | true =>
          rw [hb,Bool.toNat_true] at hdown
          left
          omega
        | false =>
          rw [hb,Bool.toNat_false] at hdown
          exact Or.inr ⟨by omega,Or.inl ⟨by omega,hout,hb⟩⟩
      | false =>
        have hgo : rank m (s.step i)=3 := by
          rw [hnext,aw_NS,haw]
          dsimp only
          rw [hout]
          rfl
        left
        omega
    | ACCEPT_WDATA =>
      have hrank : rank m s=3 := by rw [rank,haw]
      have hdone : wdata_error_completed_o s.node i m=
          ((i.master m).wvalid_i && (i.master m).w_i.wlast) := by
        rw [wdata_error_completed_o,handle_error_o,haw,Bool.and_comm (i.master m).wvalid_i]
        rfl
      have hrest : bw_NS s.node i m=.OPERATIVE := by
        rw [bw_NS,hbw,error_req_o,haw]
        rfl
      rw [hnext,hrank,aw_NS,haw,hdone,hrest]
      cases hdata : (i.master m).wvalid_i && (i.master m).w_i.wlast with
      | true => exact Or.inl (Nat.lt_succ_self 2)
      | false => exact Or.inr ⟨rfl,Or.inr (Or.inl ⟨hrank,hdata⟩)⟩
    | COMPLETE_ERROR_RESP =>
      have hrank : rank m s=2 := by rw [rank,haw,hgnt]; rfl
      have hzero := hm.spent (Or.inr (Or.inl haw))
      have hoffer : bw_NS s.node i m=.ERROR_SINGLE := by
        rw [bw_NS,hbw,error_req_o,haw,outstanding_trans_o,hzero]
        rfl
      rw [hnext,hrank,aw_NS,haw,hgnt,hoffer]
      exact Or.inl (Nat.lt_succ_self 1)
  | ERROR_SINGLE =>
    have hgnt : error_gnt_o (s.node.resp m)=true := by rw [error_gnt_o,hbw]; rfl
    have hrank : rank m s=1 := by
      rcases hm.gnt hbw with haw | haw <;> rw [rank,haw,hgnt] <;> rfl
    rw [hnext,hrank,(aw_NS_of_single h hC hbw).1,bw_NS,hbw]
    cases hready : (i.master m).bready_i with
    | true => exact Or.inl Nat.one_pos
    | false => exact Or.inr ⟨rfl,Or.inr (Or.inr ⟨hrank,hready⟩)⟩
  | ERROR_BURST => exact absurd hbw hm.single

end Step

section Runs

/-- What the counter and the error responses of a master port have to do. -/
structure Accounts (env : ℕ → Input w) (m : Fin w.N_TARG_PORT) : Prop where
  /-- The counter is the number of writes that slaves took and did not respond to. -/
  counter : ∀ t,((run env t).node.resp m).outstanding_counter.toNat+(run env t).delivered m=
    (run env t).forwarded m
  /-- A write is taken by no slave exactly if its address is for none. -/
  unmapped : ∀ t,aw_taken (run env t).node (env t) m=true →
    (aw_dest (run env t).node (env t) m=none ↔
      match_error ((env t).master m).regions ((env t).master m).awaddr_i=true)
  /-- Data are thrown away only for a failing write in front. -/
  thrown : ∀ t,handle_error_o ((run env t).node.resp m)=true → ((env t).master m).wvalid_i=true →
    ∃ q p,(run env t).pend m=(q,none)::p
  /-- Data for a failing write in front are thrown away. -/
  swallowed : ∀ t q p,(run env t).pend m=(q,none)::p →
    (∀ j,wvalid_o (run env t).node (env t) m j=false) ∧
      (w_taken (run env t).node (env t) m=true → handle_error_o ((run env t).node.resp m)=true)
  /-- The error responses that are taken are those due, in order. -/
  order : ∀ n,∃ rest,logged (fun t => answered (run env t).node (env t) m) n++rest=
    logged (fun t => due (run env t).node (env t) m) n
  /-- All come where the slaves respond, the data come and the master takes responses. -/
  all : (∀ t,∃ u,t ≤ u ∧ (outstanding_trans_o ((run env u).node.resp m)=true →
      b_taken (run env u).node (env u) m=true)) →
    (∀ t,∃ u,t ≤ u ∧ (((env u).master m).wvalid_i && ((env u).master m).w_i.wlast)=true) →
    (∀ t,∃ u,t ≤ u ∧ ((env u).master m).bready_i=true) →
    ∀ n,∃ k,n ≤ k ∧ logged (fun t => answered (run env t).node (env t) m) k=
      logged (fun t => due (run env t).node (env t) m) k

variable {env : ℕ → Input w} {m : Fin w.N_TARG_PORT} (hC : ∀ t,Clear (run env t) (env t))
  (hR : ∀ t,Responds (run env t) (env t))
include hC hR

theorem answered_run (n : ℕ) : logged (fun t => due (run env t).node (env t) m) n=
    logged (fun t => answered (run env t).node (env t) m) n++owed (run env n).node m :=
  logged_ledger (l:=fun t => owed (run env t).node m) rfl fun t _ =>
    (answered_step (inv_run hC hR t) (hC t)).symm

theorem rank_down (hout : ∀ t,∃ u,t ≤ u ∧ (outstanding_trans_o ((run env u).node.resp m)=true →
      b_taken (run env u).node (env u) m=true))
    (hdata : ∀ t,∃ u,t ≤ u ∧ (((env u).master m).wvalid_i && ((env u).master m).w_i.wlast)=true)
    (hready : ∀ t,∃ u,t ≤ u ∧ ((env u).master m).bready_i=true) (t : ℕ)
    (hpos : 0 < rank m (run env t)) : ∃ u,t ≤ u ∧ rank m (run env u) < rank m (run env t) := by
  by_contra hnot
  have hsame : ∀ n,rank m (run env (t+n))=rank m (run env t) := by
    intro n
    induction n with
    | zero => rfl
    | succ n ih =>
      rcases rank_step (inv_run hC hR (t+n)) (hC (t+n)) (hR (t+n)) (ih ▸ hpos) with hlt | ⟨heq,-⟩
      · exact absurd ⟨t+(n+1),Nat.le_add_right _ _,ih ▸ hlt⟩ hnot
      · exact heq.trans ih
  have hwaits : ∀ u,t ≤ u → Waits m (run env u) (env u) ∧
      rank m (run env u)=rank m (run env t) := by
    intro u hu
    have hrank := hsame (u-t)
    rw [Nat.add_sub_cancel' hu] at hrank
    rcases rank_step (inv_run hC hR u) (hC u) (hR u) (hrank ▸ hpos) with hlt | ⟨-,hwait⟩
    · exact absurd ⟨u+1,Nat.le_succ_of_le hu,hrank ▸ hlt⟩ hnot
    · exact ⟨hwait,hrank⟩
  rcases (hwaits t (Nat.le_refl t)).1 with ⟨hr,-⟩ | ⟨hr,-⟩ | ⟨hr,-⟩
  · rcases hout t with ⟨u,hu,hend⟩
    rcases hwaits u hu with ⟨⟨-,htrans,hstay⟩ | ⟨hr',-⟩ | ⟨hr',-⟩,heq⟩
    · exact absurd ((hend htrans).symm.trans hstay) (by decide)
    · omega
    · omega
  · rcases hdata t with ⟨u,hu,hend⟩
    rcases hwaits u hu with ⟨⟨hr',-⟩ | ⟨-,hstay⟩ | ⟨hr',-⟩,heq⟩
    · omega
    · exact absurd (hend.symm.trans hstay) (by decide)
    · omega
  · rcases hready t with ⟨u,hu,hend⟩
    rcases hwaits u hu with ⟨⟨hr',-⟩ | ⟨hr',-⟩ | ⟨-,hstay⟩,heq⟩
    · omega
    · omega
    · exact absurd (hend.symm.trans hstay) (by decide)

end Runs

end Pulpissimo.Axi.NodeWrite
