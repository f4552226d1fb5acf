import Pulpissimo.Apb.Master
import Pulpissimo.Lib.Machine

/-!
# From APB to the peripheral interconnect

`apb2per` makes a request of every access of an APB master. A write is over with
its grant, and its response comes later, when the next access may be on. A read
waits for a response and takes the first that comes.
-/

namespace Pulpissimo.Apb.Apb2Per

open Pulpissimo.Machine Pulpissimo.Apb.Master

variable {PER_ADDR_WIDTH APB_ADDR_WIDTH : ℕ}

/-- States. -/
inductive Trans
  | TRANS_IDLE
  | TRANS_RUN
  deriving DecidableEq

/-- One cycle of inputs. -/
structure Input (APB_ADDR_WIDTH : ℕ) extends Lines APB_ADDR_WIDTH where
  per_master_gnt_i : Bool
  per_master_r_valid_i : Bool
  per_master_r_opc_i : Bool
  per_master_r_rdata_i : BitVec 32

/-- One cycle of outputs. -/
structure Output (PER_ADDR_WIDTH : ℕ) where
  PRDATA : BitVec 32
  PREADY : Bool
  PSLVERR : Bool
  per_master_req_o : Bool
  per_master_add_o : BitVec PER_ADDR_WIDTH
  per_master_we_o : Bool
  per_master_wdata_o : BitVec 32
  per_master_be_o : BitVec 4

section Code

variable (PER_ADDR_WIDTH : ℕ) (CS : Trans) (i : Input APB_ADDR_WIDTH)

/-- The next state. -/
def NS : Trans :=
  match CS with
  | .TRANS_IDLE =>
    if i.PSEL && i.PENABLE then
      if i.per_master_gnt_i then
        if i.access.PWRITE then .TRANS_IDLE else .TRANS_RUN
      else .TRANS_IDLE
    else .TRANS_IDLE
  | .TRANS_RUN => if i.per_master_r_valid_i then .TRANS_IDLE else .TRANS_RUN

def PREADY : Bool :=
  match CS with
  | .TRANS_IDLE => i.PSEL && i.PENABLE && i.per_master_gnt_i && i.access.PWRITE
  | .TRANS_RUN => i.per_master_r_valid_i

def per_master_req_o : Bool :=
  match CS with
  | .TRANS_IDLE => i.PSEL && i.PENABLE
  | .TRANS_RUN => false

/-- The outputs. -/
def output : Output PER_ADDR_WIDTH where
  PRDATA := i.per_master_r_rdata_i
  PREADY := PREADY CS i
  PSLVERR := false
  per_master_req_o := per_master_req_o CS i
  per_master_add_o := i.access.PADDR.setWidth PER_ADDR_WIDTH
  per_master_we_o := per_master_req_o CS i && i.access.PWRITE
  per_master_wdata_o := i.access.PWDATA
  per_master_be_o := BitVec.allOnes 4

end Code

/-- The adapter between a master and an interconnect. -/
structure Bus (APB_ADDR_WIDTH : ℕ) extends Begun APB_ADDR_WIDTH where
  CS : Trans
  /-- Requests that were granted for the access that was set up last. -/
  granted : ℕ
  /-- The accesses with a granted request that is not answered, in the order of the grants. -/
  waiting : List ℕ

namespace Bus

/-- Nothing is going on. -/
def reset (APB_ADDR_WIDTH : ℕ) : Bus APB_ADDR_WIDTH := ⟨Begun.reset APB_ADDR_WIDTH,.TRANS_IDLE,0,[]⟩

section Step

variable (w : Bus APB_ADDR_WIDTH) (i : Input APB_ADDR_WIDTH)

/-- The access is complete. -/
def completes : Bool := i.toLines.completes (PREADY w.CS i)

/-- A request is granted. -/
def grants : Bool := per_master_req_o w.CS i && i.per_master_gnt_i

/-- The requests that can be answered: those that wait, and the one that is granted. -/
def asked : List ℕ := w.waiting++if w.grants i then [w.number] else []

/-- One clock edge. -/
def step : Bus APB_ADDR_WIDTH where
  toBegun := w.toBegun.step i.toLines (PREADY w.CS i)
  CS := NS w.CS i
  granted := if i.setsUp then 0 else if w.grants i then w.granted+1 else w.granted
  waiting := if i.per_master_r_valid_i then (w.asked i).tail else w.asked i

/-- The master plays by the rules. The interconnect answers what it has granted, at the earliest
with the grant. -/
def Legal : Prop :=
  w.toBegun.Legal i.toLines ∧ (i.per_master_r_valid_i=true → w.asked i≠[])

instance : Decidable (w.Legal i) := inferInstanceAs (Decidable (_ ∧ _))

/-- A read that is granted is then the only access with a request that is not answered. -/
def Alone : Prop :=
  w.grants i=true → i.access.PWRITE=false →
    w.waiting.length=if i.per_master_r_valid_i=true then 1 else 0

instance : Decidable (w.Alone i) := inferInstanceAs (Decidable (_ → _ → _))

/-- Requests are those of the access that is on, one is granted before it is complete, and
a read is complete with the answer to its own. -/
structure Right (PER_ADDR_WIDTH : ℕ) (w : Bus APB_ADDR_WIDTH) (i : Input APB_ADDR_WIDTH) :
    Prop where
  request : (output PER_ADDR_WIDTH w.CS i).per_master_req_o=true →
    i.PSEL=true ∧ i.PENABLE=true ∧ w.access=some i.access ∧ w.granted=0 ∧
      output PER_ADDR_WIDTH w.CS i=(⟨i.per_master_r_rdata_i,PREADY w.CS i,false,true,
        i.access.PADDR.setWidth PER_ADDR_WIDTH,i.access.PWRITE,i.access.PWDATA,15#4⟩ :
          Output PER_ADDR_WIDTH)
  once : w.completes i=true → w.access=some i.access ∧
    w.granted+(if w.grants i=true then 1 else 0)=1
  own : w.completes i=true → i.access.PWRITE=false →
    i.per_master_r_valid_i=true ∧ (w.asked i).head?=some w.number ∧
      (output PER_ADDR_WIDTH w.CS i).PRDATA=i.per_master_r_rdata_i

end Step

/-- An idle adapter has no request of the access that is on, and one that runs has that of a
read, with nothing else to be answered. -/
structure Inv (w : Bus APB_ADDR_WIDTH) : Prop where
  idle : w.CS=.TRANS_IDLE → w.access≠none → w.granted=0
  run : w.CS=.TRANS_RUN → w.access≠none ∧ w.granted=1 ∧ w.waiting=[w.number]

variable {w : Bus APB_ADDR_WIDTH} {i : Input APB_ADDR_WIDTH}

theorem Inv.reset : (Bus.reset APB_ADDR_WIDTH).Inv :=
  ⟨fun _ _ => rfl,fun h => (nomatch h)⟩

theorem Inv.right (h : w.Inv) (hlegal : w.Legal i) :
    w.Right PER_ADDR_WIDTH i := by
  cases hCS : w.CS with
  | TRANS_IDLE =>
    have hbusy : (i.PSEL && i.PENABLE)=true → i.PSEL=true ∧ i.PENABLE=true ∧
        w.access=some i.access ∧ w.granted=0 := by
      intro hboth
      have hsel := Bool.and_eq_true_iff.mp hboth
      have hpending := hlegal.1.pending hsel.1 hsel.2
      have hon := hlegal.1.enabled hpending
      exact ⟨hon.1,hon.2.1,hon.2.2,h.idle hCS hpending⟩
    refine ⟨?_,?_,?_⟩
    · intro hreq
      have hon := hbusy (by simpa only [output,per_master_req_o,hCS] using hreq)
      refine ⟨hon.1,hon.2.1,hon.2.2.1,hon.2.2.2,?_⟩
      simp [output,per_master_req_o,hCS,hon.1,hon.2.1]
    · simp only [completes,Lines.completes,PREADY,grants,per_master_req_o,hCS,Bool.and_eq_true_iff]
      rintro ⟨hon,⟨-,hgnt⟩,-⟩
      have hpend := hbusy (Bool.and_eq_true_iff.mpr hon)
      rw [if_pos ⟨hon,hgnt⟩,hpend.2.2.2]
      exact ⟨hpend.2.2.1,rfl⟩
    · simp only [completes,Lines.completes,PREADY,hCS,Bool.and_eq_true_iff]
      rintro ⟨-,-,hwrite⟩ hread
      exact absurd (hwrite.symm.trans hread) Bool.false_ne_true.symm
  | TRANS_RUN =>
    rcases h.run hCS with ⟨hpending,hgranted,hwaiting⟩
    have hon := hlegal.1.enabled hpending
    have hnone : w.grants i=false := by simp only [grants,per_master_req_o,hCS,Bool.false_and]
    refine ⟨?_,?_,?_⟩
    · simp only [output,per_master_req_o,hCS]
      exact fun hreq => absurd hreq Bool.false_ne_true
    · intro _
      rw [hnone,hgranted]
      exact ⟨hon.2.2,rfl⟩
    · simp only [completes,Lines.completes,PREADY,hCS,Bool.and_eq_true_iff]
      rintro ⟨-,hvalid⟩ _
      rw [asked,hnone,hwaiting]
      exact ⟨hvalid,rfl,rfl⟩

/-- One cycle keeps what the adapter has. -/
theorem Inv.step (h : w.Inv) (hlegal : w.Legal i) (halone : w.Alone i) : (w.step i).Inv := by
  cases hCS : w.CS with
  | TRANS_IDLE =>
    cases hon : i.PSEL && i.PENABLE with
    | false =>
      have hnext : (w.step i).CS=.TRANS_IDLE := by simp [Bus.step,NS,hCS,hon]
      refine ⟨fun _ hacc => ?_,fun hrun => absurd (hnext.symm.trans hrun) (by decide)⟩
      have hnone : w.access=none := by
        by_contra hpending
        have hboth := hlegal.1.enabled hpending
        rw [hboth.1,hboth.2.1] at hon
        exact absurd hon Bool.false_ne_true.symm
      have hup := hlegal.1.setsUp hnone hacc
      simp [Bus.step,hup]
    | true =>
      have hboth := Bool.and_eq_true_iff.mp hon
      have hpending := hlegal.1.pending hboth.1 hboth.2
      have hup := hlegal.1.not_setsUp hpending
      have hnew : (w.step i).granted=if w.grants i=true then w.granted+1 else w.granted := by
        simp [Bus.step,hup]
      have hgrants : w.grants i=i.per_master_gnt_i := by
        simp only [grants,per_master_req_o,hCS,hon,Bool.true_and]
      have hzero := h.idle hCS hpending
      cases hgnt : i.per_master_gnt_i with
      | false =>
        have hnext : (w.step i).CS=.TRANS_IDLE := by simp [Bus.step,NS,hCS,hgnt]
        refine ⟨fun _ _ => ?_,fun hrun => absurd (hnext.symm.trans hrun) (by decide)⟩
        rw [hnew,hgrants,hgnt]
        exact hzero
      | true =>
        cases hwrite : i.access.PWRITE with
        | true =>
          -- the write is complete, and no access is set up
          have hnext : (w.step i).CS=.TRANS_IDLE := by simp [Bus.step,NS,hCS,hwrite]
          have hdone : (w.step i).access=none := Begun.step_access_of_completes (by
            simp [Lines.completes,PREADY,hCS,hboth.1,hboth.2,hgnt,hwrite])
          exact ⟨fun _ hacc => absurd hdone hacc,fun hrun => absurd (hnext.symm.trans hrun) (by decide)⟩
        | false =>
          have hnext : (w.step i).CS=.TRANS_RUN := by
            simp [Bus.step,NS,hCS,hboth.1,hboth.2,hgnt,hwrite]
          refine ⟨fun hidle => absurd (hnext.symm.trans hidle) (by decide),fun _ => ⟨?_,?_,?_⟩⟩
          · have hnot : w.completes i=false := by
              simp [completes,Lines.completes,PREADY,hCS,hwrite]
            exact (hlegal.1.stays hpending hnot).1.trans_ne hpending
          · rw [hnew,hgrants,hgnt,hzero]
            rfl
          · have hcount := halone (hgrants.trans hgnt) hwrite
            have hnumber : (w.step i).number=w.number := by simp [Bus.step,Begun.step,hup]
            have hqueue : (w.step i).waiting=if i.per_master_r_valid_i=true then
                (w.waiting++[w.number]).tail else w.waiting++[w.number] := by
              simp [Bus.step,asked,hgrants,hgnt]
            rw [hqueue,hnumber]
            split_ifs at hcount ⊢ with hvalid
            · rcases List.length_eq_one_iff.mp hcount with ⟨x,hx⟩
              rw [hx]
              rfl
            · rw [List.length_eq_zero_iff.mp hcount]
              rfl
  | TRANS_RUN =>
    rcases h.run hCS with ⟨hpending,hgranted,hwaiting⟩
    have hon := hlegal.1.enabled hpending
    have hnone : w.grants i=false := by simp only [grants,per_master_req_o,hCS,Bool.false_and]
    have hup := hlegal.1.not_setsUp hpending
    cases hvalid : i.per_master_r_valid_i with
    | true =>
      have hnext : (w.step i).CS=.TRANS_IDLE := by simp [Bus.step,NS,hCS,hvalid]
      have hdone : (w.step i).access=none := Begun.step_access_of_completes (by
        simp [Lines.completes,PREADY,hCS,hon.1,hon.2.1,hvalid])
      exact ⟨fun _ hacc => absurd hdone hacc,fun hrun => absurd (hnext.symm.trans hrun) (by decide)⟩
    | false =>
      have hnext : (w.step i).CS=.TRANS_RUN := by simp [Bus.step,NS,hCS,hvalid]
      refine ⟨fun hidle => absurd (hnext.symm.trans hidle) (by decide),fun _ => ⟨?_,?_,?_⟩⟩
      · have hnot : w.completes i=false := by
          simp [completes,Lines.completes,PREADY,hCS,hvalid]
        exact (hlegal.1.stays hpending hnot).1.trans_ne hpending
      · simp [Bus.step,hup,hnone,hgranted]
      · simp [Bus.step,Begun.step,hup,asked,hnone,hvalid,hwaiting]

section Progress

variable {env : ℕ → Input APB_ADDR_WIDTH}

/-- The bus in every cycle of an endless run. -/
def run (env : ℕ → Input APB_ADDR_WIDTH) (t : ℕ) : Bus APB_ADDR_WIDTH :=
  states Bus.step (Bus.reset APB_ADDR_WIDTH) env t

/-- Each request is granted after some time. -/
def Granting (env : ℕ → Input APB_ADDR_WIDTH) : Prop :=
  ∀ t, per_master_req_o (run env t).CS (env t)=true → ∃ m, (env (t+m)).per_master_gnt_i=true

/-- What was granted is answered after some time. -/
def Answering (env : ℕ → Input APB_ADDR_WIDTH) : Prop :=
  ∀ t, (run env t).waiting≠[] → ∃ m, (env (t+m)).per_master_r_valid_i=true

variable (hlegal : ∀ t, (run env t).Legal (env t)) (halone : ∀ t, (run env t).Alone (env t))
include hlegal halone

theorem run_inv (t : ℕ) : (run env t).Inv := by
  induction t with
  | zero => exact Inv.reset
  | succ t ih => exact ih.step (hlegal t) (halone t)

/-- A read that was granted is complete with the next answer. -/
theorem run_completes (hanswer : Answering env) {t : ℕ} (hrun : (run env t).CS=.TRANS_RUN) :
    ∃ u, t ≤ u ∧ (run env u).completes (env u)=true ∧ (run env u).number=(run env t).number := by
  have hinv := run_inv hlegal halone
  have hgo : ∃ m, (env (t+m)).per_master_r_valid_i=true := by
    refine hanswer t ?_
    rw [((hinv t).run hrun).2.2]
    exact List.cons_ne_nil _ _
  have hwait : ∀ u, ((run env u).CS=.TRANS_RUN ∧ (run env u).number=(run env t).number) →
      ¬(env u).per_master_r_valid_i=true →
      (run env (u+1)).CS=.TRANS_RUN ∧ (run env (u+1)).number=(run env t).number := by
    rintro u ⟨hCS,hnumber⟩ hno
    have hnot : (run env u).completes (env u)=false := by
      simp [completes,Lines.completes,PREADY,hCS,hno]
    have hstays := (hlegal u).1.stays ((hinv u).run hCS).1 hnot
    refine ⟨?_,hstays.2.trans hnumber⟩
    show NS (run env u).CS (env u)=.TRANS_RUN
    simp [NS,hCS,hno]
  rcases states_reach (W:=fun w : Bus APB_ADDR_WIDTH => w.CS=.TRANS_RUN ∧ w.number=(run env t).number)
    (G:=fun i : Input APB_ADDR_WIDTH => i.per_master_r_valid_i=true) hwait ⟨hrun,rfl⟩ hgo with
    ⟨u,htu,⟨hCS,hnumber⟩,hvalid⟩
  change (run env u).CS=.TRANS_RUN at hCS
  have hon := (hlegal u).1.enabled ((hinv u).run hCS).1
  have hready : PREADY (run env u).CS (env u)=true := by
    rw [hCS]
    exact hvalid
  refine ⟨u,htu,?_,hnumber⟩
  rw [completes,Lines.completes,hon.1,hon.2.1,hready]
  rfl

/-- An access that is on is complete after some time. -/
theorem pending_completes (hgrant : Granting env) (hanswer : Answering env) {t : ℕ}
    (hpending : (run env t).access≠none) :
    ∃ u, t ≤ u ∧ (run env u).completes (env u)=true ∧ (run env u).number=(run env t).number := by
  cases hCS : (run env t).CS with
  | TRANS_RUN => exact run_completes hlegal halone hanswer hCS
  | TRANS_IDLE =>
    have hreq : ∀ u, (run env u).access≠none → (run env u).CS=.TRANS_IDLE →
        per_master_req_o (run env u).CS (env u)=true := by
      intro u hpend hidle
      have hon := (hlegal u).1.enabled hpend
      rw [hidle,per_master_req_o,hon.1,hon.2.1]
      rfl
    have hwait : ∀ u, ((run env u).CS=.TRANS_IDLE ∧ (run env u).access≠none ∧
          (run env u).number=(run env t).number) → ¬(env u).per_master_gnt_i=true →
        (run env (u+1)).CS=.TRANS_IDLE ∧ (run env (u+1)).access≠none ∧
          (run env (u+1)).number=(run env t).number := by
      rintro u ⟨hidle,hpend,hnumber⟩ hno
      have hnot : (run env u).completes (env u)=false := by simp [completes,Lines.completes,PREADY,hidle,hno]
      have hstays := (hlegal u).1.stays hpend hnot
      refine ⟨?_,hstays.1.trans_ne hpend,hstays.2.trans hnumber⟩
      show NS (run env u).CS (env u)=.TRANS_IDLE
      simp [NS,hidle,hno]
    rcases states_reach (W:=fun w : Bus APB_ADDR_WIDTH => w.CS=.TRANS_IDLE ∧ w.access≠none ∧
        w.number=(run env t).number) (G:=fun i : Input APB_ADDR_WIDTH => i.per_master_gnt_i=true)
        hwait ⟨hCS,hpending,rfl⟩ (hgrant t (hreq t hpending hCS)) with
      ⟨u,htu,⟨hidle,hpend,hnumber⟩,hgnt⟩
    change (run env u).CS=.TRANS_IDLE at hidle
    have hon := (hlegal u).1.enabled hpend
    cases hwrite : (env u).access.PWRITE with
    | true =>
      refine ⟨u,htu,?_,hnumber⟩
      simp [completes,Lines.completes,PREADY,hidle,hon.1,hon.2.1,hgnt,hwrite]
    | false =>
      have hnot : (run env u).completes (env u)=false := by simp [completes,Lines.completes,PREADY,hidle,hwrite]
      have hstays := (hlegal u).1.stays hpend hnot
      have hnext : (run env (u+1)).CS=.TRANS_RUN := by
        show NS (run env u).CS (env u)=.TRANS_RUN
        simp [NS,hidle,hon.1,hon.2.1,hgnt,hwrite]
      rcases run_completes hlegal halone hanswer hnext with ⟨v,huv,hdone,hsame⟩
      exact ⟨v,htu.trans (Nat.le_of_succ_le huv),hdone,hsame.trans (hstays.2.trans hnumber)⟩

end Progress

end Bus

/-- In all runs of a master and an interconnect that play by the rules, where each read is granted
when nothing granted before it is left to be answered: requests are those of the access that is on,
each access has one granted request before it is complete, is complete once, and a read is
complete with its own answer. Where requests are granted and answered after some time, each access
is complete after some time. -/
theorem adapts :
    (∀ is : List (Input APB_ADDR_WIDTH),
      Meets Bus.step (fun w i => w.Legal i ∧ w.Alone i) (Bus.reset APB_ADDR_WIDTH) is →
        Meets Bus.step (fun w i => w.Right PER_ADDR_WIDTH i)
          (Bus.reset APB_ADDR_WIDTH) is ∧
        (if (after Bus.step (Bus.reset APB_ADDR_WIDTH) is).access.isSome=true then 1 else 0)+
            count Bus.step Bus.completes (Bus.reset APB_ADDR_WIDTH) is=
          count Bus.step (fun _ i => i.setsUp) (Bus.reset APB_ADDR_WIDTH) is) ∧
    ∀ env : ℕ → Input APB_ADDR_WIDTH,
      (∀ t, (Bus.run env t).Legal (env t) ∧ (Bus.run env t).Alone (env t)) →
        Bus.Granting env → Bus.Answering env → ∀ t, (Bus.run env t).access≠none →
          ∃ u, t ≤ u ∧ (Bus.run env u).completes (env u)=true ∧
            (Bus.run env u).number=(Bus.run env t).number := by
  have hstep : ∀ (w : Bus APB_ADDR_WIDTH) i, w.Inv → w.Legal i ∧ w.Alone i → (w.step i).Inv :=
    fun w i h hc => h.step hc.1 hc.2
  constructor
  · intro is hmeets
    refine ⟨meets_of_meets hstep (fun w i h hc => h.right hc.1) Bus.Inv.reset hmeets,?_⟩
    have hledger := count_ledger_of_meets (I:=fun _ (i : Input APB_ADDR_WIDTH) => i.setsUp) (O:=Bus.completes)
      (fun w : Bus APB_ADDR_WIDTH => if w.access.isSome=true then 1 else 0) hstep
      (fun w i _ hc => hc.1.1.balance) Bus.Inv.reset hmeets
    exact hledger.trans (Nat.zero_add _)
  · intro env hall hgrant hanswer t hpending
    exact Bus.pending_completes (fun t => (hall t).1) (fun t => (hall t).2) hgrant hanswer hpending

/-- Cycles of a master: it sets a write or a read up, enables it with or without a grant and
with or without an answer. -/
def setup (write : Bool) : Input 32 := ⟨⟨⟨4,7,write⟩,true,false⟩,false,false,false,0⟩

def enable (write gnt valid : Bool) : Input 32 := ⟨⟨⟨4,7,write⟩,true,true⟩,gnt,valid,false,9⟩

/-- The write is answered while the read is granted. -/
def answeredInTime : List (Input 32) :=
  [setup true,enable true true false,setup false,enable false true true,enable false false true]

/-- One read after the other, each granted at once and answered in the next cycle. -/
def reads (t : ℕ) : Input 32 :=
  if t%3=0 then setup false else if t%3=1 then enable false true false else enable false false true

theorem reads_rest (k : ℕ) : (Bus.run reads (3*k)).CS=.TRANS_IDLE ∧
    (Bus.run reads (3*k)).access=none ∧ (Bus.run reads (3*k)).waiting=[] := by
  induction k with
  | zero => exact ⟨rfl,rfl,rfl⟩
  | succ k ih =>
    have h0 : reads (3*k)=setup false := by simp [reads]
    have h1 : reads (3*k+1)=enable false true false := by simp [reads,Nat.add_mod]
    have h2 : reads (3*k+2)=enable false false true := by simp [reads,Nat.add_mod]
    have hrun : Bus.run reads (3*(k+1))=(((Bus.run reads (3*k)).step (reads (3*k))).step
        (reads (3*k+1))).step (reads (3*k+2)) := rfl
    rw [hrun,h0,h1,h2]
    generalize Bus.run reads (3*k)=w at ih
    rcases w with ⟨⟨access,number⟩,CS,granted,waiting⟩
    rcases ih with ⟨rfl,rfl,rfl⟩
    exact ⟨rfl,rfl,rfl⟩

/-- Each cycle of the reads is by the rules. -/
theorem reads_legal (t : ℕ) :
    (Bus.run reads t).Legal (reads t) ∧ (Bus.run reads t).Alone (reads t) := by
  have hrest := reads_rest (t/3)
  have h0 : reads (3*(t/3))=setup false := by simp [reads]
  have h1 : reads (3*(t/3)+1)=enable false true false := by simp [reads,Nat.add_mod]
  have h2 : reads (3*(t/3)+2)=enable false false true := by simp [reads,Nat.add_mod]
  have hr1 : Bus.run reads (3*(t/3)+1)=(Bus.run reads (3*(t/3))).step (reads (3*(t/3))) := rfl
  have hr2 : Bus.run reads (3*(t/3)+2)=(Bus.run reads (3*(t/3)+1)).step (reads (3*(t/3)+1)) := rfl
  have ht : t=3*(t/3) ∨ t=3*(t/3)+1 ∨ t=3*(t/3)+2 := by omega
  generalize t/3=k at *
  generalize hw : Bus.run reads (3*k)=w at *
  rcases w with ⟨⟨access,number⟩,CS,granted,waiting⟩
  rcases hrest with ⟨rfl,rfl,rfl⟩
  rcases ht with rfl | rfl | rfl
  · rw [hw,h0]
    simp [Bus.Legal,Begun.Legal,Bus.Alone,setup,Bus.grants,per_master_req_o]
  · rw [hr1,h0,h1]
    simp [Bus.Legal,Begun.Legal,Bus.Alone,setup,enable,Bus.step,Begun.step,NS,Lines.completes,PREADY,Bus.asked,Bus.grants,
      per_master_req_o]
  · rw [hr2,hr1,h0,h1,h2]
    simp [Bus.Legal,Begun.Legal,Bus.Alone,setup,enable,Bus.step,Begun.step,NS,Lines.completes,PREADY,Bus.asked,Bus.grants,
      per_master_req_o]

theorem adapts_reads :
    (Meets Bus.step (fun w i => w.Right 32 i) (Bus.reset 32) answeredInTime ∧
      (if (after Bus.step (Bus.reset 32) answeredInTime).access.isSome=true then 1 else 0)+
          count Bus.step Bus.completes (Bus.reset 32) answeredInTime=
        count Bus.step (fun _ i => i.setsUp) (Bus.reset 32) answeredInTime) ∧
    ∀ t, (Bus.run reads t).access≠none → ∃ u, t ≤ u ∧
      (Bus.run reads u).completes (reads u)=true ∧
        (Bus.run reads u).number=(Bus.run reads t).number := by
  have h1 : ∀ t, reads (3*t+1)=enable false true false := fun t => by simp [reads,Nat.add_mod]
  have h2 : ∀ t, reads (3*t+2)=enable false false true := fun t => by simp [reads,Nat.add_mod]
  have hall := @adapts 32 32
  refine ⟨hall.1 _ (by decide),hall.2 reads reads_legal (fun t _ => ?_) fun t _ => ?_⟩
  · refine ⟨3*t+1-t,?_⟩
    rw [show t+(3*t+1-t)=3*t+1 by omega,h1]
    rfl
  · refine ⟨3*t+2-t,?_⟩
    rw [show t+(3*t+2-t)=3*t+2 by omega,h2]
    rfl

/-- The write is answered after the read is granted. -/
def answeredLate : List (Input 32) :=
  [setup true,enable true true false,setup false,enable false true false,enable false false true]

/-- The read is complete with the answer to the write. -/
theorem answer_of_the_write : Meets Bus.step Bus.Legal (Bus.reset 32) answeredLate ∧
    ¬Meets Bus.step (fun w i => w.Right 32 i) (Bus.reset 32) answeredLate := by
  refine ⟨by decide,fun h => ?_⟩
  have hlast := (h.2.2.2.2.1.own (by decide) rfl).2.1
  exact absurd hlast (by decide)

end Pulpissimo.Apb.Apb2Per
