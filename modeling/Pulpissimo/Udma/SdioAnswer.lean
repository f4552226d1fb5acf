import Pulpissimo.Udma.SdioCmd

/-!
# A command and its answer

What the command line has to do from a start on, for every card: the frame of the command, one
end of transfer for a response in time, and a status bit for every error. The frame is as it
should be, but no error is ever reported, the last bit of a short response is missing
in the data, and the card's busy signal is not awaited. So a command does what it has
to exactly where none of this matters.
-/

namespace Pulpissimo.Udma.SdioAnswer

open Polynomial Pulpissimo.Machine Pulpissimo.Udma.SdioCmd

/-- A start with a command, and nothing but this command from then on. -/
structure Starts (op : BitVec 6) (arg : BitVec 32) (rt : BitVec 3) (env : ℕ → Input) : Prop where
  start : (env 0).cmd_start_i=true
  op : (env 0).cmd_op_i=op
  arg : (env 0).cmd_arg_i=arg
  once : ∀ n, (env (n+1)).cmd_start_i=false
  clr : ∀ n, (env n).clr_stat_i=false
  rt : ∀ n, (env n).cmd_rsp_type_i=rt

/-- A response is expected. -/
def expects (rt : BitVec 3) : Bool := (rsp rt).s_rsp_en

/-- The response types of 48 bits. -/
def short (rt : BitVec 3) : Bool :=
  decide (rt=RSP_TYPE_48_CRC) || decide (rt=RSP_TYPE_48_NOCRC) || decide (rt=RSP_TYPE_48_BSY)

/-- Start bit, direction, opcode and argument. -/
def head (op : BitVec 6) (arg : BitVec 32) : List Bool :=
  false::true::(Crc.msbs op 6++Crc.msbs arg 32)

/-- Seven bits are the CRC7 of some others: the remainder of their polynomial. -/
def Checks (bs : List Bool) (crc : ℕ → Bool) : Prop :=
  ∃ v : BitVec 7,Crc.poly v=(Crc.message bs*X^7) %ₘ (X^7+(X^3+1)) ∧
    ∀ j, j < 7 → crc j=v.getLsbD (6-j)

section Answers

variable (rt : BitVec 3) (env : ℕ → Input) (st : ℕ → State)

/-- The card's start bit comes after `k` of the 38 cycles in which it is awaited. -/
structure Responds (k : ℕ) : Prop where
  time : k < 38
  high : ∀ j, j < k → (env (49+j)).sdcmd_i=true
  low : (env (49+k)).sdcmd_i=false

/-- Bit `j` of a response behind its direction bit. -/
def bit (k j : ℕ) : Bool := (env (51+k+j)).sdcmd_i

/-- The response's checksum is the one of its first 40 bits. -/
def CrcRight (k : ℕ) : Prop :=
  Checks (false::false::(List.range 38).map (bit env k)) fun j => bit env k (38+j)

/-- The command ends idle with a bit of the status register set. -/
def Reports (status : BitVec 7) : Prop :=
  ∃ n,∀ m, n ≤ m → (st m).r_state=.ST_IDLE ∧ (st m).r_status &&& status≠0

/-- What has to follow a response. The content is the argument field of 32 bits, or the
register of 127 bits behind six reserved ones. -/
structure Ends (k : ℕ) : Prop where
  eot : ∃ e,(∀ n, eot_o (st n) (env n)=true ↔ n=e) ∧
    (short rt=true → ∀ j, j < 32 → (rsp_data_o (st e)).getLsbD (31-j)=bit env k (6+j)) ∧
    (rt=RSP_TYPE_136 → ∀ j, j < 127 → (rsp_data_o (st e)).getLsbD (126-j)=bit env k (6+j)) ∧
    (rt=RSP_TYPE_48_CRC ∨ rt=RSP_TYPE_48_BSY → ¬CrcRight env k → (st (e+1)).r_status≠0) ∧
    (rt=RSP_TYPE_48_BSY → (∃ m,97+k ≤ m ∧ m ≤ e ∧ (env m).busy_i=false) ∨
      Reports st STATUS_RSP_BUSY_TIMEOUT)

/-- What a command has to do: the frame on the line, the end bit at its level, and the end that
belongs to the response type and to what the card does. -/
structure Answers (op : BitVec 6) (arg : BitVec 32) : Prop where
  line : ∀ k, k < 40 → sdcmd_o (st (k+2))=(head op arg).getD k true
  crc : Checks (head op arg) fun k => sdcmd_o (st (k+42))
  stop : sdcmd_o (st 49)=true
  enabled : ∀ k, k < 47 → sdcmd_oen_o (st (k+2))=false
  silent : expects rt=false → ∃ e,∀ n, eot_o (st n) (env n)=true ↔ n=e
  timeout : expects rt=true → (∀ j, j < 38 → (env (49+j)).sdcmd_i=true) →
    Reports st STATUS_RSP_TIMEOUT
  wrong_dir : expects rt=true → ∀ k, Responds env k → (env (50+k)).sdcmd_i=true →
    Reports st STATUS_RSP_WRONG_DIR
  answered : expects rt=true → ∀ k, Responds env k → (env (50+k)).sdcmd_i=false →
    Ends rt env st k

/-- The commands that the code gets right: those without a response, and those whose response
comes in time and with its direction bit, and if it is a short one, has one value in all bits of
the content and in the bit before them, with the right checksum if there is one, and no
busy card after it if that matters. -/
def Fits : Prop :=
  expects rt=false ∨ ∃ k,Responds env k ∧ (env (50+k)).sdcmd_i=false ∧
    (rt=RSP_TYPE_136 ∨ (∀ j, j < 32 → bit env k (6+j)=bit env k 5) ∧
      (rt=RSP_TYPE_48_NOCRC ∨ CrcRight env k ∧
        (rt=RSP_TYPE_48_CRC ∨ ∃ m,97+k ≤ m ∧ m ≤ 104+k ∧ (env m).busy_i=false)))

end Answers

section Command

variable {op : BitVec 6} {arg : BitVec 32} {rt : BitVec 3} {env : ℕ → Input} {s : State}

theorem Starts.calm (h : Starts op arg rt env) {n : ℕ} (hn : 0 < n) : Calm (env n) := by
  obtain ⟨m,rfl⟩ : ∃ m,n=m+1 := ⟨n-1,by omega⟩
  exact ⟨h.clr (m+1),h.once m⟩

/-- The command is loaded. -/
theorem Starts.first (h : Starts op arg rt env) (hidle : s.r_state=.ST_IDLE) :
    (states step s env 1).r_state=.ST_TX_START ∧ (states step s env 1).r_cmd=op++arg := by
  have hone : states step s env 1=step s (env 0) := rfl
  rw [hone]
  constructor
  · simp [step,comb,hidle,h.start,h.clr]
  · simp [step,comb,hidle,h.start,h.clr,h.op,h.arg]

/-- The start bit goes out and the checksum is cleared. -/
theorem Starts.second (h : Starts op arg rt env) (hidle : s.r_state=.ST_IDLE) :
    (states step s env 2).r_state=.ST_TX_DIR ∧ (states step s env 2).r_cmd=op++arg ∧
      (states step s env 2).r_crc=0 ∧ (states step s env 2).r_sdcmd=false ∧
      (states step s env 2).r_sdcmd_oen=false := by
  obtain ⟨hstate,hcmd⟩ := h.first hidle
  have htwo : states step s env 2=step (states step s env 1) (env 1) := rfl
  have hcalm := h.calm (n:=1) (by decide)
  rw [htwo]
  refine ⟨?_,?_,?_,?_,?_⟩ <;> simp [step,comb,hstate,hcmd,crc7,hcalm.clr,hcalm.start]

/-- The direction bit goes out. -/
theorem Starts.third (h : Starts op arg rt env) (hidle : s.r_state=.ST_IDLE) :
    TxShift (op++arg) 0 (states step s env 3) ∧ (states step s env 3).r_sdcmd=true ∧
      (states step s env 3).r_sdcmd_oen=false := by
  obtain ⟨hstate,hcmd,hcrc,-,-⟩ := h.second hidle
  have hthree : states step s env 3=step (states step s env 2) (env 2) := rfl
  have hcalm := h.calm (n:=2) (by decide)
  have hstart : (comb (states step s env 2) (env 2)).s_cnt_start=true ∧
      (comb (states step s env 2) (env 2)).s_cnt_target=37#8 := by
    simp [comb,hstate]
  have hcounts := Counts.start hstart.1
  rw [hstart.2] at hcounts
  rw [hthree]
  refine ⟨⟨?_,hcounts,?_,?_⟩,?_,?_⟩
  · simp [step,comb,hstate,hcalm.clr]
  · simp [step,comb,hstate,hcmd,hcalm.clr,hcalm.start]
  · simp only [step,comb,hstate,hcrc,crc7_sample]
    rfl
  · simp [step,comb,hstate]
  · simp [step,comb,hstate]

/-- The command and the argument go out. -/
theorem Starts.shift (h : Starts op arg rt env) (hidle : s.r_state=.ST_IDLE) {j : ℕ} (hj : j ≤ 37) :
    TxShift (op++arg) j (states step s env (3+j)) := by
  induction j with
  | zero => exact (h.third hidle).1
  | succ j ih =>
    have hcalm : Calm (env (3+j)) := h.calm (by omega)
    exact (ih (by omega)).next hj hcalm

/-- Checksum of a command. -/
def sentCrc (op : BitVec 6) (arg : BitVec 32) : BitVec 7 := Crc.crc gen7 (head op arg)

/-- The checksum goes out. -/
theorem Starts.checksum (h : Starts op arg rt env) (hidle : s.r_state=.ST_IDLE) {j : ℕ}
    (hj : j ≤ 6) : TxCrc (sentCrc op arg) j (states step s env (41+j)) := by
  induction j with
  | zero =>
    have hlast := (h.shift hidle (Nat.le_refl 37)).last (h.calm (n:=40) (by decide))
    rw [Crc.msbs_append] at hlast
    exact hlast
  | succ j ih =>
    have hcalm : Calm (env (41+j)) := h.calm (by omega)
    exact (ih (by omega)).next hj hcalm

theorem Starts.stops (h : Starts op arg rt env) (hidle : s.r_state=.ST_IDLE) :
    (states step s env 48).r_state=.ST_TX_STOP :=
  (h.checksum hidle (Nat.le_refl 6)).last (h.calm (n:=47) (by decide))

/-- The polynomial of the checksum. -/
theorem generator_gen7 : Crc.generator gen7=X^7+(X^3+1) := by
  rw [Crc.generator]
  congr 1
  ext k
  rw [Crc.coeff_poly,coeff_add,coeff_X_pow,coeff_one]
  rcases Nat.lt_or_ge k 7 with hk | hk
  · have hall : ∀ k, k < 7 → Crc.bit (gen7.getLsbD k)=
        (if k=3 then 1 else 0)+(if k=0 then 1 else 0) := by decide
    exact hall k hk
  · rw [BitVec.getLsbD_of_ge _ _ hk,if_neg (by omega),if_neg (by omega)]
    rfl

/-- Bits check exactly if they are what the checksum's register holds. -/
theorem checks_iff {bs : List Bool} {crc : ℕ → Bool} :
    Checks bs crc ↔ ∀ j, j < 7 → crc j=(Crc.crc gen7 bs).getLsbD (6-j) := by
  rw [Checks,←generator_gen7,←Crc.poly_crc (by decide)]
  constructor
  · rintro ⟨v,hv,hbits⟩
    rw [←Crc.poly_injective hv]
    exact hbits
  · exact fun hbits => ⟨_,rfl,hbits⟩

/-- The frame on the line. -/
theorem Starts.frame (h : Starts op arg rt env) (hidle : s.r_state=.ST_IDLE) :
    (∀ k, k < 40 → sdcmd_o (states step s env (k+2))=(head op arg).getD k true) ∧
    (Checks (head op arg) fun k => sdcmd_o (states step s env (k+42))) ∧
    sdcmd_o (states step s env 49)=true ∧
    ∀ k, k < 47 → sdcmd_oen_o (states step s env (k+2))=false := by
  have hshift : ∀ j, j ≤ 37 → (states step s env (j+4)).r_sdcmd=(op++arg).getLsbD (37-j) ∧
      (states step s env (j+4)).r_sdcmd_oen=false := by
    intro j hj
    have hplace : j+4=3+j+1 := by omega
    rw [hplace]
    exact (h.shift hidle hj).line hj
  have hcrc : ∀ j, j ≤ 6 → (states step s env (j+42)).r_sdcmd=(sentCrc op arg).getLsbD (6-j) ∧
      (states step s env (j+42)).r_sdcmd_oen=false := by
    intro j hj
    have hplace : j+42=41+j+1 := by omega
    rw [hplace]
    exact (h.checksum hidle hj).line hj
  obtain ⟨-,-,-,hstart,hstart'⟩ := h.second hidle
  obtain ⟨-,hdir,hdir'⟩ := h.third hidle
  refine ⟨?_,?_,(stop_line (h.stops hidle)).1,?_⟩
  · intro k hk
    rcases k with _ | _ | k
    · exact hstart
    · exact hdir
    · refine (hshift k (by omega)).1.trans ?_
      show _=(Crc.msbs op 6++Crc.msbs arg 32).getD k true
      rw [←Crc.msbs_append,Crc.msbs,List.getD_eq_getElem _ _ (by simp; omega),List.getElem_map,
        List.getElem_range]
  · exact checks_iff.mpr fun j hj => (hcrc j (by omega)).1
  · intro k hk
    rcases k with _ | _ | k
    · exact hstart'
    · exact hdir'
    · rcases Nat.lt_or_ge k 38 with hlt | hge
      · exact (hshift k (by omega)).2
      · obtain ⟨j,rfl⟩ : ∃ j,k=38+j := ⟨k-38,by omega⟩
        have hplace : 38+j+2+2=j+42 := by omega
        rw [hplace]
        exact (hcrc j (by omega)).2

/-- The end of the frame is not reached before its time. -/
theorem Starts.before (h : Starts op arg rt env) (hidle : s.r_state=.ST_IDLE) {n : ℕ}
    (hn : n < 49) : (states step s env n).r_state≠.ST_WAIT := by
  rcases n with _ | _ | _ | n
  · rw [show states step s env 0=s from rfl,hidle]
    decide
  · rw [(h.first hidle).1]
    decide
  · rw [(h.second hidle).1]
    decide
  · rcases Nat.lt_or_ge n 38 with hshift | hge
    · have hstate := (h.shift hidle (j:=n) (by omega)).state
      rw [Nat.add_comm] at hstate
      rw [hstate]
      decide
    · rcases Nat.lt_or_ge n 45 with hcrc | hlast
      · have hstate := (h.checksum hidle (j:=n-38) (by omega)).state
        have hplace : 41+(n-38)=n+3 := by omega
        rw [hplace] at hstate
        rw [hstate]
        decide
      · obtain rfl : n=45 := by omega
        rw [h.stops hidle]
        decide

/-- A state that counts down keeps doing so. -/
theorem Starts.descends (h : Starts op arg rt env) {f : Fsm} {r : BitVec 136} {t : ℕ} (ht : 0 < t)
    (hf : f=.ST_WAIT ∨ f=.ST_RX_CRC) (hpass : Passes f r 7 (states step s env t)) {j : ℕ}
    (hj : j ≤ 7) : Passes f r (7-j) (states step s env (t+j)) := by
  induction j with
  | zero => exact hpass
  | succ j ih =>
    have hplace : 7-j=7-(j+1)+1 := by omega
    have hcalm : Calm (env (t+j)) := h.calm (by omega)
    exact ((hplace ▸ ih (by omega)).next hf hcalm).1

theorem Starts.rests (h : Starts op arg rt env) {t : ℕ} (ht : 0 < t)
    (hstate : (states step s env t).r_state=.ST_IDLE) (n : ℕ) :
    (states step s env (t+n)).r_state=.ST_IDLE := by
  induction n with
  | zero => exact hstate
  | succ n ih => exact idle_stays ih (h.calm (by omega : 0 < t+n))

/-- The one end of transfer. -/
theorem Starts.ends (h : Starts op arg rt env) {r : BitVec 136} {t : ℕ} (ht : 0 < t)
    (hpass : Passes .ST_WAIT r 7 (states step s env t))
    (hbefore : ∀ n, n < t → (states step s env n).r_state≠.ST_WAIT) :
    (∀ n, eot_o (states step s env n) (env n)=true ↔ n=t+7) ∧
      (states step s env (t+7)).r_rsp=r := by
  have hlast : Passes .ST_WAIT r 0 (states step s env (t+7)) :=
    h.descends ht (.inl rfl) hpass (Nat.le_refl 7)
  refine ⟨fun n => ⟨fun heot => ?_,?_⟩,hlast.data⟩
  · by_contra hne
    refine Bool.false_ne_true (Eq.trans ?_ heot)
    symm
    rcases Nat.lt_or_ge n t with hlt | hge
    · exact eot_of_state (hbefore n hlt)
    · obtain ⟨j,rfl⟩ : ∃ j,n=t+j := ⟨n-t,by omega⟩
      rcases Nat.lt_or_ge j 7 with hj | hj
      · have hplace : 7-j=7-(j+1)+1 := by omega
        have hpassj := h.descends ht (.inl rfl) hpass (Nat.le_of_lt hj)
        exact ((hplace ▸ hpassj).next (.inl rfl) (h.calm (by omega))).2
      · have hidle := h.rests (t:=t+8) (by omega) (hlast.wait_last (i:=env (t+7))).1 (j-8)
        have hplace : t+8+(j-8)=t+j := by omega
        rw [hplace] at hidle
        exact eot_of_state (by rw [hidle]; decide)
  · rintro rfl
    exact hlast.wait_last.2

/-- A command without a response ends once. -/
theorem Starts.silent (h : Starts op arg rt env) (hidle : s.r_state=.ST_IDLE)
    (hrt : expects rt=false) :
    ∀ n, eot_o (states step s env n) (env n)=true ↔ n=56 := by
  have hwait := stop_wait (h.stops hidle) (h.calm (n:=48) (by decide)) ((h.rt 48).symm ▸ hrt)
  exact (h.ends (t:=49) (by decide) hwait fun n hn => h.before hidle hn).1

/-- The status register is never written. -/
theorem status_zero (hstatus : s.r_status=0) (n : ℕ) : (states step s env n).r_status=0 := by
  induction n with
  | zero => exact hstatus
  | succ n ih =>
    show (step (states step s env n) (env n)).r_status=0
    simp only [step,ih,ite_self]

theorem not_reports (hstatus : s.r_status=0) (m : BitVec 7) : ¬Reports (states step s env) m := by
  rintro ⟨n,hn⟩
  refine (hn n (Nat.le_refl n)).2 ?_
  rw [status_zero hstatus n]
  exact BitVec.zero_and

/-- The line is watched for a start bit. -/
theorem Starts.watches (h : Starts op arg rt env) (hidle : s.r_state=.ST_IDLE)
    (hrt : expects rt=true) {k : ℕ} (hk : Responds env k) {j : ℕ} (hj : j ≤ k) :
    (states step s env (49+j)).r_state=.ST_RX_START ∧ Counts (37-j) (states step s env (49+j)) := by
  induction j with
  | zero =>
    exact stop_start (h.stops hidle) (h.calm (n:=48) (by decide)) ((h.rt 48).symm ▸ hrt)
  | succ j ih =>
    obtain ⟨hstate,hcounts⟩ := ih (by omega)
    have htime := hk.time
    have hplace : 37-j=37-(j+1)+1 := by omega
    exact start_high hstate (hplace ▸ hcounts) (h.calm (by omega : 0 < 49+j)) (hk.high j hj)

/-- The response is shifted in. -/
theorem Starts.receives (h : Starts op arg rt env) (hidle : s.r_state=.ST_IDLE)
    (hrt : expects rt=true) {k : ℕ} (hk : Responds env k) (hdir : (env (50+k)).sdcmd_i=false)
    {j : ℕ} (hj : j ≤ (rsp rt).s_rsp_len.toNat) (hlen : (rsp rt).s_rsp_len.toNat < 136) :
    RxShift (rsp rt).s_rsp_len.toNat (bit env k) j (states step s env (51+k+j)) := by
  induction j with
  | zero =>
    have hstate : (states step s env (50+k)).r_state=.ST_RX_DIR := by
      have hplace : 50+k=49+k+1 := by omega
      rw [hplace]
      exact start_low (h.watches hidle hrt hk (Nat.le_refl k)).1 (h.calm (by omega)) hk.low
    have hshift := dir_low hstate (h.calm (by omega)) hdir (bit env k)
    have hplace : 51+k+0=50+k+1 := by omega
    rw [h.rt] at hshift
    rw [hplace]
    exact hshift
  | succ j ih => exact (ih (by omega)).next hlen hj (h.calm (by omega : 0 < 51+k+j)) rfl

/-- Before the end of the response the command does not end. -/
theorem Starts.before_end (h : Starts op arg rt env) (hidle : s.r_state=.ST_IDLE)
    (hrt : expects rt=true) {k : ℕ} (hk : Responds env k) (hdir : (env (50+k)).sdcmd_i=false)
    (hlen : (rsp rt).s_rsp_len.toNat < 136) {n : ℕ}
    (hn : n < 52+k+(rsp rt).s_rsp_len.toNat) : (states step s env n).r_state≠.ST_WAIT := by
  rcases Nat.lt_or_ge n 49 with hfirst | hge
  · exact h.before hidle hfirst
  · rcases Nat.lt_or_ge n (50+k) with hstart | hge'
    · have hstate := (h.watches hidle hrt hk (j:=n-49) (by omega)).1
      rw [Nat.add_sub_cancel' hge] at hstate
      rw [hstate]
      decide
    · rcases Nat.eq_or_lt_of_le hge' with rfl | hgt
      · have hstate : (states step s env (50+k)).r_state=.ST_RX_DIR := by
          have hplace : 50+k=49+k+1 := by omega
          rw [hplace]
          exact start_low (h.watches hidle hrt hk (Nat.le_refl k)).1 (h.calm (by omega)) hk.low
        rw [hstate]
        decide
      · have hstate := (h.receives hidle hrt hk hdir (j:=n-(51+k)) (by omega) hlen).state
        rw [Nat.add_sub_cancel' (by omega)] at hstate
        rw [hstate]
        decide

/-- A response ends once, with what was received still in the register. -/
theorem Starts.finishes (h : Starts op arg rt env) (hidle : s.r_state=.ST_IDLE)
    (hrt : expects rt=true) {k : ℕ} (hk : Responds env k) (hdir : (env (50+k)).sdcmd_i=false)
    (hlen : (rsp rt).s_rsp_len.toNat < 135) {e : ℕ}
    (he : e=52+k+(rsp rt).s_rsp_len.toNat+(if (rsp rt).s_rsp_crc=true then 15 else 7)) :
    (∀ n, eot_o (states step s env n) (env n)=true ↔ n=e) ∧
      Holds (bit env k) ((rsp rt).s_rsp_len.toNat+1) (states step s env e) := by
  have hshift := h.receives hidle hrt hk hdir (Nat.le_refl _) (Nat.lt_succ_of_lt hlen)
  have hcalm : Calm (env (51+k+(rsp rt).s_rsp_len.toNat)) := h.calm (by omega)
  have hholds := hshift.holds (by omega) hcalm rfl
  have hlast := hshift.last hcalm
  have hbefore := fun n hn => h.before_end hidle hrt hk hdir (Nat.lt_succ_of_lt hlen) (n:=n) hn
  rw [h.rt] at hlast
  have hplace : 52+k+(rsp rt).s_rsp_len.toNat=51+k+(rsp rt).s_rsp_len.toNat+1 := by omega
  set t := 52+k+(rsp rt).s_rsp_len.toNat with ht
  have hstep : states step s env t=
      step (states step s env (51+k+(rsp rt).s_rsp_len.toNat))
        (env (51+k+(rsp rt).s_rsp_len.toNat)) := by
    rw [hplace]
    rfl
  rw [←hstep] at hlast hholds
  cases hcrc : (rsp rt).s_rsp_crc with
  | false =>
    rw [hcrc,if_neg Bool.false_ne_true] at he hlast
    obtain ⟨heot,hdata⟩ := h.ends (by omega) hlast hbefore
    rw [he]
    refine ⟨heot,fun m hm => ?_⟩
    rw [hdata]
    exact hholds m hm
  | true =>
    rw [hcrc,if_pos rfl] at he hlast
    have hcount := fun j hj => h.descends (j:=j) (by omega) (.inr rfl) hlast hj
    have hwait : Passes .ST_WAIT (states step s env t).r_rsp 7 (states step s env (t+8)) :=
      (hcount 7 (Nat.le_refl 7)).crc_last (h.calm (by omega : 0 < t+7))
    have hbefore' : ∀ n, n < t+8 → (states step s env n).r_state≠.ST_WAIT := by
      intro n hn
      rcases Nat.lt_or_ge n t with hlt | hge
      · exact hbefore n hlt
      · have hstate := (hcount (n-t) (by omega)).state
        rw [Nat.add_sub_cancel' hge] at hstate
        rw [hstate]
        decide
    obtain ⟨heot,hdata⟩ := h.ends (by omega) hwait hbefore'
    rw [he]
    refine ⟨heot,fun m hm => ?_⟩
    have hplace' : t+15=t+8+7 := rfl
    rw [hplace',hdata]
    exact hholds m hm

/-- A word of the output is the register without its lowest bit. -/
theorem getLsbD_rsp_data {bit : ℕ → Bool} {n m : ℕ} (h : Holds bit n s) (hm : m+1 < n)
    (hm' : m < 128) : (rsp_data_o s).getLsbD m=bit (n-2-m) := by
  rw [rsp_data_o,BitVec.getLsbD_extractLsb',decide_eq_true hm',Bool.true_and,Nat.add_comm 1 m,
    h (m+1) hm]
  congr 1
  omega

/-- The content of a short response stands one place too low: it is right if all bits of it and the
bit before it are the same. -/
theorem content_iff {bit : ℕ → Bool} (h : Holds bit 38 s) :
    (∀ j, j < 32 → (rsp_data_o s).getLsbD (31-j)=bit (6+j)) ↔ ∀ j, j < 32 → bit (6+j)=bit 5 := by
  have hshift : ∀ j, j < 32 → (rsp_data_o s).getLsbD (31-j)=bit (5+j) := by
    intro j hj
    rw [getLsbD_rsp_data h (by omega) (by omega)]
    congr 1
    omega
  constructor
  · intro hright j
    induction j with
    | zero => exact fun hj => (hright 0 hj).symm.trans (hshift 0 hj)
    | succ j ih =>
      intro hj
      rw [←hright (j+1) hj,hshift (j+1) hj,←ih (by omega)]
      congr 1
      omega
  · intro hsame j hj
    rw [hshift j hj]
    cases j with
    | zero => exact (hsame 0 hj).symm
    | succ j =>
      rw [hsame (j+1) hj,←hsame j (by omega)]
      congr 1
      omega

end Command

/-- The types that expect a response. -/
theorem expects_cases {rt : BitVec 3} (h : expects rt=true) :
    rt=RSP_TYPE_136 ∨ rt=RSP_TYPE_48_NOCRC ∨ rt=RSP_TYPE_48_CRC ∨ rt=RSP_TYPE_48_BSY := by
  revert h
  revert rt
  decide

section Command

variable {op : BitVec 6} {arg : BitVec 32} {rt : BitVec 3} {env : ℕ → Input} {s : State}

/-- A long response ends as it should. -/
theorem Starts.ends_long (h : Starts op arg RSP_TYPE_136 env) (hidle : s.r_state=.ST_IDLE) {k : ℕ}
    (hk : Responds env k) (hdir : (env (50+k)).sdcmd_i=false) :
    Ends RSP_TYPE_136 env (states step s env) k := by
  obtain ⟨heot,hholds⟩ := h.finishes hidle rfl hk hdir (by decide) rfl
  have hlen : (rsp RSP_TYPE_136).s_rsp_len.toNat+1=134 := rfl
  rw [hlen] at hholds
  refine ⟨_,heot,fun hshort => ?_,fun _ j hj => ?_,fun hcrc => ?_,fun hbsy => ?_⟩
  · exact absurd hshort (by decide)
  · rw [getLsbD_rsp_data hholds (by omega) (by omega)]
    congr 1
    omega
  · exact absurd hcrc (by decide)
  · exact absurd hbsy (by decide)

/-- The end of a response is the one that its type gives. -/
theorem Ends.at_end {st : ℕ → State} {k e : ℕ} (h : Ends rt env st k)
    (heot : ∀ n, eot_o (st n) (env n)=true ↔ n=e) :
    (short rt=true → ∀ j, j < 32 → (rsp_data_o (st e)).getLsbD (31-j)=bit env k (6+j)) ∧
    (rt=RSP_TYPE_48_CRC ∨ rt=RSP_TYPE_48_BSY → ¬CrcRight env k → (st (e+1)).r_status≠0) ∧
    (rt=RSP_TYPE_48_BSY → (∃ m,97+k ≤ m ∧ m ≤ e ∧ (env m).busy_i=false) ∨
      Reports st STATUS_RSP_BUSY_TIMEOUT) := by
  rcases h.eot with ⟨e',heot',hcontent,-,hcrc,hbusy⟩
  obtain rfl : e'=e := (heot e').mp ((heot' e').mpr rfl)
  exact ⟨hcontent,hcrc,hbusy⟩

/-- A short response without a checksum ends as it should if its content is uniform. -/
theorem Starts.ends_nocrc (h : Starts op arg RSP_TYPE_48_NOCRC env) (hidle : s.r_state=.ST_IDLE)
    {k : ℕ} (hk : Responds env k) (hdir : (env (50+k)).sdcmd_i=false) :
    Ends RSP_TYPE_48_NOCRC env (states step s env) k ↔
      ∀ j, j < 32 → bit env k (6+j)=bit env k 5 := by
  obtain ⟨heot,hholds⟩ := h.finishes hidle rfl hk hdir (by decide) rfl
  rw [←content_iff hholds]
  constructor
  · exact fun hends => (hends.at_end heot).1 rfl
  · intro hcontent
    refine ⟨_,heot,fun _ => hcontent,fun hlong => ?_,fun hcrc => ?_,fun hbsy => ?_⟩
    · exact absurd hlong (by decide)
    · exact absurd hcrc (by decide)
    · exact absurd hbsy (by decide)

/-- One with a checksum if the checksum is right as well, and a card that may be busy if it
is not in some cycle before the end. -/
theorem Starts.ends_crc (h : Starts op arg rt env) (hidle : s.r_state=.ST_IDLE)
    (hstatus : s.r_status=0) (hrt : rt=RSP_TYPE_48_CRC ∨ rt=RSP_TYPE_48_BSY)
    {k : ℕ} (hk : Responds env k) (hdir : (env (50+k)).sdcmd_i=false) :
    Ends rt env (states step s env) k ↔
      (∀ j, j < 32 → bit env k (6+j)=bit env k 5) ∧ CrcRight env k ∧
        (rt=RSP_TYPE_48_CRC ∨ ∃ m,97+k ≤ m ∧ m ≤ 104+k ∧ (env m).busy_i=false) := by
  have htype : expects rt=true ∧ short rt=true ∧ rt≠RSP_TYPE_136 ∧
      (rsp rt).s_rsp_len=37#8 ∧ (rsp rt).s_rsp_crc=true := by
    rcases hrt with rfl | rfl <;> decide
  obtain ⟨hexpects,hshort,hlong,hlen,hcrc⟩ := htype
  have hends := h.finishes hidle hexpects hk hdir (by rw [hlen]; decide) rfl
  rw [hlen,hcrc,if_pos rfl] at hends
  have hplace : 52+k+(37#8).toNat+15=104+k := by
    show 52+k+37+15=104+k
    omega
  rw [hplace] at hends
  obtain ⟨heot,hholds⟩ := hends
  rw [←content_iff hholds]
  constructor
  · intro hends
    obtain ⟨hcontent,hright,hbusy⟩ := hends.at_end heot
    refine ⟨hcontent hshort,?_,?_⟩
    · by_contra hwrong
      exact hright hrt hwrong (status_zero hstatus _)
    · rcases hrt with hrt | hrt
      · exact .inl hrt
      · exact .inr ((hbusy hrt).resolve_right (not_reports hstatus _))
  · rintro ⟨hcontent,hright,hbusy⟩
    refine ⟨_,heot,fun _ => hcontent,fun hl => absurd hl hlong,fun _ hwrong => absurd hright hwrong,
      fun hbsy => .inl ?_⟩
    refine hbusy.resolve_left fun hcrc' => ?_
    exact absurd (hcrc'.symm.trans hbsy) (by decide)

/-- A response ends as it should exactly if it is one of those that the code gets right. -/
theorem Starts.ends_iff (h : Starts op arg rt env) (hidle : s.r_state=.ST_IDLE)
    (hstatus : s.r_status=0) (hrt : expects rt=true) {k : ℕ} (hk : Responds env k)
    (hdir : (env (50+k)).sdcmd_i=false) :
    Ends rt env (states step s env) k ↔
      (rt=RSP_TYPE_136 ∨ (∀ j, j < 32 → bit env k (6+j)=bit env k 5) ∧
        (rt=RSP_TYPE_48_NOCRC ∨ CrcRight env k ∧
          (rt=RSP_TYPE_48_CRC ∨ ∃ m,97+k ≤ m ∧ m ≤ 104+k ∧ (env m).busy_i=false))) := by
  by_cases hlong : rt=RSP_TYPE_136
  · subst hlong
    exact ⟨fun _ => .inl rfl,fun _ => h.ends_long hidle hk hdir⟩
  · rw [or_iff_right hlong]
    by_cases hnocrc : rt=RSP_TYPE_48_NOCRC
    · subst hnocrc
      rw [h.ends_nocrc hidle hk hdir]
      exact ⟨fun hsame => ⟨hsame,.inl rfl⟩,fun hsame => hsame.1⟩
    · rw [or_iff_right hnocrc]
      have hrest := ((expects_cases hrt).resolve_left hlong).resolve_left hnocrc
      exact h.ends_crc hidle hstatus hrest hk hdir

/-- The first low cycle is the only one that is. -/
theorem Responds.unique {k l : ℕ} (hk : Responds env k) (hl : Responds env l) : k=l := by
  rcases Nat.lt_trichotomy k l with hlt | heq | hgt
  · exact absurd (hk.low.symm.trans (hl.high k hlt)) Bool.false_ne_true
  · exact heq
  · exact absurd (hl.low.symm.trans (hk.high l hgt)) Bool.false_ne_true

/-- A card that does not leave the line high for 38 cycles gives a start bit. -/
theorem exists_responds (h : ¬∀ j, j < 38 → (env (49+j)).sdcmd_i=true) : ∃ k,Responds env k := by
  classical
  have hlow : ∃ j,j < 38 ∧ (env (49+j)).sdcmd_i=false := by
    by_contra hnone
    refine h fun j hj => Bool.eq_true_of_not_eq_false fun hfalse => hnone ⟨j,hj,hfalse⟩
  obtain ⟨htime,hfirst⟩ := Nat.find_spec hlow
  refine ⟨Nat.find hlow,htime,fun j hj => ?_,hfirst⟩
  exact Bool.eq_true_of_not_eq_false fun hfalse => Nat.find_min hlow hj ⟨Nat.lt_trans hj htime,hfalse⟩

/-- From every state in which a command can be started it does what it has to exactly if it is one
that the code gets right. -/
theorem Starts.answers_iff (h : Starts op arg rt env) (hidle : s.r_state=.ST_IDLE)
    (hstatus : s.r_status=0) : Answers rt env (states step s env) op arg ↔ Fits rt env := by
  constructor
  · intro hans
    cases hrt : expects rt with
    | false => exact .inl hrt
    | true =>
      obtain ⟨k,hk⟩ := exists_responds fun hhigh =>
        not_reports hstatus _ (hans.timeout hrt hhigh)
      have hdir : (env (50+k)).sdcmd_i=false := Bool.eq_false_of_not_eq_true fun hhigh =>
        not_reports hstatus _ (hans.wrong_dir hrt k hk hhigh)
      exact .inr ⟨k,hk,hdir,(h.ends_iff hidle hstatus hrt hk hdir).mp (hans.answered hrt k hk hdir)⟩
  · intro hfits
    obtain ⟨hline,hcrc,hstop,henabled⟩ := h.frame hidle
    refine ⟨hline,hcrc,hstop,henabled,fun hrt => ⟨56,h.silent hidle hrt⟩,fun hrt hhigh => ?_,
      fun hrt l hl hhigh => ?_,fun hrt l hl hdir => ?_⟩
    all_goals
      obtain ⟨k,hk,hlow,hrest⟩ := hfits.resolve_left fun hno =>
        Bool.false_ne_true (hno.symm.trans hrt)
    · exact absurd (hk.low.symm.trans (hhigh k hk.time)) Bool.false_ne_true
    · rw [hk.unique hl] at hlow
      exact absurd (hlow.symm.trans hhigh) Bool.false_ne_true
    · rw [hk.unique hl] at hrest
      exact (h.ends_iff hidle hstatus hrt hl hdir).mpr hrest

end Command

/-- The status register is zero in every state that the block comes to. -/
theorem status_after (is : List Input) : (after step reset is).r_status=0 := by
  refine after_invariant (P:=fun s : State => s.r_status=0) (fun s i hs => ?_) rfl is
  show (if i.clr_stat_i=true then 0 else s.r_status)=0
  rw [hs,ite_self]

/-- A command that is started in a reachable idle state does what it has to exactly if no response
is expected, or it comes in time and is one that the code gets right. -/
theorem answers_iff_fits (is : List Input) (hidle : (after step reset is).r_state=.ST_IDLE)
    {op : BitVec 6} {arg : BitVec 32} {rt : BitVec 3} {env : ℕ → Input}
    (h : Starts op arg rt env) :
    Answers rt env (states step (after step reset is) env) op arg ↔ Fits rt env :=
  h.answers_iff hidle (status_after is)

/-- A command with an argument and a card that does not answer. -/
def unanswered (rt : BitVec 3) (n : ℕ) : Input :=
  ⟨false,decide (n=0),0x2A#6,0x1234ABCD#32,rt,false,true⟩

theorem starts_unanswered (rt : BitVec 3) : Starts 0x2A#6 0x1234ABCD#32 rt (unanswered rt) :=
  ⟨rfl,rfl,rfl,fun n => decide_eq_false (Nat.succ_ne_zero n),fun _ => rfl,fun _ => rfl⟩

/-- A command without a response does what it has to. -/
theorem answers_iff_fits_silent :
    Answers RSP_TYPE_NULL (unanswered RSP_TYPE_NULL)
      (states step reset (unanswered RSP_TYPE_NULL)) 0x2A#6 0x1234ABCD#32 :=
  (answers_iff_fits [] rfl (starts_unanswered RSP_TYPE_NULL)).mpr (.inl rfl)

/-- A command whose response does not come sets no bit of the status register. -/
theorem not_answers_unanswered :
    ¬Answers RSP_TYPE_48_CRC (unanswered RSP_TYPE_48_CRC)
      (states step reset (unanswered RSP_TYPE_48_CRC)) 0x2A#6 0x1234ABCD#32 :=
  fun h => not_reports rfl _ (h.timeout rfl fun _ _ => rfl)

end Pulpissimo.Udma.SdioAnswer
