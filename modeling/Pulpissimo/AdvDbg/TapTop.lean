import Mathlib.Data.BitVec
import Mathlib.Data.List.Infix
import Pulpissimo.Lib.Machine

/-!
# The JTAG password gate

`adbg_tap_top` as an event-driven simulation: the state register, the
combinational next-state block with its side effects, which is evaluated when
the state or `tms_pad_i` changes, and the instruction register. The block
counts the password bits that match, without regard to those that do not, and
no reset clears the count. Test mode is off.
-/

namespace Pulpissimo.AdvDbg.TapTop

open Pulpissimo.Machine

/-- States of the controller. -/
inductive TapState
  | test_logic_reset | run_test_idle | select_dr_scan | capture_dr | shift_dr | exit1_dr | pause_dr
  | exit2_dr | update_dr | select_ir_scan | capture_ir | shift_ir | exit1_ir | pause_ir | exit2_ir
  | update_ir
  deriving DecidableEq

abbrev PASSWORD : BitVec 32 := 0xDEADBEEF

abbrev IDCODE : BitVec 4 := 0b0010
abbrev DEBUG : BitVec 4 := 0b1000

/-- Registers, and the levels of the pins. -/
structure State where
  /-- State. -/
  TAP_state : TapState
  /-- State after the next clock edge. -/
  next_TAP_state : TapState
  /-- The password was checked. -/
  passchk : Bool
  /-- Number of password bits that matched. -/
  correct : BitVec 32
  /-- Password. -/
  pass : BitVec 32
  /-- Next bit to match. -/
  bitindex : BitVec 5
  /-- Instruction register. -/
  jtag_ir : BitVec 4
  /-- Instruction in use. -/
  latched_jtag_ir : BitVec 4
  /-- Mode select. -/
  tms_pad_i : Bool
  /-- Data input. -/
  tdi_pad_i : Bool
  /-- Clock. -/
  tck_pad_i : Bool
  /-- Reset, active low. -/
  trstn_pad_i : Bool

/-- All registers at zero, which is the encoding of `exit2_dr`. -/
def powerUp (trstn_pad_i : Bool) : State :=
  ⟨.exit2_dr,.exit2_dr,false,0,0,0,0,0,false,false,false,trstn_pad_i⟩

/-- A pin gets a level. -/
inductive Event
  | tms_pad_i (level : Bool)
  | tdi_pad_i (level : Bool)
  | tck_pad_i (level : Bool)
  | trstn_pad_i (level : Bool)

/-- The debug module is selected. -/
def debug_select_o (s : State) : Bool := s.latched_jtag_ir==DEBUG

section Code

variable (s : State)

/-- The bit on `tdi_pad_i` is the next one of the password. -/
def matchesBit : Bool := s.tdi_pad_i==s.pass.getLsbD s.bitindex.toNat

/-- The next-state block. -/
def evaluate : State :=
  let goto (one zero : TapState) : State :=
    { s with next_TAP_state := if s.tms_pad_i then one else zero }
  match s.TAP_state with
  | .test_logic_reset => { s with
    passchk := false
    next_TAP_state := if s.tms_pad_i then .test_logic_reset else .run_test_idle }
  | .run_test_idle =>
    if s.tms_pad_i && s.passchk then { s with next_TAP_state := .select_dr_scan }
    else if 0x0001FFFF ≤ s.correct then { s with
      next_TAP_state := .run_test_idle
      passchk := true }
    else if matchesBit s then { s with
      next_TAP_state := .run_test_idle
      correct := s.correct+1
      bitindex := s.bitindex+1 }
    else { s with next_TAP_state := .run_test_idle }
  | .select_dr_scan => goto .select_ir_scan .capture_dr
  | .capture_dr => goto .exit1_dr .shift_dr
  | .shift_dr => goto .exit1_dr .shift_dr
  | .exit1_dr => goto .update_dr .pause_dr
  | .pause_dr => goto .exit2_dr .pause_dr
  | .exit2_dr => goto .update_dr .shift_dr
  | .update_dr => goto .select_dr_scan .run_test_idle
  | .select_ir_scan => goto .test_logic_reset .capture_ir
  | .capture_ir => goto .exit1_ir .shift_ir
  | .shift_ir => goto .exit1_ir .shift_ir
  | .exit1_ir => goto .update_ir .pause_ir
  | .pause_ir => goto .exit2_ir .pause_ir
  | .exit2_ir => goto .update_ir .shift_ir
  | .update_ir => goto .select_dr_scan .run_test_idle

/-- The registers that a reset sets. -/
def resetRegisters : State := { s with
  TAP_state := .test_logic_reset
  pass := PASSWORD
  jtag_ir := 0 }

/-- Rising clock edge. -/
def tckRise : State :=
  if s.trstn_pad_i then { s with
    TAP_state := s.next_TAP_state
    jtag_ir :=
      match s.TAP_state with
      | .test_logic_reset => 0
      | .capture_ir => 0b0101
      | .shift_ir => BitVec.ofBool s.tdi_pad_i++s.jtag_ir.extractLsb' 1 3
      | _ => s.jtag_ir }
  else resetRegisters s

/-- Falling clock edge. -/
def tckFall : State := { s with
  latched_jtag_ir :=
    if s.trstn_pad_i then
      match s.TAP_state with
      | .test_logic_reset => IDCODE
      | .update_ir => s.jtag_ir
      | _ => s.latched_jtag_ir
    else IDCODE }

/-- What an event does before the next-state block is evaluated. -/
def drive (e : Event) : State :=
  match e with
  | .tms_pad_i b => { s with tms_pad_i := b }
  | .tdi_pad_i b => { s with tdi_pad_i := b }
  | .tck_pad_i b =>
    if b==s.tck_pad_i then s
    else { (if b then tckRise s else tckFall s) with tck_pad_i := b }
  | .trstn_pad_i b =>
    if b==s.trstn_pad_i || b then { s with trstn_pad_i := b }
    else { resetRegisters s with
      latched_jtag_ir := IDCODE
      trstn_pad_i := b }

/-- The next-state block is evaluated. -/
def triggers (e : Event) : Bool :=
  (drive s e).TAP_state != s.TAP_state || (drive s e).tms_pad_i != s.tms_pad_i

/-- One event. -/
def step (e : Event) : State := if triggers s e then evaluate (drive s e) else drive s e

end Code

/-- The controller with the bits that were presented since the last reset: one
for each evaluation in `run_test_idle` that does not leave it. -/
structure Watched where
  /-- The controller. -/
  tap : State
  /-- Bits presented. -/
  guesses : List Bool

/-- The event presents a bit. -/
def Watched.presents (w : Watched) (e : Event) : Bool :=
  triggers w.tap e && (drive w.tap e).TAP_state==.run_test_idle &&
    !((drive w.tap e).tms_pad_i && (drive w.tap e).passchk)

/-- One event, watched. -/
def Watched.step (w : Watched) (e : Event) : Watched where
  tap := TapTop.step w.tap e
  guesses :=
    if (drive w.tap e).TAP_state=.test_logic_reset then []
    else if w.presents e then w.guesses++[(drive w.tap e).tdi_pad_i]
    else w.guesses

/-- After power-up. -/
def Watched.start (trstn_pad_i : Bool) : Watched := ⟨powerUp trstn_pad_i,[]⟩

/-- The first `k` bits of the password. -/
def bits (k : ℕ) : List Bool := (List.range k).map PASSWORD.getLsbD

/-- The password was presented in order, with no wrong bit in between. -/
def Presented (guesses : List Bool) : Prop := bits 32 <:+: guesses

/-- The gate: `run_test_idle` is left towards `select_dr_scan`, and the debug
module gets selected, only after the password was presented. -/
structure Gate (w : Watched) (e : Event) : Prop where
  leave : w.tap.TAP_state=.run_test_idle → (w.step e).tap.TAP_state=.select_dr_scan →
    Presented w.guesses
  select : debug_select_o w.tap=false → debug_select_o (w.step e).tap=true → Presented w.guesses

/-- No event of a run passes the gate otherwise. -/
def Gated (w : Watched) (events : List Event) : Prop := Meets Watched.step Gate w events

/-- Number of matching bits before the last whole password that is counted. -/
abbrev lastStart : ℕ := 0x1FFC0

/-- The event does not profit from what the block forgets: the clock starts
after a reset; while the last whole password is counted and none was presented
before it, no bit is wrong; and there is no reset after its first bit. -/
structure Careful (w : Watched) (e : Event) : Prop where
  loaded : e=.tck_pad_i true → w.tap.tck_pad_i=false → w.tap.trstn_pad_i=true →
    w.tap.pass=PASSWORD
  right : w.presents e=true → lastStart<w.tap.correct.toNat →
    w.tap.correct.toNat<lastStart+32 → ¬Presented w.guesses → matchesBit (drive w.tap e)=true
  early : (drive w.tap e).TAP_state=.test_logic_reset → w.tap.correct.toNat≤lastStart

/-- The password was presented, or the last bits are its first `k`. -/
def Progress (guesses : List Bool) (k : ℕ) : Prop := Presented guesses ∨ bits k <:+ guesses

theorem bits_succ (k : ℕ) : bits (k+1)=bits k++[PASSWORD.getLsbD k] := by
  unfold bits
  rw [List.range_succ,List.map_append]
  rfl

theorem Progress.presented {guesses : List Bool} (h : Progress guesses 32) : Presented guesses :=
  h.elim id List.IsSuffix.isInfix

/-- Bits that follow do not matter. -/
theorem Presented.any {guesses : List Bool} (h : Presented guesses) (b : Bool) :
    Presented (guesses++[b]) :=
  List.IsInfix.trans h (List.prefix_append guesses [b]).isInfix

/-- A first right bit. -/
theorem progress_one (guesses : List Bool) : Progress (guesses++[PASSWORD.getLsbD 0]) 1 :=
  Or.inr (List.suffix_append guesses [PASSWORD.getLsbD 0])

/-- One more right bit. -/
theorem Progress.right {guesses : List Bool} {k : ℕ} (h : Progress guesses k) :
    Progress (guesses++[PASSWORD.getLsbD k]) (k+1) := by
  rcases h with hdone | ⟨before,hbits⟩
  · exact Or.inl (hdone.any _)
  · refine Or.inr ⟨before,?_⟩
    rw [bits_succ,←List.append_assoc,hbits]

/-- What the counter says about the presented bits. -/
structure Counted (s : State) (guesses : List Bool) : Prop where
  index : s.bitindex.toNat=s.correct.toNat%32
  bound : s.correct.toNat≤0x1FFFF
  checked : s.passchk=true → s.correct.toNat=0x1FFFF
  progress : lastStart < s.correct.toNat → Progress guesses (min (s.correct.toNat-lastStart) 32)

/-- Outside the two idle states the password was presented. -/
def Placed (s : State) (guesses : List Bool) : Prop :=
  s.pass=PASSWORD ∧ (s.TAP_state=.test_logic_reset ∨ s.TAP_state=.run_test_idle ∨
    Presented guesses) ∨ s.TAP_state=.exit2_dr ∧ s.pass≠PASSWORD

/-- The next state stays in the two idle states unless the password was presented. -/
def Heading (s : State) (guesses : List Bool) : Prop :=
  s.pass=PASSWORD → s.next_TAP_state=.test_logic_reset ∨ s.next_TAP_state=.run_test_idle ∨
    s.TAP_state≠.test_logic_reset ∧ Presented guesses

/-- What holds after every event. -/
structure Inv (w : Watched) : Prop where
  counted : Counted w.tap w.guesses
  placed : Placed w.tap w.guesses
  heading : Heading w.tap w.guesses

section Invariant

variable {s : State} {guesses : List Bool}

theorem lastStart_eq : lastStart=131008 := rfl

theorem checked_presented (hC : Counted s guesses) (h : s.passchk=true) : Presented guesses := by
  have hl := lastStart_eq
  have hfull := hC.checked h
  have hp := hC.progress (by omega)
  rw [hfull] at hp
  exact hp.presented

/-- In `run_test_idle` a bit is presented, or the password was. -/
theorem evaluate_run_test_idle (hC : Counted s guesses) (hs : s.TAP_state=.run_test_idle)
    (hp : s.pass=PASSWORD) (hstay : (s.tms_pad_i && s.passchk)=false)
    (hright : lastStart < s.correct.toNat → s.correct.toNat<lastStart+32 → ¬Presented guesses →
      matchesBit s=true) :
    Counted (evaluate s) (guesses++[s.tdi_pad_i]) ∧ (evaluate s).next_TAP_state=.run_test_idle ∧
      (evaluate s).pass=s.pass ∧ (evaluate s).TAP_state=s.TAP_state := by
  have hl := lastStart_eq
  -- a bit that is not counted keeps the progress: it is right unless the password was presented
  have hkeep : (matchesBit s=true → s.correct.toNat=0x1FFFF) → lastStart < s.correct.toNat →
      Progress (guesses++[s.tdi_pad_i]) (min (s.correct.toNat-lastStart) 32) := by
    intro hmiss hlast
    by_cases hdone : Presented guesses
    · exact Or.inl (hdone.any _)
    · have hfull : lastStart+32 ≤ s.correct.toNat := by
        by_contra hlt
        have hm := hmiss (hright hlast (by omega) hdone)
        omega
      have hprog := hC.progress hlast
      rw [min_eq_right (by omega)] at hprog
      exact absurd hprog.presented hdone
  unfold evaluate
  rw [hs]
  dsimp only
  rw [hstay,if_neg Bool.false_ne_true]
  by_cases hthr : 0x0001FFFF ≤ s.correct
  · rw [if_pos hthr]
    have hfull : s.correct.toNat=0x1FFFF := by
      have hle : (0x0001FFFF#32).toNat ≤ s.correct.toNat := hthr
      have hbound := hC.bound
      simp at hle
      omega
    exact ⟨⟨hC.index,hC.bound,fun _ => hfull,hkeep fun _ => hfull⟩,rfl,rfl,rfl⟩
  · rw [if_neg hthr]
    have hlt : s.correct.toNat<0x1FFFF := by
      have hnle : ¬(0x0001FFFF#32).toNat ≤ s.correct.toNat := hthr
      simp at hnle
      omega
    by_cases hm : matchesBit s=true
    · rw [if_pos hm]
      have hsucc : (s.correct+1).toNat=s.correct.toNat+1 := by
        rw [BitVec.toNat_add]
        simp
        omega
      have hnext : (s.bitindex+1).toNat=(s.correct+1).toNat%32 := by
        have hi := hC.index
        rw [hsucc,BitVec.toNat_add]
        simp
        omega
      have hbit : s.tdi_pad_i=PASSWORD.getLsbD (s.correct.toNat%32) := by
        have heq : s.tdi_pad_i=s.pass.getLsbD s.bitindex.toNat := by simpa [matchesBit] using hm
        rw [heq,hp,hC.index]
      refine ⟨⟨hnext,?_,?_,?_⟩,rfl,rfl,rfl⟩
      · change (s.correct+1).toNat≤_
        omega
      · intro hchk
        have := hC.checked hchk
        omega
      · change lastStart<(s.correct+1).toNat → Progress _ (min ((s.correct+1).toNat-lastStart) 32)
        rw [hsucc,hbit]
        intro hlast
        rcases Nat.lt_or_ge s.correct.toNat (lastStart+32) with hin | hout
        · rw [min_eq_left (by omega)]
          rcases Nat.eq_or_lt_of_le (Nat.le_of_lt_succ hlast) with hfirst | hmore
          · rw [←hfirst,Nat.add_sub_cancel_left]
            exact progress_one guesses
          · have hk : s.correct.toNat%32=s.correct.toNat-lastStart := by omega
            have hprog := hC.progress hmore
            rw [min_eq_left (by omega)] at hprog
            rw [hk,show s.correct.toNat+1-lastStart=s.correct.toNat-lastStart+1 by omega]
            exact hprog.right
        · have hprog := hC.progress (by omega)
          rw [min_eq_right (by omega)] at hprog
          exact Or.inl (hprog.presented.any _)
    · rw [if_neg hm]
      exact ⟨⟨hC.index,hC.bound,hC.checked,hkeep fun h => absurd h hm⟩,rfl,rfl,rfl⟩

/-- Elsewhere nothing is counted. -/
theorem evaluate_frame (hs : s.TAP_state≠.run_test_idle ∨ (s.tms_pad_i && s.passchk)=true) :
    (evaluate s).correct=s.correct ∧ (evaluate s).bitindex=s.bitindex ∧
      (evaluate s).pass=s.pass ∧ (evaluate s).TAP_state=s.TAP_state ∧
      ((evaluate s).passchk=true → s.passchk=true) := by
  unfold evaluate
  cases hstate : s.TAP_state with
  | test_logic_reset => exact ⟨rfl,rfl,rfl,rfl,nofun⟩
  | run_test_idle =>
    have hleave := hs.resolve_left fun h => h hstate
    dsimp only
    rw [if_pos hleave]
    exact ⟨rfl,rfl,rfl,rfl,id⟩
  | _ => exact ⟨rfl,rfl,rfl,rfl,id⟩

theorem evaluate_test_logic_reset (hs : s.TAP_state=.test_logic_reset) :
    (evaluate s).next_TAP_state=.test_logic_reset ∨ (evaluate s).next_TAP_state=.run_test_idle := by
  unfold evaluate
  rw [hs]
  dsimp only
  split_ifs
  · exact Or.inl rfl
  · exact Or.inr rfl

/-- Evaluation leads back to the invariant. -/
theorem evaluate_inv (hC : Counted s guesses) (hP : Placed s guesses)
    (hright : (s.TAP_state==.run_test_idle && !(s.tms_pad_i && s.passchk))=true →
      lastStart < s.correct.toNat → s.correct.toNat<lastStart+32 → ¬Presented guesses →
      matchesBit s=true) :
    Inv ⟨evaluate s,if (s.TAP_state==.run_test_idle && !(s.tms_pad_i && s.passchk))=true then
      guesses++[s.tdi_pad_i] else guesses⟩ := by
  by_cases hpres : (s.TAP_state==.run_test_idle && !(s.tms_pad_i && s.passchk))=true
  · have hboth : s.TAP_state=.run_test_idle ∧ (s.tms_pad_i && s.passchk)=false := by
      rw [Bool.and_eq_true_iff,Bool.not_eq_true'] at hpres
      exact ⟨eq_of_beq hpres.1,hpres.2⟩
    have hpass : s.pass=PASSWORD := by
      rcases hP with ⟨hp,-⟩ | ⟨hexit,-⟩
      · exact hp
      · exact absurd (hboth.1.symm.trans hexit) nofun
    rcases evaluate_run_test_idle hC hboth.1 hpass hboth.2 (hright hpres) with ⟨hc,hn,hp,ht⟩
    rw [if_pos hpres]
    exact ⟨hc,Or.inl ⟨hp.trans hpass,Or.inr (Or.inl (ht.trans hboth.1))⟩,fun _ => Or.inr (Or.inl hn)⟩
  · have hs : s.TAP_state≠.run_test_idle ∨ (s.tms_pad_i && s.passchk)=true := by
      by_contra hno
      rw [not_or,not_not,Bool.not_eq_true] at hno
      rw [Bool.and_eq_true_iff,Bool.not_eq_true'] at hpres
      exact hpres ⟨beq_iff_eq.mpr hno.1,hno.2⟩
    rcases evaluate_frame hs with ⟨hcorrect,hindex,hpass,hstate,hchk⟩
    rw [if_neg hpres]
    refine ⟨⟨?_,?_,?_,?_⟩,?_,?_⟩
    · dsimp only
      rw [hindex,hcorrect]
      exact hC.index
    · dsimp only
      rw [hcorrect]
      exact hC.bound
    · dsimp only
      rw [hcorrect]
      exact fun h => hC.checked (hchk h)
    · dsimp only
      rw [hcorrect]
      exact hC.progress
    · unfold Placed
      dsimp only
      rw [hpass,hstate]
      exact hP
    · unfold Heading
      dsimp only
      rw [hpass,hstate]
      intro hp
      by_cases hreset : s.TAP_state=.test_logic_reset
      · exact (evaluate_test_logic_reset hreset).imp_right Or.inl
      · refine Or.inr (Or.inr ⟨hreset,?_⟩)
        rcases hs with hidle | hleave
        · rcases hP with ⟨-,hat⟩ | ⟨-,hno⟩
          · exact (hat.resolve_left hreset).resolve_left hidle
          · exact absurd hp hno
        · exact checked_presented hC (Bool.and_eq_true_iff.mp hleave).2

end Invariant

section Events

variable (s : State) (e : Event)

/-- What an event does to the counter: nothing. -/
theorem drive_frame : (drive s e).correct=s.correct ∧ (drive s e).bitindex=s.bitindex ∧
    (drive s e).passchk=s.passchk ∧ (drive s e).next_TAP_state=s.next_TAP_state := by
  cases e with
  | tms_pad_i b => exact ⟨rfl,rfl,rfl,rfl⟩
  | tdi_pad_i b => exact ⟨rfl,rfl,rfl,rfl⟩
  | tck_pad_i b =>
    unfold drive tckRise
    dsimp only
    split_ifs <;> exact ⟨rfl,rfl,rfl,rfl⟩
  | trstn_pad_i b =>
    unfold drive
    dsimp only
    split_ifs <;> exact ⟨rfl,rfl,rfl,rfl⟩

/-- What an event does to the state: nothing, a reset, or a rising edge. -/
theorem drive_state :
    (drive s e).TAP_state=s.TAP_state ∧ (drive s e).pass=s.pass ∨
    (drive s e).TAP_state=.test_logic_reset ∧ (drive s e).pass=PASSWORD ∨
    (drive s e).TAP_state=s.next_TAP_state ∧ (drive s e).pass=s.pass ∧
      e=.tck_pad_i true ∧ s.tck_pad_i=false ∧ s.trstn_pad_i=true := by
  cases e with
  | tms_pad_i b => exact Or.inl ⟨rfl,rfl⟩
  | tdi_pad_i b => exact Or.inl ⟨rfl,rfl⟩
  | tck_pad_i b =>
    unfold drive
    dsimp only
    split_ifs with hlevel hb
    · exact Or.inl ⟨rfl,rfl⟩
    · subst hb
      unfold tckRise
      split_ifs with hrst
      · exact Or.inr (Or.inr ⟨rfl,rfl,rfl,by simpa using hlevel,hrst⟩)
      · exact Or.inr (Or.inl ⟨rfl,rfl⟩)
    · exact Or.inl ⟨rfl,rfl⟩
  | trstn_pad_i b =>
    unfold drive
    dsimp only
    split_ifs
    · exact Or.inl ⟨rfl,rfl⟩
    · exact Or.inr (Or.inl ⟨rfl,rfl⟩)

/-- The debug module gets selected only by a falling edge in `update_ir`. -/
theorem drive_select (h : debug_select_o s=false) (h' : debug_select_o (drive s e)=true) :
    s.TAP_state=.update_ir := by
  unfold debug_select_o at h h'
  cases e with
  | tms_pad_i b => exact absurd (h.symm.trans h') nofun
  | tdi_pad_i b => exact absurd (h.symm.trans h') nofun
  | tck_pad_i b =>
    unfold drive at h'
    dsimp only at h'
    split_ifs at h' with hlevel hb
    · exact absurd (h.symm.trans h') nofun
    · unfold tckRise at h'
      split_ifs at h' <;> exact absurd (h.symm.trans h') nofun
    · unfold tckFall at h'
      dsimp only at h'
      split_ifs at h'
      · split at h'
        · exact absurd h' (by decide)
        · assumption
        · exact absurd (h.symm.trans h') nofun
      · exact absurd h' (by decide)
  | trstn_pad_i b =>
    unfold drive at h'
    dsimp only at h'
    split_ifs at h'
    · exact absurd (h.symm.trans h') nofun
    · change (IDCODE==DEBUG)=true at h'
      exact absurd h' (by decide)

/-- The block selects nothing and leaves the state alone. -/
theorem evaluate_state : (evaluate s).TAP_state=s.TAP_state ∧
    (evaluate s).latched_jtag_ir=s.latched_jtag_ir := by
  unfold evaluate
  cases hstate : s.TAP_state with
  | run_test_idle =>
    dsimp only
    split_ifs <;> exact ⟨rfl,rfl⟩
  | _ => exact ⟨rfl,rfl⟩

theorem step_state : (step s e).TAP_state=(drive s e).TAP_state ∧
    (step s e).latched_jtag_ir=(drive s e).latched_jtag_ir := by
  unfold step
  split_ifs
  · exact evaluate_state _
  · exact ⟨rfl,rfl⟩

end Events

section Runs

variable {w : Watched} {e : Event}

/-- The bits that count when the next-state block is evaluated. -/
def kept (w : Watched) (e : Event) : List Bool :=
  if (drive w.tap e).TAP_state=.test_logic_reset then [] else w.guesses

theorem kept_of_ne (h : (drive w.tap e).TAP_state≠.test_logic_reset) : kept w e=w.guesses :=
  if_neg h

theorem counted_drive (hI : Inv w) (hC : Careful w e) : Counted (drive w.tap e) (kept w e) := by
  have hcount := hI.counted
  rcases drive_frame w.tap e with ⟨hcorrect,hindex,hchk,-⟩
  refine ⟨?_,?_,?_,?_⟩
  · rw [hindex,hcorrect]
    exact hcount.index
  · rw [hcorrect]
    exact hcount.bound
  · rw [hchk,hcorrect]
    exact hcount.checked
  · rw [hcorrect]
    intro hlast
    have hne : (drive w.tap e).TAP_state≠.test_logic_reset :=
      fun h => absurd (hC.early h) (Nat.not_le_of_lt hlast)
    rw [kept_of_ne hne]
    exact hcount.progress hlast

theorem placed_drive (hI : Inv w) (hC : Careful w e) : Placed (drive w.tap e) (kept w e) := by
  rcases drive_state w.tap e with ⟨hstate,hpass⟩ | ⟨hstate,hpass⟩ | ⟨hstate,hpass,he,hlow,hrst⟩
  · by_cases hreset : (drive w.tap e).TAP_state=.test_logic_reset
    · rcases hI.placed with ⟨hp,-⟩ | ⟨hexit,-⟩
      · exact Or.inl ⟨hpass.trans hp,Or.inl hreset⟩
      · rw [hstate,hexit] at hreset
        exact absurd hreset nofun
    · unfold Placed
      rw [kept_of_ne hreset,hpass,hstate]
      exact hI.placed
  · exact Or.inl ⟨hpass,Or.inl hstate⟩
  · have hloaded := hC.loaded he hlow hrst
    refine Or.inl ⟨hpass.trans hloaded,?_⟩
    rcases hI.heading hloaded with hnext | hnext | ⟨-,hdone⟩
    · exact Or.inl (hstate.trans hnext)
    · exact Or.inr (Or.inl (hstate.trans hnext))
    · by_cases hreset : (drive w.tap e).TAP_state=.test_logic_reset
      · exact Or.inl hreset
      · rw [kept_of_ne hreset]
        exact Or.inr (Or.inr hdone)

/-- Where the block is not evaluated, its last result still fits. -/
theorem heading_drive (hI : Inv w) (hquiet : triggers w.tap e=false) :
    Heading (drive w.tap e) (kept w e) := by
  have hsame : (drive w.tap e).TAP_state=w.tap.TAP_state := by
    by_contra hne
    unfold triggers at hquiet
    rw [Bool.or_eq_false_iff,bne_eq_false_iff_eq] at hquiet
    exact hne hquiet.1
  have hpass : (drive w.tap e).pass=PASSWORD → w.tap.pass=PASSWORD := by
    intro hp
    rcases drive_state w.tap e with ⟨-,hsamepass⟩ | ⟨hstate,-⟩ | ⟨-,hsamepass,-⟩
    · exact hsamepass.symm.trans hp
    · rcases hI.placed with ⟨h,-⟩ | ⟨hexit,-⟩
      · exact h
      · rw [hsame,hexit] at hstate
        exact absurd hstate nofun
    · exact hsamepass.symm.trans hp
  intro hp
  rw [(drive_frame w.tap e).2.2.2,hsame]
  rcases hI.heading (hpass hp) with hnext | hnext | ⟨hne,hdone⟩
  · exact Or.inl hnext
  · exact Or.inr (Or.inl hnext)
  · rw [kept_of_ne (hsame.symm ▸ hne)]
    exact Or.inr (Or.inr ⟨hne,hdone⟩)

/-- One event keeps the invariant. -/
theorem step_inv (hI : Inv w) (hC : Careful w e) : Inv (w.step e) := by
  cases htrig : triggers w.tap e with
  | true =>
    have hpres : w.presents e=((drive w.tap e).TAP_state==.run_test_idle &&
        !((drive w.tap e).tms_pad_i && (drive w.tap e).passchk)) := by
      unfold Watched.presents
      rw [htrig,Bool.true_and]
    have hstep : w.step e=⟨evaluate (drive w.tap e),
        if w.presents e=true then kept w e++[(drive w.tap e).tdi_pad_i] else kept w e⟩ := by
      unfold Watched.step TapTop.step kept
      rw [if_pos htrig]
      by_cases hreset : (drive w.tap e).TAP_state=.test_logic_reset
      · have hnot : w.presents e=false := by
          rw [hpres,hreset]
          rfl
        rw [if_pos hreset,hnot,if_neg Bool.false_ne_true,if_pos hreset]
      · rw [if_neg hreset,if_neg hreset]
    rw [hstep,hpres]
    refine evaluate_inv (counted_drive hI hC) (placed_drive hI hC) ?_
    intro hp
    have hne : (drive w.tap e).TAP_state≠.test_logic_reset := by
      rw [Bool.and_eq_true_iff,beq_iff_eq] at hp
      rw [hp.1]
      exact nofun
    rw [kept_of_ne hne,(drive_frame w.tap e).1]
    exact hC.right (hpres.trans hp)
  | false =>
    have hstep : w.step e=⟨drive w.tap e,kept w e⟩ := by
      unfold Watched.step Watched.presents TapTop.step kept
      rw [htrig]
      rfl
    rw [hstep]
    exact ⟨counted_drive hI hC,placed_drive hI hC,heading_drive hI htrig⟩

theorem start_pass (trstn_pad_i : Bool) : (Watched.start trstn_pad_i).tap.pass≠PASSWORD := by
  change (0 : BitVec 32)≠PASSWORD
  decide

theorem start_inv (trstn_pad_i : Bool) : Inv (Watched.start trstn_pad_i) where
  counted := ⟨rfl,Nat.zero_le _,nofun,nofun⟩
  placed := Or.inr ⟨rfl,start_pass trstn_pad_i⟩
  heading := fun h => absurd h (start_pass trstn_pad_i)

/-- Under the invariant an event passes the gate only after the password. -/
theorem gate_of_inv (hI : Inv w) (hC : Careful w e) : Gate w e where
  leave hidle hleft := by
    have hdrive : (drive w.tap e).TAP_state=.select_dr_scan :=
      (step_state w.tap e).1.symm.trans hleft
    rcases drive_state w.tap e with ⟨hstate,-⟩ | ⟨hstate,-⟩ | ⟨hstate,-,he,hlow,hrst⟩
    · rw [hstate,hidle] at hdrive
      exact absurd hdrive nofun
    · rw [hstate] at hdrive
      exact absurd hdrive nofun
    · rw [hstate] at hdrive
      rcases hI.heading (hC.loaded he hlow hrst) with hnext | hnext | ⟨-,hdone⟩
      · rw [hdrive] at hnext
        exact absurd hnext nofun
      · rw [hdrive] at hnext
        exact absurd hnext nofun
      · exact hdone
  select hoff hon := by
    have hdrive : debug_select_o (drive w.tap e)=true := by
      unfold debug_select_o at hon ⊢
      rw [←(step_state w.tap e).2]
      exact hon
    have hat := drive_select w.tap e hoff hdrive
    rcases hI.placed with ⟨-,hreset | hidle | hdone⟩ | ⟨hexit,-⟩
    · rw [hat] at hreset
      exact absurd hreset nofun
    · rw [hat] at hidle
      exact absurd hidle nofun
    · exact hdone
    · rw [hat] at hexit
      exact absurd hexit nofun

/-- The gate along a run of careful events. -/
theorem gated_of_inv {events : List Event} (hI : Inv w) (hC : Meets Watched.step Careful w events) :
    Gated w events := by
  induction events generalizing w with
  | nil => exact trivial
  | cons e events ih => exact ⟨gate_of_inv hI hC.1,ih (step_inv hI hC.1) hC.2⟩

/-- Runs whose events do not profit from what the block forgets are gated. -/
theorem careful_gated (trstn_pad_i : Bool) (events : List Event)
    (hC : Meets Watched.step Careful (Watched.start trstn_pad_i) events) :
    Gated (Watched.start trstn_pad_i) events :=
  gated_of_inv (start_inv trstn_pad_i) hC

/-- The controller in `run_test_idle` after `c` right bits. -/
def guessing (c : ℕ) (tdi_pad_i : Bool) : State where
  TAP_state := .run_test_idle
  next_TAP_state := .run_test_idle
  passchk := false
  correct := BitVec.ofNat 32 c
  pass := PASSWORD
  bitindex := BitVec.ofNat 5 c
  jtag_ir := 0
  latched_jtag_ir := IDCODE
  tms_pad_i := c%2==1
  tdi_pad_i := tdi_pad_i
  tck_pad_i := true
  trstn_pad_i := true

/-- A reset, and the clock edge into `run_test_idle`. -/
def enter : List Event := [.trstn_pad_i false,.trstn_pad_i true,.tck_pad_i true]

/-- The first `n` right bits, presented by toggling the mode. -/
def rightBits : ℕ → List Event
  | 0 => []
  | n+1 => rightBits n++[.tdi_pad_i (PASSWORD.getLsbD (n%32)),.tms_pad_i (n%2==0)]

theorem enter_guessing : after Watched.step (Watched.start true) enter=⟨guessing 0 false,[false]⟩ :=
  rfl

theorem step_tdi (c : ℕ) (b b' : Bool) (g : List Bool) :
    Watched.step ⟨guessing c b,g⟩ (.tdi_pad_i b')=⟨guessing c b',g⟩ := by
  have hquiet : triggers (guessing c b) (.tdi_pad_i b')=false := by
    unfold triggers drive
    simp
  unfold Watched.step Watched.presents TapTop.step
  rw [hquiet]
  rfl

theorem guessing_matches (c : ℕ) :
    matchesBit (drive (guessing c (PASSWORD.getLsbD (c%32))) (.tms_pad_i (c%2==0)))=true := by
  have hindex : PASSWORD.getLsbD (c%32)=PASSWORD.getLsbD (BitVec.ofNat 5 c).toNat := by
    rw [BitVec.toNat_ofNat]
  unfold matchesBit
  exact beq_iff_eq.mpr hindex

/-- The mode toggles and the bit on `tdi_pad_i` is right. -/
theorem step_tms {c : ℕ} (hc : c<0x1FFFF) (g : List Bool) :
    Watched.step ⟨guessing c (PASSWORD.getLsbD (c%32)),g⟩ (.tms_pad_i (c%2==0))=
      ⟨guessing (c+1) (PASSWORD.getLsbD (c%32)),g++[PASSWORD.getLsbD (c%32)]⟩ := by
  have hparity : (c%2==0)=((c+1)%2==1) := by
    rw [Bool.eq_iff_iff,beq_iff_eq,beq_iff_eq]
    omega
  have htrig : triggers (guessing c (PASSWORD.getLsbD (c%32))) (.tms_pad_i (c%2==0))=true := by
    have hflip : ((c%2==0)!=(c%2==1))=true := by
      rw [bne_iff_ne,Ne,Bool.eq_iff_iff,beq_iff_eq,beq_iff_eq]
      omega
    unfold triggers
    exact Bool.or_eq_true_iff.mpr (Or.inr hflip)
  have hbelow : ¬0x0001FFFF ≤ BitVec.ofNat 32 c := by
    intro hle
    have hnat : (0x0001FFFF#32).toNat≤(BitVec.ofNat 32 c).toNat := hle
    rw [BitVec.toNat_ofNat,BitVec.toNat_ofNat] at hnat
    omega
  have heval : evaluate (drive (guessing c (PASSWORD.getLsbD (c%32))) (.tms_pad_i (c%2==0)))=
      guessing (c+1) (PASSWORD.getLsbD (c%32)) := by
    unfold evaluate
    change (if ((c%2==0) && false)=true then _ else if 0x0001FFFF ≤ BitVec.ofNat 32 c then _ else
      if _ then _ else _)=_
    rw [Bool.and_false,if_neg Bool.false_ne_true,if_neg hbelow,if_pos (guessing_matches c)]
    unfold guessing
    rw [←hparity,BitVec.ofNat_add,BitVec.ofNat_add]
    rfl
  have hpres : Watched.presents ⟨guessing c (PASSWORD.getLsbD (c%32)),g⟩ (.tms_pad_i (c%2==0))=
      true := by
    unfold Watched.presents
    rw [htrig]
    change (true && !((c%2==0) && false))=true
    rw [Bool.and_false]
    rfl
  unfold Watched.step TapTop.step
  rw [if_pos htrig,heval,if_pos hpres]
  rfl

/-- One right bit is a careful guess. -/
theorem careful_guess (c : ℕ) (b : Bool) (g : List Bool) :
    Careful ⟨guessing c b,g⟩ (.tdi_pad_i (PASSWORD.getLsbD (c%32))) ∧
      Careful ⟨guessing c (PASSWORD.getLsbD (c%32)),g⟩ (.tms_pad_i (c%2==0)) := by
  refine ⟨⟨nofun,?_,nofun⟩,⟨nofun,fun _ _ _ _ => guessing_matches c,nofun⟩⟩
  intro hp
  have hquiet : triggers (guessing c b) (.tdi_pad_i (PASSWORD.getLsbD (c%32)))=false := by
    unfold triggers drive
    simp
  unfold Watched.presents at hp
  rw [hquiet] at hp
  exact absurd hp nofun

/-- Right bits are counted, and careful. -/
theorem rounds {n : ℕ} (hn : n≤0x1FFFF) (g : List Bool) :
    Meets Watched.step Careful ⟨guessing 0 false,g⟩ (rightBits n) ∧
      ∃ b g',after Watched.step ⟨guessing 0 false,g⟩ (rightBits n)=⟨guessing n b,g'⟩ := by
  induction n with
  | zero => exact ⟨trivial,false,g,rfl⟩
  | succ n ih =>
    rcases ih (by omega) with ⟨hcareful,b,g',hat⟩
    have hguess := careful_guess n b g'
    unfold rightBits
    rw [meets_append,after_append,hat,meets_cons,meets_cons,after_cons,after_cons,step_tdi,
      step_tms (by omega)]
    exact ⟨⟨hcareful,hguess.1,hguess.2,trivial⟩,_,_,rfl⟩

/-- A reset after the whole count, then one bit and the clock edges to leave. -/
def again : List Event :=
  [.trstn_pad_i false,.trstn_pad_i true,.tms_pad_i false,.tck_pad_i false,.tck_pad_i true,
    .tms_pad_i true,.tck_pad_i false]

/-- The registers after the reset, but for those that the rest of the run changes. -/
def relock (TAP_state next_TAP_state : TapState) (passchk b tms_pad_i tck_pad_i : Bool) : State where
  TAP_state := TAP_state
  next_TAP_state := next_TAP_state
  passchk := passchk
  correct := 0x1FFFF
  pass := PASSWORD
  bitindex := 31
  jtag_ir := 0
  latched_jtag_ir := IDCODE
  tms_pad_i := tms_pad_i
  tdi_pad_i := b
  tck_pad_i := tck_pad_i
  trstn_pad_i := true

/-- After the reset one bit of any value is enough. -/
theorem again_leaves (b : Bool) (g : List Bool) :
    after Watched.step ⟨guessing 0x1FFFF b,g⟩ again=
        ⟨relock .run_test_idle .select_dr_scan true b true false,[b]⟩ ∧
      (TapTop.step (relock .run_test_idle .select_dr_scan true b true false)
        (.tck_pad_i true)).TAP_state=.select_dr_scan := by
  refine ⟨?_,rfl⟩
  have hreset : Watched.step (Watched.step ⟨guessing 0x1FFFF b,g⟩ (.trstn_pad_i false))
      (.trstn_pad_i true)=⟨relock .test_logic_reset .test_logic_reset false b true true,[]⟩ := rfl
  have htms : Watched.step (Watched.step ⟨relock .test_logic_reset .test_logic_reset false b true
      true,[]⟩ (.tms_pad_i false)) (.tck_pad_i false)=
      ⟨relock .test_logic_reset .run_test_idle false b false false,[]⟩ := rfl
  have hidle : Watched.step ⟨relock .test_logic_reset .run_test_idle false b false false,[]⟩
      (.tck_pad_i true)=⟨relock .run_test_idle .run_test_idle true b false true,[b]⟩ := rfl
  have hleave : Watched.step (Watched.step ⟨relock .run_test_idle .run_test_idle true b false
      true,[b]⟩ (.tms_pad_i true)) (.tck_pad_i false)=
      ⟨relock .run_test_idle .select_dr_scan true b true false,[b]⟩ := rfl
  unfold again
  rw [after_cons,after_cons,hreset,after_cons,after_cons,htms,after_cons,hidle,after_cons,
    after_cons,hleave,after_nil]

theorem not_presented_single (b : Bool) : ¬Presented [b] := by
  intro h
  have hle := h.length_le
  unfold bits at hle
  rw [List.length_map,List.length_range,List.length_singleton] at hle
  omega

/-- Unlocking once outlives a reset. -/
theorem reset_keeps_count : ¬∀ trstn_pad_i events,Gated (Watched.start trstn_pad_i) events := by
  intro hall
  have hrun := hall true (enter++(rightBits 0x1FFFF++(again++[.tck_pad_i true])))
  rcases rounds (n:=0x1FFFF) (Nat.le_refl _) [false] with ⟨-,b,g,hcounted⟩
  rcases again_leaves b g with ⟨hagain,hleft⟩
  unfold Gated at hrun
  rw [meets_append,enter_guessing,meets_append,hcounted,meets_append,hagain,meets_cons] at hrun
  exact not_presented_single b (hrun.2.2.2.1.leave rfl hleft)

/-- Nothing is forgotten while nothing is counted. -/
theorem careful_uncounted (hzero : w.tap.correct=0)
    (hloaded : e=.tck_pad_i true → w.tap.pass=PASSWORD) : Careful w e := by
  have hnat : w.tap.correct.toNat=0 := congrArg BitVec.toNat hzero
  refine ⟨fun he _ _ => hloaded he,?_,?_⟩
  · intro _ hlast
    rw [hnat] at hlast
    exact absurd hlast (Nat.not_lt_zero _)
  · intro _
    rw [hnat]
    exact Nat.zero_le _

/-- A first unlocking with right bits only is careful. -/
theorem careful_unlock {n : ℕ} (hn : n≤0x1FFFF) :
    Meets Watched.step Careful (Watched.start true) (enter++rightBits n) := by
  rw [meets_append,enter_guessing]
  refine ⟨⟨?_,?_,?_,trivial⟩,(rounds hn [false]).1⟩
  · exact careful_uncounted rfl nofun
  · exact careful_uncounted rfl nofun
  · exact careful_uncounted rfl fun _ => rfl

/-- The whole count of right bits, after a reset. -/
theorem careful_gated_unlock :
    Meets Watched.step Careful (Watched.start true) (enter++rightBits 0x1FFFF) ∧
      Gated (Watched.start true) (enter++rightBits 0x1FFFF) := by
  have hcareful := careful_unlock (n:=0x1FFFF) (Nat.le_refl _)
  exact ⟨hcareful,careful_gated true _ hcareful⟩

end Runs

end Pulpissimo.AdvDbg.TapTop
