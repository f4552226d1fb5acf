import Pulpissimo.Udma.FilterAu

/-!
# The threshold unit of the filter

`udma_filter_bincu` compares a stream with a threshold. Where its output is off it should count the
items above and raise an event at a number of them. The port of the mode has three bits, so of the
fourteen modes only the first eight can be chosen. In those of them that use the unit its output is
off, and then no item ever leaves the unit in front of it.
-/

namespace Pulpissimo.Udma.FilterBincu

open Pulpissimo.Machine

/-- Switches of `udma_filter`. -/
structure Switches where
  s_sel_out : Bool
  s_sel_out_valid : Bool
  s_sel_bincu : Bool
  s_sel_bincu_valid : Bool
  s_sel_opa : Bool
  s_sel_opa_valid : Bool
  s_sel_opb_valid : Bool

/-- Everything is off. -/
def off : Switches := ⟨false,false,false,false,false,false,false⟩

/-- Switches of `CONN_MODE_0` to `CONN_MODE_13`. -/
def switches : ℕ → Switches
  | 0 => { off with s_sel_opa := true, s_sel_opa_valid := true, s_sel_opb_valid := true, s_sel_out := true, s_sel_out_valid := true }
  | 1 => { off with s_sel_opa_valid := true, s_sel_opb_valid := true, s_sel_out := true, s_sel_out_valid := true }
  | 2 => { off with s_sel_opa := true, s_sel_opa_valid := true, s_sel_out := true, s_sel_out_valid := true }
  | 3 => { off with s_sel_opa_valid := true, s_sel_out := true, s_sel_out_valid := true }
  | 4 => { off with s_sel_opa := true, s_sel_opa_valid := true, s_sel_opb_valid := true, s_sel_bincu := true, s_sel_bincu_valid := true }
  | 5 => { off with s_sel_opa_valid := true, s_sel_opb_valid := true, s_sel_bincu := true, s_sel_bincu_valid := true }
  | 6 => { off with s_sel_opa := true, s_sel_opa_valid := true, s_sel_bincu := true, s_sel_bincu_valid := true }
  | 7 => { off with s_sel_opa_valid := true, s_sel_bincu := true, s_sel_bincu_valid := true }
  | 8 => { off with s_sel_opa := true, s_sel_opa_valid := true, s_sel_opb_valid := true, s_sel_out_valid := true, s_sel_bincu := true, s_sel_bincu_valid := true }
  | 9 => { off with s_sel_opa_valid := true, s_sel_opb_valid := true, s_sel_out_valid := true, s_sel_bincu := true, s_sel_bincu_valid := true }
  | 10 => { off with s_sel_opa := true, s_sel_opa_valid := true, s_sel_out_valid := true, s_sel_bincu := true, s_sel_bincu_valid := true }
  | 11 => { off with s_sel_opa_valid := true, s_sel_out_valid := true, s_sel_bincu := true, s_sel_bincu_valid := true }
  | 12 => { off with s_sel_bincu_valid := true }
  | 13 => { off with s_sel_out_valid := true, s_sel_bincu_valid := true }
  | _ => off

/-- Configuration. -/
structure Config (TRANS_SIZE : ℕ) where
  cfg_filter_mode_i : BitVec 3
  cfg_au_use_signed_i : Bool
  cfg_bincu_threshold_i : BitVec 32
  cfg_bincu_counter_i : BitVec TRANS_SIZE

/-- Registers. -/
structure State (TRANS_SIZE : ℕ) where
  r_counter : BitVec TRANS_SIZE
  r_count_of : Bool
deriving DecidableEq

/-- One cycle of what comes to the unit from the rest of the filter. -/
structure Input where
  cfg_filter_start_i : Bool
  s_au_out_data : BitVec 32
  s_au_out_datasize : BitVec 2
  s_au_out_valid : Bool
  filter_data_i : BitVec 32
  filter_datasize_i : BitVec 2
  filter_valid_i : Bool
  s_operanda_ready : Bool
  s_udma_out_ready : Bool

variable {TRANS_SIZE : ℕ}

section Code

variable (c : Config TRANS_SIZE) (s : State TRANS_SIZE) (i : Input)

def select : Switches := switches c.cfg_filter_mode_i.toNat

def s_start_bcu : Bool := i.cfg_filter_start_i && (select c).s_sel_bincu_valid

def s_bincu_in_data : BitVec 32 :=
  if (select c).s_sel_bincu then i.s_au_out_data else i.filter_data_i

def s_bincu_in_valid : Bool :=
  (select c).s_sel_bincu_valid && if (select c).s_sel_bincu then i.s_au_out_valid else i.filter_valid_i

def s_bincu_in_datasize : BitVec 2 :=
  if (select c).s_sel_bincu then i.s_au_out_datasize else i.filter_datasize_i

def s_bincu_out_ready : Bool :=
  (select c).s_sel_out_valid && !(select c).s_sel_out && i.s_udma_out_ready

def s_bincu_outenable : Bool := (select c).s_sel_out_valid && !(select c).s_sel_out

/-- `input_ready_o` of the unit. -/
def s_bincu_in_ready : Bool := s_bincu_out_ready c i

def s_au_out_ready : Bool :=
  ((select c).s_sel_out_valid && (select c).s_sel_out && i.s_udma_out_ready) ||
    ((select c).s_sel_bincu_valid && (select c).s_sel_bincu && s_bincu_in_ready c i)

def s_filter_ready : Bool :=
  ((select c).s_sel_opa_valid && !(select c).s_sel_opa && i.s_operanda_ready) ||
    ((select c).s_sel_bincu_valid && !(select c).s_sel_bincu && s_bincu_in_ready c i)

def s_input_data : BitVec 32 :=
  FilterAu.s_in_op c.cfg_au_use_signed_i (s_bincu_in_datasize c i) (s_bincu_in_data c i)

/-- The comparison is one of unsigned words. -/
def s_th_event : Bool := c.cfg_bincu_threshold_i.ult (s_input_data c i)

def s_counter_of : Bool := s.r_counter==c.cfg_bincu_counter_i

def act_event_o : Bool := s_counter_of c s && !s.r_count_of

def s_bincu_out_data : BitVec 32 := if s_th_event c i then 1 else 0

/-- One clock edge. -/
def step : State TRANS_SIZE :=
  if s_start_bcu c i then ⟨0,false⟩
  else {
    r_counter :=
      if !s_bincu_outenable c && s_th_event c i && s_bincu_in_valid c i then s.r_counter+1
      else s.r_counter
    r_count_of := s_counter_of c s }

end Code

/-- A word as a number of a signedness. -/
def value (signed : Bool) (x : BitVec 32) : ℤ := if signed then x.toInt else x.toNat

/-- The item is greater than the threshold in the signedness that is configured. -/
def Above (c : Config TRANS_SIZE) (i : Input) : Prop :=
  value c.cfg_au_use_signed_i c.cfg_bincu_threshold_i <
    value c.cfg_au_use_signed_i (s_input_data c i)

instance (c : Config TRANS_SIZE) (i : Input) : Decidable (Above c i) :=
  inferInstanceAs (Decidable (_ < _))

/-- What the unit in front of this one sees. -/
def ready (c : Config TRANS_SIZE) (i : Input) : Bool :=
  if (select c).s_sel_bincu then s_au_out_ready c i else s_filter_ready c i

/-- An item leaves the unit in front of this one. -/
def accepts (c : Config TRANS_SIZE) (i : Input) : Bool := s_bincu_in_valid c i && ready c i

/-- The unit with its history since the start. -/
structure Sys (TRANS_SIZE : ℕ) where
  s : State TRANS_SIZE
  /-- Accepted items above the threshold, where the output is off. -/
  items : ℕ
  /-- Cycles in which an item above the threshold was there. -/
  cycles : ℕ
  /-- The items had come to the number for the event before. -/
  reached : Bool

/-- The unit has just been started. -/
def started : Sys TRANS_SIZE := ⟨⟨0,false⟩,0,0,false⟩

/-- One cycle. -/
def next (c : Config TRANS_SIZE) (u : Sys TRANS_SIZE) (i : Input) : Sys TRANS_SIZE :=
  if s_start_bcu c i then started
  else {
    s := step c u.s i
    items := u.items+if !s_bincu_outenable c && decide (Above c i) && accepts c i then 1 else 0
    cycles := u.cycles+if !s_bincu_outenable c && s_th_event c i && s_bincu_in_valid c i then 1 else 0
    reached := u.reached || u.items==c.cfg_bincu_counter_i.toNat }

/-- An item gives one exactly where it is greater than the threshold. -/
def Binarises (c : Config TRANS_SIZE) (_ : Sys TRANS_SIZE) (i : Input) : Prop :=
  s_bincu_in_valid c i=true → s_bincu_out_data c i=if Above c i then 1 else 0

/-- Each accepted item above the threshold is counted once. -/
def Counts (u : Sys TRANS_SIZE) (_ : Input) : Prop := u.s.r_counter.toNat=u.items

/-- The event comes once, when the items come to its number. -/
def Reports (c : Config TRANS_SIZE) (u : Sys TRANS_SIZE) (_ : Input) : Prop :=
  act_event_o c u.s=true ↔ u.items=c.cfg_bincu_counter_i.toNat ∧ u.reached=false

/-- Items are accepted, as fast as the output is read where there is one. -/
def Accepts (c : Config TRANS_SIZE) (_ : Sys TRANS_SIZE) (i : Input) : Prop :=
  (s_bincu_outenable c=true → i.s_udma_out_ready=true) → ready c i=true

/-- The unit does what it should wherever it is on. -/
structure Right (c : Config TRANS_SIZE) (u : Sys TRANS_SIZE) (i : Input) : Prop where
  binarises : Binarises c u i
  counts : Counts u i
  reports : Reports c u i
  accepts : Accepts c u i

section Unit

variable {c : Config TRANS_SIZE} {u : Sys TRANS_SIZE} {i : Input}

/-- The modes that can be chosen leave the output of the unit off. -/
theorem s_bincu_outenable_eq (c : Config TRANS_SIZE) : s_bincu_outenable c=false := by
  have hall : ∀ m : BitVec 3,
      ((switches m.toNat).s_sel_out_valid && !(switches m.toNat).s_sel_out)=false := by decide
  exact hall c.cfg_filter_mode_i

/-- The unit takes its items from the arithmetic unit, wherever it is on. -/
theorem s_sel_bincu_eq (c : Config TRANS_SIZE) :
    (select c).s_sel_bincu=(select c).s_sel_bincu_valid := by
  have hall : ∀ m : BitVec 3,
      (switches m.toNat).s_sel_bincu=(switches m.toNat).s_sel_bincu_valid := by decide
  exact hall c.cfg_filter_mode_i

/-- The last four of these modes use the unit. -/
theorem s_sel_bincu_valid_iff (c : Config TRANS_SIZE) :
    (select c).s_sel_bincu_valid=true ↔ 4 ≤ c.cfg_filter_mode_i.toNat := by
  have hall : ∀ m : BitVec 3,(switches m.toNat).s_sel_bincu_valid=true ↔ 4 ≤ m.toNat := by decide
  exact hall c.cfg_filter_mode_i

/-- So no item ever leaves the unit in front. -/
theorem not_ready (hon : (select c).s_sel_bincu_valid=true) (i : Input) : ready c i=false := by
  have hall : ∀ m : BitVec 3,(switches m.toNat).s_sel_bincu_valid=true →
      (switches m.toNat).s_sel_bincu=true ∧ (switches m.toNat).s_sel_out_valid=false := by decide
  obtain ⟨hsel,hout⟩ := hall c.cfg_filter_mode_i hon
  have hselect : (select c).s_sel_bincu=true := hsel
  have hvalid : (select c).s_sel_out_valid=false := hout
  rw [ready,if_pos hselect,s_au_out_ready,s_bincu_in_ready,s_bincu_out_ready,hvalid]
  simp

theorem not_accepts (c : Config TRANS_SIZE) (i : Input) : accepts c i=false := by
  cases hon : (select c).s_sel_bincu_valid with
  | true => rw [accepts,not_ready hon,Bool.and_false]
  | false => rw [accepts,s_bincu_in_valid,hon,Bool.false_and,Bool.false_and]

/-- Words of one sign are compared alike in both signednesses, and others are not. -/
theorem toInt_lt_iff (x y : BitVec 32) :
    (x.toInt < y.toInt ↔ x.toNat < y.toNat) ↔ x.msb=y.msb := by
  have hx := BitVec.toInt_eq_msb_cond x
  have hy := BitVec.toInt_eq_msb_cond y
  have hxmsb := BitVec.msb_eq_decide x
  have hymsb := BitVec.msb_eq_decide y
  have hxlt := x.isLt
  have hylt := y.isLt
  cases hxm : x.msb <;> cases hym : y.msb <;> rw [hxm] at hx hxmsb <;> rw [hym] at hy hymsb <;>
    simp at hx hy hxmsb hymsb ⊢ <;> omega

/-- The comparison is right where the configured one is unsigned or the signs are alike. -/
theorem binarises_iff (u : Sys TRANS_SIZE) (i : Input) :
    Binarises c u i ↔ (s_bincu_in_valid c i=true → c.cfg_au_use_signed_i=true →
      c.cfg_bincu_threshold_i.msb=(s_input_data c i).msb) := by
  have hult : s_th_event c i=true ↔ c.cfg_bincu_threshold_i.toNat < (s_input_data c i).toNat :=
    BitVec.ult_iff_lt
  have hdata : s_bincu_out_data c i=(if Above c i then 1 else 0) ↔ (Above c i ↔ s_th_event c i=true) := by
    unfold s_bincu_out_data
    by_cases habove : Above c i <;> cases hevent : s_th_event c i <;> simp [habove]
  rw [Binarises,hdata,hult]
  refine imp_congr_right fun _ => ?_
  unfold Above value
  cases hsigned : c.cfg_au_use_signed_i with
  | false => simp
  | true =>
    simp only [if_true,true_implies]
    exact toInt_lt_iff _ _

/-- The counter follows the cycles, and not the items. -/
structure Inv (u : Sys TRANS_SIZE) : Prop where
  items : u.items=0
  counter : u.s.r_counter=BitVec.ofNat _ u.cycles

theorem inv_started : Inv (started : Sys TRANS_SIZE) := ⟨rfl,rfl⟩

theorem Inv.next (h : Inv u) (i : Input) : Inv (FilterBincu.next c u i) := by
  unfold FilterBincu.next
  by_cases hstart : s_start_bcu c i=true
  · rw [if_pos hstart]
    exact inv_started
  · rw [if_neg hstart]
    refine ⟨?_,?_⟩
    · simp only [not_accepts,Bool.and_false,h.items]
      rfl
    · simp only [step,if_neg hstart,h.counter]
      split_ifs
      · exact (BitVec.ofNat_add _ _).symm
      · rfl

/-- The count is right only while it is of nothing. -/
theorem Inv.counts_iff (h : Inv u) (i : Input) : Counts u i ↔ 2^TRANS_SIZE ∣ u.cycles := by
  rw [Counts,h.items,h.counter,BitVec.toNat_ofNat]
  exact (Nat.dvd_iff_mod_eq_zero).symm

/-- Cycles in which the counter has not yet raised an event of its own. -/
def limit (c : Config TRANS_SIZE) : ℕ :=
  if c.cfg_bincu_counter_i=0 then 2^TRANS_SIZE else c.cfg_bincu_counter_i.toNat

/-- The events have been those of the items so far. -/
structure Quiet (c : Config TRANS_SIZE) (u : Sys TRANS_SIZE) : Prop extends Inv u where
  bound : u.cycles ≤ limit c
  fresh : u.reached=false → u.s.r_count_of=false ∧ (c.cfg_bincu_counter_i=0 → u.cycles=0)
  later : u.reached=true → c.cfg_bincu_counter_i=0 ∧ (u.cycles=0 → u.s.r_count_of=true) ∧
    (1 < u.cycles → u.s.r_count_of=false)

theorem quiet_started (c : Config TRANS_SIZE) : Quiet c started :=
  ⟨inv_started,Nat.zero_le _,fun _ => ⟨rfl,fun _ => rfl⟩,fun h => (nomatch h)⟩

/-- Before the limit the counter is at the number of the event only where that is zero. -/
theorem Inv.s_counter_of_iff (h : Inv u) (hlt : u.cycles < limit c) :
    s_counter_of c u.s=true ↔ c.cfg_bincu_counter_i=0 ∧ u.cycles=0 := by
  have hwide := c.cfg_bincu_counter_i.isLt
  unfold limit at hlt
  rw [s_counter_of,beq_iff_eq,h.counter,←BitVec.toNat_inj,BitVec.toNat_ofNat]
  split_ifs at hlt with hzero
  · rw [hzero,Nat.mod_eq_of_lt hlt]
    exact ⟨fun hcycles => ⟨rfl,hcycles⟩,fun hboth => hboth.2⟩
  · rw [Nat.mod_eq_of_lt (hlt.trans hwide)]
    exact ⟨fun heq => absurd heq hlt.ne,fun hboth => absurd hboth.1 hzero⟩

/-- At the limit it is there. -/
theorem Inv.s_counter_of_limit (h : Inv u) (heq : u.cycles=limit c) : s_counter_of c u.s=true := by
  have hwide := c.cfg_bincu_counter_i.isLt
  unfold limit at heq
  rw [s_counter_of,beq_iff_eq,h.counter,heq]
  split_ifs with hzero
  · rw [hzero]
    exact BitVec.eq_of_toNat_eq (by rw [BitVec.toNat_ofNat,Nat.mod_self]; exact (Nat.zero_mod _).symm)
  · exact BitVec.eq_of_toNat_eq (by rw [BitVec.toNat_ofNat,Nat.mod_eq_of_lt hwide])

theorem Quiet.next (h : Quiet c u) (i : Input) (hlt : u.cycles < limit c) :
    Quiet c (FilterBincu.next c u i) := by
  have hinv := h.toInv.next (c:=c) i
  have hcounter := h.toInv.s_counter_of_iff hlt
  unfold FilterBincu.next at hinv ⊢
  by_cases hstart : s_start_bcu c i=true
  · rw [if_pos hstart]
    exact quiet_started c
  · rw [if_neg hstart] at hinv ⊢
    have hcount : (step c u.s i).r_count_of=s_counter_of c u.s := by
      rw [step,if_neg hstart]
    have hreached : (u.reached || u.items==c.cfg_bincu_counter_i.toNat)=true ↔
        c.cfg_bincu_counter_i=0 := by
      rw [Bool.or_eq_true_iff,h.items,beq_iff_eq,←BitVec.toNat_inj]
      exact ⟨fun hor => hor.elim (fun hr => congrArg BitVec.toNat (h.later hr).1) Eq.symm,
        fun hzero => .inr hzero.symm⟩
    refine ⟨hinv,?_,fun hfresh => ?_,fun hlater => ⟨hreached.mp hlater,fun hnone => ?_,
      fun hsome => ?_⟩⟩
    · dsimp only
      split_ifs <;> omega
    · have hne : c.cfg_bincu_counter_i≠0 := fun hzero => by
        rw [hreached.mpr hzero] at hfresh
        exact (nomatch hfresh)
      refine ⟨?_,fun hzero => absurd hzero hne⟩
      exact hcount.trans (Bool.eq_false_iff.mpr fun hof => hne (hcounter.mp hof).1)
    · dsimp only at hnone
      exact hcount.trans (hcounter.mpr ⟨hreached.mp hlater,by omega⟩)
    · dsimp only at hsome
      refine hcount.trans (Bool.eq_false_iff.mpr fun hof => ?_)
      have hzero := (hcounter.mp hof).2
      split_ifs at hsome <;> omega

/-- The next event is one too many. -/
theorem Quiet.reports_iff (h : Quiet c u) (hwide : 0 < TRANS_SIZE) (i : Input) :
    Reports c u i ↔ u.cycles < limit c := by
  have hpow : 2 ≤ 2^TRANS_SIZE := Nat.le_self_pow hwide.ne' 2
  unfold Reports act_event_o
  rw [Bool.and_eq_true_iff,Bool.not_eq_true',h.items]
  constructor
  · intro hreports
    by_contra hge
    have heq : u.cycles=limit c := le_antisymm h.bound (not_lt.mp hge)
    have hcounter := h.toInv.s_counter_of_limit heq
    cases hreached : u.reached with
    | false =>
      obtain ⟨hcount,hcycles⟩ := h.fresh hreached
      have hzero := (hreports.mp ⟨hcounter,hcount⟩).1
      have hcfg : c.cfg_bincu_counter_i=0 := BitVec.eq_of_toNat_eq (by simpa using hzero.symm)
      rw [limit,if_pos hcfg,hcycles hcfg] at heq
      omega
    | true =>
      obtain ⟨hcfg,-,hcount⟩ := h.later hreached
      rw [limit,if_pos hcfg] at heq
      have hboth := (hreports.mp ⟨hcounter,hcount (by omega)⟩).2
      rw [hreached] at hboth
      exact (nomatch hboth)
  · intro hlt
    rw [h.toInv.s_counter_of_iff hlt]
    constructor
    · rintro ⟨⟨hcfg,hcycles⟩,hcount⟩
      refine ⟨by rw [hcfg]; rfl,?_⟩
      cases hreached : u.reached with
      | false => rfl
      | true =>
        rw [(h.later hreached).2.1 hcycles] at hcount
        exact (nomatch hcount)
    · rintro ⟨hzero,hreached⟩
      have hcfg : c.cfg_bincu_counter_i=0 := BitVec.eq_of_toNat_eq (by simpa using hzero.symm)
      exact ⟨⟨hcfg,(h.fresh hreached).2 hcfg⟩,(h.fresh hreached).1⟩

/-- No item is accepted in a cycle. -/
theorem not_accepts_law (hon : (select c).s_sel_bincu_valid=true) : ¬Accepts c u i := by
  intro haccept
  have hready := haccept fun hout => absurd hout (by rw [s_bincu_outenable_eq]; exact Bool.false_ne_true)
  rw [not_ready hon] at hready
  exact (nomatch hready)

end Unit

section Runs

variable {c : Config TRANS_SIZE} {is : List Input}

/-- In the modes that use the unit each part of what it should do fails: the comparison where the
signs of an item and of the threshold differ, the count when an item above the threshold is there,
the event when such items were there for the cycles of its number, and the acceptance in
every cycle. -/
theorem parts_iff (hwide : 0 < TRANS_SIZE) (hon : 4 ≤ c.cfg_filter_mode_i.toNat) :
    (Meets (next c) (Binarises c) started is ↔ Meets (next c) (fun _ i =>
        s_bincu_in_valid c i=true → c.cfg_au_use_signed_i=true →
          c.cfg_bincu_threshold_i.msb=(s_input_data c i).msb) started is) ∧
      (Meets (next c) Counts started is ↔
        Meets (next c) (fun u _ => 2^TRANS_SIZE ∣ u.cycles) started is) ∧
      (Meets (next c) (Reports c) started is ↔
        Meets (next c) (fun u _ => u.cycles < limit c) started is) ∧
      (Meets (next c) (Accepts c) started is ↔ is=[]) ∧
      (Meets (next c) (Right c) started is ↔ is=[]) := by
  have hvalid := (s_sel_bincu_valid_iff c).mpr hon
  have hempty : ∀ {P : Sys TRANS_SIZE → Input → Prop},(∀ u i,¬P u i) →
      (Meets (next c) P started is ↔ is=[]) := by
    intro P hno
    cases is with
    | nil => exact ⟨fun _ => rfl,fun _ => trivial⟩
    | cons i is => exact ⟨fun h => absurd h.1 (hno _ _),fun h => (nomatch h)⟩
  refine ⟨meets_congr binarises_iff,
    meets_congr_of_invariant (fun u i h => h.next i) (fun u i h => h.counts_iff i) inv_started,
    meets_congr_of_meets (fun u i h => h.next i) (fun u i h => h.reports_iff hwide i)
      (quiet_started c),
    hempty fun _ _ => not_accepts_law hvalid,
    hempty fun _ _ hright => not_accepts_law hvalid hright.accepts⟩

/-- One item of five and a threshold of three. -/
theorem parts_iff_example :
    ¬Meets (next ⟨7,true,3,1⟩) (Right (⟨7,true,3,1⟩ : Config 16)) started
      [⟨false,5,2,true,0,0,false,false,false⟩] :=
  fun h => List.cons_ne_nil _ _ ((parts_iff (by decide) (by decide)).2.2.2.2.mp h)

/-- It is there for two cycles, is never accepted, is counted twice and raises the event. -/
theorem not_counts_waiting :
    ¬Meets (next ⟨7,true,3,2⟩) (Right (⟨7,true,3,2⟩ : Config 16)) started
        (List.replicate 3 ⟨false,5,2,true,0,0,false,false,false⟩) ∧
      (after (next (⟨7,true,3,2⟩ : Config 16)) started
        (List.replicate 2 ⟨false,5,2,true,0,0,false,false,false⟩)).s=⟨2,false⟩ ∧
      act_event_o (⟨7,true,3,2⟩ : Config 16) ⟨2,false⟩=true := by
  refine ⟨fun h => absurd (h.1.accepts fun hout => ?_) (by decide),by decide,by decide⟩
  exact absurd hout (by decide)

end Runs

end Pulpissimo.Udma.FilterBincu
