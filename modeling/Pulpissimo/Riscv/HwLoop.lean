import Pulpissimo.Lib.Machine
import Pulpissimo.Riscv.FetchFifo

/-!
# Hardware loops

`riscv_hwloop_controller` asks for a jump when the IF stage shows the last instruction of a loop
that still counts. The counter in `riscv_hwloop_regs` is decremented when the instruction that
was jumped to leaves the ID stage, so that decrements are in flight between the two. The
registers of `riscv_if_stage` carry them.
-/

namespace Pulpissimo.Riscv.HwLoop

open Pulpissimo.Machine Pulpissimo.Riscv.FetchFifo

/-- Registers of `riscv_hwloop_regs`. -/
structure Regs (N_REGS : ℕ) where
  hwlp_start_q : Fin N_REGS → BitVec 32
  hwlp_end_q : Fin N_REGS → BitVec 32
  hwlp_counter_q : Fin N_REGS → BitVec 32

/-- These registers and those of the IF stage. -/
structure State (N_REGS : ℕ) where
  regs : Regs N_REGS
  hwlp_dec_cnt_if : Fin N_REGS → Bool
  instr_valid_id_o : Bool
  pc_id_o : BitVec 32
  is_hwlp_id_q : Bool
  hwlp_dec_cnt_id_o : Fin N_REGS → Bool

/-- Values after reset. -/
def reset (N_REGS : ℕ) : State N_REGS :=
  ⟨⟨fun _ => 0,fun _ => 0,fun _ => 0⟩,fun _ => false,false,0,false,fun _ => false⟩

/-- Inputs of a cycle. -/
structure Input (N_REG_BITS : ℕ) where
  /-- Address of the instruction that the fetch unit shows. -/
  fetch_addr : BitVec 32
  /-- It was fetched from the target of a loop. -/
  fetch_is_hwlp : Bool
  /-- It is there, and nothing takes its place. -/
  valid : Bool
  halt_if_i : Bool
  id_ready_i : Bool
  halt_id : Bool
  branch_taken_ex : Bool
  hwlp_we_i : BitVec 3
  hwlp_regid_i : BitVec N_REG_BITS
  hwlp_start_data_i : BitVec 32
  hwlp_end_data_i : BitVec 32
  hwlp_cnt_data_i : BitVec 32

section Code

variable {N_REGS N_REG_BITS : ℕ} (s : State N_REGS) (x : Input N_REG_BITS)

/-- The shown instruction ends a loop that goes on. -/
def pc_is_end_addr (r : Regs N_REGS) (current_pc_i : BitVec 32)
    (hwlp_dec_cnt_id_i : Fin N_REGS → Bool) (i : Fin N_REGS) : Bool :=
  if current_pc_i=r.hwlp_end_q i then
    if (r.hwlp_counter_q i).extractLsb' 2 30≠0#30 then true
    else if (r.hwlp_counter_q i).extractLsb' 0 2=0b11#2 then true
    -- only when there is nothing in flight
    else if (r.hwlp_counter_q i).extractLsb' 0 2=0b10#2 then !hwlp_dec_cnt_id_i i
    else false
  else false

/-- The loop that the decrement is chosen for. -/
def chosen (r : Regs N_REGS) (current_pc_i : BitVec 32) (hwlp_dec_cnt_id_i : Fin N_REGS → Bool) :
    Option (Fin N_REGS) :=
  (List.finRange N_REGS).find? (pc_is_end_addr r current_pc_i hwlp_dec_cnt_id_i)

def is_hwlp_id_o : Bool := s.is_hwlp_id_q && s.instr_valid_id_o

/-- Decrements in the ID stage. -/
def hwlp_dec_cnt_id (i : Fin N_REGS) : Bool := s.hwlp_dec_cnt_id_o i && is_hwlp_id_o s

/-- The loop that the controller decrements. -/
def loop (current_pc_i : BitVec 32) : Option (Fin N_REGS) :=
  chosen s.regs current_pc_i (hwlp_dec_cnt_id s)

def hwlp_targ_addr_o (current_pc_i : BitVec 32) : BitVec 32 :=
  match loop s current_pc_i with
  | some j => s.regs.hwlp_start_q j
  | none => 0

def hwlp_dec_cnt_o (current_pc_i : BitVec 32) (i : Fin N_REGS) : Bool :=
  decide (loop s current_pc_i=some i)

def hwlp_jump_o (current_pc_i : BitVec 32) : Bool :=
  (List.finRange N_REGS).any (pc_is_end_addr s.regs current_pc_i (hwlp_dec_cnt_id s))

def if_valid : Bool := !x.halt_if_i && (x.valid && x.id_ready_i)

def clear_instr_valid_o : Bool := x.id_ready_i || x.halt_id || x.branch_taken_ex

def hwloop_valid : Bool := s.instr_valid_id_o && clear_instr_valid_o x && is_hwlp_id_o s

/-- One of the registers of a loop is written. -/
def written (k : ℕ) (i : Fin N_REGS) : Bool := x.hwlp_we_i.getLsbD k && i.val==x.hwlp_regid_i.toNat

/-- A counter is decremented. -/
def decremented (i : Fin N_REGS) : Bool :=
  !written x 2 i && (s.hwlp_dec_cnt_id_o i && hwloop_valid s x)

/-- Next values of the registers of the loops. -/
def Regs.step : Regs N_REGS where
  hwlp_start_q i := if written x 0 i then x.hwlp_start_data_i else s.regs.hwlp_start_q i
  hwlp_end_q i := if written x 1 i then x.hwlp_end_data_i else s.regs.hwlp_end_q i
  hwlp_counter_q i :=
    if written x 2 i then x.hwlp_cnt_data_i
    else if s.hwlp_dec_cnt_id_o i && hwloop_valid s x then s.regs.hwlp_counter_q i-1
    else s.regs.hwlp_counter_q i

/-- Next values of all registers. -/
def step : State N_REGS where
  regs := Regs.step s x
  hwlp_dec_cnt_if :=
    if hwlp_jump_o s x.fetch_addr then hwlp_dec_cnt_o s x.fetch_addr else s.hwlp_dec_cnt_if
  instr_valid_id_o :=
    if if_valid x then true
    else if clear_instr_valid_o x then false else s.instr_valid_id_o
  pc_id_o := if if_valid x then x.fetch_addr else s.pc_id_o
  is_hwlp_id_q := if if_valid x then x.fetch_is_hwlp else s.is_hwlp_id_q
  hwlp_dec_cnt_id_o :=
    if if_valid x && x.fetch_is_hwlp then s.hwlp_dec_cnt_if else s.hwlp_dec_cnt_id_o

end Code

section Stream

variable {N_REGS N_REG_BITS : ℕ}

/-- The core with the instruction that comes next, and the loops whose jumps led to it and to
the one in the ID stage. -/
structure Pipe (N_REGS : ℕ) where
  core : State N_REGS
  pc : BitVec 32
  shown : Option (Fin N_REGS)
  inId : Option (Fin N_REGS)

/-- After reset. -/
def Pipe.reset (N_REGS : ℕ) (pc : BitVec 32) : Pipe N_REGS := ⟨HwLoop.reset N_REGS,pc,none,none⟩

variable (m : Memory) (y : Pipe N_REGS) (x : Input N_REG_BITS)

/-- An instruction that is taken is followed by the target of the jump that is asked for, or by
the next one in memory. -/
def Pipe.step : Pipe N_REGS where
  core := HwLoop.step y.core x
  pc :=
    if if_valid x then
      if hwlp_jump_o y.core y.pc then hwlp_targ_addr_o y.core y.pc else y.pc+m.size y.pc
    else y.pc
  shown := if if_valid x then loop y.core y.pc else y.shown
  inId := if if_valid x then y.shown else if clear_instr_valid_o x then none else y.inId

/-- What the fetch unit promises: it shows the address of the instruction that comes next, and
tells whether a jump led to it. -/
structure Served : Prop where
  addr : x.fetch_addr=y.pc
  tag : if_valid x=true → x.fetch_is_hwlp=y.shown.isSome

/-- Decrements in flight. -/
def Pipe.flight (i : Fin N_REGS) : ℕ :=
  (decide (y.shown=some i)).toNat+(decide (y.inId=some i)).toNat

/-- The bits that are carried are those of the loops that jumped. -/
structure Carried : Prop where
  inIf : ∀ j, y.shown=some j → ∀ i, y.core.hwlp_dec_cnt_if i=decide (j=i)
  inId : ∀ j, y.inId=some j → is_hwlp_id_o y.core=true ∧
    ∀ i, y.core.hwlp_dec_cnt_id_o i=decide (j=i)
  noId : y.inId=none → is_hwlp_id_o y.core=false

/-- And no more decrements are in flight than a counter stands. -/
structure Inv : Prop extends Carried y where
  enough : ∀ i, y.flight i ≤ (y.core.regs.hwlp_counter_q i).toNat

/-- What the program has to see to: while the first instruction of a loop waits, it does not end
another one that goes on, and a counter is written while none of its decrements is in flight or
asked for. -/
structure Regular : Prop extends Served y x where
  apart : ∀ j k, if_valid x=false → y.shown=some j → y.pc=y.core.regs.hwlp_end_q k →
    2+(decide (y.inId=some k)).toNat ≤ (y.core.regs.hwlp_counter_q k).toNat → j=k
  settled : ∀ i, written x 2 i=true → y.flight i=0 ∧
    (y.pc=y.core.regs.hwlp_end_q i → (y.core.regs.hwlp_counter_q i).toNat < 2)

/-- What a cycle does with the loops. -/
structure Sound : Prop where
  single : ∀ i j, decremented y.core x i=true → decremented y.core x j=true → i=j
  jump : hwlp_jump_o y.core y.pc=true → ∃ j, y.pc=y.core.regs.hwlp_end_q j ∧
    hwlp_targ_addr_o y.core y.pc=y.core.regs.hwlp_start_q j ∧
    ∀ i, hwlp_dec_cnt_o y.core y.pc i=decide (j=i)
  own : ∀ i, decremented y.core x i=true → y.inId=some i
  positive : ∀ i, decremented y.core x i=true → y.core.regs.hwlp_counter_q i≠0

end Stream

section Controller

variable {N_REGS : ℕ} {r : Regs N_REGS} {a : BitVec 32} {d : Fin N_REGS → Bool}

/-- A loop goes on while more than the decrement in the ID stage and one are left. -/
theorem pc_is_end_addr_iff {i : Fin N_REGS} : pc_is_end_addr r a d i=true ↔
    a=r.hwlp_end_q i ∧ 2+(d i).toNat ≤ (r.hwlp_counter_q i).toNat := by
  have hhigh : (r.hwlp_counter_q i).extractLsb' 2 30≠0#30 ↔
      4 ≤ (r.hwlp_counter_q i).toNat := by
    rw [ne_eq,←BitVec.toNat_inj]
    simp only [BitVec.extractLsb'_toNat,BitVec.toNat_ofNat,Nat.shiftRight_eq_div_pow]
    have hlt := (r.hwlp_counter_q i).isLt
    omega
  have hlow : ∀ k : ℕ, k < 4 → ((r.hwlp_counter_q i).extractLsb' 0 2=BitVec.ofNat 2 k ↔
      (r.hwlp_counter_q i).toNat%4=k) := by
    intro k hk
    rw [←BitVec.toNat_inj]
    simp only [BitVec.extractLsb'_toNat,BitVec.toNat_ofNat,Nat.shiftRight_zero]
    omega
  have hthree : (r.hwlp_counter_q i).extractLsb' 0 2=0b11#2 ↔ _ := hlow 3 (by decide)
  have htwo : (r.hwlp_counter_q i).extractLsb' 0 2=0b10#2 ↔ _ := hlow 2 (by decide)
  have hbit := Bool.toNat_lt (d i)
  unfold pc_is_end_addr
  by_cases ha : a=r.hwlp_end_q i
  · rw [if_pos ha]
    by_cases h4 : (r.hwlp_counter_q i).extractLsb' 2 30≠0#30
    · rw [if_pos h4]
      have hge := hhigh.mp h4
      exact ⟨fun _ => ⟨ha,by omega⟩,fun _ => rfl⟩
    · rw [if_neg h4]
      have hlt := hhigh.not.mp h4
      by_cases h3 : (r.hwlp_counter_q i).extractLsb' 0 2=0b11#2
      · rw [if_pos h3]
        have hmod := hthree.mp h3
        exact ⟨fun _ => ⟨ha,by omega⟩,fun _ => rfl⟩
      · rw [if_neg h3]
        have hmod3 := hthree.not.mp h3
        by_cases h2 : (r.hwlp_counter_q i).extractLsb' 0 2=0b10#2
        · rw [if_pos h2]
          have hmod := htwo.mp h2
          cases hd : d i with
          | false => exact ⟨fun _ => ⟨ha,by simp only [Bool.toNat_false]; omega⟩,fun _ => rfl⟩
          | true =>
            refine ⟨fun h => absurd h Bool.false_ne_true,fun ⟨_,h⟩ => ?_⟩
            simp only [Bool.toNat_true] at h
            omega
        · rw [if_neg h2]
          have hmod2 := htwo.not.mp h2
          exact ⟨fun h => absurd h Bool.false_ne_true,fun ⟨_,h⟩ => by omega⟩
  · rw [if_neg ha]
    exact ⟨fun h => absurd h Bool.false_ne_true,fun h => absurd h.1 ha⟩

theorem chosen_ends {j : Fin N_REGS} (h : chosen r a d=some j) : pc_is_end_addr r a d j=true :=
  List.find?_some h

theorem chosen_eq_none : chosen r a d=none ↔ ∀ i, pc_is_end_addr r a d i=false := by
  unfold chosen
  rw [List.find?_eq_none]
  exact ⟨fun h i => Bool.eq_false_iff.mpr (h i (List.mem_finRange i)),
    fun h i _ => Bool.eq_false_iff.mp (h i)⟩

/-- Where no two loops end together, the loop that goes on is chosen. -/
theorem chosen_eq_some {j : Fin N_REGS} (hj : pc_is_end_addr r a d j=true)
    (hother : ∀ i, pc_is_end_addr r a d i=true → i=j) : chosen r a d=some j := by
  cases hc : chosen r a d with
  | none => exact absurd ((chosen_eq_none.mp hc j).symm.trans hj) Bool.false_ne_true
  | some i => rw [hother i (chosen_ends hc)]

variable {s : State N_REGS}

/-- A jump is asked for exactly where a loop is chosen. -/
theorem jump_iff : hwlp_jump_o s a=(loop s a).isSome := by
  unfold hwlp_jump_o loop
  cases hc : chosen s.regs a (hwlp_dec_cnt_id s) with
  | none =>
    have hnone := chosen_eq_none.mp hc
    exact List.any_eq_false.mpr fun i _ => Bool.eq_false_iff.mp (hnone i)
  | some j => exact List.any_eq_true.mpr ⟨j,List.mem_finRange j,chosen_ends hc⟩

end Controller

section Runs

variable {N_REGS N_REG_BITS : ℕ} {m : Memory} {y : Pipe N_REGS} {x : Input N_REG_BITS}

/-- The bit of a decrement in the ID stage. -/
theorem Carried.dec_id (h : Carried y) (i : Fin N_REGS) :
    hwlp_dec_cnt_id y.core i=decide (y.inId=some i) := by
  unfold hwlp_dec_cnt_id
  cases hid : y.inId with
  | none => rw [h.noId hid,Bool.and_false]; rfl
  | some j =>
    rw [(h.inId j hid).1,(h.inId j hid).2 i,Bool.and_true]
    simp only [Option.some.injEq]

/-- A loop that is chosen is at its end, and goes on after the decrement in the ID stage. -/
theorem Carried.loop_ends (h : Carried y) {j : Fin N_REGS} (hj : loop y.core y.pc=some j) :
    y.pc=y.core.regs.hwlp_end_q j ∧
      2+(decide (y.inId=some j)).toNat ≤ (y.core.regs.hwlp_counter_q j).toNat := by
  have hends := pc_is_end_addr_iff.mp (chosen_ends hj)
  rw [h.dec_id] at hends
  exact hends

/-- What is decremented belongs to the instruction in the ID stage. -/
theorem Carried.decremented_iff (h : Carried y) (i : Fin N_REGS) : decremented y.core x i=true ↔
    written x 2 i=false ∧ clear_instr_valid_o x=true ∧ y.inId=some i := by
  unfold decremented hwloop_valid
  cases hid : y.inId with
  | none => simp [h.noId hid]
  | some j =>
    have hvalid : y.core.instr_valid_id_o=true :=
      ((Bool.and_eq_true _ _).mp (h.inId j hid).1).2
    simp [(h.inId j hid).1,(h.inId j hid).2 i,hvalid,and_comm]

theorem Inv.sound (h : Inv y) (x : Input N_REG_BITS) : Sound y x where
  single i j hi hj := by
    have hi' := ((h.decremented_iff i).mp hi).2.2
    have hj' := ((h.decremented_iff j).mp hj).2.2
    exact Option.some.inj (hi'.symm.trans hj')
  jump hjump := by
    rw [jump_iff,Option.isSome_iff_exists] at hjump
    rcases hjump with ⟨j,hj⟩
    refine ⟨j,(h.loop_ends hj).1,by rw [hwlp_targ_addr_o,hj],fun i => ?_⟩
    rw [hwlp_dec_cnt_o,hj]
    simp only [Option.some.injEq]
  own i hi := ((h.decremented_iff i).mp hi).2.2
  positive i hi hzero := by
    have hid := ((h.decremented_iff i).mp hi).2.2
    have henough := h.enough i
    rw [hzero,Pipe.flight,decide_eq_true hid] at henough
    simp at henough

/-- The counter of a loop that is not written. -/
theorem Carried.counter_step (h : Carried y) {i : Fin N_REGS} (hw : written x 2 i=false) :
    (y.step m x).core.regs.hwlp_counter_q i=
      if clear_instr_valid_o x=true ∧ y.inId=some i then y.core.regs.hwlp_counter_q i-1
      else y.core.regs.hwlp_counter_q i := by
  have hdec := h.decremented_iff (x := x) i
  rw [decremented,hw,Bool.not_false,Bool.true_and] at hdec
  show (if written x 2 i then _ else if _ then _ else _)=_
  rw [hw,if_neg Bool.false_ne_true]
  exact if_congr (hdec.trans (by simp)) rfl rfl

theorem clear_of_if_valid (h : if_valid x=true) : clear_instr_valid_o x=true := by
  simp only [if_valid,Bool.and_eq_true] at h
  rw [clear_instr_valid_o,h.2.2]
  rfl

/-- The bits go on with the instructions. -/
theorem Carried.step (h : Carried y) (hserved : Served y x)
    (hkeep : ∀ j k, if_valid x=false → y.shown=some j → loop y.core y.pc=some k → j=k) :
    Carried (y.step m x) := by
  have hdec : (y.step m x).core.hwlp_dec_cnt_if=
      if hwlp_jump_o y.core y.pc then hwlp_dec_cnt_o y.core y.pc else y.core.hwlp_dec_cnt_if := by
    rw [←hserved.addr]
    rfl
  have hchosen : ∀ j, loop y.core y.pc=some j →
      ∀ i, (y.step m x).core.hwlp_dec_cnt_if i=decide (j=i) := by
    intro j hj i
    rw [hdec,jump_iff,hj,if_pos Option.isSome_some,hwlp_dec_cnt_o,hj]
    simp only [Option.some.injEq]
  cases htake : if_valid x with
  | true =>
    have hshown : (y.step m x).shown=loop y.core y.pc := if_pos htake
    have hinId : (y.step m x).inId=y.shown := if_pos htake
    have hflag : is_hwlp_id_o (y.step m x).core=y.shown.isSome := by
      show ((if if_valid x then x.fetch_is_hwlp else y.core.is_hwlp_id_q) &&
        if if_valid x then true else _)=_
      rw [htake,if_pos rfl,if_pos rfl,Bool.and_true,hserved.tag htake]
    refine ⟨fun j hj => hchosen j (hshown ▸ hj),fun j hj => ?_,fun hnone => ?_⟩
    · rw [hinId] at hj
      refine ⟨by rw [hflag,hj]; rfl,fun i => ?_⟩
      show (if if_valid x && x.fetch_is_hwlp then y.core.hwlp_dec_cnt_if else _) i=_
      have hon : (true && (some j).isSome)=true := rfl
      rw [htake,hserved.tag htake,hj,if_pos hon]
      exact h.inIf j hj i
    · rw [hinId] at hnone
      rw [hflag,hnone]
      rfl
  | false =>
    have hshown : (y.step m x).shown=y.shown := if_neg (by rw [htake]; exact Bool.false_ne_true)
    have hinId : (y.step m x).inId=if clear_instr_valid_o x then none else y.inId :=
      if_neg (by rw [htake]; exact Bool.false_ne_true)
    have hflag : is_hwlp_id_o (y.step m x).core=
        (y.core.is_hwlp_id_q && if clear_instr_valid_o x then false else y.core.instr_valid_id_o) := by
      show ((if if_valid x then _ else y.core.is_hwlp_id_q) && if if_valid x then _ else _)=_
      rw [htake,if_neg Bool.false_ne_true,if_neg Bool.false_ne_true]
    have hkept : (y.step m x).core.hwlp_dec_cnt_id_o=y.core.hwlp_dec_cnt_id_o := by
      show (if if_valid x && _ then _ else _)=_
      rw [htake,Bool.false_and,if_neg Bool.false_ne_true]
    refine ⟨fun j hj i => ?_,fun j hj => ?_,fun hnone => ?_⟩
    · rw [hshown] at hj
      cases hl : loop y.core y.pc with
      | some k => rw [hkeep j k htake hj hl]; exact hchosen k hl i
      | none =>
        rw [hdec,jump_iff,hl,Option.isSome_none,if_neg Bool.false_ne_true]
        exact h.inIf j hj i
    · cases hclear : clear_instr_valid_o x with
      | true =>
        rw [hinId,hclear,if_pos rfl] at hj
        exact absurd hj nofun
      | false =>
        rw [hinId,hclear,if_neg Bool.false_ne_true] at hj
        rw [hflag,hclear,if_neg Bool.false_ne_true,hkept]
        exact h.inId j hj
    · cases hclear : clear_instr_valid_o x with
      | true => rw [hflag,hclear,if_pos rfl,Bool.and_false]
      | false =>
        rw [hinId,hclear,if_neg Bool.false_ne_true] at hnone
        rw [hflag,hclear,if_neg Bool.false_ne_true]
        exact h.noId hnone

theorem toNat_decrement {c : BitVec 32} (h : 1 ≤ c.toNat) : (c-1).toNat=c.toNat-1 := by
  have hlt := c.isLt
  rw [BitVec.toNat_sub]
  show (2^32-1+c.toNat)%2^32=_
  omega

/-- The counter goes down with the decrement that leaves the ID stage. -/
theorem Inv.toNat_counter (h : Inv y) {i : Fin N_REGS} (hw : written x 2 i=false) :
    ((y.step m x).core.regs.hwlp_counter_q i).toNat+
        (clear_instr_valid_o x && decide (y.inId=some i)).toNat=
      (y.core.regs.hwlp_counter_q i).toNat := by
  have henough := h.enough i
  unfold Pipe.flight at henough
  rw [h.counter_step hw]
  by_cases hgo : clear_instr_valid_o x=true ∧ y.inId=some i
  · rw [if_pos hgo,hgo.1,decide_eq_true hgo.2,Bool.and_true]
    rw [decide_eq_true hgo.2] at henough
    simp only [Bool.toNat_true] at henough ⊢
    rw [toNat_decrement (by omega)]
    omega
  · rw [if_neg hgo]
    have hnot : (clear_instr_valid_o x && decide (y.inId=some i))=false := by
      rw [Bool.and_eq_false_iff]
      cases hc : clear_instr_valid_o x with
      | false => exact Or.inl rfl
      | true => exact Or.inr (decide_eq_false fun hid => hgo ⟨hc,hid⟩)
    rw [hnot]
    rfl

theorem flight_taken (htake : if_valid x=true) (i : Fin N_REGS) : (y.step m x).flight i=
    (decide (loop y.core y.pc=some i)).toNat+(decide (y.shown=some i)).toNat := by
  have hshown : (y.step m x).shown=loop y.core y.pc := if_pos htake
  have hinId : (y.step m x).inId=y.shown := if_pos htake
  rw [Pipe.flight,hshown,hinId]

theorem flight_waiting (htake : if_valid x=false) (i : Fin N_REGS) : (y.step m x).flight i+
    (clear_instr_valid_o x && decide (y.inId=some i)).toNat=y.flight i := by
  have hnot : ¬if_valid x=true := by rw [htake]; exact Bool.false_ne_true
  have hshown : (y.step m x).shown=y.shown := if_neg hnot
  have hinId : (y.step m x).inId=if clear_instr_valid_o x then none else y.inId := if_neg hnot
  rw [Pipe.flight,Pipe.flight,hshown,hinId]
  cases clear_instr_valid_o x <;> simp

theorem Inv.step (h : Inv y) (hx : Regular y x) : Inv (y.step m x) := by
  refine ⟨h.toCarried.step hx.toServed fun j k htake hj hk => ?_,fun i => ?_⟩
  · have hends := h.loop_ends hk
    exact hx.apart j k htake hj hends.1 hends.2
  have hends : loop y.core y.pc=some i → _ := h.loop_ends
  have henough := h.enough i
  cases hw : written x 2 i with
  | true =>
    -- nothing of the loop is in flight, and nothing is asked for
    rcases hx.settled i hw with ⟨hnone,hidle⟩
    have hloop : decide (loop y.core y.pc=some i)=false :=
      decide_eq_false fun hl => by have hc := hidle (hends hl).1; have hc' := (hends hl).2; omega
    cases htake : if_valid x with
    | true =>
      unfold Pipe.flight at hnone
      rw [flight_taken htake,hloop,Bool.toNat_false]
      omega
    | false =>
      have hflight := flight_waiting (m := m) (y := y) htake i
      omega
  | false =>
    have hcounter := h.toNat_counter (m := m) hw
    cases htake : if_valid x with
    | true =>
      rw [clear_of_if_valid htake,Bool.true_and] at hcounter
      rw [flight_taken htake]
      unfold Pipe.flight at henough
      have hbit := Bool.toNat_lt (decide (y.shown=some i))
      by_cases hl : loop y.core y.pc=some i
      · have hge := (hends hl).2
        rw [decide_eq_true hl,Bool.toNat_true]
        omega
      · rw [decide_eq_false hl,Bool.toNat_false]
        omega
    | false =>
      have hflight := flight_waiting (m := m) (y := y) htake i
      omega

theorem inv_reset (pc : BitVec 32) : Inv (Pipe.reset N_REGS pc) :=
  ⟨⟨fun _ h => absurd h nofun,fun _ h => absurd h nofun,fun _ => rfl⟩,fun _ => Nat.le_refl _⟩

/-- Every run keeps to it. -/
theorem inv_after {pc : BitVec 32} {xs : List (Input N_REG_BITS)}
    (h : Meets (Pipe.step m) Regular (Pipe.reset N_REGS pc) xs) :
    Inv (after (Pipe.step m) (Pipe.reset N_REGS pc) xs) :=
  after_invariant_of_meets (fun _ _ hy hx => hy.step hx) (inv_reset pc) h

end Runs

end Pulpissimo.Riscv.HwLoop
