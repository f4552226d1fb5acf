import Mathlib.Data.List.Iterate
import Pulpissimo.Riscv.HwLoop

/-!
# How often the body of a hardware loop is executed

The instructions that the IF stage hands on are followed from the first one of a loop. They are
the body as often as the counter says, and then the instruction behind it, unless the body is a
single instruction.
-/

namespace Pulpissimo.Riscv.HwLoop

open Pulpissimo.Machine Pulpissimo.Riscv.FetchFifo

variable {N_REGS N_REG_BITS : ℕ}

/-- The next instruction in memory. -/
def next (m : Memory) (a : BitVec 32) : BitVec 32 := a+m.size a

/-- Instructions that are handed to the ID stage. -/
def taken (m : Memory) : Pipe N_REGS → List (Input N_REG_BITS) → List (BitVec 32)
  | _,[] => []
  | y,x::xs => if if_valid x then y.pc::taken m (y.step m x) xs else taken m (y.step m x) xs

/-- Instructions from an address on. -/
def straight (m : Memory) (a : BitVec 32) (n : ℕ) : List (BitVec 32) := List.iterate (next m) a n

/-- A body some times, and the instruction behind it. -/
def repeated (m : Memory) (first : BitVec 32) (length : ℕ) (n : ℕ) : List (BitVec 32) :=
  (List.replicate n (straight m first length)).flatten++[(next m)^[length] first]

/-- Of two lists one goes on with the other. -/
def Agree (l t : List (BitVec 32)) : Prop := l <+: t ∨ t <+: l

/-- A cycle in which no register of a loop is written. -/
structure Undisturbed (y : Pipe N_REGS) (x : Input N_REG_BITS) : Prop extends Served y x where
  unwritten : x.hwlp_we_i=0

/-- The fetch unit shows the first instruction of a loop. Its body has `L+1` instructions, and no
other loop that goes on ends in it. -/
structure Enters (m : Memory) (y : Pipe N_REGS) (i : Fin N_REGS) (L : ℕ) : Prop where
  first : y.pc=y.core.regs.hwlp_start_q i
  last : (next m)^[L] y.pc=y.core.regs.hwlp_end_q i
  inside : ∀ k, k < L → (next m)^[k] y.pc≠y.core.regs.hwlp_end_q i
  alone : ∀ j, j≠i → ∀ k, k ≤ L → (next m)^[k] y.pc=y.core.regs.hwlp_end_q j →
    (y.core.regs.hwlp_counter_q j).toNat < 2
  fresh : y.flight i=0

section Passes

variable {m : Memory} {i : Fin N_REGS} {first : BitVec 32} {L : ℕ}

/-- In a pass over the body some passes are left, this one included. -/
structure Runs (m : Memory) (i : Fin N_REGS) (first : BitVec 32) (L : ℕ) (y : Pipe N_REGS)
    (left r : ℕ) : Prop extends Inv y where
  begins : y.core.regs.hwlp_start_q i=first
  ends : y.core.regs.hwlp_end_q i=(next m)^[L] first
  inside : ∀ k, k < L → (next m)^[k] first≠(next m)^[L] first
  alone : ∀ j, j≠i → ∀ k, k ≤ L → (next m)^[k] first=y.core.regs.hwlp_end_q j →
    (y.core.regs.hwlp_counter_q j).toNat < 2
  bound : r ≤ L
  pc : y.pc=(next m)^[r] first
  count : (y.core.regs.hwlp_counter_q i).toNat=left+y.flight i

variable {y : Pipe N_REGS} {left r : ℕ} {x : Input N_REG_BITS}

theorem Undisturbed.written (hx : Undisturbed y x) (k : ℕ) (j : Fin N_REGS) :
    written x k j=false := by
  rw [HwLoop.written,hx.unwritten]
  simp

/-- Only this loop can go on, behind its last instruction and if another pass is left. A decrement
that the shown instruction carries does not count. -/
theorem Runs.only (h : Runs m i first L y left r) {k : Fin N_REGS}
    (hpc : y.pc=y.core.regs.hwlp_end_q k)
    (hc : 2+(decide (y.inId=some k)).toNat ≤ (y.core.regs.hwlp_counter_q k).toNat) :
    k=i ∧ r=L ∧ 2 ≤ left+(decide (y.shown=some i)).toNat := by
  have hcount := h.count
  unfold Pipe.flight at hcount
  have hki : k=i := by
    by_contra hne
    have hlt := h.alone k hne r h.bound (h.pc ▸ hpc)
    omega
  rw [hki] at hpc hc
  refine ⟨hki,?_,by omega⟩
  by_contra hr
  refine h.inside r (lt_of_le_of_ne h.bound hr) ?_
  rw [←h.pc,hpc,h.ends]

theorem Runs.loop_iff (h : Runs m i first L y left r) (j : Fin N_REGS) :
    loop y.core y.pc=some j ↔ j=i ∧ r=L ∧ 2 ≤ left+(decide (y.shown=some i)).toNat := by
  have hcount := h.count
  unfold Pipe.flight at hcount
  have honly : ∀ k, pc_is_end_addr y.core.regs y.pc (hwlp_dec_cnt_id y.core) k=true →
      k=i ∧ r=L ∧ 2 ≤ left+(decide (y.shown=some i)).toNat := by
    intro k hk
    rcases pc_is_end_addr_iff.mp hk with ⟨hpc,hc⟩
    exact h.only hpc (h.dec_id k ▸ hc)
  refine ⟨fun hj => honly j (chosen_ends hj),?_⟩
  rintro ⟨rfl,hr,hleft⟩
  refine chosen_eq_some (pc_is_end_addr_iff.mpr ⟨by rw [h.pc,hr,h.ends],?_⟩)
    fun k hk => (honly k hk).1
  rw [h.dec_id]
  omega

/-- Nothing but the counters moves. -/
theorem Runs.step (h : Runs m i first L y left r) (hx : Undisturbed y x) (hreg : Regular y x)
    {left' r' : ℕ} (hbound : r' ≤ L) (hpc : (y.step m x).pc=(next m)^[r'] first)
    (hcount : ((y.step m x).core.regs.hwlp_counter_q i).toNat=left'+(y.step m x).flight i) :
    Runs m i first L (y.step m x) left' r' where
  toInv := h.toInv.step hreg
  begins := by
    rw [←h.begins]
    exact if_neg (by rw [hx.written]; exact Bool.false_ne_true)
  ends := by
    rw [←h.ends]
    exact if_neg (by rw [hx.written]; exact Bool.false_ne_true)
  inside := h.inside
  alone j hj k hk hend := by
    have hsame : (y.step m x).core.regs.hwlp_end_q j=y.core.regs.hwlp_end_q j :=
      if_neg (by rw [hx.written]; exact Bool.false_ne_true)
    have hlt := h.alone j hj k hk (hsame ▸ hend)
    have hdown := h.toNat_counter (m := m) (hx.written 2 j)
    omega
  bound := hbound
  pc := hpc
  count := hcount

/-- While an instruction waits, the pass stays where it is. -/
theorem Runs.step_wait (h : Runs m i first L y left r) (hx : Undisturbed y x)
    (hreg : Regular y x) (htake : if_valid x=false) : Runs m i first L (y.step m x) left r := by
  refine h.step hx hreg h.bound ?_ ?_
  · rw [←h.pc]
    exact if_neg (by rw [htake]; exact Bool.false_ne_true)
  · have hcounter := h.toNat_counter (m := m) (hx.written 2 i)
    have hflight := flight_waiting (m := m) (y := y) htake i
    have hcount := h.count
    omega

theorem Undisturbed.regular (hx : Undisturbed y x) (htake : if_valid x=true) : Regular y x where
  toServed := hx.toServed
  apart _ _ hwait := absurd (htake.symm.trans hwait) nofun
  settled j hw := absurd ((hx.written 2 j).symm.trans hw) Bool.false_ne_true

theorem pc_taken (htake : if_valid x=true) : (y.step m x).pc=
    if hwlp_jump_o y.core y.pc then hwlp_targ_addr_o y.core y.pc else next m y.pc := if_pos htake

theorem shown_taken (htake : if_valid x=true) : (y.step m x).shown=loop y.core y.pc := if_pos htake

/-- Where no jump is asked for, the next instruction follows. -/
theorem Runs.pc_straight (h : Runs m i first L y left r) (htake : if_valid x=true)
    (hno : ¬(r=L ∧ 2 ≤ left+(decide (y.shown=some i)).toNat)) :
    (y.step m x).shown=none ∧ (y.step m x).pc=(next m)^[r+1] first := by
  have hloop : loop y.core y.pc=none := by
    rw [Option.eq_none_iff_forall_ne_some]
    exact fun j hj => hno ((h.loop_iff j).mp hj).2
  rw [pc_taken htake,shown_taken htake,jump_iff,hloop,Option.isSome_none,
    if_neg Bool.false_ne_true,h.pc,Function.iterate_succ_apply']
  exact ⟨rfl,rfl⟩

/-- Within the body. -/
theorem Runs.step_on (h : Runs m i first L y left r) (hx : Undisturbed y x)
    (htake : if_valid x=true) (hr : r < L) :
    Runs m i first L (y.step m x) left (r+1) ∧ (y.step m x).shown=none := by
  rcases h.pc_straight (x := x) htake (fun hno => by omega) with ⟨hshown,hpc⟩
  refine ⟨h.step hx (hx.regular htake) hr hpc ?_,hshown⟩
  have hcounter := h.toNat_counter (m := m) (hx.written 2 i)
  have hcount := h.count
  rw [clear_of_if_valid htake,Bool.true_and] at hcounter
  unfold Pipe.flight at hcount
  rw [flight_taken htake,←shown_taken (m := m) htake,hshown]
  simp only [reduceCtorEq,decide_false,Bool.toNat_false,Nat.zero_add]
  omega

/-- Back to the first instruction. -/
theorem Runs.step_back (h : Runs m i first L y left r) (hx : Undisturbed y x)
    (htake : if_valid x=true) (hr : r=L) (hleft : 1 ≤ left)
    (hgo : 2 ≤ left+(decide (y.shown=some i)).toNat) :
    Runs m i first L (y.step m x) (left-1) 0 ∧ (y.step m x).shown=some i := by
  have hloop := (h.loop_iff i).mpr ⟨rfl,hr,hgo⟩
  refine ⟨h.step hx (hx.regular htake) (Nat.zero_le L) ?_ ?_,by rw [shown_taken htake,hloop]⟩
  · rw [pc_taken htake,jump_iff,hloop,Option.isSome_some,if_pos rfl,hwlp_targ_addr_o,hloop]
    exact h.begins
  · have hcounter := h.toNat_counter (m := m) (hx.written 2 i)
    have hcount := h.count
    rw [clear_of_if_valid htake,Bool.true_and] at hcounter
    unfold Pipe.flight at hcount
    rw [flight_taken htake,decide_eq_true hloop,Bool.toNat_true]
    omega

end Passes

section Streams

variable {m : Memory} {i : Fin N_REGS} {first : BitVec 32} {L : ℕ} {y : Pipe N_REGS}
  {left r : ℕ} {xs : List (Input N_REG_BITS)}

theorem Agree.cons {l t : List (BitVec 32)} (h : Agree l t) (a : BitVec 32) :
    Agree (a::l) (a::t) :=
  h.imp (List.cons_prefix_cons.mpr ⟨rfl,·⟩) (List.cons_prefix_cons.mpr ⟨rfl,·⟩)

theorem taken_cons_of_taken {x : Input N_REG_BITS} (htake : if_valid x=true) :
    taken m y (x::xs)=y.pc::taken m (y.step m x) xs := if_pos htake

theorem taken_cons_of_waiting {x : Input N_REG_BITS} (htake : if_valid x=false) :
    taken m y (x::xs)=taken m (y.step m x) xs := if_neg (by rw [htake]; exact Bool.false_ne_true)

theorem repeated_succ (m : Memory) (first : BitVec 32) (length n : ℕ) :
    repeated m first length (n+1)=straight m first length++repeated m first length n := by
  rw [repeated,List.replicate_succ,List.flatten_cons,List.append_assoc]
  rfl

/-- The instruction that is shown is the next to be taken. -/
theorem agree_shown : Agree (taken m y xs) [y.pc] := by
  induction xs generalizing y with
  | nil => exact Or.inl List.nil_prefix
  | cons x xs ih =>
    cases htake : if_valid x with
    | true =>
      rw [taken_cons_of_taken htake]
      exact Or.inr (List.cons_prefix_cons.mpr ⟨rfl,List.nil_prefix⟩)
    | false =>
      rw [taken_cons_of_waiting htake]
      have hpc : (y.step m x).pc=y.pc := if_neg (by rw [htake]; exact Bool.false_ne_true)
      exact hpc ▸ ih

/-- What is left of a pass is taken, then the passes that are left, and then what is behind. -/
theorem Runs.agree (h : Runs m i first L y left r) (hleft : 1 ≤ left) (hlong : 0 < L ∨ left=1)
    (hplain : r≠0 → y.shown=none) (hfree : r=L → y.shown≠some i)
    (hxs : Meets (Pipe.step m) Undisturbed y xs) : Agree (taken m y xs)
      (straight m ((next m)^[r] first) (L+1-r)++repeated m first (L+1) (left-1)) := by
  induction xs generalizing y left r with
  | nil => exact Or.inl List.nil_prefix
  | cons x xs ih =>
    rcases hxs with ⟨hx,hxs⟩
    have hbound := h.bound
    cases htake : if_valid x with
    | false =>
      rw [taken_cons_of_waiting htake]
      have hshown : (y.step m x).shown=y.shown := if_neg (by rw [htake]; exact Bool.false_ne_true)
      have hreg : Regular y x := by
        refine ⟨hx.toServed,fun j k _ hj hpc hc => ?_,fun j hw => ?_⟩
        · -- only behind the last instruction a jump can be asked for, and no jump led there
          rcases h.only hpc hc with ⟨-,hr,hgo⟩
          rw [decide_eq_false (hfree hr),Bool.toNat_false] at hgo
          have hL : r≠0 := by omega
          exact absurd (hj.symm.trans (hplain hL)) nofun
        · exact absurd ((hx.written 2 j).symm.trans hw) Bool.false_ne_true
      exact ih (h.step_wait hx hreg htake) hleft hlong (hshown ▸ hplain) (hshown ▸ hfree) hxs
    | true =>
      have hhead : straight m ((next m)^[r] first) (L+1-r)=
          y.pc::straight m ((next m)^[r+1] first) (L-r) := by
        rw [show L+1-r=(L-r)+1 by omega,h.pc,Function.iterate_succ_apply']
        rfl
      rw [taken_cons_of_taken htake,hhead,List.cons_append]
      refine Agree.cons ?_ y.pc
      by_cases hr : r=L
      · have hshown := hfree hr
        have hbit : (decide (y.shown=some i)).toNat=0 := by rw [decide_eq_false hshown]; rfl
        rw [hr,Nat.sub_self]
        show Agree _ (repeated m first (L+1) (left-1))
        by_cases hone : left=1
        · have hout := (h.pc_straight (x := x) htake (by omega)).2
          rw [hone,←hr]
          show Agree _ [(next m)^[r+1] first]
          rw [←hout]
          exact agree_shown
        · rcases h.step_back hx htake hr hleft (by omega) with ⟨hnext,hsome⟩
          have hagree := ih hnext (by omega) (Or.inl (by omega)) (fun hne => absurd rfl hne)
            (fun heq => by omega) hxs
          rw [show left-1=(left-1-1)+1 by omega,repeated_succ]
          exact hagree
      · rcases h.step_on hx htake (lt_of_le_of_ne hbound hr) with ⟨hnext,hnone⟩
        have hagree := ih hnext hleft hlong (fun _ => hnone)
          (fun _ => by rw [hnone]; exact nofun) hxs
        rw [show L+1-(r+1)=L-r by omega] at hagree
        exact hagree

/-- A cycle in which the shown instruction is taken. -/
def flow (y : Pipe N_REGS) : Input N_REG_BITS :=
  ⟨y.pc,y.shown.isSome,true,false,true,false,false,0,0,0,0,0⟩

/-- A run of such cycles. -/
def flows (m : Memory) : Pipe N_REGS → ℕ → List (Input N_REG_BITS)
  | _,0 => []
  | y,n+1 => flow y::flows m (y.step m (flow y : Input N_REG_BITS)) n

theorem undisturbed_flow (y : Pipe N_REGS) : Undisturbed y (flow y : Input N_REG_BITS) :=
  ⟨⟨rfl,fun _ => rfl⟩,rfl⟩

theorem meets_flows (y : Pipe N_REGS) (n : ℕ) :
    Meets (Pipe.step m) Undisturbed y (flows m y n : List (Input N_REG_BITS)) := by
  induction n generalizing y with
  | zero => exact trivial
  | succ n ih => exact ⟨undisturbed_flow y,ih _⟩

/-- A single instruction is executed once more than the counter says. -/
theorem Runs.taken_flows (h : Runs m i first 0 y left 0)
    (hgo : left=0 ∨ 2 ≤ left+(decide (y.shown=some i)).toNat) {n : ℕ} (hn : n ≤ left+1) :
    taken m y (flows m y n : List (Input N_REG_BITS))=List.replicate n first := by
  induction n generalizing y left with
  | zero => rfl
  | succ n ih =>
    have htake : if_valid (flow y : Input N_REG_BITS)=true := rfl
    rw [flows,taken_cons_of_taken htake,h.pc,List.replicate_succ]
    refine congrArg (first::·) ?_
    rcases hgo with hzero | hgo
    · rw [show n=0 by omega]
      rfl
    · have hpos : 1 ≤ left := by
        have hbit := Bool.toNat_le (decide (y.shown=some i))
        omega
      rcases h.step_back (undisturbed_flow y) htake rfl hpos hgo with ⟨hnext,hshown⟩
      refine ih hnext ?_ (by omega)
      rw [decide_eq_true hshown,Bool.toNat_true]
      omega

theorem next_ne (m : Memory) (a : BitVec 32) : next m a≠a := by
  intro h
  have hsize : m.size a=0#32 := by
    rw [next] at h
    bv_omega
  unfold Memory.size at hsize
  split_ifs at hsize <;> exact absurd hsize (by decide)

end Streams

section Claims

variable {m : Memory} {y : Pipe N_REGS} {i : Fin N_REGS} {L : ℕ}

/-- The first pass. -/
theorem Enters.runs (h : Enters m y i L) (hinv : Inv y) :
    Runs m i y.pc L y (y.core.regs.hwlp_counter_q i).toNat 0 where
  toInv := hinv
  begins := h.first.symm
  ends := h.last.symm
  inside k hk := by rw [h.last]; exact h.inside k hk
  alone := h.alone
  bound := Nat.zero_le L
  pc := rfl
  count := by rw [h.fresh]; rfl

/-- A body of one instruction starts where it ends. -/
theorem Enters.single_iff (h : Enters m y i L) :
    y.core.regs.hwlp_start_q i=y.core.regs.hwlp_end_q i ↔ L=0 := by
  rw [←h.first]
  constructor
  · intro heq
    by_contra hL
    exact h.inside 0 (Nat.pos_of_ne_zero hL) heq
  · intro hL
    have hlast := h.last
    rw [hL] at hlast
    exact hlast

theorem Enters.not_shown (h : Enters m y i L) : y.shown≠some i := by
  intro hshown
  have hfresh := h.fresh
  rw [Pipe.flight,decide_eq_true hshown,Bool.toNat_true] at hfresh
  omega

/-- The body is executed as often as the counter says if it has more than one instruction, or
if the counter is one. -/
theorem executes_iff (hinv : Inv y) (h : Enters m y i L)
    (hcount : y.core.regs.hwlp_counter_q i≠0) :
    (∀ xs : List (Input N_REG_BITS), Meets (Pipe.step m) Undisturbed y xs → Agree (taken m y xs)
      (repeated m y.pc (L+1) (y.core.regs.hwlp_counter_q i).toNat)) ↔
    y.core.regs.hwlp_start_q i≠y.core.regs.hwlp_end_q i ∨ y.core.regs.hwlp_counter_q i=1 := by
  have hpos : (y.core.regs.hwlp_counter_q i).toNat≠0 := fun h => hcount (BitVec.toNat_inj.mp h)
  have hone : y.core.regs.hwlp_counter_q i=1 ↔ (y.core.regs.hwlp_counter_q i).toNat=1 :=
    BitVec.toNat_inj.symm
  have hruns := h.runs hinv
  rw [ne_eq,h.single_iff,hone]
  constructor
  · intro hall
    by_contra hnot
    rw [not_or,not_not] at hnot
    rcases hnot with ⟨rfl,htwo⟩
    -- one instruction more than there should be
    have hgo : 2 ≤ (y.core.regs.hwlp_counter_q i).toNat+(decide (y.shown=some i)).toNat := by omega
    have htaken : taken m y (flows m y _ : List (Input N_REG_BITS))=List.replicate _ y.pc :=
      hruns.taken_flows (Or.inr hgo) (Nat.le_refl _)
    have hagree := hall _ (meets_flows y ((y.core.regs.hwlp_counter_q i).toNat+1))
    rw [htaken] at hagree
    have hflat : repeated m y.pc (0+1) (y.core.regs.hwlp_counter_q i).toNat=
        List.replicate (y.core.regs.hwlp_counter_q i).toNat y.pc++[next m y.pc] := by
      show (List.replicate _ [y.pc]).flatten++_=_
      rw [List.flatten_replicate_singleton]
      rfl
    rw [hflat] at hagree
    have heq : List.replicate ((y.core.regs.hwlp_counter_q i).toNat+1) y.pc=
        List.replicate (y.core.regs.hwlp_counter_q i).toNat y.pc++[next m y.pc] := by
      rcases hagree with hpre | hpre
      · exact hpre.eq_of_length (by simp)
      · exact (hpre.eq_of_length (by simp)).symm
    rw [List.replicate_succ'] at heq
    exact next_ne m y.pc (List.singleton_inj.mp (List.append_cancel_left heq)).symm
  · intro hcond xs hxs
    have hagree := hruns.agree (by omega) (by omega) (fun hne => absurd rfl hne)
      (fun _ => h.not_shown) hxs
    rw [show (y.core.regs.hwlp_counter_q i).toNat=(y.core.regs.hwlp_counter_q i).toNat-1+1 by omega,
      repeated_succ]
    exact hagree

/-- In every cycle at most one counter is decremented, for the loop whose jump led to the
instruction in the ID stage, and it is not zero; a jump is asked for only for the loop that is
chosen for the decrement. From any state that is reached so the body of a loop is executed as
often as its counter says exactly if it has more than one instruction or the counter is one. -/
theorem loops_sound (m : Memory) (pc : BitVec 32) (ws : List (Input N_REG_BITS))
    (hws : Meets (Pipe.step m) Regular (Pipe.reset N_REGS pc) ws) :
    Meets (Pipe.step m) Sound (Pipe.reset N_REGS pc) ws ∧
    ∀ y i L, y=after (Pipe.step m) (Pipe.reset N_REGS pc) ws → Enters m y i L →
      y.core.regs.hwlp_counter_q i≠0 →
      ((∀ xs : List (Input N_REG_BITS), Meets (Pipe.step m) Undisturbed y xs →
        Agree (taken m y xs) (repeated m y.pc (L+1) (y.core.regs.hwlp_counter_q i).toNat)) ↔
        y.core.regs.hwlp_start_q i≠y.core.regs.hwlp_end_q i ∨
          y.core.regs.hwlp_counter_q i=1) := by
  refine ⟨meets_of_meets (fun _ _ hy hx => hy.step hx) (fun _ x hy _ => hy.sound x)
    (inv_reset pc) hws,?_⟩
  rintro y i L rfl henters hcount
  exact executes_iff (inv_after hws) henters hcount

/-- A program of instructions of four bytes. -/
def words : Memory := fun _ => 0x13

/-- A cycle in which the instruction at `0x100` waits and a register of the first loop is written. -/
def write (we : BitVec 3) (data : BitVec 32) : Input 1 :=
  ⟨0x100,false,false,false,false,false,false,we,0,data,data,data⟩

/-- The first loop is set up. -/
def setup (last count : BitVec 32) : List (Input 1) := [write 1 0x100,write 2 last,write 4 count]

/-- The loop is reached. -/
def entry (last count : BitVec 32) : Pipe 2 :=
  after (Pipe.step words) (Pipe.reset 2 0x100) (setup last count)

theorem write_counter {y : Pipe 2} (hid : y.core.hwlp_dec_cnt_id_o=fun _ => false) (we : BitVec 3)
    (hwe : we.getLsbD 2=false) (data : BitVec 32) :
    (y.step words (write we data)).core.regs.hwlp_counter_q=y.core.regs.hwlp_counter_q := by
  funext j
  show (if we.getLsbD 2 && _ then _ else if y.core.hwlp_dec_cnt_id_o j && _ then _ else _)=_
  rw [hwe,hid,Bool.false_and,Bool.false_and,if_neg Bool.false_ne_true,if_neg Bool.false_ne_true]

theorem setup_regular (last count : BitVec 32) :
    Meets (Pipe.step words) Regular (Pipe.reset 2 0x100) (setup last count) := by
  have hquiet : ∀ y : Pipe 2, y.pc=0x100 → y.shown=none → y.inId=none →
      y.core.regs.hwlp_counter_q=(fun _ => 0) → ∀ we data, Regular y (write we data) := by
    intro y hpc hshown hinId hcounter we data
    refine ⟨⟨hpc.symm,fun h => absurd h Bool.false_ne_true⟩,fun j k _ hj => ?_,
      fun j _ => ⟨?_,fun _ => ?_⟩⟩
    · exact absurd (hshown.symm.trans hj) nofun
    · rw [Pipe.flight,hshown,hinId]
      rfl
    · rw [hcounter]
      show (0#32).toNat < 2
      decide
  have hstart := write_counter (y := Pipe.reset 2 0x100) rfl 1 (by decide) 0x100
  have hend := write_counter (y := (Pipe.reset 2 0x100).step words (write 1 0x100)) rfl 2
    (by decide) last
  exact ⟨hquiet _ rfl rfl rfl rfl _ _,hquiet _ rfl rfl rfl hstart _ _,
    hquiet _ rfl rfl rfl (hend.trans hstart) _ _,trivial⟩

/-- A body of two instructions is executed three times. -/
theorem loops_sound_three :
    Meets (Pipe.step words) Regular (Pipe.reset 2 0x100) (setup 0x104 3) ∧
    ∀ xs : List (Input 1), Meets (Pipe.step words) Undisturbed (entry 0x104 3) xs →
      Agree (taken words (entry 0x104 3) xs) [0x100,0x104,0x100,0x104,0x100,0x104,0x108] := by
  have hset := setup_regular 0x104 3
  have henters : Enters words (entry 0x104 3) 0 1 := by
    refine ⟨by decide,by decide,fun k hk => ?_,fun j hj _ _ _ => ?_,by decide⟩
    · rw [Nat.lt_one_iff.mp hk]
      decide
    · have hone : j=1 := by omega
      rw [hone]
      decide
  have hall := ((loops_sound words 0x100 _ hset).2 _ 0 1 rfl henters (by decide)).mpr
    (Or.inl (by decide))
  exact ⟨hset,fun xs hxs => hall xs hxs⟩

/-- A body of one instruction is executed three times where the counter says twice. -/
theorem not_executes :
    Meets (Pipe.step words) Regular (Pipe.reset 2 0x100) (setup 0x100 2) ∧
    Enters words (entry 0x100 2) 0 0 ∧ (entry 0x100 2).core.regs.hwlp_counter_q 0=2 ∧
    ¬∀ xs : List (Input 1), Meets (Pipe.step words) Undisturbed (entry 0x100 2) xs →
      Agree (taken words (entry 0x100 2) xs) (repeated words 0x100 1 2) := by
  have henters : Enters words (entry 0x100 2) 0 0 := by
    refine ⟨by decide,by decide,fun k hk => absurd hk (Nat.not_lt_zero k),
      fun j hj _ _ _ => ?_,by decide⟩
    have hone : j=1 := by omega
    rw [hone]
    decide
  refine ⟨setup_regular 0x100 2,henters,by decide,fun h => ?_⟩
  have hrun := h _ (meets_flows (entry 0x100 2) 3)
  have htaken : taken words (entry 0x100 2) (flows words (entry 0x100 2) 3 : List (Input 1))=
      [0x100,0x100,0x100] := by decide
  have hrepeated : repeated words 0x100 1 2=[0x100,0x100,0x104] := by decide
  rw [htaken,hrepeated] at hrun
  rcases hrun with hpre | hpre
  · exact absurd hpre (by decide)
  · exact absurd hpre (by decide)

end Claims

end Pulpissimo.Riscv.HwLoop
