import Mathlib.Data.Nat.Log
import Pulpissimo.Lib.Machine
import Pulpissimo.Lib.RingBuffer

/-!
# The generic queue

`generic_fifo` keeps its values on a ring of registers with two pointers and a state
that tells an empty ring from a full one. For a depth that is a power of two, where the
pointers wrap by themselves, it is a queue.
-/

namespace Pulpissimo.CommonCells.GenericFifo

open Pulpissimo.Machine Pulpissimo.RingBuffer

variable {DATA_WIDTH DATA_DEPTH : ℕ}

/-- Width of the pointers. -/
abbrev ADDR_DEPTH (DATA_DEPTH : ℕ) : ℕ := Nat.clog 2 DATA_DEPTH

/-- States. -/
inductive Fill where
  | EMPTY
  | FULL
  | MIDDLE
deriving DecidableEq

/-- Registers. -/
structure State (DATA_WIDTH DATA_DEPTH : ℕ) where
  CS : Fill
  Pop_Pointer_CS : BitVec (ADDR_DEPTH DATA_DEPTH)
  Push_Pointer_CS : BitVec (ADDR_DEPTH DATA_DEPTH)
  FIFO_REGISTERS : BitVec (ADDR_DEPTH DATA_DEPTH) → BitVec DATA_WIDTH

/-- One cycle of inputs. -/
structure Input (DATA_WIDTH : ℕ) where
  data_i : BitVec DATA_WIDTH
  /-- A value is put on. -/
  valid_i : Bool
  /-- The value in front is taken. -/
  grant_i : Bool

/-- Values after reset. -/
def reset : State DATA_WIDTH DATA_DEPTH := ⟨.EMPTY,0,0,fun _ => 0⟩

section Code

variable (s : State DATA_WIDTH DATA_DEPTH) (i : Input DATA_WIDTH)

/-- There is room. -/
def grant_o : Bool := s.CS != .FULL

/-- There is a value in front. -/
def valid_o : Bool := s.CS != .EMPTY

def data_o : BitVec DATA_WIDTH := s.FIFO_REGISTERS s.Pop_Pointer_CS

/-- A pointer after the last register goes to the first. -/
def wrap (p : BitVec (ADDR_DEPTH DATA_DEPTH)) : BitVec (ADDR_DEPTH DATA_DEPTH) :=
  if p.toNat=DATA_DEPTH-1 then 0 else p+1

/-- The pointer `p` is just before `q`. -/
def justBefore (p q : BitVec (ADDR_DEPTH DATA_DEPTH)) : Bool :=
  decide ((p.toNat : ℤ)=q.toNat-1) || (decide (p.toNat=DATA_DEPTH-1) && q==0)

/-- Next state, next `Pop_Pointer_CS` and next `Push_Pointer_CS`. -/
def NS : Fill×BitVec (ADDR_DEPTH DATA_DEPTH)×BitVec (ADDR_DEPTH DATA_DEPTH) :=
  match s.CS,i.valid_i,i.grant_i with
  | .EMPTY,false,_ => (.EMPTY,s.Pop_Pointer_CS,s.Push_Pointer_CS)
  | .EMPTY,true,_ => (.MIDDLE,s.Pop_Pointer_CS,s.Push_Pointer_CS+1)
  | .MIDDLE,false,true => (if justBefore s.Pop_Pointer_CS s.Push_Pointer_CS then .EMPTY else .MIDDLE,
      wrap s.Pop_Pointer_CS,s.Push_Pointer_CS)
  | .MIDDLE,false,false => (.MIDDLE,s.Pop_Pointer_CS,s.Push_Pointer_CS)
  | .MIDDLE,true,true => (.MIDDLE,wrap s.Pop_Pointer_CS,wrap s.Push_Pointer_CS)
  | .MIDDLE,true,false => (if justBefore s.Push_Pointer_CS s.Pop_Pointer_CS then .FULL else .MIDDLE,
      s.Pop_Pointer_CS,wrap s.Push_Pointer_CS)
  | .FULL,_,true => (.MIDDLE,wrap s.Pop_Pointer_CS,s.Push_Pointer_CS)
  | .FULL,_,false => (.FULL,s.Pop_Pointer_CS,s.Push_Pointer_CS)

/-- One clock edge. -/
def step : State DATA_WIDTH DATA_DEPTH where
  CS := (NS s i).1
  Pop_Pointer_CS := (NS s i).2.1
  Push_Pointer_CS := (NS s i).2.2
  FIFO_REGISTERS := fun q => if grant_o s && i.valid_i && q==s.Push_Pointer_CS then i.data_i
    else s.FIFO_REGISTERS q

end Code

section Queue

variable (s : State DATA_WIDTH DATA_DEPTH) (i : Input DATA_WIDTH)

/-- A value is put on. -/
def pushes : Bool := i.valid_i && grant_o s

/-- The value in front is taken. -/
def pops : Bool := valid_o s && i.grant_i

/-- Values that are put on. -/
def pushed : List (BitVec DATA_WIDTH) := if pushes s i then [i.data_i] else []

/-- Values that are taken. -/
def popped : List (BitVec DATA_WIDTH) := if pops s i then [data_o s] else []

/-- Number of values. -/
def fill : ℕ := match s.CS with
  | .EMPTY => 0
  | .FULL => DATA_DEPTH
  | .MIDDLE => (s.Push_Pointer_CS-s.Pop_Pointer_CS).toNat

/-- Values from the front on. -/
def contents : List (BitVec DATA_WIDTH) := window up s.FIFO_REGISTERS s.Pop_Pointer_CS (fill s)

end Queue

section Pointers

variable (hD : 2^ADDR_DEPTH DATA_DEPTH=DATA_DEPTH)
include hD

theorem wrap_eq (p : BitVec (ADDR_DEPTH DATA_DEPTH)) : wrap p=up p := by
  unfold wrap
  split_ifs with hlast
  · symm
    by_contra hne
    have hsucc := toNat_up_of_ne hne
    have hlt := (up p).isLt
    omega
  · rfl

theorem justBefore_iff (p q : BitVec (ADDR_DEPTH DATA_DEPTH)) : justBefore p q=true ↔ up p=q := by
  have hpos : 0<2^ADDR_DEPTH DATA_DEPTH := Nat.two_pow_pos _
  unfold justBefore
  rw [Bool.or_eq_true_iff,Bool.and_eq_true_iff,decide_eq_true_iff,decide_eq_true_iff,beq_iff_eq]
  constructor
  · rintro (hnext | ⟨hlast,hzero⟩)
    · have hlt := q.isLt
      apply BitVec.eq_of_toNat_eq
      rw [toNat_up,Nat.mod_eq_of_lt (by omega)]
      omega
    · apply BitVec.eq_of_toNat_eq
      rw [toNat_up,hlast,hzero,Nat.sub_add_cancel (by omega),hD,Nat.mod_self]
      rfl
  · rintro rfl
    by_cases hzero : up p=0#_
    · right
      have hlast := toNat_last hzero
      exact ⟨by omega,hzero⟩
    · left
      have hsucc := toNat_up_of_ne hzero
      omega

end Pointers

/-- The ring holds `n` values. -/
structure Holds (s : State DATA_WIDTH DATA_DEPTH) (n : ℕ) : Prop where
  pointer : s.Push_Pointer_CS=up^[n] s.Pop_Pointer_CS
  bound : n≤DATA_DEPTH
  empty : s.CS=.EMPTY ↔ n=0
  full : s.CS=.FULL ↔ n=DATA_DEPTH

section Steps

variable {s : State DATA_WIDTH DATA_DEPTH} {n : ℕ}

theorem holds_reset (hD : 0<DATA_DEPTH) : Holds (reset : State DATA_WIDTH DATA_DEPTH) 0 :=
  ⟨rfl,Nat.zero_le _,⟨fun _ => rfl,fun _ => rfl⟩,⟨nofun,fun h => by omega⟩⟩

theorem Holds.fill_eq (h : Holds s n) (hD : 2^ADDR_DEPTH DATA_DEPTH=DATA_DEPTH) : fill s=n := by
  unfold fill
  cases hCS : s.CS with
  | EMPTY => exact (h.empty.mp hCS).symm
  | FULL => exact (h.full.mp hCS).symm
  | MIDDLE =>
    have hlt : n<DATA_DEPTH := by
      refine Nat.lt_of_le_of_ne h.bound fun heq => ?_
      have hfull := h.full.mpr heq
      rw [hCS] at hfull
      exact absurd hfull nofun
    have hgap := gap_iterate s.Pop_Pointer_CS (n:=n) (by omega)
    rw [←h.pointer] at hgap
    exact hgap

theorem holds_middle (hCS : s.CS=.MIDDLE) (hpointer : s.Push_Pointer_CS=up^[n] s.Pop_Pointer_CS)
    (hpos : 0<n) (hlt : n<DATA_DEPTH) : Holds s n := by
  refine ⟨hpointer,Nat.le_of_lt hlt,⟨fun h => ?_,fun h => ?_⟩,⟨fun h => ?_,fun h => ?_⟩⟩
  · exact absurd (hCS.symm.trans h) nofun
  · omega
  · exact absurd (hCS.symm.trans h) nofun
  · omega

theorem Holds.middle (h : Holds s n) (hCS : s.CS=.MIDDLE) : 0<n ∧ n<DATA_DEPTH := by
  have hbound := h.bound
  have hempty : n≠0 := fun hn => absurd (hCS.symm.trans (h.empty.mpr hn)) nofun
  have hfull : n≠DATA_DEPTH := fun hn => absurd (hCS.symm.trans (h.full.mpr hn)) nofun
  exact ⟨by omega,by omega⟩

theorem Holds.grant_o_iff (h : Holds s n) : grant_o s=true ↔ n<DATA_DEPTH := by
  have hbound := h.bound
  unfold grant_o
  rw [bne_iff_ne,Ne,h.full]
  omega

theorem Holds.valid_o_iff (h : Holds s n) : valid_o s=true ↔ 0<n := by
  unfold valid_o
  rw [bne_iff_ne,Ne,h.empty]
  omega

/-- The pointers move with the values. -/
theorem step_pointers (hD : 2^ADDR_DEPTH DATA_DEPTH=DATA_DEPTH) (s : State DATA_WIDTH DATA_DEPTH)
    (i : Input DATA_WIDTH) :
    (step s i).Pop_Pointer_CS=
        (if pops s i=true then up s.Pop_Pointer_CS else s.Pop_Pointer_CS) ∧
      (step s i).Push_Pointer_CS=
        (if pushes s i=true then up s.Push_Pointer_CS else s.Push_Pointer_CS) := by
  rcases s with ⟨CS,pop,push,registers⟩
  rcases i with ⟨data_i,valid_i,grant_i⟩
  cases CS <;> cases valid_i <;> cases grant_i <;>
    simp [step,NS,pops,pushes,valid_o,grant_o,wrap_eq hD,up]

/-- Number of values after a cycle. -/
def nextFill (s : State DATA_WIDTH DATA_DEPTH) (i : Input DATA_WIDTH) (n : ℕ) : ℕ :=
  n+(if pushes s i=true then 1 else 0)-(if pops s i=true then 1 else 0)

theorem Holds.pointer_step (h : Holds s n) (hD : 2^ADDR_DEPTH DATA_DEPTH=DATA_DEPTH)
    (i : Input DATA_WIDTH) :
    (step s i).Push_Pointer_CS=up^[nextFill s i n] (step s i).Pop_Pointer_CS := by
  have hpos : pops s i=true → 0<n := by
    unfold pops
    rw [Bool.and_eq_true_iff,h.valid_o_iff]
    exact fun hboth => hboth.1
  rw [(step_pointers hD s i).1,(step_pointers hD s i).2,h.pointer]
  unfold nextFill
  by_cases hpush : pushes s i=true
  · rw [if_pos hpush,if_pos hpush]
    by_cases hpop : pops s i=true
    · rw [if_pos hpop,if_pos hpop,Nat.add_sub_cancel,←Function.iterate_succ_apply' up,
        Function.iterate_succ_apply]
    · rw [if_neg hpop,if_neg hpop,Nat.sub_zero,Function.iterate_succ_apply']
  · rw [if_neg hpush,if_neg hpush]
    by_cases hpop : pops s i=true
    · rw [if_pos hpop,if_pos hpop,←Function.iterate_succ_apply,
        show (n+0-1).succ=n by have := hpos hpop; omega]
    · rw [if_neg hpop,if_neg hpop,Nat.add_zero,Nat.sub_zero]

/-- State of a ring of `n` values. -/
def fillState (DATA_DEPTH n : ℕ) : Fill :=
  if n=0 then .EMPTY else if n=DATA_DEPTH then .FULL else .MIDDLE

theorem Holds.before_iff (h : Holds s n) (hD : 2^ADDR_DEPTH DATA_DEPTH=DATA_DEPTH) (hone : 1<DATA_DEPTH)
    (hlt : n<DATA_DEPTH) : justBefore s.Pop_Pointer_CS s.Push_Pointer_CS=true ↔ n=1 := by
  rw [justBefore_iff hD,h.pointer]
  constructor
  · intro heq
    have hgap := gap_iterate s.Pop_Pointer_CS (n:=n) (by omega)
    have hnext := gap_iterate s.Pop_Pointer_CS (n:=1) (by omega)
    rw [←heq] at hgap
    exact hgap.symm.trans hnext
  · rintro rfl
    rfl

theorem Holds.behind_iff (h : Holds s n) (hD : 2^ADDR_DEPTH DATA_DEPTH=DATA_DEPTH)
    (hlt : n<DATA_DEPTH) : justBefore s.Push_Pointer_CS s.Pop_Pointer_CS=true ↔ n+1=DATA_DEPTH := by
  rw [justBefore_iff hD,h.pointer,←Function.iterate_succ_apply' up]
  constructor
  · intro heq
    by_contra hne
    have hgap := gap_iterate s.Pop_Pointer_CS (n:=n+1) (by omega)
    rw [heq,gap_self] at hgap
    omega
  · intro heq
    rw [Nat.succ_eq_add_one,heq.trans hD.symm]
    exact iterate_turn s.Pop_Pointer_CS

theorem fillState_middle (hpos : 0<n) (hlt : n<DATA_DEPTH) : fillState DATA_DEPTH n=.MIDDLE := by
  unfold fillState
  rw [if_neg (by omega),if_neg (by omega)]

/-- The state follows the number of values. -/
theorem Holds.state_step (h : Holds s n) (hD : 2^ADDR_DEPTH DATA_DEPTH=DATA_DEPTH)
    (hone : 1<DATA_DEPTH) (i : Input DATA_WIDTH) :
    (step s i).CS=fillState DATA_DEPTH (nextFill s i n) := by
  have hbefore := h.before_iff hD hone
  have hbehind := h.behind_iff hD
  rcases i with ⟨data_i,valid_i,grant_i⟩
  cases hCS : s.CS with
  | EMPTY =>
    have hn : n=0 := h.empty.mp hCS
    subst hn
    cases valid_i with
    | false => simp [step,NS,nextFill,pushes,pops,valid_o,fillState,hCS]
    | true =>
      simp only [step,NS,nextFill,pushes,pops,grant_o,valid_o,hCS]
      exact (fillState_middle (n:=1) Nat.one_pos hone).symm
  | FULL =>
    have hn : n=DATA_DEPTH := h.full.mp hCS
    cases grant_i with
    | false =>
      have hnext : nextFill s ⟨data_i,valid_i,false⟩ n=DATA_DEPTH := by
        simp [nextFill,pushes,pops,grant_o,hCS,hn]
      have hstate : (step s ⟨data_i,valid_i,false⟩).CS=.FULL := by simp only [step,NS,hCS]
      rw [hnext,hstate,fillState,if_neg (by omega),if_pos rfl]
    | true =>
      have hnext : nextFill s ⟨data_i,valid_i,true⟩ n=DATA_DEPTH-1 := by
        simp [nextFill,pushes,pops,grant_o,valid_o,hCS,hn]
      have hstate : (step s ⟨data_i,valid_i,true⟩).CS=.MIDDLE := by simp only [step,NS,hCS]
      rw [hnext,hstate,fillState_middle (by omega) (by omega)]
  | MIDDLE =>
    rcases h.middle hCS with ⟨hpos,hlt⟩
    have hnext : nextFill s ⟨data_i,valid_i,grant_i⟩ n=
        n+(if valid_i=true then 1 else 0)-(if grant_i=true then 1 else 0) := by
      simp [nextFill,pushes,pops,grant_o,valid_o,hCS]
    rw [hnext]
    cases valid_i with
    | false =>
      cases grant_i with
      | false =>
        have hstate : (step s ⟨data_i,false,false⟩).CS=.MIDDLE := by simp only [step,NS,hCS]
        exact hstate.trans (fillState_middle hpos hlt).symm
      | true =>
        have hstate : (step s ⟨data_i,false,true⟩).CS=
            if justBefore s.Pop_Pointer_CS s.Push_Pointer_CS then .EMPTY else .MIDDLE := by
          simp only [step,NS,hCS]
        rw [hstate,if_congr (hbefore hlt) rfl rfl,if_neg Bool.false_ne_true,if_pos rfl,fillState]
        split_ifs <;> first | rfl | omega
    | true =>
      cases grant_i with
      | false =>
        have hstate : (step s ⟨data_i,true,false⟩).CS=
            if justBefore s.Push_Pointer_CS s.Pop_Pointer_CS then .FULL else .MIDDLE := by
          simp only [step,NS,hCS]
        rw [hstate,if_congr (hbehind hlt) rfl rfl,if_neg Bool.false_ne_true,if_pos rfl,fillState]
        split_ifs <;> first | rfl | omega
      | true =>
        have hstate : (step s ⟨data_i,true,true⟩).CS=.MIDDLE := by simp only [step,NS,hCS]
        exact hstate.trans (fillState_middle hpos hlt).symm

/-- Values that are put on and taken change the number of values. -/
theorem Holds.step (h : Holds s n) (hD : 2^ADDR_DEPTH DATA_DEPTH=DATA_DEPTH) (hone : 1<DATA_DEPTH)
    (i : Input DATA_WIDTH) : Holds (step s i) (nextFill s i n) := by
  have hbound : nextFill s i n≤DATA_DEPTH := by
    have hle := h.bound
    have hroom := h.grant_o_iff
    unfold nextFill pushes
    by_cases hgrant : grant_o s=true
    · have hlt := hroom.mp hgrant
      split_ifs <;> omega
    · rw [Bool.not_eq_true] at hgrant
      rw [hgrant,Bool.and_false,if_neg Bool.false_ne_true]
      omega
  have hstate := h.state_step hD hone i
  have hpos : 0<DATA_DEPTH := by omega
  refine ⟨h.pointer_step hD i,hbound,?_,?_⟩
  all_goals
    rw [hstate,fillState]
    split_ifs <;> simp <;> omega

/-- The cells hold the value that is put on behind the others. -/
theorem Holds.window_push (h : Holds s n) (hD : 2^ADDR_DEPTH DATA_DEPTH=DATA_DEPTH)
    (i : Input DATA_WIDTH) :
    window up (GenericFifo.step s i).FIFO_REGISTERS s.Pop_Pointer_CS
      (n+(if pushes s i=true then 1 else 0))=contents s++pushed s i := by
  unfold contents pushed
  rw [h.fill_eq hD]
  by_cases hpush : pushes s i=true
  · have hboth := Bool.and_eq_true_iff.mp hpush
    have hlt := h.grant_o_iff.mp hboth.2
    have hcells : (GenericFifo.step s i).FIFO_REGISTERS=fun q =>
        if q=up^[n] s.Pop_Pointer_CS then i.data_i else s.FIFO_REGISTERS q := by
      funext q
      rw [←h.pointer]
      simp [GenericFifo.step,hboth.1,hboth.2]
    rw [if_pos hpush,if_pos hpush,hcells]
    exact window_write i.data_i fun k hk => iterate_up_ne _ hk (by omega)
  · have hcells : (GenericFifo.step s i).FIFO_REGISTERS=s.FIFO_REGISTERS := by
      funext q
      unfold pushes at hpush
      rw [Bool.and_comm] at hpush
      simp [GenericFifo.step,hpush]
    rw [if_neg hpush,if_neg hpush,hcells,Nat.add_zero,List.append_nil]

/-- The front value stays where it is. -/
theorem Holds.front_kept (h : Holds s n) (hD : 2^ADDR_DEPTH DATA_DEPTH=DATA_DEPTH) (hpos : 0<n)
    (i : Input DATA_WIDTH) :
    (GenericFifo.step s i).FIFO_REGISTERS s.Pop_Pointer_CS=data_o s := by
  have hpush := h.window_push hD i
  unfold contents at hpush
  rw [h.fill_eq hD] at hpush
  rcases Nat.exists_eq_add_of_lt hpos with ⟨m,hm⟩
  have hfirst : ∀ a, n+a=m+a+1 := fun a => by omega
  have hn : n=m+1 := by omega
  rw [hfirst,hn,window_succ,window_succ,List.cons_append,List.cons.injEq] at hpush
  exact hpush.1

/-- A cycle takes the front value off and puts its value behind the others. -/
theorem Holds.contents_step (h : Holds s n) (hD : 2^ADDR_DEPTH DATA_DEPTH=DATA_DEPTH)
    (hone : 1<DATA_DEPTH) (i : Input DATA_WIDTH) :
    popped s i++contents (GenericFifo.step s i)=contents s++pushed s i := by
  rw [←h.window_push hD i,contents,(h.step hD hone i).fill_eq hD,(step_pointers hD s i).1]
  unfold popped nextFill
  by_cases hpop : pops s i=true
  · have hpos : 0<n := h.valid_o_iff.mp (Bool.and_eq_true_iff.mp hpop).1
    rw [if_pos hpop,if_pos hpop,if_pos hpop,←h.front_kept hD hpos i]
    generalize (if pushes s i=true then 1 else 0)=a
    have hlast : n+a=n+a-1+1 := by omega
    rw [List.singleton_append,←window_succ,←hlast]
  · rw [if_neg hpop,if_neg hpop,if_neg hpop,List.nil_append,Nat.sub_zero]

/-- A nonempty queue shows its first value. -/
theorem Holds.head?_contents (h : Holds s n) (hD : 2^ADDR_DEPTH DATA_DEPTH=DATA_DEPTH)
    (hvalid : valid_o s=true) : (contents s).head?=some (data_o s) := by
  rcases Nat.exists_eq_add_of_lt (h.valid_o_iff.mp hvalid) with ⟨m,hm⟩
  rw [contents,h.fill_eq hD,show n=m+1 by omega,window_succ]
  rfl

end Steps

/-- The queue has the values of a list, the front one first. -/
def Stores (s : State DATA_WIDTH DATA_DEPTH) (l : List (BitVec DATA_WIDTH)) : Prop :=
  ∃ n,Holds s n ∧ contents s=l

section Lists

variable {s : State DATA_WIDTH DATA_DEPTH} {l : List (BitVec DATA_WIDTH)}
  (hD : 2^ADDR_DEPTH DATA_DEPTH=DATA_DEPTH)

theorem stores_reset (hone : 1<DATA_DEPTH) : Stores (reset : State DATA_WIDTH DATA_DEPTH) [] :=
  ⟨0,holds_reset (by omega),rfl⟩

include hD in
theorem Stores.valid_o_iff (h : Stores s l) : valid_o s=true ↔ l≠[] := by
  rcases h with ⟨n,hn,rfl⟩
  rw [hn.valid_o_iff,←List.length_pos_iff,contents,length_window,hn.fill_eq hD]

include hD in
theorem Stores.data_o_eq (h : Stores s l) {x : BitVec DATA_WIDTH} {xs : List (BitVec DATA_WIDTH)}
    (hl : l=x::xs) : data_o s=x := by
  have hvalid := (h.valid_o_iff hD).mpr (hl ▸ List.cons_ne_nil x xs)
  rcases h with ⟨n,hn,hcontents⟩
  have hfront := hn.head?_contents hD hvalid
  rw [hcontents,hl] at hfront
  exact (Option.some.inj hfront).symm

include hD in
/-- The front value goes if it is taken, and a value that is put on comes last. -/
theorem Stores.step (hone : 1<DATA_DEPTH) (h : Stores s l) (i : Input DATA_WIDTH) :
    Stores (GenericFifo.step s i) ((if i.grant_i then l.tail else l)++pushed s i) := by
  have hvalid := h.valid_o_iff hD
  rcases h with ⟨n,hn,rfl⟩
  refine ⟨_,hn.step hD hone i,?_⟩
  have hstep := hn.contents_step hD hone i
  unfold popped pops at hstep
  by_cases hempty : contents s=[]
  · have hnone : valid_o s=false := Bool.not_eq_true _ ▸ fun h => hvalid.mp h hempty
    rw [hnone,Bool.false_and,if_neg Bool.false_ne_true,List.nil_append,hempty] at hstep
    rw [hstep,hempty,List.tail_nil,ite_self]
  · rw [hvalid.mpr hempty,Bool.true_and] at hstep
    cases hgrant : i.grant_i with
    | false =>
      rw [hgrant,if_neg Bool.false_ne_true,List.nil_append] at hstep
      rw [hstep,if_neg Bool.false_ne_true]
    | true =>
      rw [hgrant,if_pos rfl] at hstep
      rcases List.exists_cons_of_ne_nil hempty with ⟨x,xs,hx⟩
      rw [hx,List.singleton_append,List.cons_append,List.cons.injEq] at hstep
      rw [hstep.2,if_pos rfl,hx,List.tail_cons]

end Lists

/-- After every run the values taken, followed by those in the ring, are the values put on. -/
theorem fifo (hD : 2^ADDR_DEPTH DATA_DEPTH=DATA_DEPTH) (hone : 1<DATA_DEPTH)
    (is : List (Input DATA_WIDTH)) :
    (driven step popped (reset : State DATA_WIDTH DATA_DEPTH) is).flatten++
        contents (after step (reset : State DATA_WIDTH DATA_DEPTH) is)=
      (driven step pushed (reset : State DATA_WIDTH DATA_DEPTH) is).flatten := by
  have hreset : Holds (reset : State DATA_WIDTH DATA_DEPTH) 0 := holds_reset (by omega)
  exact fifo_ledger (P:=fun s => ∃ n, Holds s n) contents
    (fun s i ⟨n,h⟩ => ⟨nextFill s i n,h.step hD hone i⟩) (fun s i ⟨n,h⟩ => h.contents_step hD hone i)
    ⟨0,hreset⟩ is

end Pulpissimo.CommonCells.GenericFifo
