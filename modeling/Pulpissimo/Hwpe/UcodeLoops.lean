import Pulpissimo.Hwpe.Ucode

/-!
# The microcode processor runs a loop nest

From a clear to the end the processor runs the instructions of the loop nest
in order, for every pattern of enables. It tells that an index vector is
complete only for loops of two instructions or more, and too early when it is
held before the last one. The first instruction comes from address zero,
wherever the innermost loop is.
-/

namespace Pulpissimo.Hwpe.UcodeLoops

open Pulpissimo.Machine Pulpissimo.LoopNest Pulpissimo.Hwpe.Ucode

variable {p : Params}

/-- Number of values of an index. -/
def ranges (u : Ucode p) (k : ℕ) : ℕ := (u.range k).toNat

/-- Number of instructions of a loop. -/
def ops (u : Ucode p) (k : ℕ) : ℕ := (u.loops k).nb_ops.toNat

/-- Instructions of a loop. -/
def body (u : Ucode p) (k : ℕ) : List UcodeCode :=
  (List.range (ops u k)).map fun j => u.code ((u.loops k).ucode_addr.toNat+j)

/-- Every loop has some instruction and every index some value. -/
structure WellFormed (u : Ucode p) : Prop where
  loops : 0<p.NB_LOOPS
  ranges : ∀ k, k<p.NB_LOOPS → 0 < ranges u k
  ops : ∀ k, k<p.NB_LOOPS → 0<ops u k

/-- The processor with what it has run. -/
structure Monitored (p : Params) where
  /-- The processor. -/
  state : State p
  /-- The instructions it has run. -/
  executed : List UcodeCode
  /-- Number of the index vector. -/
  vectors : ℕ
  /-- The vector was reached in the last cycle. -/
  reached : Bool

/-- After a clear. -/
def start : Monitored p := ⟨cleared p,[],0,false⟩

section Steps

variable (P : Program p) (s : Monitored p) (i : Input)

/-- An instruction is run. -/
def runs : Bool := i.enable && (ucode_fetch P.ucode_i s.state).exec_int

/-- It is the last one before the next index vector. -/
def completes : Bool := runs P s i && !(ucode_fetch P.ucode_i s.state).busy_int

/-- One cycle. -/
def Monitored.step : Monitored p where
  state := s.state.step P i
  executed :=
    if runs P s i then s.executed++[P.ucode_i.code s.state.curr_addr.toNat] else s.executed
  vectors := if completes P s i then s.vectors+1 else s.vectors
  reached := completes P s i

/-- The processor is not cleared, and not enabled behind the end. -/
structure Allowed : Prop where
  clear : i.clear=false
  done : i.enable=true → s.state.done P.ucode_i=false

/-- Instructions up to an index vector. -/
def upTo (u : Ucode p) (t : ℕ) : List UcodeCode :=
  (List.range t).flatMap fun t => body u (carry (ranges u) p.NB_LOOPS t)

/-- What the processor shows is what the loop nest does. -/
structure Right : Prop where
  /-- The indices are those of the vector. -/
  vectors : s.vectors<weight (ranges P.ucode_i) p.NB_LOOPS
  idx : ∀ k, k<p.NB_LOOPS → (s.state.curr_idx k).toNat=index (ranges P.ucode_i) s.vectors k
  /-- The instructions up to the vector were run, and some of the next loop that moves on. -/
  sequence : s.executed=upTo P.ucode_i s.vectors++
    (body P.ucode_i (carry (ranges P.ucode_i) p.NB_LOOPS s.vectors)).take s.state.curr_op.toNat
  /-- These are the first ones of the nest. -/
  executed : s.executed <+: nest (ranges P.ucode_i) (body P.ucode_i) p.NB_LOOPS
  /-- The registers are what the instructions make of zeros. -/
  registers : s.state.registers=s.executed.foldl (ucode_execute P) fun _ => 0#_
  /-- A vector is signalled when it is reached. -/
  valid : s.state.valid=s.reached
  /-- The end is signalled behind the last vector. -/
  done : s.state.done P.ucode_i=true → s.vectors+1=weight (ranges P.ucode_i) p.NB_LOOPS ∧
    s.executed=nest (ranges P.ucode_i) (body P.ucode_i) p.NB_LOOPS

/-- An instruction that is run is the one of the loop, and the last instruction of a loop that
moves on is run as soon as it is there, and is not the only one. -/
structure Smooth : Prop where
  fetched : i.enable=true → moves P.ucode_i s.state=true →
    P.ucode_i.code s.state.curr_addr.toNat=
      P.ucode_i.code ((P.ucode_i.loops s.state.curr_loop.toNat).ucode_addr.toNat+
        s.state.curr_op.toNat)
  prompt : moves P.ucode_i s.state=true → more_ops P.ucode_i s.state=false →
    (i.enable=true ↔ 2≤ops P.ucode_i s.state.curr_loop.toNat)

/-- The processor is on its way through the nest. -/
structure Walks : Prop where
  /-- The indices are those of the vector. -/
  vectors : s.vectors<weight (ranges P.ucode_i) p.NB_LOOPS
  idx : ∀ k, k<p.NB_LOOPS → (s.state.curr_idx k).toNat=index (ranges P.ucode_i) s.vectors k
  /-- The loop is one of the loops. -/
  loop : s.state.curr_loop.toNat<p.NB_LOOPS
  /-- The inner indices have their last values. -/
  inner : ∀ j, j < s.state.curr_loop.toNat → index (ranges P.ucode_i) s.vectors j+1=ranges P.ucode_i j
  /-- The instruction is one of the loop. -/
  op : s.state.curr_op.toNat<ops P.ucode_i s.state.curr_loop.toNat
  /-- A loop of which instructions were run moves on. -/
  moving : 0 < s.state.curr_op.toNat →
    index (ranges P.ucode_i) s.vectors s.state.curr_loop.toNat+1<
      ranges P.ucode_i s.state.curr_loop.toNat
  /-- The end is there when it was seen. -/
  ended : s.state.done_sticky=true → (ucode_fetch P.ucode_i s.state).done_int=true

/-- The flag tells that instructions of the loop were run. -/
def Flagged (s : Monitored p) : Prop := s.state.busy_sticky=decide (0 < s.state.curr_op.toNat)

end Steps

/-- A number less one, without a borrow. -/
theorem less_one_eq {w : ℕ} {x : BitVec w} (hx : 0<x.toNat) : less_one x=x.toNat-1 := by
  have hw : w ≤ max 32 w := Nat.le_max_right _ _
  have hone : (1#(max 32 w)).toNat=1 :=
    Nat.mod_eq_of_lt (Nat.one_lt_two_pow (by omega))
  have hset : (x.setWidth (max 32 w)).toNat=x.toNat := BitVec.toNat_setWidth_of_le hw
  unfold less_one
  rw [BitVec.toNat_sub_of_le (BitVec.le_def.mpr (by omega)),hset,hone]

section Fetching

variable {P : Program p} {s : Monitored p} {i : Input}

theorem moves_iff (hw : WellFormed P.ucode_i) (hk : Walks P s) :
    moves P.ucode_i s.state=true ↔ index (ranges P.ucode_i) s.vectors s.state.curr_loop.toNat+1<
      ranges P.ucode_i s.state.curr_loop.toNat := by
  have hpos := hw.ranges _ hk.loop
  rw [moves,decide_eq_true_iff,less_one_eq hpos,hk.idx _ hk.loop]
  change _ < ranges P.ucode_i s.state.curr_loop.toNat-1 ↔ _
  omega

theorem more_ops_iff (hw : WellFormed P.ucode_i) (hk : Walks P s) :
    more_ops P.ucode_i s.state=true ↔
      s.state.curr_op.toNat+1<ops P.ucode_i s.state.curr_loop.toNat := by
  have hpos := hw.ops _ hk.loop
  rw [more_ops,decide_eq_true_iff,less_one_eq hpos]
  change _<ops P.ucode_i s.state.curr_loop.toNat-1 ↔ _
  omega

/-- The loop that moves on is the one of the next vector. -/
theorem carry_of_moves (hw : WellFormed P.ucode_i) (hk : Walks P s)
    (hm : moves P.ucode_i s.state=true) :
    carry (ranges P.ucode_i) p.NB_LOOPS s.vectors=s.state.curr_loop.toNat :=
  carry_eq hk.loop hk.inner ((moves_iff hw hk).mp hm)

/-- A loop that has come to its end runs no instructions. -/
theorem op_of_rests (hw : WellFormed P.ucode_i) (hk : Walks P s)
    (hm : moves P.ucode_i s.state=false) : s.state.curr_op.toNat=0 := by
  by_contra hne
  have := (moves_iff hw hk).mpr (hk.moving (by omega))
  rw [hm] at this
  exact Bool.false_ne_true this

theorem fetch_more {u : Ucode p} {s : State p} (hm : moves u s=true) (hmore : more_ops u s=true) :
    ucode_fetch u s=⟨s.curr_addr+1#_,s.curr_loop,s.curr_op+1#_,s.curr_idx,false,true,true⟩ := by
  unfold ucode_fetch
  rw [hm,hmore]
  rfl

/-- The index vector that is reached. -/
def nextIdx (s : State p) (j : ℕ) : BitVec p.CNT_WIDTH :=
  if j < s.curr_loop.toNat then 0#_
  else if j=s.curr_loop.toNat then s.curr_idx s.curr_loop.toNat+1#_
  else s.curr_idx j

theorem fetch_advance {u : Ucode p} {s : State p} (hm : moves u s=true)
    (hmore : more_ops u s=false) : ∃ addr, ucode_fetch u s=
      ⟨addr,0#_,0#_,nextIdx s,false,false,true⟩ := by
  unfold ucode_fetch
  rw [hm,hmore]
  by_cases hl : 0 < s.curr_loop.toNat
  · refine ⟨(u.loops 0).ucode_addr.setWidth _,?_⟩
    rw [Bool.and_false,if_neg Bool.false_ne_true,decide_eq_true hl,Bool.and_true,if_pos rfl]
    congr 1
    funext j
    exact if_congr Iff.rfl rfl (if_congr eq_comm rfl rfl)
  · have hzero : s.curr_loop.toNat=0 := by omega
    refine ⟨(u.loops s.curr_loop.toNat).ucode_addr.setWidth _,?_⟩
    rw [Bool.and_false,if_neg Bool.false_ne_true,decide_eq_false hl,Bool.and_false,
      if_neg Bool.false_ne_true,if_pos rfl]
    congr 1
    · exact BitVec.eq_of_toNat_eq hzero
    · funext j
      simp only [nextIdx,hzero,Nat.not_lt_zero,if_false]

theorem fetch_outward {u : Ucode p} {s : State p} (hm : moves u s=false)
    (hl : s.curr_loop.toNat<p.NB_LOOPS-1) : ∃ addr, ucode_fetch u s=
      ⟨addr,s.curr_loop+1#_,0#_,s.curr_idx,false,false,false⟩ := by
  unfold ucode_fetch
  simp only [hm,Bool.false_and,Bool.false_eq_true,if_false,if_pos hl]
  exact ⟨_,rfl⟩

theorem done_int_iff {u : Ucode p} {s : State p} : (ucode_fetch u s).done_int=true ↔
    moves u s=false ∧ p.NB_LOOPS-1 ≤ s.curr_loop.toNat := by
  cases hm : moves u s with
  | true =>
    cases hmore : more_ops u s with
    | true =>
      rw [fetch_more hm hmore]
      simp
    | false =>
      rcases fetch_advance hm hmore with ⟨addr,heq⟩
      rw [heq]
      simp
  | false =>
    by_cases hl : s.curr_loop.toNat<p.NB_LOOPS-1
    · rcases fetch_outward hm hl with ⟨addr,heq⟩
      rw [heq]
      simp only [Bool.false_eq_true,true_and,false_iff]
      omega
    · unfold ucode_fetch
      simp only [hm,Bool.false_and,Bool.false_eq_true,if_false,if_neg hl,true_and,true_iff]
      omega

/-- Behind the end nothing of the nest is left. -/
theorem nest_of_done (hw : WellFormed P.ucode_i) (hk : Walks P s)
    (hdone : (ucode_fetch P.ucode_i s.state).done_int=true) :
    s.vectors+1=weight (ranges P.ucode_i) p.NB_LOOPS ∧
      upTo P.ucode_i s.vectors=nest (ranges P.ucode_i) (body P.ucode_i) p.NB_LOOPS := by
  rcases done_int_iff.mp hdone with ⟨hm,hl⟩
  have hall : ∀ j, j<p.NB_LOOPS → index (ranges P.ucode_i) s.vectors j+1=ranges P.ucode_i j := by
    intro j hj
    rcases Nat.lt_or_ge j s.state.curr_loop.toNat with hlow | hge
    · exact hk.inner j hlow
    · have hlt : index (ranges P.ucode_i) s.vectors j < ranges P.ucode_i j :=
        index_lt (hw.ranges j hj)
      have hlast := mt (moves_iff hw hk).mpr (by rw [hm]; decide)
      rw [show s.state.curr_loop.toNat=j by omega] at hlast
      omega
  have hend := eq_last hk.vectors hall
  refine ⟨hend,?_⟩
  rw [upTo,nest_eq _ hw.ranges,←hend,Nat.add_sub_cancel]

/-- The end that is shown is the end. -/
theorem done_eq (hk : Walks P s) :
    s.state.done P.ucode_i=(ucode_fetch P.ucode_i s.state).done_int := by
  unfold State.done
  cases hd : s.state.done_sticky with
  | false => exact Bool.or_false _
  | true => rw [hk.ended hd,Bool.true_or]

/-- A loop that moves on leads to another vector. -/
theorem next_vector (hw : WellFormed P.ucode_i) (hk : Walks P s)
    (hm : moves P.ucode_i s.state=true) :
    s.vectors+1<weight (ranges P.ucode_i) p.NB_LOOPS := by
  have hmoves := (moves_iff hw hk).mp hm
  have hlt := hk.vectors
  by_contra hno
  have hlast := last_index hw.ranges (t:=s.vectors) (by omega) hk.loop
  omega

/-- On its way through the nest the processor is right if the instructions, the registers and
the flag are. -/
theorem Walks.right (hw : WellFormed P.ucode_i) (hk : Walks P s)
    (hseq : s.executed=upTo P.ucode_i s.vectors++
      (body P.ucode_i (carry (ranges P.ucode_i) p.NB_LOOPS s.vectors)).take s.state.curr_op.toNat)
    (hreg : s.state.registers=s.executed.foldl (ucode_execute P) fun _ => 0#_)
    (hvalid : s.state.valid=s.reached) : Right P s := by
  refine ⟨hk.vectors,hk.idx,hseq,?_,hreg,hvalid,fun hdone => ?_⟩
  · rw [hseq]
    cases hm : moves P.ucode_i s.state with
    | true =>
      have hprefix := prefix_nest (body P.ucode_i) hw.ranges (next_vector hw hk hm)
      refine List.IsPrefix.trans ?_ hprefix
      exact (List.prefix_append_right_inj _).mpr (List.take_prefix _ _)
    | false =>
      rw [op_of_rests hw hk hm,List.take_zero,List.append_nil]
      rcases Nat.lt_or_ge (s.vectors+1) (weight (ranges P.ucode_i) p.NB_LOOPS) with hlt | hge
      · exact (List.prefix_append _ _).trans (prefix_nest (body P.ucode_i) hw.ranges hlt)
      · have hlt := hk.vectors
        rw [nest_eq _ hw.ranges,show weight (ranges P.ucode_i) p.NB_LOOPS-1=s.vectors by omega]
        exact List.prefix_rfl
  · rw [done_eq hk] at hdone
    rcases nest_of_done hw hk hdone with ⟨hend,hnest⟩
    refine ⟨hend,?_⟩
    rw [hseq,op_of_rests hw hk (done_int_iff.mp hdone).1,List.take_zero,List.append_nil,hnest]

end Fetching

section Cycles

variable {P : Program p} {s : Monitored p} {i : Input}

/-- The instruction that the address stands at. -/
def current (P : Program p) (s : Monitored p) : UcodeCode := P.ucode_i.code s.state.curr_addr.toNat

theorem step_hold (hclear : i.clear=false) (hen : i.enable=false) : s.step P i=
    ⟨{ s.state with
      busy_sticky := (ucode_fetch P.ucode_i s.state).busy_int && s.state.busy_sticky
      done_sticky :=
        (ucode_fetch P.ucode_i s.state).done_int || (!s.state.valid && s.state.done_sticky)
      valid := s.state.busy_sticky && !(ucode_fetch P.ucode_i s.state).busy_int
      curr_accum_state := next_accum_state s.state i },s.executed,s.vectors,false⟩ := by
  have hbusy : ∀ b c : Bool, (if (!b)=true then false else c)=(b && c) := by decide
  have hdone : ∀ a v d : Bool, (if a=true then true else if v=true then false else d)=
    (a || (!v && d)) := by decide
  unfold Monitored.step State.step completes runs
  simp only [hclear,hen,Bool.false_eq_true,if_false,Bool.false_and,hbusy,hdone]

theorem step_more (hclear : i.clear=false) (hen : i.enable=true)
    (hm : moves P.ucode_i s.state=true) (hmore : more_ops P.ucode_i s.state=true) : s.step P i=
    ⟨{ curr_op := s.state.curr_op+1#_
       curr_addr := s.state.curr_addr+1#_
       curr_loop := s.state.curr_loop
       curr_idx := s.state.curr_idx
       registers := ucode_execute P s.state.registers (current P s)
       busy_sticky := true
       done_sticky := !s.state.valid && s.state.done_sticky
       valid := false
       curr_accum_state := next_accum_state s.state i },
      s.executed++[current P s],s.vectors,false⟩ := by
  unfold Monitored.step State.step completes runs
  rw [hclear,hen,fetch_more hm hmore]
  cases s.state.valid <;> cases s.state.busy_sticky <;> rfl

theorem step_advance (hclear : i.clear=false) (hen : i.enable=true)
    (hm : moves P.ucode_i s.state=true) (hmore : more_ops P.ucode_i s.state=false) :
    ∃ addr, s.step P i=
    ⟨{ curr_op := 0#_
       curr_addr := addr
       curr_loop := 0#_
       curr_idx := nextIdx s.state
       registers := ucode_execute P s.state.registers (current P s)
       busy_sticky := false
       done_sticky := !s.state.valid && s.state.done_sticky
       valid := s.state.busy_sticky
       curr_accum_state := next_accum_state s.state i },
      s.executed++[current P s],s.vectors+1,true⟩ := by
  rcases fetch_advance hm hmore with ⟨addr,hfetch⟩
  refine ⟨addr,?_⟩
  unfold Monitored.step State.step completes runs
  rw [hclear,hen,hfetch]
  cases s.state.valid <;> cases s.state.busy_sticky <;> rfl

theorem step_outward (hclear : i.clear=false) (hen : i.enable=true)
    (hm : moves P.ucode_i s.state=false) (hl : s.state.curr_loop.toNat<p.NB_LOOPS-1) :
    ∃ addr, s.step P i=
    ⟨{ curr_op := 0#_
       curr_addr := addr
       curr_loop := s.state.curr_loop+1#_
       curr_idx := s.state.curr_idx
       registers := s.state.registers
       busy_sticky := false
       done_sticky := !s.state.valid && s.state.done_sticky
       valid := s.state.busy_sticky
       curr_accum_state := next_accum_state s.state i },s.executed,s.vectors,false⟩ := by
  rcases fetch_outward hm hl with ⟨addr,hfetch⟩
  refine ⟨addr,?_⟩
  unfold Monitored.step State.step completes runs
  rw [hclear,hen,hfetch]
  cases s.state.valid <;> cases s.state.busy_sticky <;> rfl

/-- A number plus one, without a carry. -/
theorem toNat_succ {w : ℕ} {x : BitVec w} (h : x.toNat+1<2^w) : (x+1#w).toNat=x.toNat+1 := by
  have hone : (1#w).toNat=1 := Nat.mod_eq_of_lt (by omega)
  rw [BitVec.toNat_add,hone,Nat.mod_eq_of_lt h]

theorem busy_eq (u : Ucode p) (s : State p) :
    (ucode_fetch u s).busy_int=(moves u s && more_ops u s) := by
  cases hm : moves u s with
  | true =>
    cases hmore : more_ops u s with
    | true => rw [fetch_more hm hmore]; rfl
    | false =>
      rcases fetch_advance hm hmore with ⟨addr,heq⟩
      rw [heq]
      rfl
  | false =>
    unfold ucode_fetch
    simp only [hm,Bool.false_and,Bool.false_eq_true,if_false]
    split_ifs <;> rfl

/-- An instruction of a loop. -/
theorem take_body {u : Ucode p} {l j : ℕ} (hj : j<ops u l) : (body u l).take (j+1)=
    (body u l).take j++[u.code ((u.loops l).ucode_addr.toNat+j)] := by
  have hlen : j<(body u l).length := by
    rw [body,List.length_map,List.length_range]
    exact hj
  rw [←List.take_append_getElem hlen]
  congr 2
  simp only [body,List.getElem_map,List.getElem_range]

theorem take_all {u : Ucode p} {l j : ℕ} (hj : ops u l≤j) : (body u l).take j=body u l := by
  apply List.take_of_length_le
  rw [body,List.length_map,List.length_range]
  exact hj

theorem upTo_succ (u : Ucode p) (t : ℕ) :
    upTo u (t+1)=upTo u t++body u (carry (ranges u) p.NB_LOOPS t) := by
  rw [upTo,List.range_succ,List.flatMap_append,List.flatMap_singleton]
  rfl

/-- Instructions that were run when another one is. -/
theorem executed_more (hw : WellFormed P.ucode_i) (hk : Walks P s) (hr : Right P s)
    (hm : moves P.ucode_i s.state=true) : (s.executed++[current P s]=upTo P.ucode_i s.vectors++
      (body P.ucode_i (carry (ranges P.ucode_i) p.NB_LOOPS s.vectors)).take
        (s.state.curr_op.toNat+1)) ↔ current P s=
      P.ucode_i.code ((P.ucode_i.loops s.state.curr_loop.toNat).ucode_addr.toNat+
        s.state.curr_op.toNat) := by
  rw [hr.sequence,carry_of_moves hw hk hm,take_body hk.op,List.append_assoc,
    List.append_cancel_left_eq,List.append_cancel_left_eq,List.singleton_inj]

/-- The last instruction of a loop is not its first exactly if there are two or more. -/
theorem sticky_iff (hw : WellFormed P.ucode_i) (hk : Walks P s) (hf : Flagged s)
    (hmore : more_ops P.ucode_i s.state=false) :
    s.state.busy_sticky=true ↔ 2≤ops P.ucode_i s.state.curr_loop.toNat := by
  have hlast := mt (more_ops_iff hw hk).mpr (by rw [hmore]; decide)
  have hop := hk.op
  rw [hf,decide_eq_true_iff]
  omega

/-- The end was not seen before an enabled cycle. -/
theorem unseen (ha : Allowed P s i) (hen : i.enable=true) : s.state.done_sticky=false := by
  have hdone := ha.done hen
  unfold State.done at hdone
  exact (Bool.or_eq_false_iff.mp hdone).2

/-- A loop that does not move on is not the last one when the processor goes on. -/
theorem before_last (hk : Walks P s) (ha : Allowed P s i) (hen : i.enable=true)
    (hm : moves P.ucode_i s.state=false) : s.state.curr_loop.toNat<p.NB_LOOPS-1 := by
  by_contra hno
  have hdone := ha.done hen
  rw [done_eq hk,(done_int_iff (u:=P.ucode_i)).mpr ⟨hm,by omega⟩] at hdone
  exact Bool.false_ne_true hdone.symm

theorem next_op (hw : WellFormed P.ucode_i) (hk : Walks P s)
    (hmore : more_ops P.ucode_i s.state=true) :
    (s.state.curr_op+1#3).toNat=s.state.curr_op.toNat+1 := by
  have hnext := (more_ops_iff hw hk).mp hmore
  have hlt : ops P.ucode_i s.state.curr_loop.toNat<2^3 := BitVec.isLt _
  exact toNat_succ (by omega)

theorem next_loop (hl : s.state.curr_loop.toNat<p.NB_LOOPS-1) :
    (s.state.curr_loop+1#(loopBits p)).toNat=s.state.curr_loop.toNat+1 := by
  apply toNat_succ
  have hle : p.NB_LOOPS≤2^loopBits p := by
    unfold loopBits
    split_ifs with hone
    · rw [hone]
      decide
    · exact Nat.le_pow_clog (by decide) _
  omega

/-- The indices of the next vector. -/
theorem nextIdx_eq (hw : WellFormed P.ucode_i) (hk : Walks P s)
    (hm : moves P.ucode_i s.state=true) {k : ℕ} (hlt : k<p.NB_LOOPS) :
    (nextIdx s.state k).toNat=index (ranges P.ucode_i) (s.vectors+1) k := by
  have hmoves := (moves_iff hw hk).mp hm
  rcases advance hk.inner hmoves with ⟨hzero,hnext,hsame⟩
  unfold nextIdx
  split_ifs with hlow heq
  · rw [hzero k hlow]
    exact Nat.zero_mod _
  · have hbound : ranges P.ucode_i s.state.curr_loop.toNat<2^p.CNT_WIDTH := BitVec.isLt _
    rw [←hk.idx _ hk.loop] at hmoves
    rw [heq,hnext,←hk.idx _ hk.loop]
    exact toNat_succ (hmoves.trans hbound)
  · rw [hsame k (by omega),hk.idx k hlt]

/-- A processor that is not enabled behind the end stays on its way. -/
theorem Walks.step (hw : WellFormed P.ucode_i) (hk : Walks P s) (ha : Allowed P s i) :
    Walks P (s.step P i) := by
  cases hen : i.enable with
  | false =>
    rw [step_hold ha.clear hen]
    refine ⟨hk.vectors,hk.idx,hk.loop,hk.inner,hk.op,hk.moving,fun hdone => ?_⟩
    rcases Bool.or_eq_true_iff.mp hdone with h | h
    · exact h
    · exact hk.ended (Bool.and_eq_true_iff.mp h).2
  | true =>
    have hunseen := unseen ha hen
    cases hm : moves P.ucode_i s.state with
    | false =>
      have hl := before_last hk ha hen hm
      rcases step_outward ha.clear hen hm hl with ⟨addr,hstep⟩
      have hloop := next_loop hl
      rw [hstep]
      refine ⟨hk.vectors,hk.idx,?_,?_,?_,fun h => absurd h (Nat.lt_irrefl 0),fun hdone => ?_⟩
      · change (s.state.curr_loop+1#(loopBits p)).toNat<_
        omega
      · change ∀ j, j<(s.state.curr_loop+1#(loopBits p)).toNat → _
        intro j hj
        rcases Nat.lt_or_ge j s.state.curr_loop.toNat with hlow | hge
        · exact hk.inner j hlow
        · rw [show j=s.state.curr_loop.toNat by omega]
          have hlt : index (ranges P.ucode_i) s.vectors s.state.curr_loop.toNat<
            ranges P.ucode_i s.state.curr_loop.toNat := index_lt (hw.ranges _ hk.loop)
          have hlast := mt (moves_iff hw hk).mpr (by rw [hm]; decide)
          change index (ranges P.ucode_i) s.vectors _+1=_
          omega
      · change 0<ops P.ucode_i (s.state.curr_loop+1#(loopBits p)).toNat
        exact hw.ops _ (by omega)
      · rw [hunseen,Bool.and_false] at hdone
        exact absurd hdone Bool.false_ne_true
    | true =>
      cases hmore : more_ops P.ucode_i s.state with
      | true =>
        rw [step_more ha.clear hen hm hmore]
        refine ⟨hk.vectors,hk.idx,hk.loop,hk.inner,?_,fun _ => (moves_iff hw hk).mp hm,
          fun hdone => ?_⟩
        · change (s.state.curr_op+1#3).toNat<_
          rw [next_op hw hk hmore]
          exact (more_ops_iff hw hk).mp hmore
        · rw [hunseen,Bool.and_false] at hdone
          exact absurd hdone Bool.false_ne_true
      | false =>
        rcases step_advance ha.clear hen hm hmore with ⟨addr,hstep⟩
        rw [hstep]
        refine ⟨next_vector hw hk hm,fun k hlt => nextIdx_eq hw hk hm hlt,hw.loops,
          fun j hj => absurd hj (Nat.not_lt_zero j),hw.ops _ hw.loops,
          fun h => absurd h (Nat.lt_irrefl 0),fun hdone => ?_⟩
        rw [hunseen,Bool.and_false] at hdone
        exact absurd hdone Bool.false_ne_true

/-- A processor that is held stays right exactly if it is not held before a last instruction. -/
theorem hold_right (hw : WellFormed P.ucode_i) (hk : Walks P s) (hr : Right P s) (hf : Flagged s)
    (ha : Allowed P s i) (hen : i.enable=false) : (Right P (s.step P i) ↔ Smooth P s i) ∧
      (Smooth P s i → Flagged (s.step P i)) := by
  have hbusy := busy_eq P.ucode_i s.state
  have hwalks := hk.step hw ha
  have hstep := step_hold (P:=P) (s:=s) ha.clear hen
  have hclean : Smooth P s i → s.state.busy_sticky=true →
      (ucode_fetch P.ucode_i s.state).busy_int=true := by
    intro hs hsticky
    have hop : 0 < s.state.curr_op.toNat := by
      rw [hf] at hsticky
      exact of_decide_eq_true hsticky
    have hm : moves P.ucode_i s.state=true := (moves_iff hw hk).mpr (hk.moving hop)
    cases hmore : more_ops P.ucode_i s.state with
    | true => rw [hbusy,hm,hmore]; rfl
    | false =>
      have htwo := (hs.prompt hm hmore).mpr ((sticky_iff hw hk hf hmore).mp hsticky)
      rw [hen] at htwo
      exact absurd htwo Bool.false_ne_true
  refine ⟨⟨fun h => ?_,fun hs => ?_⟩,fun hs => ?_⟩
  · have hvalid := h.valid
    rw [hstep] at hvalid
    change (s.state.busy_sticky && !(ucode_fetch P.ucode_i s.state).busy_int)=false at hvalid
    refine ⟨fun h => absurd (hen.symm.trans h) Bool.false_ne_true,fun hm hmore => ?_⟩
    rw [hbusy,hm,hmore,Bool.and_false,Bool.not_false,Bool.and_true] at hvalid
    rw [hen,←sticky_iff hw hk hf hmore,hvalid]
  · rw [hstep] at hwalks ⊢
    refine hwalks.right hw hr.sequence hr.registers ?_
    change (s.state.busy_sticky && !(ucode_fetch P.ucode_i s.state).busy_int)=false
    cases hsticky : s.state.busy_sticky with
    | true => rw [hclean hs hsticky]; rfl
    | false => rfl
  · rw [hstep]
    change ((ucode_fetch P.ucode_i s.state).busy_int && s.state.busy_sticky)=_
    cases hsticky : s.state.busy_sticky with
    | true => rw [hclean hs hsticky,Bool.and_true,←hsticky,hf]
    | false => rw [Bool.and_false,←hsticky,hf]

/-- One that runs an instruction with others behind it stays right exactly if it is the right
one. -/
theorem more_right (hw : WellFormed P.ucode_i) (hk : Walks P s) (hr : Right P s)
    (ha : Allowed P s i) (hen : i.enable=true) (hm : moves P.ucode_i s.state=true)
    (hmore : more_ops P.ucode_i s.state=true) : (Right P (s.step P i) ↔ Smooth P s i) ∧
      (Smooth P s i → Flagged (s.step P i)) := by
  have hwalks := hk.step hw ha
  have hop := next_op hw hk hmore
  have hsequence := executed_more hw hk hr hm
  rw [step_more ha.clear hen hm hmore] at hwalks ⊢
  refine ⟨⟨fun h => ⟨fun _ _ => ?_,fun _ hno => ?_⟩,fun hs => ?_⟩,fun _ => ?_⟩
  · have hseq := h.sequence
    change s.executed++[current P s]=_++List.take (s.state.curr_op+1#3).toNat _ at hseq
    rw [hop] at hseq
    exact hsequence.mp hseq
  · exact absurd (hno.symm.trans hmore) Bool.false_ne_true
  · refine hwalks.right hw ?_ ?_ rfl
    · change s.executed++[current P s]=_++List.take (s.state.curr_op+1#3).toNat _
      rw [hop]
      exact hsequence.mpr (hs.fetched hen hm)
    · change ucode_execute P s.state.registers (current P s)=_
      rw [List.foldl_append,←hr.registers]
      rfl
  · change true=decide (0<(s.state.curr_op+1#3).toNat)
    rw [hop]
    exact (decide_eq_true (Nat.succ_pos _)).symm

/-- One that runs the last instruction of a loop stays right exactly if it is the right one, and
not the only one. -/
theorem advance_right (hw : WellFormed P.ucode_i) (hk : Walks P s) (hr : Right P s)
    (hf : Flagged s) (ha : Allowed P s i) (hen : i.enable=true)
    (hm : moves P.ucode_i s.state=true) (hmore : more_ops P.ucode_i s.state=false) :
    (Right P (s.step P i) ↔ Smooth P s i) ∧ (Smooth P s i → Flagged (s.step P i)) := by
  have hwalks := hk.step hw ha
  have hsequence := executed_more hw hk hr hm
  have hall : ops P.ucode_i (carry (ranges P.ucode_i) p.NB_LOOPS s.vectors)≤
      s.state.curr_op.toNat+1 := by
    have hlast := mt (more_ops_iff hw hk).mpr (by rw [hmore]; decide)
    rw [carry_of_moves hw hk hm]
    omega
  rw [take_all hall,←upTo_succ] at hsequence
  rcases step_advance ha.clear hen hm hmore with ⟨addr,hstep⟩
  rw [hstep] at hwalks ⊢
  refine ⟨⟨fun h => ⟨fun _ _ => ?_,fun _ _ => ?_⟩,fun hs => ?_⟩,fun _ => rfl⟩
  · have hseq := h.sequence
    change s.executed++[current P s]=_++List.take 0 _ at hseq
    rw [List.take_zero,List.append_nil] at hseq
    exact hsequence.mp hseq
  · exact ⟨fun _ => (sticky_iff hw hk hf hmore).mp h.valid,fun _ => hen⟩
  · refine hwalks.right hw ?_ ?_ ?_
    · change s.executed++[current P s]=_++List.take 0 _
      rw [List.take_zero,List.append_nil]
      exact hsequence.mpr (hs.fetched hen hm)
    · change ucode_execute P s.state.registers (current P s)=_
      rw [List.foldl_append,←hr.registers]
      rfl
    · exact (sticky_iff hw hk hf hmore).mpr ((hs.prompt hm hmore).mp hen)

/-- One that turns to the next loop stays right. -/
theorem outward_right (hw : WellFormed P.ucode_i) (hk : Walks P s) (hr : Right P s)
    (hf : Flagged s) (ha : Allowed P s i) (hen : i.enable=true)
    (hm : moves P.ucode_i s.state=false) :
    (Right P (s.step P i) ↔ Smooth P s i) ∧ (Smooth P s i → Flagged (s.step P i)) := by
  have hwalks := hk.step hw ha
  have hop := op_of_rests hw hk hm
  rcases step_outward ha.clear hen hm (before_last hk ha hen hm) with ⟨addr,hstep⟩
  rw [hstep] at hwalks ⊢
  refine ⟨⟨fun _ => ⟨fun _ h => ?_,fun h => ?_⟩,fun _ => ?_⟩,fun _ => rfl⟩
  · exact absurd (hm.symm.trans h) Bool.false_ne_true
  · exact absurd (hm.symm.trans h) Bool.false_ne_true
  · refine hwalks.right hw ?_ hr.registers ?_
    · change s.executed=_++List.take 0 _
      rw [hr.sequence,hop]
    · change s.state.busy_sticky=false
      rw [hf,hop]
      rfl

end Cycles

section Runs

variable {P : Program p} {s : Monitored p} {i : Input} {is : List Input}

/-- A cycle leaves the processor right exactly if it is smooth. -/
theorem step_right (hw : WellFormed P.ucode_i) (hk : Walks P s) (hr : Right P s) (hf : Flagged s)
    (ha : Allowed P s i) : (Right P (s.step P i) ↔ Smooth P s i) ∧
      (Smooth P s i → Flagged (s.step P i)) := by
  cases hen : i.enable with
  | false => exact hold_right hw hk hr hf ha hen
  | true =>
    cases hm : moves P.ucode_i s.state with
    | false => exact outward_right hw hk hr hf ha hen hm
    | true =>
      cases hmore : more_ops P.ucode_i s.state with
      | true => exact more_right hw hk hr ha hen hm hmore
      | false => exact advance_right hw hk hr hf ha hen hm hmore

/-- After a clear the processor is at the beginning. -/
theorem walks_start (hw : WellFormed P.ucode_i) : Walks P start := by
  refine ⟨weight_pos hw.ranges,fun k _ => ?_,hw.loops,fun j hj => absurd hj (Nat.not_lt_zero j),
    hw.ops _ hw.loops,fun h => absurd h (Nat.lt_irrefl 0),fun h => absurd h Bool.false_ne_true⟩
  rw [show (start : Monitored p).vectors=0 from rfl,index_zero]
  exact Nat.zero_mod _

theorem start_right (hw : WellFormed P.ucode_i) : Right P start :=
  (walks_start hw).right hw rfl rfl rfl

/-- Enabled cycles that are left until the end, at most. -/
def left (P : Program p) (s : Monitored p) : ℕ :=
  (weight (ranges P.ucode_i) p.NB_LOOPS-s.vectors)*(p.NB_LOOPS+8)-
    (s.state.curr_loop.toNat+s.state.curr_op.toNat)

/-- The loop and the instruction take less than a vector. -/
theorem place_lt (hk : Walks P s) : s.state.curr_loop.toNat+s.state.curr_op.toNat+1<p.NB_LOOPS+8 ∧
    p.NB_LOOPS+8≤(weight (ranges P.ucode_i) p.NB_LOOPS-s.vectors)*(p.NB_LOOPS+8) := by
  have hop : s.state.curr_op.toNat<2^3 := BitVec.isLt _
  have hlt := hk.vectors
  have hloop := hk.loop
  exact ⟨by omega,Nat.le_mul_of_pos_left _ (by omega)⟩

theorem left_pos (hk : Walks P s) : 0<left P s := by
  rcases place_lt hk with ⟨hplace,hvector⟩
  unfold left
  omega

/-- Every enabled cycle before the end is one less. -/
theorem left_step (hw : WellFormed P.ucode_i) (hk : Walks P s) (ha : Allowed P s i) :
    left P (s.step P i)+(if i.enable=true then 1 else 0)≤left P s := by
  rcases place_lt hk with ⟨hplace,hvector⟩
  cases hen : i.enable with
  | false =>
    rw [step_hold ha.clear hen]
    exact Nat.le_refl _
  | true =>
    rw [if_pos rfl]
    cases hm : moves P.ucode_i s.state with
    | false =>
      have hl := before_last hk ha hen hm
      rcases step_outward ha.clear hen hm hl with ⟨addr,hstep⟩
      rw [hstep]
      change (weight (ranges P.ucode_i) p.NB_LOOPS-s.vectors)*(p.NB_LOOPS+8)-
        ((s.state.curr_loop+1#(loopBits p)).toNat+0)+1≤_
      rw [next_loop hl,left,op_of_rests hw hk hm]
      omega
    | true =>
      cases hmore : more_ops P.ucode_i s.state with
      | true =>
        rw [step_more ha.clear hen hm hmore]
        change (weight (ranges P.ucode_i) p.NB_LOOPS-s.vectors)*(p.NB_LOOPS+8)-
          (s.state.curr_loop.toNat+(s.state.curr_op+1#3).toNat)+1≤_
        rw [next_op hw hk hmore,left]
        omega
      | false =>
        rcases step_advance ha.clear hen hm hmore with ⟨addr,hstep⟩
        rw [hstep]
        change (weight (ranges P.ucode_i) p.NB_LOOPS-(s.vectors+1))*(p.NB_LOOPS+8)-(0+0)+1≤_
        have hvec := next_vector hw hk hm
        obtain ⟨m,hm⟩ : ∃ m, weight (ranges P.ucode_i) p.NB_LOOPS=s.vectors+1+m :=
          Nat.exists_eq_add_of_le hvec.le
        rw [left,hm,show s.vectors+1+m-(s.vectors+1)=m by omega,
          show s.vectors+1+m-s.vectors=m+1 by omega,Nat.add_mul,Nat.one_mul]
        omega

/-- With enough enabled cycles the processor comes to its end. -/
theorem exists_done (hw : WellFormed P.ucode_i) (hk : Walks P s)
    (hclear : ∀ i ∈ is, i.clear=false) (hlen : left P s ≤ is.countP fun i => i.enable) :
    ∃ before later, before++later=is ∧ Meets (Monitored.step P) (Allowed P) s before ∧
      (after (Monitored.step P) s before).state.done P.ucode_i=true := by
  induction is generalizing s with
  | nil => exact absurd hlen (Nat.not_le_of_lt (left_pos hk))
  | cons i is ih =>
    cases hdone : s.state.done P.ucode_i with
    | true => exact ⟨[],i::is,rfl,trivial,hdone⟩
    | false =>
      have ha : Allowed P s i := ⟨hclear i List.mem_cons_self,fun _ => hdone⟩
      have hstep := left_step hw hk ha
      rw [List.countP_cons] at hlen
      rcases ih (hk.step hw ha) (fun j hj => hclear j (List.mem_cons_of_mem _ hj)) (by omega) with
        ⟨before,later,heq,hmeets,hend⟩
      exact ⟨i::before,later,congrArg (List.cons i) heq,⟨ha,hmeets⟩,hend⟩

/-- From a clear on the processor runs the loop nest, and signals its index vectors, exactly if
every cycle is smooth; and it comes to the end of the nest with enough enabled cycles. -/
theorem executes_exactly (hw : WellFormed P.ucode_i) : Right P start ∧
    (∀ is, Meets (Monitored.step P) (Allowed P) start is →
      (Meets (Monitored.step P) (fun s i => Right P (s.step P i)) start is ↔
        Meets (Monitored.step P) (Smooth P) start is)) ∧
    ∀ is : List Input, (∀ i ∈ is, i.clear=false) →
      weight (ranges P.ucode_i) p.NB_LOOPS*(p.NB_LOOPS+8) ≤ is.countP (fun i => i.enable) →
      ∃ before later, before++later=is ∧ Meets (Monitored.step P) (Allowed P) start before ∧
        (after (Monitored.step P) start before).state.done P.ucode_i=true := by
  refine ⟨start_right hw,fun is hallowed => ?_,fun is hclear hlen => ?_⟩
  · have hboth : Meets (Monitored.step P)
          (fun s i => Allowed P s i ∧ Right P (s.step P i)) start is ↔
        Meets (Monitored.step P) (fun s i => Allowed P s i ∧ Smooth P s i) start is := by
      refine meets_congr_of_meets (P:=fun s => Walks P s ∧ Right P s ∧ Flagged s) ?_ ?_
        ⟨walks_start hw,start_right hw,rfl⟩
      · intro s i hs hd
        rcases step_right hw hs.1 hs.2.1 hs.2.2 hd.1 with ⟨hiff,hflag⟩
        exact ⟨hs.1.step hw hd.1,hiff.mpr hd.2,hflag hd.2⟩
      · intro s i hs
        exact and_congr_right fun ha => (step_right hw hs.1 hs.2.1 hs.2.2 ha).1
    rw [meets_and,meets_and] at hboth
    exact ⟨fun h => (hboth.mp ⟨hallowed,h⟩).2,fun h => (hboth.mpr ⟨hallowed,h⟩).2⟩
  · refine exists_done hw (walks_start hw) hclear (Nat.le_trans ?_ hlen)
    exact Nat.sub_le _ _

instance : Decidable (Allowed P s i) :=
  decidable_of_iff (i.clear=false ∧ (i.enable=true → s.state.done P.ucode_i=false))
    ⟨fun h => ⟨h.1,h.2⟩,fun h => ⟨h.clear,h.done⟩⟩

instance : Decidable (Smooth P s i) :=
  decidable_of_iff ((i.enable=true → moves P.ucode_i s.state=true →
      P.ucode_i.code s.state.curr_addr.toNat=
        P.ucode_i.code ((P.ucode_i.loops s.state.curr_loop.toNat).ucode_addr.toNat+
          s.state.curr_op.toNat)) ∧
    (moves P.ucode_i s.state=true → more_ops P.ucode_i s.state=false →
      (i.enable=true ↔ 2≤ops P.ucode_i s.state.curr_loop.toNat)))
    ⟨fun h => ⟨h.1,h.2⟩,fun h => ⟨h.fetched,h.prompt⟩⟩

end Runs

section Examples

/-- One loop over two registers. -/
def oneLoop : Params := ⟨6,1,2,32,12⟩

/-- Two iterations with so many instructions, which all add the first register behind those of
the processor to its registers in turn. -/
def adding (nb_ops : BitVec 3) : Program oneLoop :=
  ⟨⟨fun _ => ⟨0#5,nb_ops⟩,fun j => ⟨true,BitVec.ofNat 5 (j%2),2#5⟩,fun _ => 2#12⟩,fun _ => 4#32⟩

/-- An enabled cycle. -/
def enabled : Input := ⟨false,true,0#3⟩

theorem wellFormed_adding {nb_ops : BitVec 3} (h : 0<nb_ops.toNat) :
    WellFormed (adding nb_ops).ucode_i :=
  ⟨Nat.one_pos,fun _ _ => show 0<(2#12).toNat by decide,fun _ _ => h⟩

/-- Two instructions in a row reach the second vector. -/
theorem executes_exactly_two : Meets (Monitored.step (adding 2#3))
    (fun s i => Right (adding 2#3) (s.step (adding 2#3) i)) start [enabled,enabled] :=
  ((executes_exactly (wellFormed_adding (by decide))).2.1 [enabled,enabled] (by decide)).mpr
    (by decide)

/-- A single instruction reaches it without a signal. -/
theorem not_executes_one : ¬∀ (p : Params) (P : Program p), WellFormed P.ucode_i → ∀ is,
    Meets (Monitored.step P) (Allowed P) start is →
      Meets (Monitored.step P) (fun s i => Right P (s.step P i)) start is := by
  intro h
  have hrun := h oneLoop (adding 1#3) (wellFormed_adding (by decide)) [enabled] (by decide)
  exact absurd hrun.1.valid (by decide)

end Examples

end Pulpissimo.Hwpe.UcodeLoops
