import Pulpissimo.Lib.RingBuffer

/-!
# The queue of the channels

`io_generic_fifo` keeps its values on a ring of registers with two pointers and a number of
elements. It takes a value where it is not full, and the value in front leaves when it is
asked for. For every depth it is a queue.
-/

namespace Pulpissimo.Udma.IoFifo

open Pulpissimo.RingBuffer

variable {BUFFER_DEPTH : ℕ} {α : Type*}

/-- Registers. -/
structure State (BUFFER_DEPTH : ℕ) (α : Type*) where
  /-- The location to write next. -/
  pointer_in : ℕ
  /-- The location in front. -/
  pointer_out : ℕ
  elements : ℕ
  buffer : ℕ → α

/-- One cycle of inputs. -/
structure Input (α : Type*) where
  clr_i : Bool
  ready_i : Bool
  valid_i : Bool
  data_i : α

/-- Values after reset. -/
def reset [Inhabited α] : State BUFFER_DEPTH α := ⟨0,0,0,fun _ => default⟩

section Code

variable (s : State BUFFER_DEPTH α) (i : Input α)

def full : Bool := s.elements==BUFFER_DEPTH

def data_o : α := s.buffer s.pointer_out

def valid_o : Bool := s.elements != 0

def ready_o : Bool := !full s

/-- A pointer after the last location goes to the first. -/
def wrap (BUFFER_DEPTH p : ℕ) : ℕ := if p=BUFFER_DEPTH-1 then 0 else p+1

/-- One clock edge. -/
def step : State BUFFER_DEPTH α where
  pointer_in := if i.clr_i then 0
    else if i.valid_i && !full s then wrap BUFFER_DEPTH s.pointer_in else s.pointer_in
  pointer_out := if i.clr_i then 0
    else if i.ready_i && valid_o s then wrap BUFFER_DEPTH s.pointer_out else s.pointer_out
  elements := if i.clr_i then 0
    else if i.ready_i && valid_o s && (!i.valid_i || full s) then s.elements-1
    else if (!valid_o s || !i.ready_i) && i.valid_i && !full s then s.elements+1
    else s.elements
  buffer := fun p => if i.valid_i && !full s && p==s.pointer_in then i.data_i else s.buffer p

end Code

section Ring

theorem wrap_eq : wrap BUFFER_DEPTH=around BUFFER_DEPTH := rfl

/-- A pointer comes back to a location after one turn, not before. -/
theorem iterate_wrap_ne {p k n : ℕ} (hp : p < BUFFER_DEPTH) (hk : k < n) (hn : n < BUFFER_DEPTH) :
    (wrap BUFFER_DEPTH)^[k] p≠(wrap BUFFER_DEPTH)^[n] p := by
  rw [wrap_eq]
  exact iterate_around_ne hp hk (by omega)

theorem wrap_lt {p : ℕ} (hp : p < BUFFER_DEPTH) : wrap BUFFER_DEPTH p < BUFFER_DEPTH := around_lt hp

end Ring

/-- The queue has the values of a list, the front one first. -/
structure Stores (s : State BUFFER_DEPTH α) (l : List α) : Prop where
  count : s.elements=l.length
  bound : l.length ≤ BUFFER_DEPTH
  front : s.pointer_out < BUFFER_DEPTH
  back : s.pointer_in=(wrap BUFFER_DEPTH)^[l.length] s.pointer_out
  values : window (wrap BUFFER_DEPTH) s.buffer s.pointer_out l.length=l

section Queue

variable {s : State BUFFER_DEPTH α} {l : List α} {i : Input α}

theorem stores_reset [Inhabited α] (hpos : 0 < BUFFER_DEPTH) :
    Stores (reset : State BUFFER_DEPTH α) [] :=
  ⟨rfl,Nat.zero_le _,hpos,rfl,rfl⟩

theorem Stores.ready_o_iff (h : Stores s l) : ready_o s=true ↔ l.length < BUFFER_DEPTH := by
  have hbound := h.bound
  rw [ready_o,full,h.count,Bool.not_eq_true',beq_eq_false_iff_ne]
  omega

theorem Stores.valid_o_iff (h : Stores s l) : valid_o s=true ↔ l≠[] := by
  rw [valid_o,h.count,bne_iff_ne,Ne,List.length_eq_zero_iff]

theorem Stores.data_o_eq {x : α} {xs : List α} (h : Stores s (x::xs)) : data_o s=x := by
  have hvalues := h.values
  rw [List.length_cons,window_succ,List.cons.injEq] at hvalues
  exact hvalues.1

/-- Values that are taken. -/
def pushed (s : State BUFFER_DEPTH α) (i : Input α) : List α :=
  if i.valid_i && ready_o s then [i.data_i] else []

/-- Values that stay. -/
def rest (i : Input α) (l : List α) : List α := if i.ready_i then l.drop 1 else l

theorem length_pushed_le (h : Stores s l) : l.length+(pushed s i).length ≤ BUFFER_DEPTH := by
  have hbound := h.bound
  have hready := h.ready_o_iff
  unfold pushed
  split_ifs with hpush
  · have hroom := hready.mp (Bool.and_eq_true_iff.mp hpush).2
    exact hroom
  · exact hbound

/-- The locations hold the value that is taken behind the others. -/
theorem Stores.window_push (h : Stores s l) :
    window (wrap BUFFER_DEPTH) (IoFifo.step s i).buffer s.pointer_out (l.length+(pushed s i).length)=
      l++pushed s i := by
  unfold pushed
  split_ifs with hpush
  · have hboth := Bool.and_eq_true_iff.mp hpush
    have hroom := h.ready_o_iff.mp hboth.2
    have hcells : (IoFifo.step s i).buffer=fun p =>
        if p=(wrap BUFFER_DEPTH)^[l.length] s.pointer_out then i.data_i else s.buffer p := by
      have hfull : (!full s)=true := hboth.2
      funext p
      simp only [IoFifo.step,hboth.1,hfull,Bool.true_and,beq_iff_eq,h.back]
    rw [hcells]
    refine (window_write i.data_i fun k hk => iterate_wrap_ne h.front hk hroom).trans ?_
    rw [h.values]
  · have hcells : (IoFifo.step s i).buffer=s.buffer := by
      funext p
      have hno : (i.valid_i && !full s)=false := Bool.not_eq_true _ ▸ hpush
      simp only [IoFifo.step,hno,Bool.false_and,Bool.false_eq_true,if_false]
    rw [hcells,List.append_nil]
    exact h.values

/-- The elements are counted with the values. -/
theorem step_elements (hclr : i.clr_i=false) :
    (step s i).elements=s.elements+(if i.valid_i && ready_o s then 1 else 0)-
      (if i.ready_i && valid_o s then 1 else 0) := by
  cases hready : i.ready_i <;> cases hvalid : valid_o s <;> cases hput : i.valid_i <;>
    cases hfull : full s <;> simp [step,ready_o,hclr,hready,hvalid,hput,hfull]

theorem Stores.pointer_step (h : Stores s l) (hclr : i.clr_i=false) :
    (IoFifo.step s i).pointer_in=
      (wrap BUFFER_DEPTH)^[l.length+(pushed s i).length] s.pointer_out := by
  have hstep : (IoFifo.step s i).pointer_in=
      if i.valid_i && ready_o s then wrap BUFFER_DEPTH s.pointer_in else s.pointer_in := by
    rw [IoFifo.step,hclr]
    rfl
  rw [hstep,h.back]
  unfold pushed
  by_cases hput : (i.valid_i && ready_o s)=true
  · rw [if_pos hput,if_pos hput]
    exact (Function.iterate_succ_apply' (wrap BUFFER_DEPTH) l.length s.pointer_out).symm
  · rw [if_neg hput,if_neg hput]
    rfl

/-- Nothing goes where there is nothing in front or it is not asked for. -/
theorem Stores.rest_eq (h : Stores s l) (hgo : ¬(i.ready_i && valid_o s)=true) : rest i l=l := by
  unfold rest
  split_ifs with hready
  · have hempty : l=[] := by
      by_contra hne
      exact hgo (Bool.and_eq_true_iff.mpr ⟨hready,h.valid_o_iff.mpr hne⟩)
    rw [hempty]
    rfl
  · rfl

/-- The front value goes where it is asked for, and a value that is taken comes last. -/
theorem Stores.step (h : Stores s l) (hclr : i.clr_i=false) :
    Stores (IoFifo.step s i) (rest i l++pushed s i) := by
  have hpos : 0 < BUFFER_DEPTH := Nat.lt_of_le_of_lt (Nat.zero_le _) h.front
  have hroom := length_pushed_le (i:=i) h
  have hpush := h.window_push (i:=i)
  have hback := h.pointer_step hclr
  have helements := step_elements (s:=s) hclr
  have hlength : (if i.valid_i && ready_o s then 1 else 0)=(pushed s i).length := by
    unfold pushed
    split_ifs <;> rfl
  rw [hlength,h.count] at helements
  by_cases hpop : (i.ready_i && valid_o s)=true
  · have hready := (Bool.and_eq_true_iff.mp hpop).1
    have hfront : (IoFifo.step s i).pointer_out=wrap BUFFER_DEPTH s.pointer_out := by
      simp only [IoFifo.step,hclr,hpop,Bool.false_eq_true,if_false,if_true]
    rcases List.exists_cons_of_ne_nil (h.valid_o_iff.mp (Bool.and_eq_true_iff.mp hpop).2) with ⟨x,xs,rfl⟩
    have hrest : rest i (x::xs)=xs := by
      rw [rest,if_pos hready]
      rfl
    rw [List.length_cons,Nat.add_right_comm] at hroom hpush hback helements
    rw [hrest]
    refine ⟨?_,?_,?_,?_,?_⟩
    · rw [helements,if_pos hpop,Nat.add_sub_cancel,List.length_append]
    · rw [List.length_append]
      omega
    · rw [hfront]
      exact wrap_lt h.front
    · rw [hfront,hback,List.length_append,Function.iterate_succ_apply]
    · rw [window_succ,List.cons_append,List.cons.injEq] at hpush
      rw [hfront,List.length_append]
      exact hpush.2
  · have hfront : (IoFifo.step s i).pointer_out=s.pointer_out := by
      simp only [IoFifo.step,hclr,hpop,Bool.false_eq_true,if_false]
    rw [h.rest_eq hpop]
    refine ⟨?_,?_,?_,?_,?_⟩
    · rw [helements,if_neg hpop,Nat.sub_zero,List.length_append]
    · rw [List.length_append]
      exact hroom
    · rw [hfront]
      exact h.front
    · rw [hfront,hback,List.length_append]
    · rw [hfront,List.length_append]
      exact hpush

/-- A clear leaves it empty. -/
theorem Stores.clear (h : Stores s l) (hclr : i.clr_i=true) : Stores (IoFifo.step s i) [] := by
  have hpos : 0 < BUFFER_DEPTH := Nat.lt_of_le_of_lt (Nat.zero_le _) h.front
  refine ⟨?_,Nat.zero_le _,?_,?_,rfl⟩
  · simp [IoFifo.step,hclr]
  · simpa [IoFifo.step,hclr] using hpos
  · simp [IoFifo.step,hclr]

end Queue

/-- Data that come to the queue from a stage in front of it: those that were sent, those in the
queue and those in the stage. A value of the queue is sent as `out` of it, a datum as `entry`. -/
def Line {δ γ : Type*} (s : State BUFFER_DEPTH α) (out : α → γ) (entry : δ → γ) (data : List δ)
    (sent : List γ) (stage : List δ) : Prop :=
  ∃ done queue l,Stores s l ∧ l.map out=queue.map entry ∧ data=done++(queue++stage) ∧
    sent=done.map entry

section Line

variable {δ γ : Type*} {s : State BUFFER_DEPTH α} {out : α → γ} {entry : δ → γ} {data : List δ}
  {sent : List γ} {stage : List δ} {i : Input α}

/-- What the queue sends in a cycle. -/
def sends (s : State BUFFER_DEPTH α) (out : α → γ) (i : Input α) : List γ :=
  if valid_o s && i.ready_i then [out (data_o s)] else []

theorem line_reset [Inhabited α] (hpos : 0 < BUFFER_DEPTH) :
    Line (reset : State BUFFER_DEPTH α) out entry [] [] [] :=
  ⟨[],[],[],stores_reset hpos,rfl,rfl,rfl⟩

/-- A datum that the queue takes leaves the stage, and every other one stays there. -/
structure Moves (s : State BUFFER_DEPTH α) (i : Input α) (out : α → γ) (entry : δ → γ)
    (stage new stage' : List δ) : Prop where
  taken : (i.valid_i && ready_o s)=true → stage.map entry=[out i.data_i] ∧ stage'=new
  kept : (i.valid_i && ready_o s)=false → stage'=stage++new

/-- The data pass the queue in order. -/
theorem Line.step (h : Line s out entry data sent stage) (hclr : i.clr_i=false)
    {new stage' : List δ} (hmove : Moves s i out entry stage new stage') :
    Line (IoFifo.step s i) out entry (data++new) (sent++sends s out i) stage' := by
  rcases h with ⟨done,queue,l,hstores,hmap,rfl,rfl⟩
  have hnext := hstores.step (i:=i) hclr
  have hvalid := hstores.valid_o_iff
  -- What is taken out of the stage goes behind the queue.
  obtain ⟨put,hput,hstage⟩ : ∃ put : List δ,(pushed s i).map out=put.map entry ∧
      stage++new=put++stage' := by
    cases htake : (i.valid_i && ready_o s) with
    | false => exact ⟨[],by rw [pushed,htake]; rfl,hmove.kept htake ▸ rfl⟩
    | true =>
      obtain ⟨hdatum,hnew⟩ := hmove.taken htake
      exact ⟨stage,by rw [pushed,htake,hdatum]; rfl,hnew ▸ rfl⟩
  have hdata : ∀ d q : List δ,d++q=done++queue → done++(queue++stage)++new=d++(q++put++stage') := by
    intro d q hdq
    simp only [List.append_assoc]
    rw [hstage,←List.append_assoc d,hdq,List.append_assoc]
  by_cases hgo : (valid_o s && i.ready_i)=true
  · obtain ⟨hfront,hready⟩ := Bool.and_eq_true_iff.mp hgo
    rcases List.exists_cons_of_ne_nil (hvalid.mp hfront) with ⟨x,xs,rfl⟩
    rcases queue with _ | ⟨d,queue⟩
    · exact absurd hmap (List.cons_ne_nil _ _)
    rw [List.map_cons,List.map_cons,List.cons.injEq] at hmap
    have hrest : rest i (x::xs)=xs := by
      rw [rest,if_pos hready]
      rfl
    rw [hrest] at hnext
    refine ⟨done++[d],queue++put,xs++pushed s i,hnext,?_,hdata _ _ (by simp),?_⟩
    · rw [List.map_append,List.map_append,hmap.2,hput]
    · rw [sends,if_pos hgo,hstores.data_o_eq,hmap.1,List.map_append]
      rfl
  · rw [hstores.rest_eq (Bool.and_comm _ _ ▸ hgo)] at hnext
    refine ⟨done,queue++put,l++pushed s i,hnext,?_,hdata _ _ rfl,?_⟩
    · rw [List.map_append,List.map_append,hmap,hput]
    · rw [sends,if_neg hgo,List.append_nil]

theorem Line.length_eq (h : Line s out entry data sent stage) :
    data.length=sent.length+s.elements+stage.length ∧ s.elements ≤ BUFFER_DEPTH := by
  rcases h with ⟨done,queue,l,hstores,hmap,rfl,rfl⟩
  have hlength := congrArg List.length hmap
  rw [List.length_map,List.length_map] at hlength
  rw [List.length_append,List.length_append,List.length_map,hstores.count,←hlength]
  exact ⟨(Nat.add_assoc _ _ _).symm,hstores.bound⟩

/-- Cycles that the queue needs to send the first `n` data, at most. -/
def left (n : ℕ) (s : State BUFFER_DEPTH α) (sent : List γ) : ℕ :=
  if n ≤ sent.length then 0 else n-sent.length+if s.elements=0 then 1 else 0

theorem left_congr {ε : Type*} {sent' : List ε} (h : sent.length=sent'.length) (n : ℕ) :
    left n s sent=left n s sent' := by
  unfold left
  rw [h]

theorem le_of_left {n : ℕ} (h : left n s sent=0) : n ≤ sent.length := by
  unfold left at h
  split_ifs at h <;> omega

/-- The queue never needs more cycles, and fewer after each in which it is asked to send. -/
theorem Line.left_step (h : Line s out entry data sent stage) (hclr : i.clr_i=false)
    (hone : stage.length ≤ 1) (hput : stage≠[] → i.valid_i=true) (hpos : 1 < BUFFER_DEPTH) {n : ℕ}
    (hn : n ≤ data.length) :
    left n (IoFifo.step s i) (sent++sends s out i) ≤ left n s sent ∧
      (i.ready_i=true → 0 < left n s sent →
        left n (IoFifo.step s i) (sent++sends s out i) < left n s sent) := by
  obtain ⟨hlength,hbound⟩ := h.length_eq
  obtain ⟨put,hputs,hput_eq⟩ : ∃ put,(if i.valid_i && ready_o s then 1 else 0)=put ∧
      (0 < stage.length → s.elements < BUFFER_DEPTH → put=1) := by
    refine ⟨_,rfl,fun hstage hroom => if_pos ?_⟩
    have hvalid := hput (List.ne_nil_of_length_pos hstage)
    rw [hvalid,Bool.true_and,ready_o,full,Bool.not_eq_true',beq_eq_false_iff_ne]
    exact hroom.ne
  obtain ⟨pop,hpops,hpop_le,hpop_none,hpop_eq⟩ : ∃ pop,(if i.ready_i && valid_o s then 1 else 0)=pop ∧
      pop ≤ 1 ∧ (s.elements=0 → pop=0) ∧ (i.ready_i=true → 0 < s.elements → pop=1) := by
    refine ⟨_,rfl,?_,fun hempty => if_neg ?_,fun hready hsome => if_pos ?_⟩
    · split_ifs <;> decide
    · rw [valid_o,hempty,Bool.and_comm]
      exact Bool.false_ne_true
    · rw [hready,valid_o,Bool.true_and,bne_iff_ne]
      exact hsome.ne'
  have helements : (IoFifo.step s i).elements=s.elements+put-pop := by
    rw [step_elements hclr,hputs,hpops]
  have hsent : (sent++sends s out i).length=sent.length+pop := by
    rw [List.length_append,sends,Bool.and_comm,←hpops]
    split_ifs <;> rfl
  unfold left
  rw [helements,hsent]
  constructor
  · split_ifs <;> omega
  · intro hready hsome
    have hpop := hpop_eq hready
    split_ifs at hsome ⊢ <;> omega

/-- The first data are sent within one cycle for each register of the queue and the stage. -/
theorem Line.left_le (h : Line s out entry data sent stage) (hone : stage.length ≤ 1)
    (hpos : 0 < BUFFER_DEPTH) {n : ℕ} (hn : n ≤ data.length) : left n s sent ≤ BUFFER_DEPTH+1 := by
  obtain ⟨hlength,hbound⟩ := h.length_eq
  unfold left
  split_ifs <;> omega

end Line

end Pulpissimo.Udma.IoFifo
