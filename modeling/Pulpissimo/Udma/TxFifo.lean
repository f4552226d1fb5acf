import Pulpissimo.Lib.Machine
import Pulpissimo.Udma.IoFifo

/-!
# The queue of the transmitting channels

`io_tx_fifo` asks for values while those that it has and those that are on their way are fewer than
its depth. A clear empties it, but not the way to it. The test that stops it is for equality, so it
is right only because the sum never gets past the depth.
-/

namespace Pulpissimo.Udma.TxFifo

open Pulpissimo.Machine Pulpissimo.Udma.IoFifo

/-- Parameters, with counters that are wide enough. -/
structure Config where
  BUFFER_DEPTH : ℕ
  LOG_BUFFER_DEPTH : ℕ
  one_le : 1 ≤ BUFFER_DEPTH
  depth_le : BUFFER_DEPTH ≤ 2^LOG_BUFFER_DEPTH

/-- The logarithm that the parameter has by default. -/
def log2 (v : ℕ) : ℕ :=
  if v < 1 then 0
  else ((List.range 24).find? fun k => decide (v < 2^(k+1))).elim 25 (·+1)

variable {c : Config} {α : Type*}

/-- Registers. -/
structure State (c : Config) (α : Type*) where
  i_fifo : IoFifo.State c.BUFFER_DEPTH α
  r_inflight : BitVec (c.LOG_BUFFER_DEPTH+1)

/-- One cycle of inputs. -/
structure Input (α : Type*) where
  clr_i : Bool
  gnt_i : Bool
  ready_i : Bool
  valid_i : Bool
  data_i : α

/-- Values after reset. -/
def reset [Inhabited α] : State c α := ⟨IoFifo.reset,0⟩

section Code

variable (s : State c α) (i : Input α)

def s_elements : BitVec (c.LOG_BUFFER_DEPTH+1) := BitVec.ofNat _ s.i_fifo.elements

def s_free_ele : BitVec (c.LOG_BUFFER_DEPTH+1) := BitVec.ofNat _ c.BUFFER_DEPTH-s_elements s

def s_stop_req : Bool := s_free_ele s==s.r_inflight

def ready_o : Bool := IoFifo.ready_o s.i_fifo

def req_o : Bool := ready_o s && !s_stop_req s

def valid_o : Bool := IoFifo.valid_o s.i_fifo

def data_o : α := IoFifo.data_o s.i_fifo

def fifoInput : IoFifo.Input α := ⟨i.clr_i,i.ready_i,i.valid_i,i.data_i⟩

/-- One clock edge. -/
def step : State c α where
  i_fifo := IoFifo.step s.i_fifo (fifoInput i)
  r_inflight :=
    if req_o s && i.gnt_i then
      if !i.valid_i || !ready_o s then s.r_inflight+1 else s.r_inflight
    else if i.valid_i && ready_o s then s.r_inflight-1
    else s.r_inflight

end Code

/-- The default is wide enough for every depth that it knows. -/
theorem le_log2 {v : ℕ} (hv : v ≤ 2^25) : v ≤ 2^log2 v := by
  unfold log2
  split_ifs with hzero
  · omega
  · cases hfind : (List.range 24).find? fun k => decide (v < 2^(k+1)) with
    | none => exact hv
    | some k =>
      have hlt := List.find?_some hfind
      exact (of_decide_eq_true hlt).le

/-- The parameters with the default width. -/
def Config.ofDepth (BUFFER_DEPTH : ℕ) (hone : 1 ≤ BUFFER_DEPTH) (hle : BUFFER_DEPTH ≤ 2^25) :
    Config :=
  ⟨BUFFER_DEPTH,log2 BUFFER_DEPTH,hone,le_log2 hle⟩

/-- The queue with the requests on their way, the responses that came and the data that went. -/
structure Sys (c : Config) (α : Type*) where
  s : State c α
  flight : ℕ
  responses : List α
  popped : List α
  cleared : Bool

def start [Inhabited α] : Sys c α := ⟨reset,0,[],[],false⟩

/-- A request is granted. -/
def asks (s : State c α) (i : Input α) : Bool := req_o s && i.gnt_i

/-- One cycle. -/
def next (u : Sys c α) (i : Input α) : Sys c α where
  s := step u.s i
  flight := u.flight+(if asks u.s i then 1 else 0)-if i.valid_i then 1 else 0
  responses := u.responses++if i.valid_i then [i.data_i] else []
  popped := u.popped++if i.ready_i && valid_o u.s then [data_o u.s] else []
  cleared := u.cleared || i.clr_i

/-- A response is that of a granted request, of an earlier cycle or of this one. -/
def Answered (u : Sys c α) (i : Input α) : Prop :=
  i.valid_i=true → 0 < u.flight ∨ asks u.s i=true

instance (u : Sys c α) (i : Input α) : Decidable (Answered u i) :=
  inferInstanceAs (Decidable (_ → _ ∨ _))

/-- A response finds room. -/
def Room (u : Sys c α) (i : Input α) : Prop := i.valid_i=true → ready_o u.s=true

/-- Some values are in the queue and others on their way, and no more than it has room for. -/
structure Inv (u : Sys c α) (l : List α) : Prop where
  stores : Stores u.s.i_fifo l
  inflight : u.s.r_inflight=BitVec.ofNat _ u.flight
  room : l.length+u.flight ≤ c.BUFFER_DEPTH
  order : u.cleared=false → u.responses=u.popped++l

section Inv

variable {u : Sys c α} {l : List α} {i : Input α}

theorem inv_start [Inhabited α] : Inv (start : Sys c α) [] :=
  ⟨stores_reset c.one_le,rfl,Nat.zero_le _,fun _ => rfl⟩

/-- Values are asked for where there is room for them. -/
theorem Inv.req_o_iff (h : Inv u l) :
    req_o u.s=true ↔ l.length+u.flight < c.BUFFER_DEPTH := by
  have hroom := h.room
  have hwide : c.BUFFER_DEPTH < 2^(c.LOG_BUFFER_DEPTH+1) :=
    c.depth_le.trans_lt (Nat.pow_lt_pow_right (by decide) (Nat.lt_succ_self _))
  have hstop : s_stop_req u.s=true ↔ l.length+u.flight=c.BUFFER_DEPTH := by
    rw [s_stop_req,s_free_ele,s_elements,h.stores.count,h.inflight,beq_iff_eq,←BitVec.toNat_inj,
      BitVec.toNat_sub_of_le]
    · rw [BitVec.toNat_ofNat,BitVec.toNat_ofNat,BitVec.toNat_ofNat,Nat.mod_eq_of_lt hwide,
        Nat.mod_eq_of_lt (by omega),Nat.mod_eq_of_lt (by omega)]
      omega
    · rw [BitVec.le_def,BitVec.toNat_ofNat,BitVec.toNat_ofNat,Nat.mod_eq_of_lt hwide,
        Nat.mod_eq_of_lt (by omega)]
      omega
  have hready : ready_o u.s=true ↔ l.length < c.BUFFER_DEPTH := h.stores.ready_o_iff
  rw [req_o,Bool.and_eq_true_iff,hready,Bool.not_eq_true',←Bool.not_eq_true,hstop]
  omega

/-- So a response finds room. -/
theorem Inv.ready (h : Inv u l) (ha : Answered u i) : Room u i := by
  intro hvalid
  have hroom := h.room
  refine h.stores.ready_o_iff.mpr ?_
  rcases ha hvalid with hflight | hasks
  · omega
  · have hlt := h.req_o_iff.mp (Bool.and_eq_true_iff.mp hasks).1
    omega

/-- The counter follows the requests on their way. -/
theorem Inv.inflight_step (h : Inv u l) (ha : Answered u i) :
    (step u.s i).r_inflight=BitVec.ofNat _ (TxFifo.next u i).flight := by
  have hready := h.ready ha
  have hasks : (req_o u.s && i.gnt_i)=asks u.s i := rfl
  simp only [step,TxFifo.next,hasks,h.inflight]
  cases hvalid : i.valid_i with
  | false =>
    cases asks u.s i with
    | false => rfl
    | true => exact (BitVec.ofNat_add _ _).symm
  | true =>
    rw [hready hvalid]
    cases hask : asks u.s i with
    | true => rfl
    | false =>
      have hsome : 0 < u.flight := (ha hvalid).resolve_right (by rw [hask]; exact Bool.false_ne_true)
      obtain ⟨n,hn⟩ := Nat.exists_eq_succ_of_ne_zero hsome.ne'
      rw [hn]
      simp [BitVec.ofNat_add]

/-- A response is put in the queue. -/
theorem Inv.pushed_eq (h : Inv u l) (ha : Answered u i) :
    pushed u.s.i_fifo (fifoInput i)=if i.valid_i then [i.data_i] else [] := by
  have hready := h.ready ha
  unfold pushed
  cases hvalid : i.valid_i with
  | false => simp [fifoInput,hvalid]
  | true =>
    have hfifo : IoFifo.ready_o u.s.i_fifo=true := hready hvalid
    simp [fifoInput,hvalid,hfifo]

/-- A value that is asked for is the front one. -/
theorem Inv.popped_rest (h : Inv u l) :
    (if i.ready_i && valid_o u.s then [data_o u.s] else [])++rest (fifoInput i) l=l := by
  have hvalid : valid_o u.s=true ↔ l≠[] := h.stores.valid_o_iff
  by_cases hpop : (i.ready_i && valid_o u.s)=true
  · obtain ⟨hready,hfront⟩ := Bool.and_eq_true_iff.mp hpop
    obtain ⟨x,xs,rfl⟩ := List.exists_cons_of_ne_nil (hvalid.mp hfront)
    have hdata : data_o u.s=x := h.stores.data_o_eq
    have hgo : (fifoInput i).ready_i=true := hready
    rw [if_pos hpop,hdata,rest,if_pos hgo]
    rfl
  · rw [if_neg hpop]
    exact h.stores.rest_eq hpop

/-- Every cycle in which the responses are those of requests keeps the room. -/
theorem Inv.next (h : Inv u l) (ha : Answered u i) : ∃ l',Inv (TxFifo.next u i) l' := by
  have hroom := h.room
  have hasks : asks u.s i=true → l.length+u.flight < c.BUFFER_DEPTH :=
    fun hask => h.req_o_iff.mp (Bool.and_eq_true_iff.mp hask).1
  have hflight : (TxFifo.next u i).flight+(if i.valid_i then 1 else 0)=
      u.flight+if asks u.s i then 1 else 0 := by
    have hanswer := ha
    unfold Answered at hanswer
    simp only [TxFifo.next]
    split_ifs with hask hvalid hvalid <;> grind
  cases hclr : i.clr_i with
  | true =>
    refine ⟨[],h.stores.clear hclr,h.inflight_step ha,?_,fun hno => ?_⟩
    · rw [List.length_nil]
      split_ifs at hflight with hvalid hask hask <;> grind
    · simp [TxFifo.next,hclr] at hno
  | false =>
    have hpop := h.popped_rest (i:=i)
    have hlength := congrArg List.length hpop
    rw [List.length_append] at hlength
    refine ⟨_,h.stores.step hclr,h.inflight_step ha,?_,fun hno => ?_⟩
    · rw [List.length_append,h.pushed_eq ha,apply_ite List.length]
      simp only [List.length_singleton,List.length_nil]
      split_ifs at hflight ⊢ with hvalid hask hask <;> grind
    · have hbefore : u.cleared=false := by
        simp only [TxFifo.next,hclr,Bool.or_false] at hno
        exact hno
      rw [h.pushed_eq ha,←List.append_assoc]
      simp only [TxFifo.next]
      rw [h.order hbefore,List.append_assoc u.popped _ (rest _ l),hpop]

end Inv

/-- In every run of requests, responses and clears, the values of the queue and those on their way
are never more than its depth, a response finds it ready, and without a clear the values come out
as they came in. -/
theorem never_overflows [Inhabited α] {is : List (Input α)}
    (ha : Meets next Answered (start : Sys c α) is) :
    Meets next Room (start : Sys c α) is ∧
      (after next (start : Sys c α) is).s.i_fifo.elements+
        (after next (start : Sys c α) is).flight ≤ c.BUFFER_DEPTH ∧
      ((after next (start : Sys c α) is).cleared=false →
        ∃ l,Stores (after next (start : Sys c α) is).s.i_fifo l ∧
          (after next (start : Sys c α) is).responses=
            (after next (start : Sys c α) is).popped++l) := by
  have hnext : ∀ (u : Sys c α) i,(∃ l,Inv u l) → Answered u i → ∃ l,Inv (next u i) l :=
    fun u i ⟨_,h⟩ ha => h.next ha
  obtain ⟨l,hl⟩ := after_invariant_of_meets hnext ⟨[],inv_start⟩ ha
  have hcount := hl.stores.count
  have hroom := hl.room
  rw [←hcount] at hroom
  exact ⟨meets_of_meets hnext (fun u i ⟨_,h⟩ ha => h.ready ha) ⟨[],inv_start⟩ ha,hroom,
    fun hno => ⟨l,hl.stores,hl.order hno⟩⟩

/-- Two requests, a response that comes in the cycle of the second one, and one value out. -/
theorem never_overflows_example :
    Meets next Answered (start : Sys (Config.ofDepth 2 (by decide) (by decide)) ℕ)
        [⟨false,true,false,false,0⟩,⟨false,true,false,true,5⟩,⟨false,true,true,true,7⟩] ∧
      (after next (start : Sys (Config.ofDepth 2 (by decide) (by decide)) ℕ)
        [⟨false,true,false,false,0⟩,⟨false,true,false,true,5⟩,
          ⟨false,true,true,true,7⟩]).s.i_fifo.elements+
        (after next (start : Sys (Config.ofDepth 2 (by decide) (by decide)) ℕ)
          [⟨false,true,false,false,0⟩,⟨false,true,false,true,5⟩,
            ⟨false,true,true,true,7⟩]).flight ≤ 2 := by
  have ha : Meets next Answered (start : Sys (Config.ofDepth 2 (by decide) (by decide)) ℕ)
      [⟨false,true,false,false,0⟩,⟨false,true,false,true,5⟩,⟨false,true,true,true,7⟩] := by
    decide +kernel
  exact ⟨ha,(never_overflows ha).2.1⟩

end Pulpissimo.Udma.TxFifo
