import Pulpissimo.Lib.Bits
import Pulpissimo.Lib.Indices
import Pulpissimo.Lib.Select
import Pulpissimo.Soc.EventArbiter
import Pulpissimo.Soc.EventQueue

/-!
# The generator of the SoC events

`soc_event_generator` queues the pulses of every event line and offers the granted one
to the fabric controller, the cluster and the peripherals at once. It takes the event
off its queue when every destination that is offered the event is ready in the same
cycle; a destination that was ready before the others has then taken it already.
-/

namespace Pulpissimo.Soc.EventGenerator

open Pulpissimo.Machine Pulpissimo.Select

/-- Parameters for which the part selects of the code are in range and the event
numbers differ. -/
structure Config where
  APB_ADDR_WIDTH : ℕ
  /-- Events coming from peripherals. -/
  PER_EVNT_NUM : ℕ
  /-- Events written by software. -/
  APB_EVNT_NUM : ℕ
  EVNT_WIDTH : ℕ
  FC_EVENT_POS : ℕ
  /-- The arbiter has at least two requests. -/
  two_le : 2≤PER_EVNT_NUM+APB_EVNT_NUM+1
  /-- Software writes its events with one word. -/
  apb_le : APB_EVNT_NUM≤32
  /-- The masks are of 64 bits. -/
  mask_le : PER_EVNT_NUM+APB_EVNT_NUM+1≤64
  /-- Every line has a number of its own. -/
  width_le : PER_EVNT_NUM+APB_EVNT_NUM+1≤2^EVNT_WIDTH

/-- Number of events going to the event bus. -/
abbrev Config.EVNT_NUM (c : Config) : ℕ := c.PER_EVNT_NUM+c.APB_EVNT_NUM+1

/-- The parameters of the SoC. -/
def soc : Config := ⟨12,48,8,8,3,by decide,by decide,by decide,by decide⟩

variable {c : Config}

/-- Registers. -/
structure State (c : Config) where
  /-- Queues `u_soc_event_queue`. -/
  queue : Fin c.EVNT_NUM → EventQueue.State
  u_arbiter : EventArbiter.State c.EVNT_NUM
  /-- Low speed clock, last three samples. -/
  r_ls_sync : BitVec 3
  r_apb_events : BitVec c.APB_EVNT_NUM
  r_fc_mask : BitVec 64
  r_cl_mask : BitVec 64
  r_pr_mask : BitVec 64
  r_timer_sel_lo : BitVec 6
  r_timer_sel_hi : BitVec 6
  r_err : BitVec 64

/-- One cycle of inputs. -/
structure Input (c : Config) where
  PADDR : BitVec c.APB_ADDR_WIDTH
  PWDATA : BitVec 32
  PWRITE : Bool
  PSEL : Bool
  PENABLE : Bool
  low_speed_clk_i : Bool
  per_events_i : BitVec c.PER_EVNT_NUM
  fc_event_ready_i : Bool
  cl_event_ready_i : Bool
  pr_event_ready_i : Bool

/-- Values after reset. -/
def reset : State c where
  queue := fun _ => EventQueue.reset
  u_arbiter := EventArbiter.reset
  r_ls_sync := 0
  r_apb_events := 0
  r_fc_mask := BitVec.allOnes 64
  r_cl_mask := BitVec.allOnes 64
  r_pr_mask := BitVec.allOnes 64
  r_timer_sel_lo := 0
  r_timer_sel_hi := 0
  r_err := 0

section Events

variable (s : State c) (i : Input c)

def s_ls_rise : Bool := !s.r_ls_sync.getLsbD 2 && s.r_ls_sync.getLsbD 1

/-- The clock edge of the low speed clock over the software events over those of the
peripherals. -/
def s_events : Fin c.EVNT_NUM → Bool := fun j =>
  if j.val < c.PER_EVNT_NUM then i.per_events_i.getLsbD j.val
  else if j.val < c.PER_EVNT_NUM+c.APB_EVNT_NUM then s.r_apb_events.getLsbD (j.val-c.PER_EVNT_NUM)
  else s_ls_rise s

def s_req : Fin c.EVNT_NUM → Bool := fun j => EventQueue.event_o (s.queue j)

def s_grant : Fin c.EVNT_NUM → Bool := EventArbiter.gnt s.u_arbiter (s_req s)

/-- Number of the granted event. -/
def s_event_data : BitVec c.EVNT_WIDTH :=
  muxLoop (s_grant s) (fun j => BitVec.ofNat c.EVNT_WIDTH j.val) 0

end Events

section Destinations

variable (s : State c) (i : Input c)

/-- Some granted event is not masked. -/
def s_valid (mask : BitVec 64) : Bool := decide (∃ j, s_grant s j && !mask.getLsbD j.val)

def s_valid_fc : Bool := s_valid s s.r_fc_mask
def s_valid_cl : Bool := s_valid s s.r_cl_mask
def s_valid_pr : Bool := s_valid s s.r_pr_mask

def s_ready_fc : Bool := if s_valid_fc s then i.fc_event_ready_i else true
def s_ready_cl : Bool := if s_valid_cl s then i.cl_event_ready_i else true
def s_ready_pr : Bool := if s_valid_pr s then i.pr_event_ready_i else true

def s_event_ready : Bool := s_ready_fc s i && s_ready_cl s i && s_ready_pr s i

def s_ack : Fin c.EVNT_NUM → Bool := fun j => s_grant s j && s_event_ready s i

/-- Input of the queue of line `j`. -/
def queueInput (j : Fin c.EVNT_NUM) : EventQueue.Input := ⟨s_events s i j,s_ack s i j⟩

def s_err : Fin c.EVNT_NUM → Bool := fun j => EventQueue.err_o (s.queue j) (queueInput s i j)

end Destinations

section Registers

def REG_EVENT : BitVec 4 := 0b0000#4
def REG_FC_MASK_MSB : BitVec 4 := 0b0001#4
def REG_FC_MASK_LSB : BitVec 4 := 0b0010#4
def REG_CL_MASK_MSB : BitVec 4 := 0b0011#4
def REG_CL_MASK_LSB : BitVec 4 := 0b0100#4
def REG_PR_MASK_MSB : BitVec 4 := 0b0101#4
def REG_PR_MASK_LSB : BitVec 4 := 0b0110#4
def REG_ERR_MSB : BitVec 4 := 0b0111#4
def REG_ERR_LSB : BitVec 4 := 0b1000#4
def REG_TIMER_SEL_HI : BitVec 4 := 0b1001#4
def REG_TIMER_SEL_LO : BitVec 4 := 0b1010#4

/-- Register number. Three address bits are taken, so its top bit is zero. -/
def s_apb_addr (i : Input c) : BitVec 4 := (i.PADDR.extractLsb' 2 3).setWidth 4

/-- A write to the upper word. -/
def setMsb (r : BitVec 64) (w : BitVec 32) : BitVec 64 := w++r.extractLsb' 0 32

/-- A write to the lower word. -/
def setLsb (r : BitVec 64) (w : BitVec 32) : BitVec 64 := r.extractLsb' 32 32++w

variable (s : State c) (i : Input c)

/-- Errors with those of the cycle. -/
def markErr : BitVec 64 := s.r_err ||| Bits.ofBits fun k : Fin 64 =>
  if h : k.val < c.EVNT_NUM then s_err s i ⟨k.val,h⟩ else false

/-- The registers that software writes, with a cycle's access. -/
def apbWrite (s : State c) (i : Input c) : State c :=
  if s_apb_addr i=REG_EVENT then {s with r_apb_events := i.PWDATA.setWidth c.APB_EVNT_NUM}
  else if s_apb_addr i=REG_FC_MASK_MSB then {s with r_fc_mask := setMsb s.r_fc_mask i.PWDATA}
  else if s_apb_addr i=REG_FC_MASK_LSB then {s with r_fc_mask := setLsb s.r_fc_mask i.PWDATA}
  else if s_apb_addr i=REG_CL_MASK_MSB then {s with r_cl_mask := setMsb s.r_cl_mask i.PWDATA}
  else if s_apb_addr i=REG_CL_MASK_LSB then {s with r_cl_mask := setLsb s.r_cl_mask i.PWDATA}
  else if s_apb_addr i=REG_PR_MASK_MSB then {s with r_pr_mask := setMsb s.r_pr_mask i.PWDATA}
  else if s_apb_addr i=REG_PR_MASK_LSB then {s with r_pr_mask := setLsb s.r_pr_mask i.PWDATA}
  else if s_apb_addr i=REG_TIMER_SEL_LO then
    {s with r_timer_sel_lo := (i.PWDATA.extractLsb' 0 5).setWidth 6}
  else if s_apb_addr i=REG_TIMER_SEL_HI then
    {s with r_timer_sel_hi := (i.PWDATA.extractLsb' 0 5).setWidth 6}
  else s

/-- The errors are cleared by reading them. -/
def apbRead (s : State c) (i : Input c) : State c :=
  if s_apb_addr i=REG_ERR_LSB then {s with r_err := setLsb s.r_err 0}
  else if s_apb_addr i=REG_ERR_MSB then {s with r_err := setMsb s.r_err 0}
  else s

/-- One clock edge. -/
def step (s : State c) (i : Input c) : State c :=
  let next : State c := {s with
    queue := fun j => EventQueue.step (s.queue j) (queueInput s i j)
    u_arbiter := EventArbiter.step s.u_arbiter ⟨s_req s,s_event_ready s i⟩
    r_ls_sync := s.r_ls_sync.extractLsb' 0 2++BitVec.ofBool i.low_speed_clk_i
    r_err := markErr s i
    r_apb_events := 0}
  if i.PSEL && i.PENABLE && i.PWRITE then apbWrite next i
  else if i.PSEL && i.PENABLE && !i.PWRITE then apbRead next i
  else next

end Registers

section Outputs

variable (s : State c) (i : Input c)

def fc_events_o : BitVec 2 := i.per_events_i.extractLsb' c.FC_EVENT_POS 2

def err_event_o : Bool := decide (∃ j, s_err s i j)

/-- Event line of a timer, none past the last. -/
def timerEvent (sel : BitVec 6) : Bool :=
  if h : sel.toNat < c.EVNT_NUM then s_events s i ⟨sel.toNat,h⟩ else false

def timer_event_lo_o : Bool := timerEvent s i s.r_timer_sel_lo
def timer_event_hi_o : Bool := timerEvent s i s.r_timer_sel_hi

/-- Read data. The upper word of the cluster's mask reads as that of the controller. -/
def PRDATA : BitVec 32 :=
  if s_apb_addr i=REG_FC_MASK_LSB then s.r_fc_mask.extractLsb' 0 32
  else if s_apb_addr i=REG_FC_MASK_MSB then s.r_fc_mask.extractLsb' 32 32
  else if s_apb_addr i=REG_CL_MASK_LSB then s.r_cl_mask.extractLsb' 0 32
  else if s_apb_addr i=REG_CL_MASK_MSB then s.r_fc_mask.extractLsb' 32 32
  else if s_apb_addr i=REG_PR_MASK_LSB then s.r_pr_mask.extractLsb' 0 32
  else if s_apb_addr i=REG_PR_MASK_MSB then s.r_pr_mask.extractLsb' 32 32
  else if s_apb_addr i=REG_ERR_LSB then s.r_err.extractLsb' 0 32
  else if s_apb_addr i=REG_ERR_MSB then s.r_err.extractLsb' 32 32
  else if s_apb_addr i=REG_TIMER_SEL_LO then s.r_timer_sel_lo.setWidth 32
  else if s_apb_addr i=REG_TIMER_SEL_HI then s.r_timer_sel_hi.setWidth 32
  else 0

end Outputs

section Dispatch

/-- Destinations. -/
inductive Dest where
  | fc
  | cl
  | pr
deriving DecidableEq

def mask (s : State c) : Dest → BitVec 64
  | .fc => s.r_fc_mask
  | .cl => s.r_cl_mask
  | .pr => s.r_pr_mask

/-- The event of line `j` goes to the destination. -/
def enabled (s : State c) (d : Dest) (j : Fin c.EVNT_NUM) : Bool := !(mask s d).getLsbD j.val

def event_valid_o (s : State c) : Dest → Bool
  | .fc => s_valid_fc s
  | .cl => s_valid_cl s
  | .pr => s_valid_pr s

def event_ready_i (i : Input c) : Dest → Bool
  | .fc => i.fc_event_ready_i
  | .cl => i.cl_event_ready_i
  | .pr => i.pr_event_ready_i

/-- Number that stands for line `j`. -/
def eventId (j : Fin c.EVNT_NUM) : BitVec c.EVNT_WIDTH := BitVec.ofNat c.EVNT_WIDTH j.val

/-- The destination takes an event with the number of line `j`. -/
def handshake (d : Dest) (j : Fin c.EVNT_NUM) (s : State c) (i : Input c) : Bool :=
  event_valid_o s d && event_ready_i i d && s_event_data s==eventId j

/-- The queue of line `j` takes up a pulse. -/
def accepted (j : Fin c.EVNT_NUM) (s : State c) (i : Input c) : Bool :=
  EventQueue.accepted (s.queue j) (queueInput s i j)

/-- The queue of line `j` lets an event go. -/
def dispatched (j : Fin c.EVNT_NUM) (s : State c) (i : Input c) : Bool := s_ack s i j

/-- The queue of line `j` lets an event go that is meant for the destination. -/
def dispatchedTo (d : Dest) (j : Fin c.EVNT_NUM) (s : State c) (i : Input c) : Bool :=
  dispatched j s i && enabled s d j

/-- Any event leaves its queue. -/
def anyDispatched (s : State c) (i : Input c) : Bool := decide (∃ j, dispatched j s i)

/-- The destinations that a granted event is meant for are all ready or all not. -/
def AllOrNone (s : State c) (i : Input c) : Prop :=
  ∀ j, s_grant s j=true → ∀ d e, enabled s d j=true → enabled s e j=true →
    event_ready_i i d=event_ready_i i e

/-- An event of line `j` waits and does not leave its queue. -/
def Waits (j : Fin c.EVNT_NUM) (s : State c) (i : Input c) : Prop :=
  EventQueue.event_o (s.queue j)=true ∧ ¬dispatched j s i=true

/-- No event of a run is lost or sent twice. -/
structure EachOnce (is : List (Input c)) : Prop where
  /-- What is taken up was dispatched or waits. -/
  conserved : ∀ j, count step (accepted j) reset is=
    count step (dispatched j) reset is+((after step reset is).queue j).r_event_count.toNat
  /-- A destination takes the event's number as often as its events are dispatched. -/
  once : ∀ d j, count step (handshake d j) reset is=count step (dispatchedTo d j) reset is
  /-- An event that waits sees fewer dispatches than there are lines. -/
  fair : ∀ j js, Meets step (Waits j) (after step reset is) js →
    count step anyDispatched (after step reset is) js < c.EVNT_NUM

end Dispatch

section Frame

variable (s : State c) (i : Input c)

theorem apbWrite_frame : (apbWrite s i).queue=s.queue ∧ (apbWrite s i).u_arbiter=s.u_arbiter := by
  unfold apbWrite
  iterate 9
    split
    · exact ⟨rfl,rfl⟩
  exact ⟨rfl,rfl⟩

theorem apbRead_frame : (apbRead s i).queue=s.queue ∧ (apbRead s i).u_arbiter=s.u_arbiter := by
  unfold apbRead
  iterate 2
    split
    · exact ⟨rfl,rfl⟩
  exact ⟨rfl,rfl⟩

/-- Every queue runs on its own pulse and acknowledge. -/
theorem step_queue (j : Fin c.EVNT_NUM) :
    (step s i).queue j=EventQueue.step (s.queue j) (queueInput s i j) := by
  unfold step
  dsimp only
  split_ifs
  · rw [(apbWrite_frame _ i).1]
  · rw [(apbRead_frame _ i).1]
  · rfl

/-- The arbiter runs on the queues' requests. -/
theorem step_u_arbiter :
    (step s i).u_arbiter=EventArbiter.step s.u_arbiter ⟨s_req s,s_event_ready s i⟩ := by
  unfold step
  dsimp only
  split_ifs
  · rw [(apbWrite_frame _ i).2]
  · rw [(apbRead_frame _ i).2]
  · rfl

/-- Only a line with a request is granted. -/
theorem s_req_of_grant {j : Fin c.EVNT_NUM} (hj : s_grant s j=true) : s_req s j=true := by
  unfold s_grant EventArbiter.gnt at hj
  exact (Bool.and_eq_true_iff.mp hj).1

end Frame

section Cycle

variable {s : State c} {i : Input c} {j k : Fin c.EVNT_NUM} {d : Dest}

/-- One line is granted at a time. -/
theorem grant_unique (hs : EventArbiter.Sound s.u_arbiter) (hj : s_grant s j=true)
    (hk : s_grant s k=true) : k=j := by
  rcases hs with ⟨q,hq⟩
  have hfirst := (EventArbiter.gnt_iff s.u_arbiter (s_req s) c.two_le hq j).mp hj
  exact ((EventArbiter.gnt_iff s.u_arbiter (s_req s) c.two_le hq k).mp hk).unique hfirst

theorem s_valid_iff (m : BitVec 64) :
    s_valid s m=true ↔ ∃ j, s_grant s j=true ∧ m.getLsbD j.val=false := by
  unfold s_valid
  rw [decide_eq_true_iff]
  refine exists_congr fun j => ?_
  rw [Bool.and_eq_true_iff,Bool.not_eq_true']

theorem event_valid_o_eq : event_valid_o s d=s_valid s (mask s d) := by
  cases d <;> rfl

theorem event_valid_o_iff : event_valid_o s d=true ↔ ∃ j, s_grant s j=true ∧ enabled s d j=true := by
  rw [event_valid_o_eq,s_valid_iff]
  refine exists_congr fun j => ?_
  unfold enabled
  rw [Bool.not_eq_true']

/-- The number sent is that of the granted line. -/
theorem s_event_data_eq (hs : EventArbiter.Sound s.u_arbiter) (hj : s_grant s j=true) :
    s_event_data s=eventId j :=
  muxLoop_unique (s_grant s) _ _ hj fun _ hk => grant_unique hs hj hk

theorem eventId_injective (h : (eventId j : BitVec c.EVNT_WIDTH)=eventId k) : j=k := by
  have hj := Nat.lt_of_lt_of_le j.isLt c.width_le
  have hk := Nat.lt_of_lt_of_le k.isLt c.width_le
  have hval := congrArg BitVec.toNat h
  unfold eventId at hval
  rw [BitVec.toNat_ofNat,BitVec.toNat_ofNat,Nat.mod_eq_of_lt hj,Nat.mod_eq_of_lt hk] at hval
  exact Fin.ext hval

/-- A destination takes the number of a line exactly when the line is granted, the
event is meant for it and it is ready. -/
theorem handshake_iff (hs : EventArbiter.Sound s.u_arbiter) : handshake d j s i=true ↔
    s_grant s j=true ∧ enabled s d j=true ∧ event_ready_i i d=true := by
  unfold handshake
  rw [Bool.and_eq_true_iff,Bool.and_eq_true_iff,beq_iff_eq,event_valid_o_iff]
  constructor
  · rintro ⟨⟨⟨k,hk,hen⟩,hready⟩,hdata⟩
    rw [s_event_data_eq hs hk] at hdata
    have hkj := eventId_injective hdata
    subst hkj
    exact ⟨hk,hen,hready⟩
  · rintro ⟨hj,hen,hready⟩
    exact ⟨⟨⟨j,hj,hen⟩,hready⟩,s_event_data_eq hs hj⟩

theorem s_event_ready_iff : s_event_ready s i=true ↔
    ∀ d, event_valid_o s d=true → event_ready_i i d=true := by
  have hone : ∀ v r : Bool, (if v then r else true)=true ↔ (v=true → r=true) := by decide
  unfold s_event_ready s_ready_fc s_ready_cl s_ready_pr
  rw [Bool.and_eq_true_iff,Bool.and_eq_true_iff,hone,hone,hone]
  constructor
  · rintro ⟨⟨hfc,hcl⟩,hpr⟩ d
    cases d
    · exact hfc
    · exact hcl
    · exact hpr
  · intro h
    exact ⟨⟨h .fc,h .cl⟩,h .pr⟩

/-- A line's event leaves exactly when it is granted and every destination that it is
meant for is ready. -/
theorem dispatched_iff (hs : EventArbiter.Sound s.u_arbiter) : dispatched j s i=true ↔
    s_grant s j=true ∧ ∀ d, enabled s d j=true → event_ready_i i d=true := by
  unfold dispatched s_ack
  rw [Bool.and_eq_true_iff,s_event_ready_iff]
  refine and_congr_right fun hj => forall_congr' fun d => ?_
  rw [event_valid_o_iff]
  constructor
  · exact fun h hen => h ⟨j,hj,hen⟩
  · rintro h ⟨k,hk,hen⟩
    rw [grant_unique hs hj hk] at hen
    exact h hen

theorem handshake_of_dispatchedTo (hs : EventArbiter.Sound s.u_arbiter)
    (h : dispatchedTo d j s i=true) : handshake d j s i=true := by
  unfold dispatchedTo at h
  rw [Bool.and_eq_true_iff,dispatched_iff hs] at h
  exact (handshake_iff hs).mpr ⟨h.1.1,h.2,h.1.2 d h.2⟩

/-- A cycle sends nothing early exactly when the destinations of the granted event are
all ready or all not. -/
theorem allOrNone_iff (hs : EventArbiter.Sound s.u_arbiter) : AllOrNone s i ↔
    ∀ d j, handshake d j s i=true → dispatchedTo d j s i=true := by
  constructor
  · intro hall d j h
    rcases (handshake_iff hs).mp h with ⟨hj,hen,hready⟩
    unfold dispatchedTo
    rw [Bool.and_eq_true_iff,dispatched_iff hs]
    refine ⟨⟨hj,fun e he => ?_⟩,hen⟩
    rw [hall j hj e d he hen,hready]
  · intro h j hj
    have hready : ∀ d e, enabled s d j=true → enabled s e j=true →
        event_ready_i i d=true → event_ready_i i e=true := by
      intro d e hd he hr
      have hsent := h d j ((handshake_iff hs).mpr ⟨hj,hd,hr⟩)
      unfold dispatchedTo at hsent
      rw [Bool.and_eq_true_iff,dispatched_iff hs] at hsent
      exact hsent.1.2 e he
    intro d e hd he
    exact Bool.eq_iff_iff.mpr ⟨hready d e hd he,hready e d he hd⟩

end Cycle

section Runs

theorem sound_step (s : State c) (i : Input c) (hs : EventArbiter.Sound s.u_arbiter) :
    EventArbiter.Sound (step s i).u_arbiter := by
  rw [step_u_arbiter]
  exact EventArbiter.sound_step c.two_le s.u_arbiter _ hs

theorem conserved (j : Fin c.EVNT_NUM) (is : List (Input c)) :
    count step (accepted j) reset is=
      count step (dispatched j) reset is+((after step reset is).queue j).r_event_count.toNat := by
  have hone : ∀ (s : State c) (i : Input c), True →
      ((step s i).queue j).r_event_count.toNat+(if dispatched j s i=true then 1 else 0)=
        (s.queue j).r_event_count.toNat+(if accepted j s i=true then 1 else 0) := by
    intro s i _
    rw [step_queue]
    refine EventQueue.step_count (s.queue j) (queueInput s i j) fun hack => ?_
    exact s_req_of_grant s (Bool.and_eq_true_iff.mp hack).1
  have hledger := count_ledger (I:=accepted j) (O:=dispatched j) (P:=fun _ => True)
    (fun s => (s.queue j).r_event_count.toNat) (fun _ _ _ => trivial) hone (s:=reset) trivial is
  have hzero : ((reset : State c).queue j).r_event_count.toNat=0 := rfl
  omega

/-- The numbers taken are those of the events dispatched exactly in the runs whose
cycles are all or none. -/
theorem once_iff (is : List (Input c)) :
    (∀ d j, count step (handshake d j) reset is=count step (dispatchedTo d j) reset is) ↔
      Meets step AllOrNone reset is := by
  have hreset : EventArbiter.Sound (reset : State c).u_arbiter := EventArbiter.sound_reset
  have hcount : ∀ d j,
      count step (handshake d j) reset is=count step (dispatchedTo d j) reset is ↔
        Meets step (fun s i => handshake d j s i=true → dispatchedTo d j s i=true) reset is :=
    fun d j => (count_eq_iff (P:=fun s => EventArbiter.Sound s.u_arbiter) sound_step
      (fun s i hs => handshake_of_dispatchedTo hs) hreset is).2
  have hcycle : ∀ s i, EventArbiter.Sound s.u_arbiter → (AllOrNone s i ↔
      ∀ d j, handshake d j s i=true → dispatchedTo d j s i=true) :=
    fun s i hs => allOrNone_iff (c:=c) hs
  rw [meets_congr_of_invariant sound_step hcycle hreset,←meets_forall]
  refine forall_congr' fun d => ?_
  rw [←meets_forall]
  exact forall_congr' fun j => hcount d j

/-- An event that waits is dispatched before every line had its turn. -/
theorem fair {s : State c} (hs : EventArbiter.Sound s.u_arbiter) (j : Fin c.EVNT_NUM)
    {is : List (Input c)} (hw : Meets step (Waits j) s is) :
    count step anyDispatched s is < c.EVNT_NUM := by
  let given : State c → Input c → EventArbiter.Input c.EVNT_NUM :=
    fun s i => ⟨s_req s,s_event_ready s i⟩
  have hwaits : ∀ s i, Waits j s i ↔ EventArbiter.Waits j s.u_arbiter (given s i) := by
    intro s i
    unfold Waits EventArbiter.Waits dispatched s_ack
    rw [Bool.and_eq_true_iff]
    exact Iff.rfl
  have hacked : ∀ s i, True → anyDispatched s i=true →
      EventArbiter.acknowledged s.u_arbiter (given s i)=true := by
    intro s i _ h
    rcases of_decide_eq_true h with ⟨k,hk⟩
    rcases Bool.and_eq_true_iff.mp hk with ⟨hgrant,hready⟩
    unfold EventArbiter.acknowledged
    rw [Bool.and_eq_true_iff,EventArbiter.anyGnt_iff s.u_arbiter _ c.two_le]
    exact ⟨⟨k,s_req_of_grant s hgrant⟩,hready⟩
  have hle : count step anyDispatched s is≤
      count step (fun s i => EventArbiter.acknowledged s.u_arbiter (given s i)) s is :=
    (count_eq_iff (P:=fun _ => True) (fun _ _ _ => trivial) hacked trivial is).1
  have hpart := (hs.arbitrates c.two_le).fair j (driven step given s is)
    ((meets_driven step_u_arbiter _ s is).mpr ((meets_congr hwaits).mp hw))
  rw [count_driven step_u_arbiter] at hpart
  exact Nat.lt_of_le_of_lt hle hpart

/-- Over a run from reset every event is sent exactly once to every destination that it
is meant for, if and only if no granted event finds its destinations ready in part. -/
theorem eachOnce_iff (is : List (Input c)) : EachOnce is ↔ Meets step AllOrNone reset is := by
  rw [←once_iff is]
  constructor
  · exact fun h => h.once
  · exact fun h => ⟨fun j => conserved j is,h,fun j _ hw => fair
      (after_invariant sound_step EventArbiter.sound_reset is) j hw⟩

/-- The cycles of a run in which software opens line 0 to the controller and the
cluster, the event comes, and the cluster is ready one cycle after the controller. -/
def splitReady : List (Input soc) :=
  [⟨8,0xfffffffe,true,true,true,false,0,false,false,false⟩,
    ⟨16,0xfffffffe,true,true,true,false,0,false,false,false⟩,
    ⟨0,0,false,false,false,false,1,false,false,false⟩,
    ⟨0,0,false,false,false,false,0,true,false,false⟩,
    ⟨0,0,false,false,false,false,0,true,true,false⟩]

/-- The controller takes the one event twice. -/
theorem not_eachOnce_splitReady : ¬EachOnce splitReady := by
  have htwice : count step (handshake .fc (0 : Fin soc.EVNT_NUM)) reset splitReady=2 := by
    decide +kernel
  have honce : count step (dispatchedTo .fc (0 : Fin soc.EVNT_NUM)) reset splitReady=1 := by
    decide +kernel
  intro h
  have heq := h.once .fc 0
  rw [htwice,honce] at heq
  exact absurd heq (by decide)

end Runs

end Pulpissimo.Soc.EventGenerator
