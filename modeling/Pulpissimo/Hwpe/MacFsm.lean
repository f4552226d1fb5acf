import Mathlib.Tactic.IntervalCases
import Pulpissimo.Hwpe.AddressGen
import Pulpissimo.Lib.Indices
import Pulpissimo.Lib.Machine

/-!
# The control of the MAC engine

`mac_fsm` takes a job through its iterations. It starts the streamers and the
engine together, waits for the engine, lets the microcode go on, and starts
again until the microcode says that it is done. Of the two ways to find the
streamers busy, the one of the first iteration waits for them, and the one of
the others gives the job up.
-/

namespace Pulpissimo.Hwpe.MacFsm

open Pulpissimo.Machine Pulpissimo.Hwpe.AddressGen

/-- States. -/
inductive Fsm
  | FSM_IDLE
  | FSM_START
  | FSM_COMPUTE
  | FSM_WAIT
  | FSM_UPDATEIDX
  | FSM_TERMINATE
  deriving DecidableEq

/-- A bit for every streamer. -/
structure Streamers where
  a_source : Bool
  b_source : Bool
  c_source : Bool
  d_sink : Bool
  deriving DecidableEq

/-- One cycle of inputs. -/
structure Input where
  /-- Sets the state back. -/
  clear_i : Bool
  /-- The streamers that are ready for a start. -/
  ready_start : Streamers
  /-- Count of the engine. -/
  cnt : BitVec 11
  /-- The microcode has reached the next iteration. -/
  valid : Bool
  /-- There are no more iterations. -/
  done : Bool
  /-- Registers of the microcode. -/
  offs : Fin 4 → BitVec 32
  /-- A job is there. -/
  start : Bool
  /-- Its registers. -/
  hwpe_params : Fin 48 → BitVec 32
  /-- Elementwise products instead of one scalar product. -/
  simple_mul : Bool
  /-- Shift of the results. -/
  shift : BitVec 5
  /-- Length of the vectors. -/
  len : BitVec 11

/-- Controls of a streamer. -/
structure SourceSink where
  /-- Starts a transfer. -/
  req_start : Bool
  /-- Its configuration. -/
  addressgen_ctrl : Ctrl

/-- One cycle of outputs. -/
structure Output where
  a_source_ctrl : SourceSink
  b_source_ctrl : SourceSink
  c_source_ctrl : SourceSink
  d_sink_ctrl : SourceSink
  /-- Clears the engine. -/
  engine_clear : Bool
  /-- Enables the engine. -/
  engine_enable : Bool
  /-- Mode of the engine. -/
  engine_simple_mul : Bool
  /-- Starts the engine. -/
  engine_start : Bool
  /-- Shift of the engine. -/
  engine_shift : BitVec 5
  /-- Length for the engine. -/
  engine_len : BitVec 11
  /-- Enables the microcode. -/
  ucode_enable : Bool
  /-- Clears the microcode. -/
  ucode_clear : Bool
  /-- Loop of the microcode that accumulates. -/
  ucode_accum_loop : BitVec 3
  /-- The job is done. -/
  slave_done : Bool
  /-- Other events. -/
  slave_evt : Bool

section Code

variable (curr_state : Fsm) (i : Input)

/-- All streamers are ready for a start. -/
def Input.ready (i : Input) : Bool :=
  i.ready_start.a_source && i.ready_start.b_source && i.ready_start.c_source && i.ready_start.d_sink

def MAC_REG_A_ADDR : Fin 48 := 0
def MAC_REG_B_ADDR : Fin 48 := 1
def MAC_REG_C_ADDR : Fin 48 := 2
def MAC_REG_D_ADDR : Fin 48 := 3
def MAC_UCODE_A_OFFS : Fin 4 := 0
def MAC_UCODE_B_OFFS : Fin 4 := 1
def MAC_UCODE_C_OFFS : Fin 4 := 2
def MAC_UCODE_D_OFFS : Fin 4 := 3

/-- A transfer of one line. -/
def line_ctrl (base : Fin 48) (offs : Fin 4) (len : BitVec 11) : Ctrl :=
  ⟨i.hwpe_params base+i.offs offs,len.setWidth 32,0#16,len.setWidth 16,0#16,1#16,0#16,false⟩

/-- Outputs before the state machine decides. -/
def direct : Output where
  a_source_ctrl := ⟨false,line_ctrl i MAC_REG_A_ADDR MAC_UCODE_A_OFFS i.len⟩
  b_source_ctrl := ⟨false,line_ctrl i MAC_REG_B_ADDR MAC_UCODE_B_OFFS i.len⟩
  c_source_ctrl := ⟨false,line_ctrl i MAC_REG_C_ADDR MAC_UCODE_C_OFFS 1#11⟩
  d_sink_ctrl :=
    ⟨false,line_ctrl i MAC_REG_D_ADDR MAC_UCODE_D_OFFS (if i.simple_mul then i.len else 1#11)⟩
  engine_clear := true
  engine_enable := true
  engine_simple_mul := i.simple_mul
  engine_start := false
  engine_shift := i.shift
  engine_len := i.len
  ucode_enable := false
  ucode_clear := false
  ucode_accum_loop := 0#3
  slave_done := false
  slave_evt := false

/-- The engine and the streamers that the mode uses are started. -/
def Output.launch (o : Output) : Output :=
  { o with
    engine_start := true
    engine_clear := false
    engine_enable := true
    a_source_ctrl := { o.a_source_ctrl with req_start := true }
    b_source_ctrl := { o.b_source_ctrl with req_start := true }
    c_source_ctrl :=
      { o.c_source_ctrl with
        req_start := if i.simple_mul then o.c_source_ctrl.req_start else true }
    d_sink_ctrl := { o.d_sink_ctrl with req_start := true } }

/-- The next state and the outputs. -/
def main_fsm_comb : Fsm × Output :=
  let o := direct i
  match curr_state with
  | .FSM_IDLE => (if i.start then .FSM_START else .FSM_IDLE,{ o with ucode_clear := true })
  | .FSM_START => if i.ready then (.FSM_COMPUTE,o.launch i) else (.FSM_WAIT,o)
  | .FSM_COMPUTE =>
    (if i.cnt==i.len then .FSM_UPDATEIDX else .FSM_COMPUTE,{ o with engine_clear := false })
  | .FSM_UPDATEIDX =>
    if !i.valid then (.FSM_UPDATEIDX,{ o with ucode_enable := true })
    else if i.done then (.FSM_TERMINATE,o)
    else if i.ready then (.FSM_COMPUTE,o.launch i)
    -- a comment of the source says that this should be the waiting state
    else (.FSM_TERMINATE,o)
  | .FSM_WAIT =>
    let o := { o with engine_clear := false,engine_enable := false }
    if i.ready then (.FSM_COMPUTE,o.launch i) else (.FSM_WAIT,o)
  | .FSM_TERMINATE =>
    let o := { o with engine_clear := false,engine_enable := false }
    if i.ready then (.FSM_IDLE,{ o with slave_done := true }) else (.FSM_TERMINATE,o)

/-- One cycle. -/
def main_fsm_seq : Fsm := if i.clear_i then .FSM_IDLE else (main_fsm_comb curr_state i).1

end Code

/-- What happens in a job. -/
inductive Event
  /-- A phase of the engine begins. -/
  | start
  /-- The microcode has gone on to the next iteration. -/
  | advance
  /-- The job is done. -/
  | done
  deriving DecidableEq

/-- A state with what happened so far. -/
structure Progress where
  /-- State. -/
  state : Fsm
  /-- What happened. -/
  trace : List Event
  deriving DecidableEq

section Events

variable (p : Progress) (i : Input)

/-- What happens in a cycle. -/
def events : List Event :=
  let o := (main_fsm_comb p.state i).2
  (if p.state=.FSM_UPDATEIDX ∧ i.valid=true then [.advance] else [])++
    (if o.engine_start then [.start] else [])++(if o.slave_done then [.done] else [])

/-- One cycle. -/
def Progress.step : Progress := ⟨main_fsm_seq p.state i,p.trace++events p i⟩

/-- The microcode has answered and goes on. -/
def Resumes : Prop := p.state=.FSM_UPDATEIDX ∧ i.valid=true ∧ i.done=false

/-- The engine and the streamers that the mode uses are started together, when all streamers are
ready. They are ready when the job is done. The microcode is enabled only until it answers. -/
structure Strobes : Prop where
  ready : (main_fsm_comb p.state i).2.engine_start=true → i.ready=true
  a_source : (main_fsm_comb p.state i).2.a_source_ctrl.req_start=
    (main_fsm_comb p.state i).2.engine_start
  b_source : (main_fsm_comb p.state i).2.b_source_ctrl.req_start=
    (main_fsm_comb p.state i).2.engine_start
  c_source : (main_fsm_comb p.state i).2.c_source_ctrl.req_start=
    ((main_fsm_comb p.state i).2.engine_start && !i.simple_mul)
  d_sink : (main_fsm_comb p.state i).2.d_sink_ctrl.req_start=
    (main_fsm_comb p.state i).2.engine_start
  done : (main_fsm_comb p.state i).2.slave_done=true → i.ready=true
  enable : (main_fsm_comb p.state i).2.ucode_enable=true →
    p.state=.FSM_UPDATEIDX ∧ i.valid=false

end Events

/-- A control that waits for a job. -/
def idle : Progress := ⟨.FSM_IDLE,[]⟩

/-- The control in every cycle. -/
def progress (env : ℕ → Input) : ℕ → Progress := states Progress.step idle env

/-- Phases, each with the step of the microcode behind it. -/
def phases (n : ℕ) : List Event := (List.replicate n [Event.start,Event.advance]).flatten

/-- The surroundings of a job: one start, flags that come again and again, and a microcode that is
done when it has gone on as often as there are iterations. -/
structure Job (n : ℕ) (env : ℕ → Input) : Prop where
  /-- Nothing sets the control back. -/
  uncleared : ∀ t, (env t).clear_i=false
  /-- The job starts. -/
  starts : (env 0).start=true
  /-- There is no other. -/
  once : ∀ t, (env (t+1)).start=false
  /-- The streamers are ready again and again. -/
  ready : ∀ t, ∃ m, (env (t+m)).ready=true
  /-- The engine comes to the end of a phase again and again. -/
  counted : ∀ t, ∃ m, (env (t+m)).cnt=(env (t+m)).len
  /-- The microcode answers again and again. -/
  valid : ∀ t, ∃ m, (env (t+m)).valid=true
  /-- The answer to the last iteration is that there are no more. -/
  done : ∀ t, (progress env t).state=.FSM_UPDATEIDX → (env t).valid=true →
    ((env t).done=true ↔ (progress env t).trace.count .advance+1=n)

/-- The job is served: all its phases, the microcode once between two of them and behind the last,
then one signal that it is done. -/
structure Serves (n : ℕ) (env : ℕ → Input) : Prop where
  strobes : ∀ t, Strobes (progress env t) (env t)
  served : ∃ t, ∀ u, t≤u → (progress env u).trace=phases n++[.done]

section Step

variable {p : Progress} {i : Input} {n : ℕ}

/-- The strobes of every cycle are right. -/
theorem strobes (p : Progress) (i : Input) : Strobes p i := by
  rcases p with ⟨state,tr⟩
  cases state with
  | FSM_IDLE | FSM_COMPUTE => constructor <;> simp [main_fsm_comb,direct]
  | FSM_START | FSM_WAIT | FSM_TERMINATE =>
    cases hready : i.ready <;> constructor <;> simp [main_fsm_comb,direct,Output.launch,hready]
  | FSM_UPDATEIDX =>
    cases hvalid : i.valid with
    | false => constructor <;> simp [main_fsm_comb,direct,hvalid]
    | true =>
      cases hdone : i.done <;> cases hready : i.ready <;> constructor <;>
        simp [main_fsm_comb,direct,Output.launch,hready,hvalid,hdone]

theorem phases_succ (k : ℕ) : phases (k+1)=phases k++[.start,.advance] := by
  rw [phases,List.replicate_succ',List.flatten_append]
  rfl

theorem length_phases (k : ℕ) : (phases k).length=2*k := by
  induction k with
  | zero => rfl
  | succ k ih =>
    rw [phases_succ,List.length_append,ih]
    rfl

theorem count_advance_phases (k : ℕ) : (phases k).count .advance=k := by
  induction k with
  | zero => rfl
  | succ k ih =>
    rw [phases_succ,List.count_append,ih]
    rfl

/-- What has happened in each state of a job of so many iterations. -/
def Shape (n : ℕ) (p : Progress) : Prop :=
  match p.state with
  | .FSM_START | .FSM_WAIT => 0<n ∧ p.trace=[]
  | .FSM_COMPUTE | .FSM_UPDATEIDX => ∃ k, k<n ∧ p.trace=phases k++[.start]
  | .FSM_TERMINATE => ∃ k, k≤n ∧ p.trace=phases k
  | .FSM_IDLE => ∃ k, k≤n ∧ p.trace=phases k++[.done]

/-- The microcode counts the iterations. -/
def Counts (n : ℕ) (p : Progress) (i : Input) : Prop :=
  p.state=.FSM_UPDATEIDX → i.valid=true → (i.done=true ↔ p.trace.count .advance+1=n)

section Transitions

variable {tr : List Event}

theorem step_idle (hclear : i.clear_i=false) (hstart : i.start=false) :
    Progress.step ⟨.FSM_IDLE,tr⟩ i=⟨.FSM_IDLE,tr⟩ := by
  simp [Progress.step,main_fsm_seq,events,main_fsm_comb,direct,hclear,hstart]

theorem step_begin (hclear : i.clear_i=false) (hstart : i.start=true) :
    Progress.step ⟨.FSM_IDLE,tr⟩ i=⟨.FSM_START,tr⟩ := by
  simp [Progress.step,main_fsm_seq,events,main_fsm_comb,direct,hclear,hstart]

theorem step_start (hclear : i.clear_i=false) : Progress.step ⟨.FSM_START,tr⟩ i=
    if i.ready=true then ⟨.FSM_COMPUTE,tr++[.start]⟩ else ⟨.FSM_WAIT,tr⟩ := by
  cases hready : i.ready <;>
    simp [Progress.step,main_fsm_seq,events,main_fsm_comb,direct,Output.launch,hclear,hready]

theorem step_wait (hclear : i.clear_i=false) : Progress.step ⟨.FSM_WAIT,tr⟩ i=
    if i.ready=true then ⟨.FSM_COMPUTE,tr++[.start]⟩ else ⟨.FSM_WAIT,tr⟩ := by
  cases hready : i.ready <;>
    simp [Progress.step,main_fsm_seq,events,main_fsm_comb,direct,Output.launch,hclear,hready]

theorem step_compute (hclear : i.clear_i=false) : Progress.step ⟨.FSM_COMPUTE,tr⟩ i=
    ⟨if i.cnt=i.len then .FSM_UPDATEIDX else .FSM_COMPUTE,tr⟩ := by
  simp [Progress.step,main_fsm_seq,events,main_fsm_comb,direct,hclear]

theorem step_unanswered (hclear : i.clear_i=false) (hvalid : ¬i.valid=true) :
    Progress.step ⟨.FSM_UPDATEIDX,tr⟩ i=⟨.FSM_UPDATEIDX,tr⟩ := by
  simp [Progress.step,main_fsm_seq,events,main_fsm_comb,direct,hclear,hvalid]

theorem step_last (hclear : i.clear_i=false) (hvalid : i.valid=true) (hdone : i.done=true) :
    Progress.step ⟨.FSM_UPDATEIDX,tr⟩ i=⟨.FSM_TERMINATE,tr++[.advance]⟩ := by
  simp [Progress.step,main_fsm_seq,events,main_fsm_comb,direct,hclear,hvalid,hdone]

/-- Where the streamers are busy, the rest of the job is given up. -/
theorem step_resume (hclear : i.clear_i=false) (hvalid : i.valid=true) (hdone : i.done=false) :
    Progress.step ⟨.FSM_UPDATEIDX,tr⟩ i=
      if i.ready=true then ⟨.FSM_COMPUTE,tr++[.advance]++[.start]⟩
      else ⟨.FSM_TERMINATE,tr++[.advance]⟩ := by
  cases hready : i.ready <;>
    simp [Progress.step,main_fsm_seq,events,main_fsm_comb,direct,Output.launch,hclear,hvalid,hdone,
      hready]

theorem step_terminate (hclear : i.clear_i=false) : Progress.step ⟨.FSM_TERMINATE,tr⟩ i=
    if i.ready=true then ⟨.FSM_IDLE,tr++[.done]⟩ else ⟨.FSM_TERMINATE,tr⟩ := by
  cases hready : i.ready <;>
    simp [Progress.step,main_fsm_seq,events,main_fsm_comb,direct,hclear,hready]

end Transitions

/-- Every cycle behind the start leads from one of these shapes to another. -/
theorem Shape.step (hs : Shape n p) (hclear : i.clear_i=false) (hstart : i.start=false)
    (hcount : Counts n p i) : Shape n (p.step i) := by
  rcases p with ⟨state,tr⟩
  cases state with
  | FSM_IDLE =>
    rw [step_idle hclear hstart]
    exact hs
  | FSM_START =>
    rcases hs with ⟨hn,htr : tr=[]⟩
    rw [step_start hclear,htr]
    split_ifs
    · exact ⟨0,hn,rfl⟩
    · exact ⟨hn,rfl⟩
  | FSM_WAIT =>
    rcases hs with ⟨hn,htr : tr=[]⟩
    rw [step_wait hclear,htr]
    split_ifs
    · exact ⟨0,hn,rfl⟩
    · exact ⟨hn,rfl⟩
  | FSM_COMPUTE =>
    rw [step_compute hclear]
    split_ifs <;> exact hs
  | FSM_UPDATEIDX =>
    by_cases hvalid : i.valid=true
    · rcases hs with ⟨k,hk,htr : tr=_⟩
      have hadvance : tr++[.advance]=phases (k+1) := by
        rw [htr,phases_succ,List.append_assoc]
        rfl
      have hdone := hcount rfl hvalid
      rw [htr,List.count_append,count_advance_phases] at hdone
      cases hd : i.done with
      | true =>
        rw [step_last hclear hvalid hd,hadvance]
        exact ⟨k+1,hk,rfl⟩
      | false =>
        have hmore : k+1≠n := fun heq => absurd (hdone.mpr heq) (by rw [hd]; decide)
        rw [step_resume hclear hvalid hd,hadvance]
        split_ifs
        · exact ⟨k+1,by omega,rfl⟩
        · exact ⟨k+1,hk,rfl⟩
    · rw [step_unanswered hclear hvalid]
      exact hs
  | FSM_TERMINATE =>
    rcases hs with ⟨k,hk,htr : tr=_⟩
    rw [step_terminate hclear,htr]
    split_ifs
    · exact ⟨k,hk,rfl⟩
    · exact ⟨k,hk,rfl⟩

/-- The job has come to its end, or was given up, behind so many phases. -/
def Over (k : ℕ) (p : Progress) : Prop :=
  p=⟨.FSM_TERMINATE,phases k⟩ ∨ p=⟨.FSM_IDLE,phases k++[.done]⟩

theorem Over.step {k : ℕ} (h : Over k p) (hclear : i.clear_i=false) (hstart : i.start=false) :
    Over k (p.step i) := by
  rcases h with rfl | rfl
  · rw [step_terminate hclear]
    split_ifs
    · exact Or.inr rfl
    · exact Or.inl rfl
  · rw [step_idle hclear hstart]
    exact Or.inr rfl

/-- A job that is over has had no more phases than these. -/
theorem Over.unserved {k : ℕ} (h : Over k p) (hk : k<n) : p.trace≠phases n++[.done] := by
  intro heq
  have hlen := congrArg List.length heq
  rw [List.length_append,length_phases] at hlen
  rcases h with rfl | rfl
  · change (phases k).length=2*n+1 at hlen
    rw [length_phases] at hlen
    omega
  · change (phases k++[Event.done]).length=2*n+1 at hlen
    rw [List.length_append,length_phases] at hlen
    change 2*k+1=2*n+1 at hlen
    omega

end Step

section Runs

variable {n : ℕ} {env : ℕ → Input}

/-- Without another start nothing happens any more. -/
theorem progress_rest {t w : ℕ} {tr : List Event} (hclear : ∀ t, (env t).clear_i=false)
    (honce : ∀ t, (env (t+1)).start=false) (h : progress env (t+1)=⟨.FSM_IDLE,tr⟩) (hw : t+1≤w) :
    progress env w=⟨.FSM_IDLE,tr⟩ := by
  obtain ⟨m,rfl⟩ := Nat.exists_eq_add_of_le hw
  clear hw
  induction m with
  | zero => exact h
  | succ m ih =>
    have hstart := honce (t+m)
    rw [Nat.add_right_comm] at hstart
    change (progress env (t+1+m)).step (env (t+1+m))=_
    rw [ih,step_idle (hclear _) hstart]

theorem progress_one (hj : Job n env) : progress env 1=⟨.FSM_START,[]⟩ :=
  step_begin (hj.uncleared 0) hj.starts

/-- Every cycle behind the start has one of the shapes. -/
theorem shape_progress (hn : 0<n) (hj : Job n env) (t : ℕ) : Shape n (progress env (t+1)) := by
  induction t with
  | zero =>
    rw [progress_one hj]
    exact ⟨hn,rfl⟩
  | succ t ih => exact ih.step (hj.uncleared _) (hj.once t) (hj.done _)

theorem over_progress {k t : ℕ} (hj : Job n env) (h : Over k (progress env (t+1))) (m : ℕ) :
    Over k (progress env (t+1+m)) := by
  induction m with
  | zero => exact h
  | succ m ih =>
    have hnext := hj.once (t+m)
    rw [Nat.add_right_comm] at hnext
    exact ih.step (hj.uncleared _) hnext

/-- A job that is served was never given up. -/
theorem ready_of_serves (hn : 0<n) (hj : Job n env) (hserves : Serves n env) (t : ℕ)
    (hresumes : Resumes (progress env t) (env t)) : (env t).ready=true := by
  by_contra hready
  rcases hresumes with ⟨hstate,hvalid,hdone⟩
  cases t with
  | zero => exact absurd (show Fsm.FSM_IDLE=.FSM_UPDATEIDX from hstate) (by decide)
  | succ t =>
    have hshape := shape_progress hn hj t
    have hcount := hj.done (t+1) hstate hvalid
    have hnext : progress env (t+1+1)=(progress env (t+1)).step (env (t+1)) := rfl
    revert hshape hcount hnext hstate
    generalize progress env (t+1)=p
    rcases p with ⟨state,tr⟩
    rintro (rfl : state=.FSM_UPDATEIDX) ⟨k,hk,htr : tr=_⟩ hcount hnext
    change _ ↔ tr.count .advance+1=n at hcount
    rw [htr,List.count_append,count_advance_phases] at hcount
    have hmore : k+1≠n := fun heq => absurd (hcount.mpr heq) (by rw [hdone]; decide)
    rw [step_resume (hj.uncleared _) hvalid hdone,if_neg hready,htr,List.append_assoc] at hnext
    have hover : Over (k+1) (progress env (t+1+1)) :=
      Or.inl (hnext.trans (by rw [phases_succ]; rfl))
    rcases hserves.served with ⟨u,hu⟩
    exact (over_progress hj hover u).unserved (by omega) (hu _ (by omega))

/-- A control that stays as it is until its inputs let it go gets there. -/
theorem exists_go {p : Progress} {G : Input → Prop} {t : ℕ}
    (hwait : ∀ i : Input, i.clear_i=false → ¬G i → p.step i=p) (hj : Job n env)
    (h : progress env t=p) (hgo : ∃ m, G (env (t+m))) : ∃ u, progress env u=p ∧ G (env u) := by
  have hstay : ∀ u, progress env u=p → ¬G (env u) → progress env (u+1)=p := by
    intro u hu hno
    change (progress env u).step (env u)=p
    rw [hu,hwait _ (hj.uncleared u) hno]
  obtain ⟨u,-,hu⟩ := states_reach (W:=fun q => q=p) hstay h hgo
  exact ⟨u,hu⟩

/-- A phase that has begun comes to its end, and the microcode answers it. -/
theorem exists_answer {t : ℕ} {tr : List Event} (hj : Job n env)
    (h : progress env t=⟨.FSM_COMPUTE,tr⟩) :
    ∃ u, progress env u=⟨.FSM_UPDATEIDX,tr⟩ ∧ (env u).valid=true := by
  obtain ⟨u,hu,hcnt⟩ := exists_go (G:=fun i => i.cnt=i.len)
    (fun i hclear hno => by rw [step_compute hclear,if_neg hno]) hj h (hj.counted t)
  have hupdate : progress env (u+1)=⟨.FSM_UPDATEIDX,tr⟩ := by
    change (progress env u).step (env u)=_
    rw [hu,step_compute (hj.uncleared u),if_pos hcnt]
  exact exists_go (fun i hclear hno => step_unanswered hclear hno) hj hupdate (hj.valid _)

/-- From a phase on, the job comes to the end of its last one. -/
theorem exists_terminate (hj : Job n env)
    (hready : ∀ t, Resumes (progress env t) (env t) → (env t).ready=true) {k t : ℕ} (hk : k<n)
    (h : progress env t=⟨.FSM_COMPUTE,phases k++[.start]⟩) :
    ∃ u, progress env u=⟨.FSM_TERMINATE,phases n⟩ := by
  -- induction on the number of iterations that are left
  induction hm : n-k generalizing k t with
  | zero => omega
  | succ m ih =>
    obtain ⟨u,hu,hvalid⟩ := exists_answer hj h
    have hcount := hj.done u (by rw [hu]) hvalid
    have hadvance : phases k++[.start]++[.advance]=phases (k+1) := by
      rw [phases_succ,List.append_assoc]
      rfl
    have hnext : progress env (u+1)=(progress env u).step (env u) := rfl
    rw [hu,List.count_append,count_advance_phases] at hcount
    rw [hu] at hnext
    cases hdone : (env u).done with
    | true =>
      rw [step_last (hj.uncleared u) hvalid hdone,hadvance] at hnext
      have hlast : k+1=n := hcount.mp hdone
      exact ⟨u+1,hlast ▸ hnext⟩
    | false =>
      have hmore : k+1≠n := fun heq => absurd (hcount.mpr heq) (by rw [hdone]; decide)
      have hgo : (env u).ready=true := hready u ⟨by rw [hu],hvalid,hdone⟩
      rw [step_resume (hj.uncleared u) hvalid hdone,if_pos hgo,hadvance] at hnext
      exact ih (by omega) hnext (by omega)

/-- The first phase begins when the streamers are ready. -/
theorem exists_compute (hj : Job n env) :
    ∃ t, progress env t=⟨.FSM_COMPUTE,phases 0++[.start]⟩ := by
  have hnext : progress env 2=(progress env 1).step (env 1) := rfl
  rw [progress_one hj,step_start (hj.uncleared 1)] at hnext
  by_cases hready : (env 1).ready=true
  · rw [if_pos hready] at hnext
    exact ⟨2,hnext⟩
  · rw [if_neg hready] at hnext
    obtain ⟨u,hu,hgo⟩ := exists_go (G:=fun i => i.ready=true)
      (fun i hclear hno => by rw [step_wait hclear,if_neg hno]) hj hnext (hj.ready 2)
    refine ⟨u+1,?_⟩
    change (progress env u).step (env u)=_
    rw [hu,step_wait (hj.uncleared u),if_pos hgo]
    rfl

/-- A job whose streamers are ready at every further iteration is served. -/
theorem serves_of_ready (hn : 0<n) (hj : Job n env)
    (hready : ∀ t, Resumes (progress env t) (env t) → (env t).ready=true) : Serves n env := by
  refine ⟨fun t => strobes _ _,?_⟩
  obtain ⟨t,ht⟩ := exists_compute hj
  obtain ⟨u,hu⟩ := exists_terminate hj hready hn ht
  obtain ⟨v,hv,hgo⟩ := exists_go (G:=fun i => i.ready=true)
    (fun i hclear hno => by rw [step_terminate hclear,if_neg hno]) hj hu (hj.ready u)
  have hend : progress env (v+1)=⟨.FSM_IDLE,phases n++[.done]⟩ := by
    change (progress env v).step (env v)=_
    rw [hv,step_terminate (hj.uncleared v),if_pos hgo]
  exact ⟨v+1,fun w hw => congrArg Progress.trace (progress_rest hj.uncleared hj.once hend hw)⟩

/-- A job is served exactly if at every answer of the microcode but the last all streamers
are ready. -/
theorem serves_exactly (hn : 0<n) (hj : Job n env) : Serves n env ↔
    ∀ t, Resumes (progress env t) (env t) → (env t).ready=true :=
  ⟨fun h => ready_of_serves hn hj h,serves_of_ready hn hj⟩
section Examples

/-- A cycle of a job with streamers that are ready or not. -/
def cycle (start ready valid done : Bool) : Input :=
  ⟨false,⟨ready,ready,ready,ready⟩,1#11,valid,done,fun _ => 0#32,start,fun _ => 0#32,true,0#5,1#11⟩

/-- Two iterations. -/
def twice (t : ℕ) : Input := cycle (t==0) true true (t==5)

theorem job_twice : Job 2 twice := by
  refine ⟨fun _ => rfl,rfl,fun t => ?_,fun t => ⟨0,rfl⟩,fun t => ⟨0,rfl⟩,fun t => ⟨0,rfl⟩,?_⟩
  · simp [twice,cycle]
  · intro t
    by_cases ht : 7≤t
    · have hend : progress twice 7=⟨.FSM_IDLE,phases 2++[.done]⟩ := by decide
      rw [progress_rest (fun _ => rfl) (fun t => by simp [twice,cycle]) hend ht]
      exact fun hstate => absurd hstate (by decide)
    · have hlt : t<7 := by omega
      interval_cases t <;> decide

/-- Both of them are done. -/
theorem serves_exactly_twice : Serves 2 twice :=
  (serves_exactly (by decide) job_twice).mpr fun _ _ => rfl

/-- The same with streamers that are busy when the microcode answers for the first time. -/
def busyOnce (t : ℕ) : Input := cycle (t==0) (t != 3) true false

theorem job_busyOnce : Job 2 busyOnce := by
  refine ⟨fun _ => rfl,rfl,fun t => ?_,fun t => ?_,fun t => ⟨0,rfl⟩,fun t => ⟨0,rfl⟩,?_⟩
  · simp [busyOnce,cycle]
  · by_cases ht : t=3
    · exact ⟨1,by rw [ht]; rfl⟩
    · exact ⟨0,by simp [busyOnce,cycle,Input.ready,ht]⟩
  · intro t
    by_cases ht : 5≤t
    · have hend : progress busyOnce 5=⟨.FSM_IDLE,phases 1++[.done]⟩ := by decide
      rw [progress_rest (fun _ => rfl) (fun t => by simp [busyOnce,cycle]) hend ht]
      exact fun hstate => absurd hstate (by decide)
    · have hlt : t<5 := by omega
      interval_cases t <;> decide

/-- The second iteration is lost. -/
theorem not_serves_busy : ¬∀ n, 0<n → ∀ env, Job n env → Serves n env := by
  intro h
  have hserves := h 2 (by decide) busyOnce job_busyOnce
  exact absurd (ready_of_serves (by decide) job_busyOnce hserves 3 ⟨by decide,rfl,rfl⟩) (by decide)

end Examples

end Runs

end Pulpissimo.Hwpe.MacFsm
