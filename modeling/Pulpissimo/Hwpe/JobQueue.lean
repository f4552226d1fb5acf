import Pulpissimo.Hwpe.CtrlSlave

/-!
# The job queue of an accelerator

The cores share `hwpe_ctrl_slave` by a lock: a test-and-set takes it, the registers of the pointer
context are written under it, and the trigger gives it back. The jobs that were triggered are a
queue of at most two. The accelerator is started once for each of them, in their order, is shown
the registers as they were at the trigger, and the event of its end goes to the core that
triggered it.
-/

namespace Pulpissimo.Hwpe.JobQueue

open Pulpissimo.Machine Pulpissimo.Hwpe.CtrlRegfile Pulpissimo.Hwpe.CtrlSlave

/-- A job: the core that gets its events, its number, and its registers. -/
structure Job (p : Params) where
  core : BitVec (Nat.clog 2 p.N_CORES)
  id : BitVec 8
  words : ℕ → BitVec 32

/-- The unit with the jobs that were triggered and have not ended. The numbers of the jobs that
were triggered and that ended are counted from the last soft clear on. -/
structure Watch (p : Params) where
  unit : State p
  queue : List (Job p)
  issued : BitVec 8
  finished : BitVec 8
  /-- The accelerator was started for the first job, in an earlier cycle. -/
  begun : Bool

section Laws

variable {p : Params} (s : State p) (w : Watch p) (x : Input p)

/-- Job registers of a context. -/
def params (c : BitVec p.LOG_CONTEXT) (k : ℕ) : BitVec 32 := hwpe_params s.regfile (c.setWidth _) k

/-- The job that a trigger starts. -/
def Watch.triggered : Job p :=
  ⟨offloader x (w.unit.offloading_core w.unit.pointer_context),w.issued,
    params w.unit w.unit.pointer_context⟩

def Watch.reset (latch : Latch p.SCM_ADDR_WIDTH) : Watch p := ⟨State.reset latch,[],0,0,false⟩

/-- One clock edge. -/
def Watch.step : Watch p where
  unit := w.unit.step x
  queue :=
    if w.unit.clear_o then []
    else (if true_done w.unit x then w.queue.tail else w.queue)++
      if is_trigger x then [w.triggered x] else []
  issued := if w.unit.clear_o then 0 else if is_trigger x then w.issued+1 else w.issued
  finished := if w.unit.clear_o then 0 else if true_done w.unit x then w.finished+1 else w.finished
  begun := !w.unit.clear_o && !true_done w.unit x && (w.begun || w.unit.start)

/-- A write goes to a job register. -/
def writesJob : Bool :=
  match written s x with
  | some (.job _ _) => true
  | _ => false

/-- How the cores and the accelerator use the unit: no test-and-set before the unit is enabled or
while it is cleared, triggers and writes to job registers under the lock, and no end of a job
before the cycle of its start. -/
def Polite : Prop :=
  (is_testset x=true → s.s_enable_after.getLsbD 3=true ∧ s.clear_o=false) ∧
    (is_trigger x=true → s.is_critical=true) ∧ (writesJob s x=true → s.is_critical=true) ∧
    (x.req=true → x.wen=false → is_mandatory x=false → written s x≠none) ∧
    (x.done=true → s.is_working=true → s.running_state=.running)

instance : Decidable (Polite s x) :=
  inferInstanceAs (Decidable (_ ∧ _ ∧ _ ∧ _ ∧ _))

/-- The laws of the queue for one cycle. -/
structure Watch.Right : Prop where
  /-- The jobs that have not ended are counted, and are two at the most. -/
  bounded : w.unit.counter_pending.toNat=w.queue.length ∧ w.queue.length ≤ 2
  /-- The accelerator is shown the registers of the first job, and its number. -/
  shown : ∀ j js, w.queue=j::js → ∀ k, w.unit.shownJob k=j.words k
  number : ∀ j js, w.queue=j::js → w.unit.running_state≠.idle →
    w.unit.regfile.running_job_id=j.id
  /-- Without a job the accelerator rests. -/
  rests : w.queue=[] → w.unit.is_working=false ∧ w.unit.start=false
  /-- It is started for the first job, two cycles after it came up. -/
  goes : w.queue≠[] → w.unit.clear_o=false →
    (w.unit.running_state=.idle → (w.unit.step x).running_state=.starting) ∧
      (w.unit.running_state=.starting → (w.unit.step x).start=true)
  /-- It is started once, and a job that ends was started. -/
  once : w.unit.start=true → w.begun=false
  ends : true_done w.unit x=true → w.begun=true ∨ w.unit.start=true
  /-- The core that triggered the job gets the event of its end, and no other. -/
  event : ∀ core : Fin p.N_CORES, ((w.unit.step x).evt core).getLsbD 0=true ↔
    w.unit.clear_o=false ∧ true_done w.unit x=true ∧
      ∃ j js, w.queue=j::js ∧ j.core.toNat=core
  /-- A test-and-set gets a number exactly if it takes the lock, and the number is the one that
  its job will have. -/
  granted : is_testset x=true →
    ((w.unit.step x).r_data.msb=false ↔ w.unit.is_critical=false ∧ w.queue.length < 2) ∧
      ((w.unit.step x).is_critical=true ↔ w.unit.is_critical=true ∨ w.queue.length < 2) ∧
      (w.unit.is_critical=false → w.queue.length < 2 →
        (w.unit.step x).r_data=w.issued.setWidth 32)
  /-- Under the lock there is room for a job. -/
  room : w.unit.is_critical=true → w.queue.length < 2

end Laws

section Contexts

variable {p : Params} {s : State p} {x : Input p}

theorem params_eq (hp : p.Within) (s : State p) (c : BitVec p.LOG_CONTEXT) {k : ℕ}
    (hk : k < p.N_IO_REGS) : params s c k=s.word (.job ⟨c.toNat,context_lt hp c⟩ ⟨k,hk⟩) := by
  have hlt := context_lt hp c
  rw [hp.N_CONTEXT] at hlt
  have hflag : (c.setWidth (Nat.clog 2 REGFILE_N_CONTEXT)).toNat=c.toNat := by
    rw [BitVec.toNat_setWidth]
    exact Nat.mod_eq_of_lt hlt
  unfold params hwpe_params
  rw [if_pos hk,hflag]
  rfl

theorem params_of_le (s : State p) (c : BitVec p.LOG_CONTEXT) {k : ℕ} (hk : p.N_IO_REGS ≤ k) :
    params s c k=0 :=
  if_neg (Nat.not_lt.mpr hk)

/-- A context keeps its registers unless a job register of it is written. -/
theorem params_step (hp : p.Within) (hx : Existing s x) (hclears : s.clears=false)
    {c : BitVec p.LOG_CONTEXT} (hc : writesJob s x=true → c≠s.pointer_context) :
    params (s.step x) c=params s c := by
  funext k
  rcases Nat.lt_or_ge k p.N_IO_REGS with hk | hk
  · have hmiss : written s x≠some (.job ⟨c.toNat,context_lt hp c⟩ ⟨k,hk⟩) := by
      intro hwritten
      have hcontext : c.toNat=s.pointer_context.toNat :=
        context_of_named (written_spec hwritten).2.2
      refine hc ?_ (BitVec.eq_of_toNat_eq hcontext)
      unfold writesJob
      rw [hwritten]
    rw [params_eq hp _ c hk,params_eq hp _ c hk,word_step hp hx,hclears,if_neg Bool.false_ne_true,
      if_neg hmiss]
  · rw [params_of_le _ c hk,params_of_le _ c hk]

/-- A trigger writes no job register. -/
theorem writesJob_of_trigger (h : is_trigger x=true) : writesJob s x=false := by
  unfold writesJob
  split
  · rename_i c k hwritten
    have hbase : 8 ≤ (index x).toNat := genericBase_le_of_named (written_spec hwritten).2.2
    unfold is_trigger at h
    rw [Bool.and_eq_true,beq_iff_eq] at h
    rw [h.2] at hbase
    exact absurd hbase (by decide)
  · rfl

/-- A test-and-set is no trigger. -/
theorem not_trigger_of_testset (h : is_testset x=true) : is_trigger x=false := by
  unfold is_testset at h
  unfold is_trigger
  rw [Bool.and_eq_true,Bool.and_eq_true] at h
  rw [h.1.2,Bool.not_true,Bool.and_false,Bool.false_and]

end Contexts

section Queue

variable {p : Params} {s s' : State p} {js : List (Job p)} {c : BitVec p.LOG_CONTEXT}
  {n : BitVec 8}

/-- From the running context on, each context has its job: the core, the number and the
registers. -/
def Held (s : State p) : BitVec p.LOG_CONTEXT → BitVec 8 → List (Job p) → Prop
  | _,_,[] => True
  | c,n,j::js => s.offloading_core c=j.core ∧ j.id=n ∧ params s c=j.words ∧ Held s (c+1) (n+1) js

/-- The next context after some jobs, and the next number. -/
def pastJobs (js : List (Job p)) (c : BitVec p.LOG_CONTEXT) : BitVec p.LOG_CONTEXT :=
  js.foldl (fun c _ => c+1) c
def pastIds (js : List (Job p)) (n : BitVec 8) : BitVec 8 := js.foldl (fun n _ => n+1) n

theorem Held.concat {j : Job p} (h : Held s c n js) (hcore : s.offloading_core (pastJobs js c)=j.core)
    (hid : j.id=pastIds js n) (hwords : params s (pastJobs js c)=j.words) :
    Held s c n (js++[j]) := by
  induction js generalizing c n with
  | nil => exact ⟨hcore,hid,hwords,trivial⟩
  | cons i is ih => exact ⟨h.1,h.2.1,h.2.2.1,ih h.2.2.2 hcore hid hwords⟩

/-- The contexts of some jobs. -/
def contexts : List (Job p) → BitVec p.LOG_CONTEXT → List (BitVec p.LOG_CONTEXT)
  | [],_ => []
  | _::js,c => c::contexts js (c+1)

/-- Contexts that keep what they hold keep their jobs. -/
theorem Held.keep (h : Held s c n js)
    (hsame : ∀ d∈contexts js c, s'.offloading_core d=s.offloading_core d ∧ params s' d=params s d) :
    Held s' c n js := by
  induction js generalizing c n with
  | nil => trivial
  | cons i is ih =>
    have hfirst := hsame c List.mem_cons_self
    refine ⟨hfirst.1.trans h.1,h.2.1,hfirst.2.trans h.2.2.1,ih h.2.2.2 fun d hd => ?_⟩
    exact hsame d (List.mem_cons_of_mem _ hd)

/-- With room for one job, the pointer context is not one of theirs. -/
theorem ne_of_mem_contexts (hp : p.Within) (hroom : js.length < 2) {d : BitVec p.LOG_CONTEXT}
    (hd : d∈contexts js c) : d≠pastJobs js c := by
  cases js with
  | nil => exact absurd hd List.not_mem_nil
  | cons j js =>
    cases js with
    | nil =>
      have hdc : d=c := List.mem_singleton.mp hd
      intro heq
      have hnat := congrArg BitVec.toNat (hdc.symm.trans heq)
      have hlt := context_lt hp c
      rw [hp.N_CONTEXT] at hlt
      change c.toNat=(c+1).toNat at hnat
      have hone : (1 : BitVec p.LOG_CONTEXT).toNat=1 := by
        show 1%2^p.LOG_CONTEXT=1
        rw [hp.pow_LOG_CONTEXT]
      rw [BitVec.toNat_add,hone,hp.pow_LOG_CONTEXT] at hnat
      omega
    | cons k ks =>
      rw [List.length_cons,List.length_cons] at hroom
      omega

end Queue

section Invariant

variable {p : Params} {w : Watch p} {x : Input p}

/-- The values of the shift registers that count the first cycles, and of the startup clear. -/
def Startup (enable : BitVec 4) (first : BitVec 3) (clear : Bool) : Prop :=
  enable=0 ∧ first=0 ∧ clear=false ∨ enable=1 ∧ first=1 ∧ clear=false ∨
    enable=3 ∧ first=3 ∧ clear=true ∨ enable=7 ∧ first=7 ∧ clear=true ∨
    enable=15 ∧ first=7 ∧ clear=false

theorem Startup.step {enable : BitVec 4} {first : BitVec 3} {clear : Bool}
    (h : Startup enable first clear) : Startup (enable.extractLsb' 0 3++1#1)
      (first.extractLsb' 0 2++1#1) ((first.getLsbD 0 || first.getLsbD 1) && !first.getLsbD 2) := by
  rcases h with ⟨rfl,rfl,rfl⟩ | ⟨rfl,rfl,rfl⟩ | ⟨rfl,rfl,rfl⟩ | ⟨rfl,rfl,rfl⟩ | ⟨rfl,rfl,rfl⟩
  · exact .inr (.inl ⟨rfl,rfl,rfl⟩)
  · exact .inr (.inr (.inl ⟨rfl,rfl,rfl⟩))
  · exact .inr (.inr (.inr (.inl ⟨rfl,rfl,rfl⟩)))
  · exact .inr (.inr (.inr (.inr ⟨rfl,rfl,rfl⟩)))
  · exact .inr (.inr (.inr (.inr ⟨rfl,rfl,rfl⟩)))

/-- Once the unit is enabled it stays so, and the startup clear is over. -/
theorem Startup.over {enable : BitVec 4} {first : BitVec 3} {clear : Bool}
    (h : Startup enable first clear) (henable : enable.getLsbD 3=true) :
    clear=false ∧ (enable.extractLsb' 0 3++1#1).getLsbD 3=true := by
  rcases h with ⟨rfl,rfl,rfl⟩ | ⟨rfl,rfl,rfl⟩ | ⟨rfl,rfl,rfl⟩ | ⟨rfl,rfl,rfl⟩ | ⟨rfl,rfl,rfl⟩
  · exact absurd henable (by decide)
  · exact absurd henable (by decide)
  · exact absurd henable (by decide)
  · exact absurd henable (by decide)
  · exact ⟨rfl,rfl⟩

/-- State of the unit that belongs to a queue. -/
structure Inv (w : Watch p) : Prop where
  startup : Startup w.unit.s_enable_after w.unit.regfile.r_first_startup
    w.unit.regfile.r_clear_first_startup
  enabled : w.unit.is_critical=true ∨ w.queue≠[] → w.unit.s_enable_after.getLsbD 3=true
  critical : w.unit.is_critical=decide (w.unit.context_state=.trigger)
  room : w.unit.is_critical=true → w.queue.length < 2
  bounded : w.queue.length ≤ 2
  pending : w.unit.counter_pending.toNat=w.queue.length
  pointer : w.unit.pointer_context=pastJobs w.queue w.unit.running_context
  held : Held w.unit w.unit.running_context w.finished w.queue
  issued : w.issued=pastIds w.queue w.finished
  granted : w.unit.regfile.offload_job_id+
    (if w.unit.regfile.offload_job_id_incr then 1 else 0)=
      w.issued+(if w.unit.is_critical then 1 else 0)
  granting : w.unit.regfile.offload_job_id_incr=true → w.unit.is_critical=true
  ended : w.unit.regfile.running_job_id+
    (if w.unit.regfile.running_job_id_incr then 1 else 0)=w.finished
  ending : w.unit.regfile.running_job_id_incr=true → w.unit.running_state=.idle
  working : w.unit.is_working=decide (w.unit.running_state≠.idle)
  rests : w.queue=[] → w.unit.running_state=.idle
  begun : w.unit.running_state≠.running → w.begun=false ∧ w.unit.start=false
  once : w.unit.running_state=.running → w.begun=!w.unit.start

theorem inv_reset (latch : Latch p.SCM_ADDR_WIDTH) : Inv (Watch.reset latch) where
  startup := .inl ⟨rfl,rfl,rfl⟩
  enabled := by
    rintro (h | h)
    · exact absurd h Bool.false_ne_true
    · exact absurd rfl h
  critical := rfl
  room := fun h => absurd h Bool.false_ne_true
  bounded := Nat.zero_le 2
  pending := rfl
  pointer := rfl
  held := trivial
  issued := rfl
  granted := rfl
  granting := fun h => absurd h Bool.false_ne_true
  ended := rfl
  ending := fun h => absurd h Bool.false_ne_true
  working := rfl
  rests := fun _ => rfl
  begun := fun _ => ⟨rfl,rfl⟩
  once := fun h => (nomatch h)

/-- A soft clear empties the queue. -/
theorem inv_clear (h : Inv w) (hx : Polite w.unit x) (hclear : w.unit.clear_o=true) :
    Inv (w.step x) := by
  have htestset : is_testset x=false := by
    cases htest : is_testset x with
    | false => rfl
    | true =>
      have hopen := (hx.1 htest).2
      rw [hclear] at hopen
      exact absurd hopen Bool.true_eq_false_eq_False
  have hcritical : (w.step x).unit.is_critical=false := by
    show (!w.unit.clear_o && _)=false
    rw [hclear]
    rfl
  have hqueue : (w.step x).queue=[] := if_pos hclear
  have hissued : (w.step x).issued=0 := if_pos hclear
  have hfinished : (w.step x).finished=0 := if_pos hclear
  have hrunning : (w.step x).unit.running_state=.idle := if_pos hclear
  have hincr : (w.step x).unit.regfile.offload_job_id_incr=false := by
    show (is_testset x && _ && _)=false
    rw [htestset]
    rfl
  have hfree : (w.step x).unit.context_state=.idle_c := if_pos hclear
  have hpointer : (w.step x).unit.pointer_context=0 := if_pos hclear
  have hcontext : (w.step x).unit.running_context=0 := if_pos hclear
  have hcount : (w.step x).unit.counter_pending=0 := if_pos hclear
  have hid : (w.step x).unit.regfile.offload_job_id=0 := if_pos hclear
  have hrid : (w.step x).unit.regfile.running_job_id=0 := if_pos hclear
  have hrincr : (w.step x).unit.regfile.running_job_id_incr=false := if_pos hclear
  have hworking : (w.step x).unit.is_working=false := by
    show (!w.unit.clear_o && _)=false
    rw [hclear]
    rfl
  have hstart : (w.step x).unit.start=false := by
    show (!w.unit.clear_o && _)=false
    rw [hclear]
    rfl
  have hbegun : (w.step x).begun=false := by
    show (!w.unit.clear_o && _ && _)=false
    rw [hclear]
    rfl
  exact {
    startup := h.startup.step
    enabled := by
      rw [hcritical,hqueue]
      rintro (h | h)
      · exact absurd h Bool.false_ne_true
      · exact absurd rfl h
    critical := by
      rw [hcritical,hfree]
      rfl
    room := by
      rw [hqueue]
      exact fun _ => Nat.zero_lt_two
    bounded := by
      rw [hqueue]
      exact Nat.zero_le 2
    pending := by
      rw [hqueue,hcount]
      rfl
    pointer := by
      rw [hqueue,hpointer,hcontext]
      rfl
    held := by
      rw [hqueue]
      trivial
    issued := by
      rw [hqueue,hissued,hfinished]
      rfl
    granted := by
      rw [hid,hincr,hissued,hcritical]
    granting := by
      rw [hincr]
      exact fun h => absurd h Bool.false_ne_true
    ended := by
      rw [hrid,hrincr,hfinished]
      rfl
    ending := by
      rw [hrincr]
      exact fun h => absurd h Bool.false_ne_true
    working := by
      rw [hworking,hrunning]
      rfl
    rests := fun _ => hrunning
    begun := fun _ => ⟨hbegun,hstart⟩
    once := by
      rw [hrunning]
      exact fun h => absurd h (by decide) }

/-- An end comes from a running accelerator, for a job. -/
theorem done_spec (h : Inv w) (hx : Polite w.unit x) (hdone : true_done w.unit x=true) :
    w.unit.running_state=.running ∧ w.queue≠[] := by
  unfold true_done at hdone
  rw [Bool.and_eq_true] at hdone
  have hruns := hx.2.2.2.2 hdone.1 hdone.2
  refine ⟨hruns,fun hnil => ?_⟩
  rw [h.rests hnil] at hruns
  exact (nomatch hruns)

/-- Jobs that stay after a cycle. -/
def stays (w : Watch p) (x : Input p) : List (Job p) :=
  if true_done w.unit x then w.queue.tail else w.queue

theorem length_stays (h : Inv w) (hx : Polite w.unit x) :
    (stays w x).length+(if true_done w.unit x then 1 else 0)=w.queue.length := by
  unfold stays
  cases hdone : true_done w.unit x with
  | false => rfl
  | true =>
    have hne := (done_spec h hx hdone).2
    rw [if_pos rfl,if_pos rfl,List.length_tail]
    exact Nat.sub_add_cancel (List.length_pos_iff.mpr hne)

/-- The jobs that stay belong to the contexts from the next running one on. -/
theorem held_stays (h : Inv w) (hx : Polite w.unit x) (hclear : w.unit.clear_o=false) :
    Held w.unit (w.step x).unit.running_context (w.step x).finished (stays w x) ∧
      w.unit.pointer_context=pastJobs (stays w x) (w.step x).unit.running_context ∧
      w.issued=pastIds (stays w x) (w.step x).finished := by
  have hcontext : (w.step x).unit.running_context=
      if true_done w.unit x then w.unit.running_context+1 else w.unit.running_context := by
    show (if w.unit.clear_o then 0 else _)=_
    rw [hclear]
    rfl
  have hfinished : (w.step x).finished=
      if true_done w.unit x then w.finished+1 else w.finished := by
    show (if w.unit.clear_o then 0 else _)=_
    rw [hclear]
    rfl
  unfold stays
  rw [hcontext,hfinished]
  cases hdone : true_done w.unit x with
  | false => exact ⟨h.held,h.pointer,h.issued⟩
  | true =>
    have hne := (done_spec h hx hdone).2
    have hheld := h.held
    have hpointer := h.pointer
    have hissued := h.issued
    cases hqueue : w.queue with
    | nil => exact absurd hqueue hne
    | cons j js =>
      rw [hqueue] at hheld hpointer hissued
      exact ⟨hheld.2.2.2,hpointer,hissued⟩

theorem queue_step (hclear : w.unit.clear_o=false) :
    (w.step x).queue=stays w x++if is_trigger x then [w.triggered x] else [] :=
  if_neg (Bool.eq_false_iff.mp hclear)

/-- What is written or triggered under the lock does not touch the jobs in the queue. -/
theorem held_kept (hp : p.Within) (h : Inv w) (hx : Polite w.unit x)
    (hclear : w.unit.clear_o=false) :
    Held (w.step x).unit (w.step x).unit.running_context (w.step x).finished (stays w x) := by
  have hstays := held_stays h hx hclear
  have hlength := length_stays h hx
  refine hstays.1.keep fun d hd => ?_
  have hqueue : w.queue≠[] := by
    intro hnil
    rw [hnil] at hlength
    have hnone : stays w x=[] := List.eq_nil_of_length_eq_zero (by
      rw [List.length_nil] at hlength
      omega)
    rw [hnone] at hd
    exact List.not_mem_nil hd
  have hstartup := (h.startup.over (h.enabled (.inr hqueue))).1
  have hclears : w.unit.clears=false := by
    unfold State.clears
    rw [hclear,hstartup]
    rfl
  have hfree : w.unit.is_critical=true → d≠w.unit.pointer_context := by
    intro hcritical
    have hroom := h.room hcritical
    rw [hstays.2.1]
    exact ne_of_mem_contexts hp (by omega) hd
  constructor
  · show (if is_trigger x && d==w.unit.pointer_context then _ else _)=_
    cases htrigger : is_trigger x with
    | false => rfl
    | true => rw [beq_eq_false_iff_ne.mpr (hfree (hx.2.1 htrigger))]; rfl
  · exact params_step hp hx.2.2.2.1 hclears fun hwrites => hfree (hx.2.2.1 hwrites)

/-- The queue after a cycle belongs to the contexts after it. -/
theorem held_step (hp : p.Within) (h : Inv w) (hx : Polite w.unit x)
    (hclear : w.unit.clear_o=false) :
    Held (w.step x).unit (w.step x).unit.running_context (w.step x).finished (w.step x).queue ∧
      (w.step x).unit.pointer_context=
        pastJobs (w.step x).queue (w.step x).unit.running_context ∧
      (w.step x).issued=pastIds (w.step x).queue (w.step x).finished := by
  have hstays := held_stays h hx hclear
  have hkept := held_kept hp h hx hclear
  have hpointer : (w.step x).unit.pointer_context=
      if is_trigger x then w.unit.pointer_context+1 else w.unit.pointer_context := by
    show (if w.unit.clear_o then 0 else _)=_
    rw [hclear]
    rfl
  have hissued : (w.step x).issued=if is_trigger x then w.issued+1 else w.issued := by
    show (if w.unit.clear_o then 0 else _)=_
    rw [hclear]
    rfl
  rw [queue_step hclear,hpointer,hissued]
  cases htrigger : is_trigger x with
  | false =>
    rw [if_neg Bool.false_ne_true,if_neg Bool.false_ne_true,if_neg Bool.false_ne_true,
      List.append_nil]
    exact ⟨hkept,hstays.2⟩
  | true =>
    have hcritical := hx.2.1 htrigger
    have hclears : w.unit.clears=false := by
      unfold State.clears
      rw [hclear,(h.startup.over (h.enabled (.inl hcritical))).1]
      rfl
    rw [if_pos rfl,if_pos rfl,if_pos rfl]
    refine ⟨hkept.concat ?_ hstays.2.2 ?_,?_,?_⟩
    · rw [←hstays.2.1]
      show (if is_trigger x && w.unit.pointer_context==w.unit.pointer_context then _ else _)=_
      rw [htrigger,beq_self_eq_true]
      rfl
    · rw [←hstays.2.1]
      refine params_step hp hx.2.2.2.1 hclears fun hwrites => ?_
      rw [writesJob_of_trigger htrigger] at hwrites
      exact absurd hwrites Bool.false_ne_true
    · unfold pastJobs
      rw [List.foldl_append]
      exact congrArg (·+1) hstays.2.1
    · unfold pastIds
      rw [List.foldl_append]
      exact congrArg (·+1) hstays.2.2

theorem length_step (h : Inv w) (hx : Polite w.unit x) (hclear : w.unit.clear_o=false) :
    (w.step x).queue.length+(if true_done w.unit x then 1 else 0)=
      w.queue.length+(if is_trigger x then 1 else 0) := by
  have hlength := length_stays h hx
  rw [queue_step hclear,List.length_append]
  cases is_trigger x with
  | false =>
    show (stays w x).length+0+_=_+0
    omega
  | true =>
    show (stays w x).length+1+_=_+1
    omega

theorem pending_step (hp : p.Within) (h : Inv w) (hx : Polite w.unit x)
    (hclear : w.unit.clear_o=false) :
    (w.step x).unit.counter_pending.toNat=(w.step x).queue.length := by
  have hlength := length_step h hx hclear
  have hbounded := h.bounded
  have hpending := h.pending
  have hsize : 2^(p.LOG_CONTEXT+1)=4 := by rw [Nat.pow_succ,hp.pow_LOG_CONTEXT]
  have hone : (1 : BitVec (p.LOG_CONTEXT+1)).toNat=1 := by
    show 1%2^(p.LOG_CONTEXT+1)=1
    rw [hsize]
  have hcount : (w.step x).unit.counter_pending=
      if is_trigger x && !true_done w.unit x then w.unit.counter_pending+1
      else if !is_trigger x && true_done w.unit x then w.unit.counter_pending-1
      else w.unit.counter_pending := by
    show (if w.unit.clear_o then 0 else _)=_
    rw [hclear]
    rfl
  rw [hcount]
  cases htrigger : is_trigger x with
  | false =>
    rw [htrigger] at hlength
    cases hdone : true_done w.unit x with
    | false =>
      rw [hdone] at hlength
      exact hpending.trans hlength.symm
    | true =>
      have hpos := List.length_pos_iff.mpr (done_spec h hx hdone).2
      rw [hdone,if_pos rfl,if_neg Bool.false_ne_true] at hlength
      show (w.unit.counter_pending-1).toNat=_
      rw [BitVec.toNat_sub,hone,hsize]
      omega
  | true =>
    have hroom := h.room (hx.2.1 htrigger)
    rw [htrigger,if_pos rfl] at hlength
    cases hdone : true_done w.unit x with
    | false =>
      rw [hdone,if_neg Bool.false_ne_true] at hlength
      show (w.unit.counter_pending+1).toNat=_
      rw [BitVec.toNat_add,hone,hsize]
      omega
    | true =>
      rw [hdone,if_pos rfl] at hlength
      exact hpending.trans (Nat.succ.inj hlength).symm

theorem full_eq (hp : p.Within) (h : Inv w) :
    full_context w.unit=decide (w.queue.length=2) := by
  unfold full_context
  rw [h.pending,hp.N_CONTEXT]
  exact beq_eq_decide _ _

/-- Without jobs the accelerator rests. -/
theorem nothingPending_of_nil (hp : p.Within) (h : Inv w) (hnil : w.queue=[]) :
    nothingPending w.unit=true := by
  unfold nothingPending
  rw [full_eq hp h,h.pointer,hnil]
  exact Bool.and_eq_true_iff.mpr ⟨beq_self_eq_true _,rfl⟩

/-- With a job it comes up: the contexts differ, or both have a job. -/
theorem nothingPending_of_ne (hp : p.Within) (h : Inv w) (hne : w.queue≠[]) :
    nothingPending w.unit=false := by
  unfold nothingPending
  rw [full_eq hp h]
  have hpos := List.length_pos_iff.mpr hne
  have hbounded := h.bounded
  rcases Nat.lt_or_ge w.queue.length 2 with hroom | hfull
  · have hmem : w.unit.running_context∈contexts w.queue w.unit.running_context := by
      cases hqueue : w.queue with
      | nil => exact absurd hqueue hne
      | cons j js => exact List.mem_cons_self
    have hother := ne_of_mem_contexts hp hroom hmem
    rw [h.pointer,beq_eq_false_iff_ne.mpr hother]
    rfl
  · rw [decide_eq_true (by omega),Bool.not_true,Bool.and_false]

theorem rests_step (hp : p.Within) (h : Inv w) (hx : Polite w.unit x)
    (hclear : w.unit.clear_o=false) (hnil : (w.step x).queue=[]) :
    runningNext w.unit x=.idle := by
  rw [queue_step hclear] at hnil
  have hstays := (List.append_eq_nil_iff.mp hnil).1
  unfold runningNext
  cases hdone : true_done w.unit x with
  | true =>
    rw [(done_spec h hx hdone).1]
    rfl
  | false =>
    have hqueue : w.queue=[] := by
      unfold stays at hstays
      rwa [hdone,if_neg Bool.false_ne_true] at hstays
    rw [h.rests hqueue,nothingPending_of_nil hp h hqueue]
    rfl

/-- The start is one cycle long, the first in which the accelerator runs. -/
theorem begun_step (h : Inv w) (hclear : w.unit.clear_o=false) :
    (runningNext w.unit x≠.running → (w.step x).begun=false ∧ (w.step x).unit.start=false) ∧
      (runningNext w.unit x=.running → (w.step x).begun=!(w.step x).unit.start) := by
  have hstart : (w.step x).unit.start=decide (w.unit.running_state=.starting) := by
    show (!w.unit.clear_o && _)=_
    rw [hclear]
    rfl
  have hbegun : (w.step x).begun=(!true_done w.unit x && (w.begun || w.unit.start)) := by
    show (!w.unit.clear_o && _ && _)=_
    rw [hclear]
    rfl
  rw [hstart,hbegun]
  unfold runningNext
  cases hstate : w.unit.running_state with
  | idle =>
    have hbefore := h.begun (by rw [hstate]; exact fun h => (nomatch h))
    rw [hbefore.1,hbefore.2,Bool.or_false,Bool.and_false]
    refine ⟨fun _ => ⟨rfl,rfl⟩,fun hrun => ?_⟩
    revert hrun
    show (if nothingPending w.unit then RunningState.idle else .starting)=.running → _
    split_ifs
    · exact fun hrun => (nomatch hrun)
    · exact fun hrun => (nomatch hrun)
  | starting =>
    have hbefore := h.begun (by rw [hstate]; exact fun h => (nomatch h))
    rw [hbefore.1,hbefore.2,Bool.or_false,Bool.and_false]
    exact ⟨fun hne => absurd rfl hne,fun _ => rfl⟩
  | running =>
    have hbefore := h.once hstate
    have hran : (w.begun || w.unit.start)=true := by
      rw [hbefore]
      exact Bool.not_or_self _
    rw [hran,Bool.and_true]
    cases true_done w.unit x with
    | false => exact ⟨fun hne => absurd rfl hne,fun _ => rfl⟩
    | true => exact ⟨fun _ => ⟨rfl,rfl⟩,fun hrun => (nomatch hrun)⟩

/-- How the lock is taken and given back. -/
theorem critical_step (hp : p.Within) (h : Inv w) (hclear : w.unit.clear_o=false) :
    (w.step x).unit.is_critical=
      if w.unit.is_critical then !is_trigger x
      else is_testset x && !decide (w.queue.length=2) := by
  have hcritical := h.critical
  show (!w.unit.clear_o && decide (contextNext w.unit x=.trigger))=_
  rw [hclear,hcritical]
  unfold contextNext
  rw [full_eq hp h]
  cases w.unit.context_state with
  | idle_c =>
    show decide ((if _ then ContextState.trigger else .idle_c)=.trigger)=_
    cases (is_testset x && !decide (w.queue.length=2)) <;> rfl
  | trigger =>
    show decide ((if _ then ContextState.idle_c else .trigger)=.trigger)=_
    cases is_trigger x <;> rfl

/-- The numbers that are given out count the jobs. -/
theorem granted_step (hp : p.Within) (h : Inv w) (hx : Polite w.unit x)
    (hclear : w.unit.clear_o=false) :
    (w.step x).unit.regfile.offload_job_id+
        (if (w.step x).unit.regfile.offload_job_id_incr then 1 else 0)=
        (w.step x).issued+(if (w.step x).unit.is_critical then 1 else 0) ∧
      ((w.step x).unit.regfile.offload_job_id_incr=true → (w.step x).unit.is_critical=true) := by
  have hid : (w.step x).unit.regfile.offload_job_id=
      w.unit.regfile.offload_job_id+(if w.unit.regfile.offload_job_id_incr then 1 else 0) := by
    show (if w.unit.clear_o then 0 else if w.unit.regfile.offload_job_id_incr then
      w.unit.regfile.offload_job_id+1 else w.unit.regfile.offload_job_id)=_
    rw [hclear,if_neg Bool.false_ne_true]
    cases w.unit.regfile.offload_job_id_incr with
    | true => rfl
    | false => exact (BitVec.add_zero _).symm
  have hincr : (w.step x).unit.regfile.offload_job_id_incr=
      (is_testset x && !w.unit.is_critical && !full_context w.unit) := rfl
  have hissued : (w.step x).issued=if is_trigger x then w.issued+1 else w.issued := by
    show (if w.unit.clear_o then 0 else _)=_
    rw [hclear]
    rfl
  rw [hid,h.granted,hincr,hissued,critical_step hp h hclear,full_eq hp h]
  cases hcritical : w.unit.is_critical with
  | true =>
    rw [Bool.not_true,Bool.and_false,Bool.false_and]
    refine ⟨?_,fun hfalse => absurd hfalse Bool.false_ne_true⟩
    cases is_trigger x with
    | true => rfl
    | false => exact BitVec.add_zero _
  | false =>
    have htrigger : is_trigger x=false := by
      cases htrigger : is_trigger x with
      | false => rfl
      | true =>
        have hlocked := hx.2.1 htrigger
        rw [hcritical] at hlocked
        exact absurd hlocked Bool.false_ne_true
    rw [htrigger,Bool.not_false,Bool.and_true,if_neg Bool.false_ne_true,if_neg Bool.false_ne_true,
      if_neg Bool.false_ne_true]
    exact ⟨congrArg (·+_) (BitVec.add_zero _),id⟩

theorem ended_step (h : Inv w) (hx : Polite w.unit x) (hclear : w.unit.clear_o=false) :
    (w.step x).unit.regfile.running_job_id+
        (if (w.step x).unit.regfile.running_job_id_incr then 1 else 0)=(w.step x).finished ∧
      ((w.step x).unit.regfile.running_job_id_incr=true → runningNext w.unit x=.idle) := by
  have hid : (w.step x).unit.regfile.running_job_id=
      w.unit.regfile.running_job_id+(if w.unit.regfile.running_job_id_incr then 1 else 0) := by
    show (if w.unit.clear_o then 0 else if w.unit.regfile.running_job_id_incr then
      w.unit.regfile.running_job_id+1 else w.unit.regfile.running_job_id)=_
    rw [hclear,if_neg Bool.false_ne_true]
    cases w.unit.regfile.running_job_id_incr with
    | true => rfl
    | false => exact (BitVec.add_zero _).symm
  have hincr : (w.step x).unit.regfile.running_job_id_incr=true_done w.unit x := by
    show (if w.unit.clear_o then false else true_done w.unit x)=_
    rw [hclear]
    rfl
  have hfinished : (w.step x).finished=
      if true_done w.unit x then w.finished+1 else w.finished := by
    show (if w.unit.clear_o then 0 else _)=_
    rw [hclear]
    rfl
  rw [hid,h.ended,hincr,hfinished]
  constructor
  · cases true_done w.unit x with
    | true => rfl
    | false => exact BitVec.add_zero _
  · intro hdone
    unfold runningNext
    rw [(done_spec h hx hdone).1,hdone]
    rfl

/-- Under the lock there is room for a job. -/
theorem room_step (hp : p.Within) (h : Inv w) (hx : Polite w.unit x)
    (hclear : w.unit.clear_o=false) (hcritical : (w.step x).unit.is_critical=true) :
    (w.step x).queue.length < 2 := by
  have hlength := length_step h hx hclear
  have hbounded := h.bounded
  rw [critical_step hp h hclear] at hcritical
  cases hlocked : w.unit.is_critical with
  | true =>
    have hroom := h.room hlocked
    rw [hlocked,if_pos rfl,Bool.not_eq_true'] at hcritical
    rw [hcritical,if_neg Bool.false_ne_true] at hlength
    omega
  | false =>
    rw [hlocked,if_neg Bool.false_ne_true,Bool.and_eq_true,Bool.not_eq_true',
      decide_eq_false_iff_not] at hcritical
    rw [not_trigger_of_testset hcritical.1,if_neg Bool.false_ne_true] at hlength
    omega

theorem enabled_step (hp : p.Within) (h : Inv w) (hx : Polite w.unit x)
    (hclear : w.unit.clear_o=false)
    (hused : (w.step x).unit.is_critical=true ∨ (w.step x).queue≠[]) :
    w.unit.s_enable_after.getLsbD 3=true := by
  by_cases hbefore : w.unit.is_critical=true ∨ w.queue≠[]
  · exact h.enabled hbefore
  · rw [not_or,not_not] at hbefore
    have hfree := Bool.eq_false_iff.mpr hbefore.1
    rcases hused with hcritical | hqueue
    · rw [critical_step hp h hclear,hfree,if_neg Bool.false_ne_true,Bool.and_eq_true] at hcritical
      exact (hx.1 hcritical.1).1
    · have htrigger : is_trigger x=false := by
        cases htrigger : is_trigger x with
        | false => rfl
        | true => exact absurd (hx.2.1 htrigger) hbefore.1
      have hlength := length_step h hx hclear
      rw [htrigger,hbefore.2] at hlength
      have hpos := List.length_pos_iff.mpr hqueue
      rw [List.length_nil,if_neg Bool.false_ne_true] at hlength
      omega

theorem Inv.step (hp : p.Within) (h : Inv w) (hx : Polite w.unit x) : Inv (w.step x) := by
  cases hclear : w.unit.clear_o with
  | true => exact inv_clear h hx hclear
  | false =>
    have hheld := held_step hp h hx hclear
    have hbegun := begun_step (x:=x) h hclear
    have hended := ended_step h hx hclear
    have hgranted := granted_step hp h hx hclear
    have hlength := length_step h hx hclear
    have hbounded := h.bounded
    have hstate : (w.step x).unit.running_state=runningNext w.unit x := by
      show (if w.unit.clear_o then _ else _)=_
      rw [hclear]
      rfl
    exact {
      startup := h.startup.step
      enabled := fun hused => (h.startup.over (enabled_step hp h hx hclear hused)).2
      critical := by
        show (!w.unit.clear_o && decide (contextNext w.unit x=.trigger))=
          decide ((if w.unit.clear_o then _ else contextNext w.unit x)=.trigger)
        rw [hclear]
        rfl
      room := room_step hp h hx hclear
      bounded := by
        cases htrigger : is_trigger x with
        | true =>
          have hroom := h.room (hx.2.1 htrigger)
          rw [htrigger,if_pos rfl] at hlength
          omega
        | false =>
          rw [htrigger,if_neg Bool.false_ne_true] at hlength
          omega
      pending := pending_step hp h hx hclear
      pointer := hheld.2.1
      held := hheld.1
      issued := hheld.2.2
      granted := hgranted.1
      granting := hgranted.2
      ended := hended.1
      ending := by
        rw [hstate]
        exact hended.2
      working := by
        rw [hstate]
        show (!w.unit.clear_o && _)=_
        rw [hclear]
        rfl
      rests := by
        rw [hstate]
        exact rests_step hp h hx hclear
      begun := by
        rw [hstate]
        exact hbegun.1
      once := by
        rw [hstate]
        exact hbegun.2 }

/-- The answer to a test-and-set. -/
theorem r_data_testset (hclear : w.unit.clear_o=false) (htestset : is_testset x=true) :
    (w.unit.step x).r_data=if w.unit.is_critical then -2
      else if full_context w.unit then -1 else w.unit.regfile.offload_job_id.setWidth 32 := by
  have hwas : (w.unit.step x).regfile.r_was_testset=true := by
    show (if w.unit.clear_o then false else is_testset x)=true
    rw [hclear]
    exact htestset
  unfold State.r_data rdata
  rw [if_pos hwas]
  show (if is_testset x then _ else _)=_
  rw [if_pos htestset]
  rfl

theorem Inv.right (hp : p.Within) (h : Inv w) (hx : Polite w.unit x) : w.Right x where
  bounded := ⟨h.pending,h.bounded⟩
  shown := by
    intro j js hqueue k
    have hheld := h.held
    rw [hqueue] at hheld
    exact congrFun hheld.2.2.1 k
  number := by
    intro j js hqueue hruns
    have hheld := h.held
    rw [hqueue] at hheld
    have hended := h.ended
    have hincr : w.unit.regfile.running_job_id_incr=false := by
      cases hincr : w.unit.regfile.running_job_id_incr with
      | false => rfl
      | true => exact absurd (h.ending hincr) hruns
    rw [hincr,if_neg Bool.false_ne_true] at hended
    exact ((BitVec.add_zero _).symm.trans hended).trans hheld.2.1.symm
  rests := by
    intro hnil
    have hidle := h.rests hnil
    rw [h.working,hidle]
    exact ⟨rfl,(h.begun (by rw [hidle]; exact fun h => (nomatch h))).2⟩
  goes := by
    intro hne hclear
    constructor
    · intro hidle
      show (if w.unit.clear_o then _ else runningNext w.unit x)=_
      rw [hclear,if_neg Bool.false_ne_true]
      unfold runningNext
      rw [hidle,nothingPending_of_ne hp h hne]
      rfl
    · intro hstarting
      show (!w.unit.clear_o && decide (w.unit.running_state=.starting))=true
      rw [hclear,hstarting]
      rfl
  once := by
    intro hstart
    by_cases hruns : w.unit.running_state=.running
    · rw [h.once hruns,hstart]
      rfl
    · exact (h.begun hruns).1
  ends := by
    intro hdone
    have honce := h.once (done_spec h hx hdone).1
    cases hstart : w.unit.start with
    | true => exact .inr rfl
    | false =>
      rw [hstart] at honce
      exact .inl honce
  event := by
    intro core
    show ((if w.unit.clear_o then 0
      else if (w.unit.offloading_core w.unit.running_context).toNat=core then
        x.evt++BitVec.ofBool (true_done w.unit x)
      else 0 : BitVec REGFILE_N_EVT)).getLsbD 0=true ↔ _
    cases hclear : w.unit.clear_o with
    | true =>
      rw [if_pos rfl]
      exact ⟨fun hbit => absurd hbit (by decide),fun hfalse => absurd hfalse.1 (by decide)⟩
    | false =>
      have hbit : (x.evt++BitVec.ofBool (true_done w.unit x)).getLsbD 0=true_done w.unit x := by
        rw [BitVec.getLsbD_append,if_pos (by decide)]
        cases true_done w.unit x <;> rfl
      rw [if_neg Bool.false_ne_true]
      have hheld := h.held
      constructor
      · intro hevent
        split_ifs at hevent with hcore
        · rw [hbit] at hevent
          have hne := (done_spec h hx hevent).2
          cases hqueue : w.queue with
          | nil => exact absurd hqueue hne
          | cons j js =>
            rw [hqueue] at hheld
            rw [hheld.1] at hcore
            exact ⟨rfl,hevent,j,js,rfl,hcore⟩
        · exact absurd hevent (by decide)
      · rintro ⟨_,hdone,j,js,hqueue,hcore⟩
        rw [hqueue] at hheld
        rw [hheld.1,if_pos hcore,hbit]
        exact hdone
  granted := by
    intro htestset
    have hclear := (hx.1 htestset).2
    have hcritical : (w.unit.step x).is_critical=_ := critical_step hp h hclear
    have hfull := full_eq hp h
    have hbounded := h.bounded
    have hpositive : (w.unit.regfile.offload_job_id.setWidth 32).msb=false := by
      rw [BitVec.msb_setWidth]
      exact BitVec.getLsbD_of_ge _ _ (by decide)
    rw [r_data_testset hclear htestset,hcritical,htestset,not_trigger_of_testset htestset,hfull]
    cases hlocked : w.unit.is_critical with
    | true =>
      rw [if_pos rfl,if_pos rfl]
      exact ⟨⟨fun hbit => absurd hbit (by decide),fun hfalse => absurd hfalse.1 (by decide)⟩,
        ⟨fun _ => .inl rfl,fun _ => rfl⟩,fun hfalse => absurd hfalse (by decide)⟩
    | false =>
      have hissued := h.granted
      have hincr : w.unit.regfile.offload_job_id_incr=false := by
        cases hincr : w.unit.regfile.offload_job_id_incr with
        | false => rfl
        | true =>
          have hcritical := h.granting hincr
          rw [hlocked] at hcritical
          exact absurd hcritical Bool.false_ne_true
      rw [hlocked,hincr,if_neg Bool.false_ne_true] at hissued
      have hid : w.unit.regfile.offload_job_id=w.issued :=
        (BitVec.add_zero _).symm.trans (hissued.trans (BitVec.add_zero _))
      rw [if_neg Bool.false_ne_true,if_neg Bool.false_ne_true]
      rcases Nat.lt_or_ge w.queue.length 2 with hroom | hge
      · rw [decide_eq_false (by omega),if_neg Bool.false_ne_true]
        exact ⟨⟨fun _ => ⟨rfl,hroom⟩,fun _ => hpositive⟩,⟨fun _ => .inr hroom,fun _ => rfl⟩,
          fun _ _ => by rw [hid]⟩
      · rw [decide_eq_true (by omega),if_pos rfl]
        exact ⟨⟨fun hbit => absurd hbit (by decide),fun hfalse => by omega⟩,
          ⟨fun hfalse => absurd hfalse (by decide),fun hor => hor.elim (fun hfalse =>
            absurd hfalse Bool.false_ne_true) (by omega)⟩,fun _ hroom => by omega⟩
  room := h.room

end Invariant

section Runs

/-- A job is triggered, another one while it runs, and both end. -/
def pair : List (Input two) :=
  List.replicate 4 rest++[reads 1,write 16 3,write 0 0,reads 1,write 16 4,write 0 0,rest,ends,rest,
    rest,ends,rest]

end Runs

end Pulpissimo.Hwpe.JobQueue
