import Mathlib.Data.BitVec
import Pulpissimo.Riscv.FetchFifo

/-!
# The line buffer in front of a wide instruction memory

`riscv_L0_buffer` fetches lines of 128 bits and keeps the last one. It is put before a
memory that grants and answers after any delay. Without hardware loops it is a fetcher
with four statuses: nothing to fetch, a line wanted, a line asked for, and an answer to
drop before the line at the target of a branch.
-/

namespace Pulpissimo.Riscv.L0Buffer

open Pulpissimo.Riscv.FetchFifo (Memory)

/-- A line of the memory. -/
abbrev Line := BitVec 2 → BitVec 32

/-- The line of a memory at an address without its low four bits. -/
def line (m : Memory) (l : BitVec 28) : Line := fun k => m (l++k)

/-- The line of an address. -/
def lineOf (a : BitVec 32) : BitVec 28 := a.extractLsb' 4 28

/-- States. -/
inductive L0State where
  | EMPTY
  | VALID_L0
  | WAIT_GNT
  | WAIT_RVALID
  | ABORTED_BRANCH
  | WAIT_HWLOOP
  deriving DecidableEq

/-- Registers. -/
structure State where
  CS : L0State
  L0_buffer : Line
  addr_q : BitVec 32

/-- Values after reset. -/
def reset : State := ⟨.EMPTY,fun _ => 0,0⟩

/-- What the prefetcher asks. -/
structure Ask where
  prefetch_i : Bool
  prefetch_addr_i : BitVec 32
  branch_i : Bool
  branch_addr_i : BitVec 32
  hwlp_i : Bool
  hwlp_addr_i : BitVec 32

/-- What the memory answers. -/
structure Reply where
  instr_rvalid_i : Bool
  instr_rdata_i : Line

section Code

variable (s : State) (q : Ask) (r : Reply)

/-- The address of a branch, of a hardware loop or the next one. -/
def target (next : BitVec 32) : BitVec 32 :=
  if q.branch_i then q.branch_addr_i else if q.hwlp_i then q.hwlp_addr_i else next

def instr_addr_int : BitVec 32 :=
  match s.CS with
  | .EMPTY | .WAIT_RVALID | .VALID_L0 => target q q.prefetch_addr_i
  | .WAIT_GNT => target q s.addr_q
  | .ABORTED_BRANCH => if q.branch_i then q.branch_addr_i else s.addr_q
  | .WAIT_HWLOOP => 0

/-- The prefetcher asks for a line. -/
def asks : Bool := q.branch_i || q.hwlp_i || q.prefetch_i

def instr_req_o : Bool :=
  match s.CS with
  | .EMPTY | .VALID_L0 => asks q
  | .WAIT_GNT => true
  | .WAIT_RVALID => r.instr_rvalid_i && asks q
  | .ABORTED_BRANCH => r.instr_rvalid_i
  | .WAIT_HWLOOP => false

def instr_addr_o : BitVec 32 := lineOf (instr_addr_int s q)++0#4

def fetch_valid_o : Bool := s.CS=.WAIT_RVALID && r.instr_rvalid_i

/-- The line at hand, stored or incoming. -/
def rdata_o : Line := if r.instr_rvalid_i then r.instr_rdata_i else s.L0_buffer

def busy_o : Bool := s.CS≠.EMPTY && s.CS≠.VALID_L0 || instr_req_o s q r

/-- Next state. The grant is read where there is a request only. -/
def NS (instr_gnt_i : Bool) : L0State :=
  let granted := if instr_gnt_i then L0State.WAIT_RVALID else .WAIT_GNT
  match s.CS with
  | .EMPTY => if asks q then granted else .EMPTY
  | .WAIT_GNT => granted
  | .WAIT_RVALID =>
    if q.branch_i then
      if r.instr_rvalid_i then granted else .ABORTED_BRANCH
    else if r.instr_rvalid_i then
      if q.prefetch_i || q.hwlp_i then granted else .VALID_L0
    else .WAIT_RVALID
  | .VALID_L0 => if asks q then granted else .VALID_L0
  | .ABORTED_BRANCH => if r.instr_rvalid_i then granted else .ABORTED_BRANCH
  | .WAIT_HWLOOP => .EMPTY

/-- One clock edge. -/
def step (instr_gnt_i : Bool) : State where
  CS := NS s q r instr_gnt_i
  L0_buffer := if r.instr_rvalid_i then r.instr_rdata_i else s.L0_buffer
  addr_q := if asks q then instr_addr_int s q else s.addr_q

end Code

/-- What the memory does in a cycle. -/
structure Bus where
  /-- It grants a request, if there is one. -/
  grant : Bool
  /-- It answers its oldest request, if there is one. -/
  respond : Bool
  /-- Data lines without an answer. -/
  idle_rdata : Line

/-- The buffer and its memory. A granted request is kept with the number of branches
before it. -/
structure System where
  l0 : State
  pending : List (ℕ×BitVec 28)
  branches : ℕ

/-- After reset. -/
def System.reset : System := ⟨L0Buffer.reset,[],0⟩

section Memory

variable (mem : ℕ → Memory) (s : System) (q : Ask) (b : Bus)

/-- The request that is answered in a cycle. -/
def System.answer : Option (ℕ×BitVec 28) := if b.respond then s.pending.head? else none

/-- A request made after `n` branches is answered from `mem n`. -/
def System.reply : Reply where
  instr_rvalid_i := (s.answer b).isSome
  instr_rdata_i :=
    match s.answer b with
    | some (n,l) => line (mem n) l
    | none => b.idle_rdata

def System.gnt : Bool := b.grant && instr_req_o s.l0 q (s.reply mem b)

/-- One clock edge of buffer and memory. -/
def System.step : System where
  l0 := L0Buffer.step s.l0 q (s.reply mem b) (s.gnt mem q b)
  pending := (if b.respond then s.pending.tail else s.pending)++
    if s.gnt mem q b then [(s.branches+q.branch_i.toNat,lineOf (instr_addr_o s.l0 q))] else []
  branches := s.branches+q.branch_i.toNat

end Memory

section Status

/-- What the fetcher is doing. -/
inductive Status where
  | idle
  | wants (l : BitVec 28)
  | asked (l : BitVec 28)
  | aborted (l : BitVec 28)

/-- A buffer and its memory in a status. A line is asked for after the last branch. -/
def Fetches (s : System) (st : Status) : Prop :=
  match st with
  | .idle => (s.l0.CS=.EMPTY ∨ s.l0.CS=.VALID_L0) ∧ s.pending=[]
  | .wants l => s.l0.CS=.WAIT_GNT ∧ lineOf s.l0.addr_q=l ∧ s.pending=[]
  | .asked l => s.l0.CS=.WAIT_RVALID ∧ s.pending=[(s.branches,l)]
  | .aborted l => s.l0.CS=.ABORTED_BRANCH ∧ lineOf s.l0.addr_q=l ∧ ∃ x, s.pending=[x]

/-- A request for a line. -/
def Status.request (l : BitVec 28) (b : Bus) : Status := if b.grant then .asked l else .wants l

/-- The line that is asked of the fetcher, if there is one. -/
def Ask.line (q : Ask) : Option (BitVec 28) :=
  if q.branch_i then some (lineOf q.branch_addr_i)
  else if q.prefetch_i then some (lineOf q.prefetch_addr_i) else none

/-- The line at the target of a branch, or the one before it. -/
def Ask.over (q : Ask) (l : BitVec 28) : BitVec 28 :=
  if q.branch_i then lineOf q.branch_addr_i else l

/-- What the fetcher does in a cycle. -/
def Status.next (st : Status) (q : Ask) (b : Bus) : Status :=
  match st with
  | .idle =>
    match q.line with
    | some l => .request l b
    | none => .idle
  | .wants l => .request (q.over l) b
  | .asked l =>
    if b.respond then
      match q.line with
      | some l => .request l b
      | none => .idle
    else if q.branch_i then .aborted (q.over l) else .asked l
  | .aborted l => if b.respond then .request (q.over l) b else .aborted (q.over l)

variable {mem : ℕ → Memory} {s : System} {q : Ask} {b : Bus} {st : Status} {l : BitVec 28}

/-- A status without a granted request has no answer. -/
theorem reply_none (h : s.pending=[]) : (s.reply mem b).instr_rvalid_i=false := by
  unfold System.reply System.answer
  rw [h]
  cases b.respond <;> rfl

variable (mem) in
theorem reply_some {x : ℕ×BitVec 28} (h : s.pending=[x]) :
    (s.reply mem b).instr_rvalid_i=b.respond := by
  unfold System.reply System.answer
  rw [h]
  cases b.respond <;> rfl

/-- The line that is asked for comes with its answer. -/
theorem Fetches.rdata_eq (h : Fetches s (.asked l)) (hb : b.respond=true) :
    rdata_o s.l0 (s.reply mem b)=line (mem s.branches) l := by
  unfold rdata_o System.reply System.answer
  rw [h.2,hb]
  rfl

/-- Before that the stored line is at hand. -/
theorem Fetches.rdata_kept (h : Fetches s st)
    (hst : st=.idle ∨ (∃ l, st=.wants l) ∨ (∃ l, st=.asked l) ∧ b.respond=false) :
    rdata_o s.l0 (s.reply mem b)=s.l0.L0_buffer := by
  unfold rdata_o
  rcases hst with rfl | ⟨l,rfl⟩ | ⟨⟨l,rfl⟩,hb⟩
  · rw [reply_none h.2]
    rfl
  · rw [reply_none h.2.2]
    rfl
  · rw [reply_some _ h.2,hb]
    rfl

/-- An answer counts only for the line that is asked for. -/
def Status.valid (st : Status) (b : Bus) : Bool :=
  match st with
  | .asked _ => b.respond
  | _ => false

theorem Fetches.fetch_valid (h : Fetches s st) :
    fetch_valid_o s.l0 (s.reply mem b)=st.valid b := by
  unfold fetch_valid_o
  cases st with
  | idle =>
    rcases h.1 with hCS | hCS
    · rw [hCS]
      rfl
    · rw [hCS]
      rfl
  | wants l =>
    rw [h.1]
    rfl
  | asked l =>
    rw [h.1,reply_some _ h.2]
    rfl
  | aborted l =>
    rw [h.1]
    rfl

/-- A grant answers a request. -/
def Status.granted (st : Status) (q : Ask) (b : Bus) : Bool :=
  match st with
  | .idle => b.grant && q.line.isSome
  | .wants _ => b.grant
  | .asked _ => b.grant && (b.respond && q.line.isSome)
  | .aborted _ => b.grant && b.respond

theorem asks_eq (hq : q.hwlp_i=false) : asks q=q.line.isSome := by
  unfold asks Ask.line
  rw [hq]
  cases q.branch_i <;> cases q.prefetch_i <;> rfl

variable (mem) in
theorem Fetches.gnt_eq (h : Fetches s st) (hq : q.hwlp_i=false) :
    s.gnt mem q b=st.granted q b := by
  have hasks := asks_eq hq
  unfold System.gnt instr_req_o
  cases st with
  | idle =>
    rcases h.1 with hCS | hCS
    · rw [hCS]
      exact congrArg _ hasks
    · rw [hCS]
      exact congrArg _ hasks
  | wants l =>
    rw [h.1]
    exact Bool.and_true _
  | asked l =>
    rw [h.1,reply_some _ h.2]
    exact congrArg (fun x => b.grant && (b.respond && x)) hasks
  | aborted l =>
    rw [h.1]
    rcases h.2.2 with ⟨x,hx⟩
    rw [reply_some _ hx]
    rfl

/-- The line of a request. -/
theorem lineOf_append (l : BitVec 28) : lineOf (l++0#4)=l := by
  unfold lineOf
  apply BitVec.eq_of_getLsbD_eq
  intro k hk
  rw [BitVec.getLsbD_extractLsb',BitVec.getLsbD_append,if_neg (by omega)]
  simp [hk]

theorem target_eq (hq : q.hwlp_i=false) (a : BitVec 32) :
    target q a=if q.branch_i then q.branch_addr_i else a := by
  unfold target
  rw [hq]
  rfl

/-- The buffer is busy while an answer is owed. -/
theorem Fetches.busy (h : Fetches s st) (hpending : s.pending≠[]) (r : Reply) :
    busy_o s.l0 q r=true := by
  unfold busy_o
  cases st with
  | idle => exact absurd h.2 hpending
  | wants l => exact absurd h.2.2 hpending
  | asked l =>
    rw [h.1]
    rfl
  | aborted l =>
    rw [h.1]
    rfl

theorem line_target (hq : q.hwlp_i=false) (hl : q.line=some l) :
    lineOf (target q q.prefetch_addr_i)=l := by
  unfold Ask.line at hl
  rw [target_eq hq]
  split_ifs at hl ⊢
  · exact Option.some.inj hl
  · exact Option.some.inj hl

theorem line_over (a : BitVec 32) :
    lineOf (if q.branch_i then q.branch_addr_i else a)=q.over (lineOf a) := by
  unfold Ask.over
  split_ifs <;> rfl

/-- Without a branch there is no other line. -/
theorem over_of_not_asks (h : asks q=false) (l : BitVec 28) : q.over l=l := by
  have hb : q.branch_i=false := by
    cases hb : q.branch_i
    · rfl
    · simp [asks,hb] at h
  unfold Ask.over
  rw [hb]
  rfl

/-- The address register keeps the line of a request that waits. -/
theorem addr_over {t : State} (ha : instr_addr_int t q=if q.branch_i then q.branch_addr_i else t.addr_q) :
    lineOf (if asks q then instr_addr_int t q else t.addr_q)=q.over (lineOf t.addr_q) := by
  cases hasks : asks q with
  | true =>
    rw [if_pos rfl,ha]
    exact line_over _
  | false => exact (over_of_not_asks hasks _).symm

/-- A buffer that goes out with a request. -/
theorem fetches_request {t : System} (hCS : t.l0.CS=if b.grant then .WAIT_RVALID else .WAIT_GNT)
    (haddr : b.grant=false → lineOf t.l0.addr_q=l)
    (hpending : t.pending=if b.grant then [(t.branches,l)] else []) : Fetches t (.request l b) := by
  unfold Status.request
  cases hg : b.grant with
  | true =>
    rw [hg] at hCS hpending
    exact ⟨hCS,hpending⟩
  | false =>
    rw [hg] at hCS hpending
    exact ⟨hCS,haddr hg,hpending⟩

/-- An idle buffer makes a request when it is asked. -/
theorem fetches_idle (h : Fetches s .idle) (hq : q.hwlp_i=false) :
    Fetches (s.step mem q b) (Status.next .idle q b) := by
  have hgnt := h.gnt_eq mem (b:=b) hq
  have hasks := asks_eq hq
  have hpending : (if b.respond then s.pending.tail else s.pending)=[] := by
    rw [h.2]
    exact ite_self _
  have hint : instr_addr_int s.l0 q=target q q.prefetch_addr_i := by
    unfold instr_addr_int
    rcases h.1 with hCS | hCS <;> rw [hCS]
  unfold Status.next
  cases hl : q.line with
  | none =>
    rw [hl] at hasks
    have hfalse : Status.granted .idle q b=false := by simp [Status.granted,hl]
    refine ⟨?_,?_⟩
    · unfold System.step L0Buffer.step NS
      rcases h.1 with hCS | hCS
      · left
        simp [hCS,hasks]
      · right
        simp [hCS,hasks]
    · unfold System.step
      rw [hgnt,hfalse,hpending]
      rfl
  | some l =>
    rw [hl] at hasks
    have hgrant : Status.granted .idle q b=b.grant := by simp [Status.granted,hl]
    refine fetches_request ?_ ?_ ?_ <;> unfold System.step <;> rw [hgnt,hgrant]
    · unfold L0Buffer.step NS
      rcases h.1 with hCS | hCS <;> simp [hCS,hasks]
    · intro _
      unfold L0Buffer.step
      dsimp only
      rw [hasks,Option.isSome_some,if_pos rfl,hint]
      exact line_target hq hl
    · dsimp only
      rw [hpending]
      unfold instr_addr_o
      rw [lineOf_append,hint,line_target hq hl]
      rfl

theorem fetches_wants (h : Fetches s (.wants l)) (hq : q.hwlp_i=false) :
    Fetches (s.step mem q b) (Status.next (.wants l) q b) := by
  have hgnt := h.gnt_eq mem (b:=b) hq
  rcases h with ⟨hCS,rfl,hnone⟩
  have hint : instr_addr_int s.l0 q=if q.branch_i then q.branch_addr_i else s.l0.addr_q := by
    unfold instr_addr_int
    rw [hCS]
    exact target_eq hq _
  refine fetches_request ?_ ?_ ?_ <;> unfold System.step <;> rw [hgnt]
  · unfold L0Buffer.step NS
    rw [hCS]
    rfl
  · exact fun _ => addr_over hint
  · dsimp only
    unfold instr_addr_o
    rw [hnone,lineOf_append,hint,line_over]
    cases b.respond <;> rfl

theorem fetches_asked (h : Fetches s (.asked l)) (hq : q.hwlp_i=false) :
    Fetches (s.step mem q b) (Status.next (.asked l) q b) := by
  have hgnt := h.gnt_eq mem (b:=b) hq
  have hasks := asks_eq hq
  have hreply := reply_some mem (b:=b) h.2
  have hint : instr_addr_int s.l0 q=target q q.prefetch_addr_i := by
    unfold instr_addr_int
    rw [h.1]
  unfold Status.next
  cases hr : b.respond with
  | false =>
    rw [hr] at hreply
    have hfalse : Status.granted (.asked l) q b=false := by simp [Status.granted,hr]
    cases hb : q.branch_i with
    | true =>
      refine ⟨?_,?_,(s.branches,l),?_⟩ <;> unfold System.step <;> rw [hgnt,hfalse]
      · unfold L0Buffer.step NS
        simp [h.1,hb,hreply]
      · unfold L0Buffer.step
        dsimp only
        rw [hint,target_eq hq]
        simp [asks,Ask.over,hb]
      · simp [hr,h.2]
    | false =>
      refine ⟨?_,?_⟩ <;> unfold System.step <;> rw [hgnt,hfalse]
      · unfold L0Buffer.step NS
        simp [h.1,hb,hreply]
      · simp [hr,hb,h.2]
  | true =>
    rw [hr] at hreply
    have hCS : ∀ g, NS s.l0 q (s.reply mem b) g=
        if asks q then (if g then .WAIT_RVALID else .WAIT_GNT) else .VALID_L0 := fun g => by
      unfold NS asks
      rw [h.1,hreply,hq]
      cases q.branch_i <;> cases q.prefetch_i <;> rfl
    cases hl : q.line with
    | none =>
      rw [hl] at hasks
      have hfalse : Status.granted (.asked l) q b=false := by simp [Status.granted,hl]
      refine ⟨Or.inr ?_,?_⟩ <;> unfold System.step <;> rw [hgnt,hfalse]
      · unfold L0Buffer.step
        dsimp only
        rw [hCS,hasks]
        rfl
      · simp [hr,h.2]
    | some l' =>
      rw [hl] at hasks
      have hgrant : Status.granted (.asked l) q b=b.grant := by simp [Status.granted,hl,hr]
      refine fetches_request ?_ ?_ ?_ <;> unfold System.step <;> rw [hgnt,hgrant]
      · unfold L0Buffer.step
        dsimp only
        rw [hCS,hasks]
        rfl
      · intro _
        unfold L0Buffer.step
        dsimp only
        rw [hasks,Option.isSome_some,if_pos rfl,hint]
        exact line_target hq hl
      · dsimp only
        unfold instr_addr_o
        rw [hr,h.2,lineOf_append,hint,line_target hq hl]
        rfl

theorem fetches_aborted (h : Fetches s (.aborted l)) (hq : q.hwlp_i=false) :
    Fetches (s.step mem q b) (Status.next (.aborted l) q b) := by
  have hgnt := h.gnt_eq mem (b:=b) hq
  rcases h with ⟨hCS,rfl,x,hx⟩
  have hreply := reply_some mem (b:=b) hx
  have hint : instr_addr_int s.l0 q=if q.branch_i then q.branch_addr_i else s.l0.addr_q := by
    unfold instr_addr_int
    rw [hCS]
  unfold Status.next
  cases hr : b.respond with
  | false =>
    rw [hr] at hreply
    have hfalse : Status.granted (.aborted (lineOf s.l0.addr_q)) q b=false := by
      simp [Status.granted,hr]
    refine ⟨?_,?_,x,?_⟩ <;> unfold System.step <;> rw [hgnt,hfalse]
    · unfold L0Buffer.step NS
      simp [hCS,hreply]
    · exact addr_over hint
    · simp [hr,hx]
  | true =>
    rw [hr] at hreply
    have hgrant : Status.granted (.aborted (lineOf s.l0.addr_q)) q b=b.grant := by
      simp [Status.granted,hr]
    refine fetches_request ?_ ?_ ?_ <;> unfold System.step <;> rw [hgnt,hgrant]
    · unfold L0Buffer.step NS
      simp [hCS,hreply]
    · exact fun _ => addr_over hint
    · dsimp only
      unfold instr_addr_o
      rw [hr,hx,lineOf_append,hint,line_over]
      rfl

variable (mem) in
/-- Every cycle is one of the fetcher. -/
theorem fetches_step (h : Fetches s st) (hq : q.hwlp_i=false) :
    Fetches (s.step mem q b) (st.next q b) := by
  cases st with
  | idle => exact fetches_idle h hq
  | wants l => exact fetches_wants h hq
  | asked l => exact fetches_asked h hq
  | aborted l => exact fetches_aborted h hq

variable (st) in
/-- A line is fetched ahead if the prefetcher asks when nothing else is to be fetched. -/
theorem Status.ahead (hb : q.branch_i=false) (hline : q.prefetch_i=true → lineOf q.prefetch_addr_i=l)
    (hst : st=.idle ∨ (∃ l', st=.asked l') ∧ b.respond=true ∨ st=.wants l ∧ q.prefetch_i=true) :
    st.next q b=(if q.prefetch_i then .request l b else .idle) ∧
      st.granted q b=(q.prefetch_i && b.grant) := by
  have hq : q.line=if q.prefetch_i then some l else none := by
    unfold Ask.line
    rw [hb]
    cases hp : q.prefetch_i with
    | true => exact congrArg some (hline hp)
    | false => rfl
  rcases hst with rfl | ⟨⟨l',rfl⟩,hr⟩ | ⟨rfl,hp⟩
  · unfold Status.next Status.granted
    rw [hq]
    cases q.prefetch_i <;> cases b.grant <;> exact ⟨rfl,rfl⟩
  · unfold Status.next Status.granted
    rw [hq,hr]
    cases q.prefetch_i <;> cases b.grant <;> exact ⟨rfl,rfl⟩
  · unfold Status.next Status.granted Ask.over
    rw [hb,hp]
    exact ⟨rfl,(Bool.true_and _).symm⟩

variable (st) in
/-- A branch leaves its target to be fetched. -/
theorem Status.branch (hb : q.branch_i=true) : st.next q b=.wants (lineOf q.branch_addr_i) ∨
    st.next q b=.asked (lineOf q.branch_addr_i) ∨ st.next q b=.aborted (lineOf q.branch_addr_i) := by
  have hq : q.line=some (lineOf q.branch_addr_i) := by
    unfold Ask.line
    rw [hb]
    rfl
  have hover : ∀ l, q.over l=lineOf q.branch_addr_i := fun l => by
    unfold Ask.over
    rw [hb]
    rfl
  have hrequest : Status.request (lineOf q.branch_addr_i) b=.wants (lineOf q.branch_addr_i) ∨
      Status.request (lineOf q.branch_addr_i) b=.asked (lineOf q.branch_addr_i) := by
    unfold Status.request
    cases b.grant
    · exact Or.inl rfl
    · exact Or.inr rfl
  cases st with
  | idle =>
    dsimp only [Status.next]
    rw [hq]
    exact hrequest.imp_right Or.inl
  | wants l =>
    dsimp only [Status.next]
    rw [hover]
    exact hrequest.imp_right Or.inl
  | asked l =>
    dsimp only [Status.next]
    rw [hq,hb,hover]
    cases b.respond
    · exact Or.inr (Or.inr rfl)
    · exact hrequest.imp_right Or.inl
  | aborted l =>
    dsimp only [Status.next]
    rw [hover]
    cases b.respond
    · exact Or.inr (Or.inr rfl)
    · exact hrequest.imp_right Or.inl

end Status

end Pulpissimo.Riscv.L0Buffer
