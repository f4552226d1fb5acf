import Mathlib.Data.BitVec
import Pulpissimo.Lib.Machine

/-!
# The demultiplexer of the fabric controller

`fc_demux` sends a request of the core to one of two ports. The first is a bus that grants and
answers when it can; the second is a memory that takes every request and has its word a cycle
later. A register keeps the port of the request that is not answered.
-/

namespace Pulpissimo.Soc.FcDemux

open Pulpissimo.Machine

inductive Phase where
  | IDLE | VALID
deriving DecidableEq

/-- Registers. -/
structure State where
  /-- The memory is the destination. -/
  dest_q : Bool
  demux_state_q : Phase
  master_port1_r_valid : Bool

/-- Values after reset. -/
def reset : State := ⟨false,.IDLE,false⟩

/-- A request, as the core gives it and as a port gets it. -/
structure Request where
  req : Bool
  add : BitVec 32
  wen : Bool
  wdata : BitVec 32
  be : BitVec 4

/-- One cycle of inputs. -/
structure Input where
  port_sel_i : Bool
  slave_port : Request
  master_port0_gnt : Bool
  master_port0_r_valid : Bool
  master_port0_r_rdata : BitVec 32
  master_port1_rdata : BitVec 32

section Code

variable (s : State) (i : Input)

/-- A request where it is selected, and zeros elsewhere. -/
def isolate (sel : Bool) (r : Request) : Request where
  req := r.req && sel
  add := r.add &&& (if sel then BitVec.allOnes 32 else 0)
  wen := r.wen && sel
  wdata := r.wdata &&& (if sel then BitVec.allOnes 32 else 0)
  be := r.be &&& (if sel then BitVec.allOnes 4 else 0)

def master_port0 : Request := isolate (!i.port_sel_i) i.slave_port

/-- The memory gets `req` inverted. -/
def master_port1 : Request := isolate i.port_sel_i i.slave_port

def master_port1_csn : Bool := !(master_port1 i).req

def master_port1_gnt : Bool := true

def gnt_slave : Bool :=
  if i.slave_port.req then if i.port_sel_i then master_port1_gnt else i.master_port0_gnt else false

def rvalid_slave : Bool := if s.dest_q then s.master_port1_r_valid else i.master_port0_r_valid

def rdata_slave : BitVec 32 := if s.dest_q then i.master_port1_rdata else i.master_port0_r_rdata

/-- The core's request is granted. -/
def granted : Bool := i.slave_port.req && gnt_slave i

/-- The registers with a granted request. -/
def accept : State :=
  if i.port_sel_i then ⟨true,.VALID,master_port1_gnt⟩ else ⟨false,.VALID,false⟩

/-- One clock edge. -/
def step : State :=
  match s.demux_state_q with
  | .IDLE => if granted i then accept i else s
  | .VALID =>
    if rvalid_slave s i then
      if granted i then accept i
      else { s with demux_state_q := .IDLE, master_port1_r_valid := false }
    else s

end Code

/-- The demultiplexer between the core and the ports: the ports of the granted requests, the words
that came to the core, and the words that the ports gave. -/
structure Sys where
  s : State
  asked : List Bool
  got : List (BitVec 32)
  given : List (Bool × BitVec 32)
  /-- Requests that the bus granted and did not answer. -/
  pending : ℕ
  /-- The memory was accessed in the last cycle. -/
  accessed : Bool

def start : Sys := ⟨reset,[],[],[],0,false⟩

/-- One cycle. The memory gives the word of the access in the cycle before. -/
def next (u : Sys) (i : Input) : Sys where
  s := step u.s i
  asked := u.asked++if granted i then [i.port_sel_i] else []
  got := u.got++if rvalid_slave u.s i then [rdata_slave u.s i] else []
  given := u.given++(if i.master_port0_r_valid then [(false,i.master_port0_r_rdata)] else [])++
    if u.accessed then [(true,i.master_port1_rdata)] else []
  pending := u.pending+(if (master_port0 i).req && i.master_port0_gnt then 1 else 0)-
    if i.master_port0_r_valid then 1 else 0
  accessed := !master_port1_csn i

/-- The core has at most one request that is not answered, and the bus answers only requests that
it granted before. -/
structure Fair (u : Sys) (i : Input) : Prop where
  core : granted i=true → u.asked.length=u.got.length ∨
    u.asked.length=u.got.length+1 ∧ rvalid_slave u.s i=true
  bus : i.master_port0_r_valid=true → 0 < u.pending

instance (u : Sys) (i : Input) : Decidable (Fair u i) :=
  decidable_of_iff ((_ → _) ∧ (_ → _)) ⟨fun h => ⟨h.1,h.2⟩,fun h => ⟨h.core,h.bus⟩⟩

/-- The core gets the words that the ports gave, each one from the port that its request was sent
to, and at most the last request is not answered. -/
structure Returns (u : Sys) : Prop where
  words : u.got=u.given.map Prod.snd
  ports : ∃ rest : List Bool, u.asked=u.given.map Prod.fst++rest ∧ rest.length ≤ 1

section Runs

variable {u : Sys} {i : Input}

/-- The registers while a request to a port is not answered, or none is. -/
def Tracks (s : State) : Option Bool → Prop
  | none => s.demux_state_q=.IDLE ∧ s.master_port1_r_valid=false
  | some port => s.demux_state_q=.VALID ∧ s.dest_q=port ∧ s.master_port1_r_valid=port

/-- What holds between two cycles, with the port of the request that is not answered. -/
structure Inv (owed : Option Bool) (u : Sys) : Prop where
  words : u.got=u.given.map Prod.snd
  ports : u.asked=u.given.map Prod.fst++owed.toList
  pending : u.pending=if owed=some false then 1 else 0
  accessed : u.accessed=decide (owed=some true)
  tracks : Tracks u.s owed

theorem inv_start : Inv none start := ⟨rfl,rfl,rfl,rfl,rfl,rfl⟩

/-- The word that comes in a cycle, and the port that gives it. -/
def answer (owed : Option Bool) (i : Input) : Option (Bool × BitVec 32) :=
  match owed with
  | none => none
  | some true => some (true,i.master_port1_rdata)
  | some false => if i.master_port0_r_valid then some (false,i.master_port0_r_rdata) else none

variable {owed : Option Bool}

/-- The bus answers only what it owes. -/
theorem Inv.bus (h : Inv owed u) (hf : Fair u i) :
    i.master_port0_r_valid=true → owed=some false := by
  intro hvalid
  by_contra hne
  have hpos := hf.bus hvalid
  rw [h.pending,if_neg hne] at hpos
  exact Nat.lt_irrefl 0 hpos

/-- The words of a cycle are the answer. -/
theorem Inv.given_next (h : Inv owed u) (hf : Fair u i) :
    (next u i).given=u.given++(answer owed i).toList := by
  have hbus := h.bus hf
  simp only [next,h.accessed,List.append_assoc]
  rcases owed with _ | port
  · cases hvalid : i.master_port0_r_valid with
    | false => rfl
    | true => exact absurd (hbus hvalid) (by decide)
  · cases port with
    | true =>
      cases hvalid : i.master_port0_r_valid with
      | false => rfl
      | true => exact absurd (hbus hvalid) (by decide)
    | false => cases hvalid : i.master_port0_r_valid <;> simp [answer,hvalid]

/-- The core gets just this answer. -/
theorem Inv.returned (h : Inv owed u) (hf : Fair u i) :
    rvalid_slave u.s i=(answer owed i).isSome ∧
      ∀ a ∈ answer owed i, rdata_slave u.s i=a.2 := by
  have hbus := h.bus hf
  have htracks := h.tracks
  rcases owed with _ | port
  · obtain ⟨-,hport1⟩ := htracks
    have hport0 : i.master_port0_r_valid=false :=
      Bool.eq_false_of_not_eq_true fun hvalid => absurd (hbus hvalid) (by decide)
    exact ⟨by simp [rvalid_slave,hport0,hport1,answer],fun a ha => (nomatch ha)⟩
  · obtain ⟨-,hdest,hport1⟩ := htracks
    cases port with
    | true =>
      refine ⟨by simp [rvalid_slave,hdest,hport1,answer],fun a ha => ?_⟩
      obtain rfl := Option.mem_some_iff.mp ha
      simp [rdata_slave,hdest]
    | false =>
      cases hvalid : i.master_port0_r_valid with
      | false =>
        exact ⟨by simp [rvalid_slave,hdest,hvalid,answer],fun a ha => by simp [answer,hvalid] at ha⟩
      | true =>
        refine ⟨by simp [rvalid_slave,hdest,hvalid,answer],fun a ha => ?_⟩
        simp only [answer,hvalid,if_true,Option.mem_some_iff] at ha
        simp [rdata_slave,hdest,←ha]

/-- The port that owes an answer behind a cycle. -/
def owes (owed : Option Bool) (i : Input) : Option Bool :=
  if granted i then some i.port_sel_i else if (answer owed i).isSome then none else owed

/-- A request is granted where none is open, or with the answer of the open one. -/
theorem Inv.room (h : Inv owed u) (hf : Fair u i) (hg : granted i=true) :
    owed.toList=((answer owed i).toList.map Prod.fst) := by
  have hlength : u.asked.length=u.got.length+owed.toList.length := by
    rw [h.ports,h.words,List.length_append,List.length_map,List.length_map]
  have hback := (h.returned hf).1
  rcases owed with _ | port
  · rfl
  · have hsome : (answer (some port) i).isSome=true := by
      rcases hf.core hg with hnone | ⟨-,hvalid⟩
      · exact absurd (hnone.symm.trans hlength) (Nat.ne_of_lt (Nat.lt_succ_self _))
      · rw [←hback]
        exact hvalid
    cases port with
    | true => rfl
    | false =>
      cases hvalid : i.master_port0_r_valid with
      | true => simp [answer,hvalid]
      | false => simp [answer,hvalid] at hsome

/-- A granted request goes to one of the ports. -/
theorem granted_port :
    ((master_port0 i).req && i.master_port0_gnt)=(granted i && !i.port_sel_i) ∧
      (!master_port1_csn i)=(granted i && i.port_sel_i) := by
  unfold master_port1_csn master_port0 master_port1 granted gnt_slave isolate
  cases i.slave_port.req <;> cases i.port_sel_i <;> cases i.master_port0_gnt <;> exact ⟨rfl,rfl⟩

/-- The registers follow the port that owes an answer. -/
theorem Inv.tracks_next (h : Inv owed u) (hf : Fair u i) : Tracks (step u.s i) (owes owed i) := by
  have hback := (h.returned hf).1
  have hroom := h.room hf
  have htracks := h.tracks
  have haccept : Tracks (accept i) (some i.port_sel_i) := by
    cases hsel : i.port_sel_i <;> simp [accept,hsel,Tracks,master_port1_gnt]
  cases hg : granted i with
  | true =>
    rw [owes,if_pos hg]
    rcases owed with _ | port
    · simp only [step,htracks.1,hg,if_true]
      exact haccept
    · have hvalid : rvalid_slave u.s i=true := by
        rw [hback]
        cases ha : answer (some port) i with
        | some a => rfl
        | none =>
          have hempty := hroom hg
          rw [ha] at hempty
          exact absurd hempty (List.cons_ne_nil _ _)
      simp only [step,htracks.1,hvalid,hg,if_true]
      exact haccept
  | false =>
    rw [owes,if_neg (by rw [hg]; exact Bool.false_ne_true),←hback]
    rcases owed with _ | port
    · simp only [step,htracks.1,hg,Bool.false_eq_true,if_false,ite_self]
      exact htracks
    · cases hvalid : rvalid_slave u.s i with
      | true =>
        simp only [step,htracks.1,hvalid,hg,Bool.false_eq_true,if_true,if_false]
        exact ⟨rfl,rfl⟩
      | false =>
        simp only [step,htracks.1,hvalid,Bool.false_eq_true,if_false]
        exact htracks

theorem Inv.next (h : Inv owed u) (hf : Fair u i) : Inv (owes owed i) (FcDemux.next u i) := by
  obtain ⟨hback,hdata⟩ := h.returned hf
  have hgiven := h.given_next hf
  have hbus := h.bus hf
  have hanswer : ∀ a ∈ answer owed i, owed=some a.1 := by
    intro a ha
    rcases owed with _ | _ | _
    · exact nomatch ha
    · cases hvalid : i.master_port0_r_valid with
      | false => simp [answer,hvalid] at ha
      | true =>
        simp only [answer,hvalid,if_true,Option.mem_some_iff] at ha
        rw [←ha]
    · obtain rfl := Option.mem_some_iff.mp ha
      rfl
  refine ⟨?_,?_,?_,?_,?_⟩
  · -- the word goes to the core
    rw [hgiven,List.map_append,←h.words]
    change u.got++_=_
    rw [hback]
    cases ha : answer owed i with
    | none => simp
    | some a => simp [hdata a ha]
  · rw [hgiven,List.map_append]
    change u.asked++_=_
    rw [h.ports,List.append_assoc,List.append_assoc]
    congr 1
    by_cases hg : granted i=true
    · rw [h.room hf hg,owes,if_pos hg,if_pos hg]
      rfl
    · rw [owes,if_neg hg,if_neg hg,List.append_nil]
      cases ha : answer owed i with
      | none => simp
      | some a => simp [hanswer a ha]
  · change u.pending+_-_=_
    rw [h.pending,granted_port.1]
    have hroom := h.room hf
    cases hg : granted i <;> cases hsel : i.port_sel_i <;>
      cases hvalid : i.master_port0_r_valid <;> rcases owed with _ | _ | _ <;>
      simp_all [owes,answer]
  · change (!master_port1_csn i)=_
    rw [granted_port.2]
    have hroom := h.room hf
    cases hg : granted i <;> cases hsel : i.port_sel_i <;>
      cases hvalid : i.master_port0_r_valid <;> rcases owed with _ | _ | _ <;>
      simp_all [owes,answer]
  · exact h.tracks_next hf

end Runs

/-- Over every run with at most one open request, the core gets exactly one word for each request
that was granted, and it is the word of the port that the request was sent to. -/
theorem returns_run {is : List Input} (hf : Meets next Fair start is) :
    Returns (after next start is) := by
  have hinv : ∃ owed, Inv owed (after next start is) := by
    refine after_invariant_of_meets (P:=fun u => ∃ owed, Inv owed u) ?_ ⟨none,inv_start⟩ hf
    rintro u i ⟨owed,h⟩ hfair
    exact ⟨owes owed i,h.next hfair⟩
  obtain ⟨owed,h⟩ := hinv
  refine ⟨h.words,owed.toList,h.ports,?_⟩
  cases owed with
  | none => exact Nat.zero_le 1
  | some port => exact Nat.le_refl 1

/-- One read. -/
def read (port_sel_i req gnt r_valid : Bool) : Input :=
  ⟨port_sel_i,⟨req,0,true,0,15⟩,gnt,r_valid,7,9⟩

/-- A request to the bus, and one to the memory in the cycle of its answer. -/
theorem returns_run_example :
    let u := after next start [read false true true false,read false false false false,
      read true true false true,read false false false false]
    Returns u ∧ u.got=[7,9] :=
  ⟨returns_run (by decide),by decide⟩

end Pulpissimo.Soc.FcDemux
