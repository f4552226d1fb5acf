import Pulpissimo.Lib.Machine
import Pulpissimo.Riscv.L0Buffer
import Pulpissimo.Riscv.PrefetchBuffer

/-!
# The prefetcher over the line buffer

`riscv_prefetch_L0_buffer` hands out the instructions of the lines that `riscv_L0_buffer`
fetches, also those that cross two lines, to the IF stage. The memory may hold other words
after every branch. Without hardware loops the instructions taken are those of the
sequential stream from the last branch target.
-/

namespace Pulpissimo.Riscv.PrefetchL0Buffer

open Pulpissimo.Machine Pulpissimo.WordAddr Pulpissimo.Riscv.FetchFifo
open Pulpissimo.Riscv.PrefetchBuffer (Event Sequential)
open Pulpissimo.Riscv.L0Buffer

/-- States. -/
inductive FetchState where
  | IDLE
  | BRANCHED
  | HWLP_WAIT_GNT
  | HWLP_GRANTED
  | HWLP_GRANTED_WAIT
  | HWLP_FETCH_DONE
  | NOT_VALID
  | NOT_VALID_GRANTED
  | NOT_VALID_CROSS
  | NOT_VALID_CROSS_GRANTED
  | VALID
  | VALID_CROSS
  | VALID_GRANTED
  | VALID_FETCH_DONE
  deriving DecidableEq

/-- Registers. -/
structure State where
  CS : FetchState
  addr_q : BitVec 32
  is_hwlp_q : Bool
  rdata_last_q : BitVec 32

/-- Values after reset. -/
def reset : State := ⟨.IDLE,0,false,0⟩

/-- Inputs from the IF stage. -/
structure Core where
  branch_i : Bool
  addr_i : BitVec 32
  hwloop_i : Bool
  hwloop_target_i : BitVec 32
  ready_i : Bool

/-- Outputs of the line buffer. -/
structure Fetched where
  rdata_L0 : Line
  fetch_valid : Bool
  addr_L0 : BitVec 32

/-- What the machine does in a cycle. -/
structure Control where
  NS : FetchState
  save_rdata_last : Bool
  save_rdata_hwlp : Bool
  addr_n : BitVec 32
  is_hwlp_n : Bool

section Code

variable (s : State) (f : Fetched) (i : Core)

def addr_o : BitVec 32 := s.addr_q

def use_last : Bool :=
  decide (s.CS ∈ [FetchState.NOT_VALID_CROSS_GRANTED,.VALID_CROSS,.VALID_GRANTED,.VALID_FETCH_DONE])

def use_hwlp : Bool :=
  decide (s.CS ∈ [FetchState.HWLP_GRANTED,.HWLP_GRANTED_WAIT,.HWLP_FETCH_DONE])

def rdata : BitVec 32 :=
  if use_last s || use_hwlp s then s.rdata_last_q else f.rdata_L0 ((addr_o s).extractLsb' 2 2)

/-- Upper half of the word at hand below the lower half of the next word of the line. -/
def rdata_unaligned : BitVec 32 :=
  (f.rdata_L0 ((addr_o s).extractLsb' 2 2+1)).extractLsb' 0 16++(rdata s f).extractLsb' 16 16

def unaligned_is_compressed : Bool := (rdata s f).extractLsb' 16 2 != 0b11#2

def aligned_is_compressed : Bool := (rdata s f).extractLsb' 0 2 != 0b11#2

def upper_is_compressed : Bool := (f.rdata_L0 3).extractLsb' 16 2 != 0b11#2

/-- The instruction crosses the end of the line. -/
def is_crossword : Bool := (addr_o s).extractLsb' 1 3==0b111#3 && !upper_is_compressed f

def next_is_crossword : Bool :=
  ((addr_o s).extractLsb' 1 3==0b110#3 && aligned_is_compressed s f && !upper_is_compressed f) ||
    ((addr_o s).extractLsb' 1 3==0b101#3 && !unaligned_is_compressed s f && !upper_is_compressed f)

def next_upper_compressed : Bool :=
  ((addr_o s).extractLsb' 1 3==0b110#3 && aligned_is_compressed s f && upper_is_compressed f) ||
    ((addr_o s).extractLsb' 1 3==0b101#3 && !unaligned_is_compressed s f && upper_is_compressed f)

def valid : Bool :=
  match s.CS with
  | .BRANCHED => f.fetch_valid && !is_crossword s f
  | .NOT_VALID_GRANTED | .NOT_VALID_CROSS_GRANTED => f.fetch_valid
  | .VALID | .VALID_CROSS | .VALID_GRANTED | .VALID_FETCH_DONE => true
  | .HWLP_GRANTED | .HWLP_FETCH_DONE => true
  | .IDLE | .NOT_VALID | .NOT_VALID_CROSS | .HWLP_WAIT_GNT | .HWLP_GRANTED_WAIT => false

def next_valid : Bool :=
  ((addr_o s).extractLsb' 2 2 != 0b11#2 || next_upper_compressed s f) && !next_is_crossword s f &&
    valid s f

def fetch_possible : Bool := (addr_o s).extractLsb' 2 2==0b11#2

def addr_aligned_next : BitVec 32 := (addr_o s).extractLsb' 2 30++0b00#2+4#32

/-- The address to fetch from. Its low four bits are not used. -/
def addr_real_next : BitVec 32 :=
  if next_is_crossword s f then (addr_o s).extractLsb' 4 28++0#4+0x16#32
  else (addr_o s).extractLsb' 2 30++0b00#2+4#32

def hwlp_is_crossword : Bool :=
  i.hwloop_target_i.extractLsb' 1 3==0b111#3 && !upper_is_compressed f

/-- The address advances when the instruction is taken. -/
def addr_int : BitVec 32 :=
  if i.ready_i then
    if (addr_o s).getLsbD 1 then
      if unaligned_is_compressed s f then (addr_aligned_next s).extractLsb' 2 30++0b00#2
      else (addr_aligned_next s).extractLsb' 2 30++0b10#2
    else if aligned_is_compressed s f then (addr_o s).extractLsb' 2 30++0b10#2
    else (addr_aligned_next s).extractLsb' 2 30++0b00#2
  else addr_o s

def do_fetch : Bool :=
  match s.CS with
  | .BRANCHED => fetch_possible s
  | .NOT_VALID | .NOT_VALID_CROSS => true
  | .VALID => fetch_possible s || (i.ready_i && next_is_crossword s f)
  | _ => false

def do_hwlp : Bool :=
  i.hwloop_i && decide (s.CS ∈ [FetchState.NOT_VALID_GRANTED,.NOT_VALID_CROSS_GRANTED,.VALID,
    .VALID_CROSS,.VALID_GRANTED,.VALID_FETCH_DONE])

def do_hwlp_int : Bool := s.CS=.HWLP_WAIT_GNT

variable (fetch_gnt : Bool)

/-- The machine without its priorities for branches and hardware loops. -/
def fsm : Control :=
  let is_hwlp_n := !i.ready_i && s.is_hwlp_q
  let stay : Control := ⟨s.CS,false,false,addr_int s f i,is_hwlp_n⟩
  match s.CS with
  | .IDLE => stay
  | .BRANCHED =>
    if i.ready_i then
      if i.hwloop_i then { stay with addr_n := addr_o s,NS := .HWLP_WAIT_GNT }
      else if next_valid s f then
        if fetch_gnt then { stay with save_rdata_last := true,NS := .VALID_GRANTED }
        else { stay with NS := .VALID }
      else if next_is_crossword s f then
        if fetch_gnt then { stay with save_rdata_last := true,NS := .NOT_VALID_CROSS_GRANTED }
        else { stay with NS := .NOT_VALID_CROSS }
      else if fetch_gnt then { stay with NS := .NOT_VALID_GRANTED }
      else { stay with NS := .NOT_VALID }
    else if f.fetch_valid then
      if is_crossword s f then
        { stay with
          save_rdata_last := true
          NS := if fetch_gnt then .NOT_VALID_CROSS_GRANTED else .NOT_VALID_CROSS }
      else if fetch_gnt then { stay with save_rdata_last := true,NS := .VALID_GRANTED }
      else { stay with NS := .VALID }
    else stay
  | .NOT_VALID => if fetch_gnt then { stay with NS := .NOT_VALID_GRANTED } else stay
  | .NOT_VALID_GRANTED => if f.fetch_valid then { stay with NS := .VALID } else stay
  | .NOT_VALID_CROSS =>
    if fetch_gnt then { stay with save_rdata_last := true,NS := .NOT_VALID_CROSS_GRANTED } else stay
  | .NOT_VALID_CROSS_GRANTED =>
    if f.fetch_valid then { stay with NS := if i.ready_i then .VALID else .VALID_CROSS } else stay
  | .VALID =>
    if i.ready_i then
      if next_is_crossword s f then
        if fetch_gnt then { stay with save_rdata_last := true,NS := .NOT_VALID_CROSS_GRANTED }
        else { stay with NS := .NOT_VALID_CROSS }
      else if !next_valid s f then
        { stay with NS := if fetch_gnt then .NOT_VALID_GRANTED else .NOT_VALID }
      else if fetch_gnt && next_upper_compressed s f then
        { stay with save_rdata_last := true,NS := .VALID_GRANTED }
      else stay
    else if fetch_gnt then { stay with save_rdata_last := true,NS := .VALID_GRANTED }
    else stay
  | .VALID_CROSS => if i.ready_i then { stay with NS := .VALID } else stay
  | .VALID_GRANTED =>
    if i.ready_i then
      { stay with
        NS :=
          if f.fetch_valid then
            if next_is_crossword s f then .VALID_CROSS
            else if next_upper_compressed s f then .VALID_FETCH_DONE
            else .VALID
          else if next_is_crossword s f then .NOT_VALID_CROSS_GRANTED
          else if next_upper_compressed s f then .VALID_GRANTED
          else .NOT_VALID_GRANTED }
    else if f.fetch_valid then { stay with NS := .VALID_FETCH_DONE }
    else stay
  | .VALID_FETCH_DONE =>
    if i.ready_i then
      { stay with
        NS :=
          if next_is_crossword s f then .VALID_CROSS
          else if next_upper_compressed s f then .VALID_FETCH_DONE
          else .VALID }
    else stay
  | .HWLP_WAIT_GNT =>
    if fetch_gnt then { stay with is_hwlp_n := true,addr_n := i.hwloop_target_i,NS := .BRANCHED }
    else stay
  | .HWLP_GRANTED =>
    if i.ready_i then
      if f.fetch_valid then
        { stay with
          addr_n := i.hwloop_target_i
          is_hwlp_n := true
          NS := if hwlp_is_crossword f i then .NOT_VALID_CROSS else .VALID }
      else { stay with addr_n := i.hwloop_target_i,NS := .HWLP_GRANTED_WAIT }
    else if f.fetch_valid then { stay with NS := .HWLP_FETCH_DONE }
    else stay
  | .HWLP_GRANTED_WAIT =>
    if f.fetch_valid then
      { stay with
        is_hwlp_n := true
        NS := if f.addr_L0.extractLsb' 1 3==0b111#3 && !upper_is_compressed f then .NOT_VALID_CROSS
          else .VALID }
    else stay
  | .HWLP_FETCH_DONE =>
    if i.ready_i then
      { stay with
        is_hwlp_n := true
        addr_n := i.hwloop_target_i
        NS := if hwlp_is_crossword f i then .NOT_VALID_CROSS else .VALID }
    else stay

/-- Branches have priority, then hardware loops. -/
def control : Control :=
  let c := fsm s f i fetch_gnt
  if i.branch_i then { c with is_hwlp_n := false,addr_n := i.addr_i,NS := .BRANCHED }
  else if i.hwloop_i && do_hwlp s i then
    if i.ready_i then
      if fetch_gnt then { c with is_hwlp_n := true,addr_n := i.hwloop_target_i,NS := .BRANCHED }
      else { c with addr_n := addr_o s,NS := .HWLP_WAIT_GNT }
    else if fetch_gnt then { c with save_rdata_hwlp := true,NS := .HWLP_GRANTED }
    else c
  else c

def rdata_o : BitVec 32 :=
  if !(addr_o s).getLsbD 1 || use_hwlp s then rdata s f else rdata_unaligned s f

def valid_o : Bool := valid s f && !i.branch_i

/-- The registers after a cycle. -/
def latch (c : Control) : State where
  CS := c.NS
  addr_q := c.addr_n
  is_hwlp_q := c.is_hwlp_n
  rdata_last_q :=
    if c.save_rdata_hwlp then rdata_o s f
    else if c.save_rdata_last then
      if i.ready_i then f.rdata_L0 3 else rdata s f
    else s.rdata_last_q

/-- One clock edge. -/
def step : State := latch s f i (control s f i fetch_gnt)

end Code

/-- The assertions of the module. -/
structure Asserted (s : State) (f : Fetched) (i : Core) : Prop where
  ready_valid : i.ready_i=true → valid_o s f i=true
  next_crossword : next_is_crossword s f=true → is_crossword s f=false
  crossword : is_crossword s f=true → next_is_crossword s f=false

/-- States of the IF stage. -/
inductive OffsetState where
  | IDLE
  | WAIT
  deriving DecidableEq

/-- The IF stage takes an instruction that is offered. -/
def fetch_ready (offset_fsm_cs : OffsetState) (fetch_valid req_i if_valid : Bool) : Bool :=
  match offset_fsm_cs with
  | .IDLE => false
  | .WAIT => fetch_valid && (req_i && if_valid)

/-- One cycle outside the prefetcher: the IF stage and the memory. -/
structure Cycle where
  branch_i : Bool
  addr_i : BitVec 32
  hwloop_i : Bool
  hwloop_target_i : BitVec 32
  offset_fsm_cs : OffsetState
  req_i : Bool
  if_valid : Bool
  bus : Bus

/-- The prefetcher with its line buffer and the memory. -/
structure System where
  buffer : State
  fetch : L0Buffer.System

/-- After reset. -/
def System.reset : System := ⟨PrefetchL0Buffer.reset,L0Buffer.System.reset⟩

section Memory

variable (mem : ℕ → Memory) (s : System) (c : Cycle)

/-- Outputs of the line buffer. -/
def System.fetched : Fetched where
  rdata_L0 := L0Buffer.rdata_o s.fetch.l0 (s.fetch.reply mem c.bus)
  fetch_valid := fetch_valid_o s.fetch.l0 (s.fetch.reply mem c.bus)
  addr_L0 := s.fetch.l0.addr_q

/-- An instruction is offered. This does not depend on whether it is taken. -/
def System.offers : Bool := valid s.buffer (s.fetched mem c) && !c.branch_i

/-- Inputs of the prefetcher. -/
def System.core : Core where
  branch_i := c.branch_i
  addr_i := c.addr_i
  hwloop_i := c.hwloop_i
  hwloop_target_i := c.hwloop_target_i
  ready_i := fetch_ready c.offset_fsm_cs (s.offers mem c) c.req_i c.if_valid

/-- Inputs of the line buffer. -/
def System.ask : Ask where
  prefetch_i := do_fetch s.buffer (s.fetched mem c) (s.core mem c)
  prefetch_addr_i := addr_real_next s.buffer (s.fetched mem c)
  branch_i := c.branch_i
  branch_addr_i := c.addr_i
  hwlp_i := do_hwlp s.buffer (s.core mem c) || do_hwlp_int s.buffer
  hwlp_addr_i := c.hwloop_target_i

/-- One clock edge. -/
def System.step : System where
  buffer := PrefetchL0Buffer.step s.buffer (s.fetched mem c) (s.core mem c)
    (s.fetch.gnt mem (s.ask mem c) c.bus)
  fetch := s.fetch.step mem (s.ask mem c) c.bus

/-- Events of one cycle. -/
def System.events : List Event :=
  (if (s.core mem c).ready_i && valid_o s.buffer (s.fetched mem c) (s.core mem c) then
    [.accept (addr_o s.buffer) (rdata_o s.buffer (s.fetched mem c))] else [])++
  if c.branch_i then [.branch c.addr_i] else []

/-- Events of a run. -/
def System.trace : System → List Cycle → List Event
  | _,[] => []
  | s,c::cs => s.events mem c++System.trace (s.step mem c) cs

end Memory

section Positions

/-- The place of an instruction. -/
structure Pos where
  line : BitVec 28
  word : BitVec 2
  upper : Bool

variable (m : Memory) (p : Pos)

def Pos.addr : BitVec 32 := halfAddr (p.line++p.word) p.upper

/-- The instruction is compressed. -/
def Pos.short : Bool := compressed (m.half p.addr)

/-- The instruction crosses the end of its line. -/
def Pos.crosses : Bool := p.word==3#2 && p.upper && !p.short m

/-- The first half of the next word. -/
def Pos.nextWord (upper : Bool) : Pos :=
  if p.word=3#2 then ⟨p.line+1,0#2,upper⟩ else ⟨p.line,p.word+1#2,upper⟩

/-- The next instruction. -/
def Pos.next : Pos :=
  if p.short m then
    if p.upper then p.nextWord false else ⟨p.line,p.word,true⟩
  else p.nextWord p.upper

/-- The next instruction starts in the same line. -/
def Pos.inside : Bool := p.word != 3#2 || (!p.upper && p.short m)

theorem append_next (l : BitVec 28) (k : BitVec 2) :
    (l++k : BitVec 30)+1=if k=3#2 then (l+1)++0#2 else l++(k+1#2) := by
  have hl := l.isLt
  have hword : ∀ (x : BitVec 28) (y : BitVec 2), (x++y : BitVec 30).toNat=4*x.toNat+y.toNat := by
    intro x y
    rw [BitVec.toNat_append,←Nat.shiftLeft_add_eq_or_of_lt y.isLt,Nat.shiftLeft_eq]
    omega
  apply BitVec.eq_of_toNat_eq
  have hone : (1 : BitVec 30).toNat=1 := rfl
  have hlone : (1 : BitVec 28).toNat=1 := rfl
  rw [BitVec.toNat_add,hword,hone]
  rcases lane_cases k with rfl | rfl | rfl | rfl
  · rw [if_neg (by decide),hword]
    change (4*l.toNat+0+1)%2^30=4*l.toNat+1
    omega
  · rw [if_neg (by decide),hword]
    change (4*l.toNat+1+1)%2^30=4*l.toNat+2
    omega
  · rw [if_neg (by decide),hword]
    change (4*l.toNat+2+1)%2^30=4*l.toNat+3
    omega
  · rw [if_pos (by decide),hword,BitVec.toNat_add,hlone]
    change (4*l.toNat+3+1)%2^30=4*((l.toNat+1)%2^28)+0
    omega

theorem nextWord_addr (upper : Bool) :
    (p.nextWord upper).addr=halfAddr (p.line++p.word+1) upper := by
  unfold Pos.nextWord Pos.addr
  rw [append_next]
  split_ifs <;> rfl

/-- The next instruction follows. -/
theorem next_addr : (p.next m).addr=p.addr+m.size p.addr := by
  unfold Pos.next Memory.size Pos.short
  have htwo := halfAddr_add_two (p.line++p.word) p.upper
  have hfour := halfAddr_add_four (p.line++p.word) p.upper
  cases compressed (m.half p.addr) with
  | true =>
    rw [if_pos rfl,if_pos rfl]
    cases hu : p.upper with
    | true =>
      rw [hu,if_pos rfl] at htwo
      rw [if_pos rfl,nextWord_addr,←htwo]
      unfold Pos.addr
      rw [hu]
    | false =>
      rw [hu,if_neg nofun] at htwo
      rw [if_neg nofun]
      unfold Pos.addr
      rw [hu,htwo]
  | false =>
    rw [if_neg nofun,if_neg nofun,nextWord_addr,←hfour]
    rfl

theorem next_line : (p.next m).line=if p.inside m then p.line else p.line+1 := by
  unfold Pos.next Pos.nextWord Pos.inside
  rcases p with ⟨l,k,u⟩
  by_cases hk : k=3#2
  · subst hk
    cases Pos.short m ⟨l,3#2,u⟩ <;> cases u <;> rfl
  · have hword : (k != 3#2)=true := bne_iff_ne.mpr hk
    rw [hword]
    cases Pos.short m ⟨l,k,u⟩ <;> cases u <;> simp [hk]

/-- After the last instruction of a line comes the next line. -/
theorem next_outside (hin : p.inside m=false) (hc : p.crosses m=false) :
    p.next m=⟨p.line+1,0#2,false⟩ := by
  unfold Pos.inside at hin
  unfold Pos.crosses at hc
  unfold Pos.next Pos.nextWord
  rcases p with ⟨l,k,u⟩
  have hk : k=3#2 := by
    by_contra hk
    simp [hk] at hin
  subst hk
  cases hs : Pos.short m ⟨l,3#2,u⟩ <;> cases u <;> simp [hs] at hin hc ⊢

/-- An instruction that crosses leads into the next line. -/
theorem next_crossing (hc : p.crosses m=true) : p.next m=⟨p.line+1,0#2,true⟩ := by
  unfold Pos.crosses at hc
  unfold Pos.next Pos.nextWord
  rcases p with ⟨l,k,u⟩
  simp only [Bool.and_eq_true,beq_iff_eq,Bool.not_eq_true'] at hc
  rcases hc with ⟨⟨rfl,rfl⟩,hs⟩
  rw [hs]
  rfl

/-- In the last word only a compressed instruction has its next one in the same line. -/
theorem next_last (hk : p.word=3#2) (hin : p.inside m=true) : p.next m=⟨p.line,3#2,true⟩ := by
  unfold Pos.inside at hin
  unfold Pos.next
  rcases p with ⟨l,k,u⟩
  change k=3#2 at hk
  subst hk
  cases hs : Pos.short m ⟨l,3#2,u⟩ <;> cases u <;> simp [hs] at hin ⊢

/-- Fields of the address. -/
theorem addr_word : p.addr.extractLsb' 2 2=p.word := by
  have hfield : p.addr.extractLsb' 2 2=(p.addr.extractLsb' 2 30).extractLsb' 0 2 := by
    apply BitVec.eq_of_getLsbD_eq
    intro k hk
    simp [hk,show k<30 by omega]
  rw [hfield]
  unfold Pos.addr
  rw [halfAddr_word]
  apply BitVec.eq_of_getLsbD_eq
  intro k hk
  rw [BitVec.getLsbD_extractLsb',BitVec.getLsbD_append,if_pos (by omega)]
  simp [hk]

theorem addr_line : p.addr.extractLsb' 4 28=p.line := by
  have hfield : p.addr.extractLsb' 4 28=(p.addr.extractLsb' 2 30).extractLsb' 2 28 := by
    apply BitVec.eq_of_getLsbD_eq
    intro k hk
    simp [hk,show 2+k<30 by omega,show 2+(2+k)=4+k by omega]
  rw [hfield]
  unfold Pos.addr
  rw [halfAddr_word]
  apply BitVec.eq_of_getLsbD_eq
  intro k hk
  rw [BitVec.getLsbD_extractLsb',BitVec.getLsbD_append,if_neg (by omega)]
  simp [hk]

theorem addr_half : p.addr.extractLsb' 1 3=p.word++BitVec.ofBool p.upper := by
  apply BitVec.eq_of_getLsbD_eq
  intro k hk
  rw [BitVec.getLsbD_extractLsb',BitVec.getLsbD_append]
  by_cases hzero : k=0
  · subst hzero
    rw [if_pos (by omega)]
    unfold Pos.addr
    rw [halfAddr_bit]
    simp
  · rw [if_neg (by omega),←addr_word,BitVec.getLsbD_extractLsb',decide_eq_true hk,
      decide_eq_true (by omega : k-1<2),show 2+(k-1)=1+k by omega]

theorem addr_upper : p.addr.getLsbD 1=p.upper := halfAddr_bit ..

/-- Every even address is one. -/
theorem pos_of_even {a : BitVec 32} (ha : a.getLsbD 0=false) : ∃ p : Pos, a=p.addr := by
  rcases halfAddr_of_even ha with ⟨q,upper,rfl⟩
  refine ⟨⟨q.extractLsb' 2 28,q.extractLsb' 0 2,upper⟩,?_⟩
  unfold Pos.addr
  congr 1
  apply BitVec.eq_of_getLsbD_eq
  intro k hk
  simp only [BitVec.getLsbD_append,BitVec.getLsbD_extractLsb']
  split_ifs with h
  · simp [h]
  · simp [show k-2<28 by omega,show 2+(k-2)=k by omega]

end Positions

section Flags

/-- The word of the next instruction is at hand. -/
structure Hand (m : Memory) (p : Pos) (s : State) (f : Fetched) : Prop where
  addr : s.addr_q=p.addr
  word : rdata s f=m (p.line++p.word)

variable {m : Memory} {p : Pos} {s : State} {f : Fetched} {i : Core}

/-- The compressed flag of the half that the instruction starts in. -/
theorem Hand.short_eq (h : Hand m p s f) :
    (if p.upper then unaligned_is_compressed s f else aligned_is_compressed s f)=p.short m := by
  unfold unaligned_is_compressed aligned_is_compressed Pos.short compressed Pos.addr
  rw [h.word,half_eq,extract_half]
  cases p.upper <;> rfl

/-- The address goes to the next instruction when this one is taken. -/
theorem Hand.addr_int_eq (h : Hand m p s f) :
    addr_int s f i=if i.ready_i then (p.next m).addr else p.addr := by
  have hshort := h.short_eq
  have hstay : (addr_o s).extractLsb' 2 30=p.line++p.word := by
    unfold addr_o
    rw [h.addr]
    exact halfAddr_word ..
  have hnext : (addr_aligned_next s).extractLsb' 2 30=p.line++p.word+1 := by
    unfold addr_aligned_next
    rw [hstay]
    exact (congrArg _ (append_add_four ..)).trans (wordAddr_append ..)
  unfold addr_int
  rw [hstay,hnext]
  unfold addr_o
  rw [h.addr,addr_upper]
  cases i.ready_i with
  | false => rfl
  | true =>
    rw [if_pos rfl,if_pos rfl]
    unfold Pos.next
    cases hu : p.upper with
    | true =>
      rw [hu,if_pos rfl] at hshort
      rw [if_pos rfl,hshort]
      cases p.short m with
      | true => exact (nextWord_addr p false).symm
      | false => exact (nextWord_addr p true).symm
    | false =>
      rw [hu,if_neg nofun] at hshort
      rw [if_neg nofun,hshort]
      cases p.short m with
      | true => rfl
      | false => exact (nextWord_addr p false).symm

/-- The instruction of a word that is at hand, if the next word is there when it is needed. -/
theorem Hand.stores (h : Hand m p s f) (hhwlp : use_hwlp s=false)
    (hsecond : p.upper=true → p.short m=false →
      f.rdata_L0 (p.word+1)=m (p.line++p.word+1)) : m.Stores p.addr (rdata_o s f) := by
  have hhalf : m.half p.addr=_ := half_eq m (p.line++p.word) p.upper
  have hlow : ∀ x y : BitVec 16, (x++y).extractLsb' 0 16=y ∧ (x++y).extractLsb' 16 16=x := by
    intro x y
    refine ⟨?_,?_⟩ <;> apply BitVec.eq_of_getLsbD_eq <;> intro k hk <;>
      rw [BitVec.getLsbD_extractLsb',BitVec.getLsbD_append]
    · rw [if_pos (by omega)]
      simp [hk]
    · rw [if_neg (by omega)]
      simp [hk]
  have htwo := halfAddr_add_two (p.line++p.word) p.upper
  change p.addr+2=_ at htwo
  unfold Memory.Stores rdata_o addr_o
  rw [h.addr,addr_upper,hhwlp,hhalf,htwo]
  cases hu : p.upper with
  | false =>
    rw [h.word]
    refine ⟨rfl,fun _ => ?_⟩
    exact (half_eq m (p.line++p.word) true).symm
  | true =>
    unfold rdata_unaligned addr_o
    rw [h.word,h.addr,addr_word]
    refine ⟨(hlow ..).1,fun hlong => ?_⟩
    have hshort : p.short m=false := by
      unfold Pos.short
      rw [hhalf,hu]
      exact hlong
    refine (hlow ..).2.trans ?_
    rw [hsecond hu hshort]
    exact (half_eq m (p.line++p.word+1) false).symm

/-- Bits 3 to 1 of the address tell the last three halves of a line. -/
theorem addr_half_eq (h : s.addr_q=p.addr) :
    ((addr_o s).extractLsb' 1 3==0b111#3)=(p.word==3#2 && p.upper) ∧
      ((addr_o s).extractLsb' 1 3==0b110#3)=(p.word==3#2 && !p.upper) ∧
      ((addr_o s).extractLsb' 1 3==0b101#3)=(p.word==2#2 && p.upper) := by
  unfold addr_o
  rw [h,addr_half]
  generalize p.word=w
  generalize p.upper=v
  revert w v
  decide

/-- The flags about the end of the line, by the place in it. -/
theorem Hand.next_flags (h : Hand m p s f) :
    next_is_crossword s f=
        ((p.word==3#2 && (!p.upper && p.short m) || p.word==2#2 && (p.upper && !p.short m)) &&
          !upper_is_compressed f) ∧
      next_upper_compressed s f=
        ((p.word==3#2 && (!p.upper && p.short m) || p.word==2#2 && (p.upper && !p.short m)) &&
          upper_is_compressed f) := by
  have hshort := h.short_eq
  rcases addr_half_eq h.addr with ⟨-,h6,h5⟩
  unfold next_is_crossword next_upper_compressed
  rw [h6,h5]
  cases hu : p.upper with
  | true =>
    rw [hu,if_pos rfl] at hshort
    rw [hshort]
    cases p.short m <;> cases upper_is_compressed f <;> simp
  | false =>
    rw [hu,if_neg nofun] at hshort
    rw [hshort]
    cases p.short m <;> cases upper_is_compressed f <;> simp

/-- The upper half of the last word of the line at hand. -/
theorem upper_eq {l : BitVec 28} (hL0 : f.rdata_L0=line m l) :
    upper_is_compressed f=Pos.short m ⟨l,3#2,true⟩ := by
  unfold upper_is_compressed Pos.short compressed Pos.addr
  rw [hL0,half_eq,extract_half]
  rfl

theorem is_crossword_eq (h : s.addr_q=p.addr) (hL0 : f.rdata_L0=line m p.line) :
    is_crossword s f=p.crosses m := by
  unfold is_crossword Pos.crosses
  rw [(addr_half_eq h).1,upper_eq hL0]
  rcases p with ⟨l,k,u⟩
  by_cases hk : k=3#2
  · subst hk
    cases u <;> rfl
  · have hword : (k==3#2)=false := beq_eq_false_iff_ne.mpr hk
    rw [hword]
    rfl

/-- With the line of the instruction at hand the flags are those of the next one. -/
theorem Hand.crossword_eq (h : Hand m p s f) (hL0 : f.rdata_L0=line m p.line) :
    next_is_crossword s f=(p.next m).crosses m := by
  rw [h.next_flags.1,upper_eq hL0]
  unfold Pos.next Pos.nextWord Pos.crosses
  rcases p with ⟨l,k,u⟩
  cases hs : Pos.short m ⟨l,k,u⟩ <;> cases u <;> rcases lane_cases k with rfl | rfl | rfl | rfl <;>
    simp [hs]

theorem Hand.next_valid_eq (h : Hand m p s f) (hv : valid s f=true) :
    next_valid s f=(p.inside m && !next_is_crossword s f) := by
  have hword : (addr_o s).extractLsb' 2 2=p.word := by
    unfold addr_o
    rw [h.addr,addr_word]
  unfold next_valid Pos.inside
  rw [hv,hword,h.next_flags.1,h.next_flags.2]
  rw [Bool.and_true]
  cases hk : p.word==3#2 with
  | true =>
    have htwo : (p.word==2#2)=false := by
      rw [eq_of_beq hk]
      rfl
    rw [bne,hk,htwo]
    cases p.upper <;> cases p.short m <;> cases upper_is_compressed f <;> simp
  | false =>
    rw [bne,hk]
    simp

/-- In the last word the flags look at the upper half, whatever line is at hand. -/
theorem Hand.last_flags (h : Hand m p s f) (hk : p.word=3#2) :
    (next_is_crossword s f || next_upper_compressed s f)=p.inside m := by
  unfold Pos.inside
  rw [h.next_flags.1,h.next_flags.2,hk]
  cases p.upper <;> cases p.short m <;> cases upper_is_compressed f <;> rfl

/-- The next line is fetched ahead. -/
theorem real_next (h : s.addr_q=p.addr) (hk : p.word=3#2 ∨ next_is_crossword s f=true) :
    lineOf (addr_real_next s f)=p.line+1 := by
  unfold addr_real_next addr_o
  rw [h]
  cases hc : next_is_crossword s f with
  | true =>
    rw [if_pos rfl,addr_line]
    have hl := p.line.isLt
    have hone : (1 : BitVec 28).toNat=1 := rfl
    unfold lineOf
    apply BitVec.eq_of_toNat_eq
    rw [BitVec.extractLsb'_toNat,BitVec.toNat_add,BitVec.toNat_append,Nat.shiftRight_eq_div_pow,
      BitVec.toNat_add,hone]
    simp only [BitVec.toNat_ofNat,Nat.zero_mod,Nat.or_zero,Nat.shiftLeft_eq]
    omega
  | false =>
    have hword : p.word=3#2 := by
      rcases hk with hk | hk
      · exact hk
      · rw [hc] at hk
        exact absurd hk nofun
    have hnext : p.nextWord false=⟨p.line+1,0#2,false⟩ := by
      unfold Pos.nextWord
      rw [if_pos hword]
    have haddr := nextWord_addr p false
    rw [hnext] at haddr
    rw [if_neg nofun,show p.addr.extractLsb' 2 30=p.line++p.word from halfAddr_word ..,
      append_add_four]
    change lineOf (halfAddr (p.line++p.word+1) false)=_
    rw [←haddr]
    exact addr_line _

end Flags

section Invariant

/-- What the prefetcher, its line buffer and the memory are doing for the instruction at `p`:
the line of the instruction is to come, or it is at hand and the next line may be on its
way, or the last word of the line is kept and the next line is on its way or at hand. -/
def Phase (m : Memory) (t : State) (n : L0Buffer.System) (p : Pos) : Prop :=
  match t.CS with
  | .BRANCHED =>
    Fetches n (.wants p.line) ∨ Fetches n (.asked p.line) ∨ Fetches n (.aborted p.line)
  | .NOT_VALID => p=⟨p.line,0#2,false⟩ ∧ Fetches n (.wants p.line)
  | .NOT_VALID_GRANTED => p=⟨p.line,0#2,false⟩ ∧ Fetches n (.asked p.line)
  | .NOT_VALID_CROSS =>
    p.crosses m=true ∧ n.l0.L0_buffer=line m p.line ∧
      (Fetches n .idle ∨ Fetches n (.wants (p.line+1)))
  | .NOT_VALID_CROSS_GRANTED =>
    p.crosses m=true ∧ t.rdata_last_q=m (p.line++3#2) ∧ Fetches n (.asked (p.line+1))
  | .VALID =>
    p.crosses m=false ∧ n.l0.L0_buffer=line m p.line ∧
      (Fetches n .idle ∨ p.word=3#2 ∧ Fetches n (.wants (p.line+1)))
  | .VALID_GRANTED =>
    p.crosses m=false ∧ p.word=3#2 ∧ t.rdata_last_q=m (p.line++3#2) ∧
      n.l0.L0_buffer=line m p.line ∧ Fetches n (.asked (p.line+1))
  | .VALID_CROSS =>
    p.word=3#2 ∧ p.upper=true ∧ t.rdata_last_q=m (p.line++3#2) ∧
      n.l0.L0_buffer=line m (p.line+1) ∧ Fetches n .idle
  | .VALID_FETCH_DONE =>
    p.word=3#2 ∧ t.rdata_last_q=m (p.line++3#2) ∧
      n.l0.L0_buffer=line m (p.line+1) ∧ Fetches n .idle
  | _ => False

/-- The next instruction is the one at `p`. -/
structure Inv (mem : ℕ → Memory) (s : System) (p : Pos) : Prop where
  addr : s.buffer.addr_q=p.addr
  phase : Phase (mem s.fetch.branches) s.buffer s.fetch p

variable {mem : ℕ → Memory} {s : System} {c : Cycle} {p : Pos} {st : Status}

/-- A cycle without branch and hardware loop. -/
structure Plain (c : Cycle) : Prop where
  branch : c.branch_i=false
  hwloop : c.hwloop_i=false

/-- What happens in it, by the status of the line buffer. -/
structure Frame (mem : ℕ → Memory) (s : System) (c : Cycle) (st : Status) : Prop where
  valid : (s.fetched mem c).fetch_valid=st.valid c.bus
  fetches : Fetches (s.step mem c).fetch (st.next (s.ask mem c) c.bus)
  buffer : (s.step mem c).fetch.l0.L0_buffer=(s.fetched mem c).rdata_L0
  branches : (s.step mem c).fetch.branches=s.fetch.branches
  latch : (s.step mem c).buffer=latch s.buffer (s.fetched mem c) (s.core mem c)
    (fsm s.buffer (s.fetched mem c) (s.core mem c) (st.granted (s.ask mem c) c.bus))

variable (mem) in
theorem no_hwlp (hl : c.hwloop_i=false) (hCS : s.buffer.CS≠.HWLP_WAIT_GNT) :
    (s.ask mem c).hwlp_i=false := by
  change (c.hwloop_i && _ || decide (s.buffer.CS=_))=false
  rw [hl,decide_eq_false hCS]
  rfl

variable (mem) in
theorem frame (hf : Fetches s.fetch st) (hc : Plain c) (hCS : s.buffer.CS≠.HWLP_WAIT_GNT) :
    Frame mem s c st := by
  have hq := no_hwlp mem hc.hwloop hCS
  have hbranch : (s.ask mem c).branch_i=false := hc.branch
  refine ⟨hf.fetch_valid,fetches_step mem hf hq,rfl,?_,?_⟩
  · change s.fetch.branches+(s.ask mem c).branch_i.toNat=_
    rw [hbranch]
    rfl
  · change PrefetchL0Buffer.step s.buffer (s.fetched mem c) (s.core mem c)
      (s.fetch.gnt mem (s.ask mem c) c.bus)=_
    rw [hf.gnt_eq mem hq]
    unfold PrefetchL0Buffer.step control
    rw [show (s.core mem c).branch_i=false from hc.branch,
      show (s.core mem c).hwloop_i=false from hc.hwloop]
    rfl

/-- Only what is offered is taken. -/
theorem ready_valid (hr : (s.core mem c).ready_i=true) : s.offers mem c=true := by
  change fetch_ready c.offset_fsm_cs (s.offers mem c) c.req_i c.if_valid=true at hr
  unfold fetch_ready at hr
  cases hcs : c.offset_fsm_cs <;> rw [hcs] at hr
  · exact absurd hr nofun
  · exact (Bool.and_eq_true_iff.mp hr).1

theorem not_ready (hv : valid s.buffer (s.fetched mem c)=false) : (s.core mem c).ready_i=false := by
  by_contra hr
  have hoffers := ready_valid (Bool.eq_true_of_not_eq_false hr)
  unfold System.offers at hoffers
  rw [hv] at hoffers
  exact absurd hoffers nofun

/-- Without hardware loops the address goes on by itself. -/
theorem fsm_addr {t : State} {f : Fetched} {i : Core} {g : Bool} (hl : i.hwloop_i=false)
    (hCS : use_hwlp t=false) (hwait : t.CS≠.HWLP_WAIT_GNT) :
    (fsm t f i g).addr_n=addr_int t f i ∧ (fsm t f i g).save_rdata_hwlp=false := by
  unfold use_hwlp at hCS
  unfold fsm
  rw [hl]
  cases hcs : t.CS <;> rw [hcs] at hCS hwait
  case IDLE => exact ⟨rfl,rfl⟩
  case HWLP_WAIT_GNT => exact absurd rfl hwait
  case HWLP_GRANTED => exact absurd hCS nofun
  case HWLP_GRANTED_WAIT => exact absurd hCS nofun
  case HWLP_FETCH_DONE => exact absurd hCS nofun
  case BRANCHED =>
    simp only [Bool.false_eq_true,if_false]
    split_ifs <;> exact ⟨rfl,rfl⟩
  all_goals
    dsimp only
    split_ifs <;> exact ⟨rfl,rfl⟩

/-- The second half is at hand if the instruction ends in the line that is. -/
theorem second_same {m : Memory} {f : Fetched} (hc : p.crosses m=false)
    (hL0 : f.rdata_L0=line m p.line) :
    p.upper=true → p.short m=false → f.rdata_L0 (p.word+1)=m (p.line++p.word+1) := by
  intro hu hs
  have hk : ¬p.word=3#2 := by
    intro hk
    unfold Pos.crosses at hc
    rw [hk,hu,hs] at hc
    exact absurd hc (by decide)
  rw [hL0,append_next,if_neg hk]
  rfl

/-- In the last word it is in the next line. -/
theorem second_next {m : Memory} {f : Fetched} (hk : p.word=3#2)
    (hL0 : f.rdata_L0=line m (p.line+1)) :
    p.upper=true → p.short m=false → f.rdata_L0 (p.word+1)=m (p.line++p.word+1) := by
  intro _ _
  rw [hL0,append_next,if_pos hk,hk]
  rfl

theorem word_of_crosses {m : Memory} (hc : p.crosses m=true) : p.word=3#2 ∧ p.upper=true := by
  unfold Pos.crosses at hc
  simp only [Bool.and_eq_true,beq_iff_eq] at hc
  exact hc.1

/-- A state whose word comes from the line at hand. -/
theorem rdata_line {m : Memory} {t : State} {f : Fetched} (haddr : t.addr_q=p.addr)
    (hlast : use_last t=false) (hhwlp : use_hwlp t=false) (hL0 : f.rdata_L0=line m p.line) :
    rdata t f=m (p.line++p.word) := by
  unfold rdata addr_o
  rw [hlast,hhwlp,haddr,addr_word,hL0]
  rfl

theorem rdata_last {t : State} {f : Fetched} (hlast : use_last t=true) :
    rdata t f=t.rdata_last_q := by
  unfold rdata
  rw [hlast]
  rfl

/-- What is offered is at hand, its second half too when it is needed. -/
theorem Inv.hand (h : Inv mem s p) (hv : valid s.buffer (s.fetched mem c)=true) :
    Hand (mem s.fetch.branches) p s.buffer (s.fetched mem c) ∧ use_hwlp s.buffer=false ∧
      (p.upper=true → p.short (mem s.fetch.branches)=false →
        (s.fetched mem c).rdata_L0 (p.word+1)=mem s.fetch.branches (p.line++p.word+1)) := by
  have hphase := h.phase
  have haddr := h.addr
  unfold Phase at hphase
  unfold valid at hv
  cases hCS : s.buffer.CS <;> rw [hCS] at hphase hv
  case IDLE => exact hphase.elim
  case HWLP_WAIT_GNT => exact hphase.elim
  case HWLP_GRANTED => exact hphase.elim
  case HWLP_GRANTED_WAIT => exact hphase.elim
  case HWLP_FETCH_DONE => exact hphase.elim
  case NOT_VALID => exact absurd hv nofun
  case NOT_VALID_CROSS => exact absurd hv nofun
  case BRANCHED =>
    rcases Bool.and_eq_true_iff.mp hv with ⟨hvalid,hcross⟩
    have hasked : Fetches s.fetch (.asked p.line) ∧ c.bus.respond=true := by
      rcases hphase with hf | hf | hf
      · rw [show (s.fetched mem c).fetch_valid=_ from hf.fetch_valid] at hvalid
        exact absurd hvalid nofun
      · exact ⟨hf,hf.fetch_valid.symm.trans hvalid⟩
      · rw [show (s.fetched mem c).fetch_valid=_ from hf.fetch_valid] at hvalid
        exact absurd hvalid nofun
    have hL0 : (s.fetched mem c).rdata_L0=line (mem s.fetch.branches) p.line :=
      hasked.1.rdata_eq hasked.2
    rw [is_crossword_eq haddr hL0,Bool.not_eq_true'] at hcross
    have hhwlp : use_hwlp s.buffer=false := by simp [use_hwlp,hCS]
    have hlast : use_last s.buffer=false := by simp [use_last,hCS]
    exact ⟨⟨haddr,rdata_line haddr hlast hhwlp hL0⟩,hhwlp,second_same hcross hL0⟩
  case NOT_VALID_GRANTED =>
    rcases hphase with ⟨hp,hf⟩
    have hrespond : c.bus.respond=true := hf.fetch_valid.symm.trans hv
    have hL0 : (s.fetched mem c).rdata_L0=line (mem s.fetch.branches) p.line := hf.rdata_eq hrespond
    have hcross : p.crosses (mem s.fetch.branches)=false := by
      rw [hp]
      rfl
    have hhwlp : use_hwlp s.buffer=false := by simp [use_hwlp,hCS]
    have hlast : use_last s.buffer=false := by simp [use_last,hCS]
    exact ⟨⟨haddr,rdata_line haddr hlast hhwlp hL0⟩,hhwlp,second_same hcross hL0⟩
  case VALID =>
    rcases hphase with ⟨hcross,hbuffer,hf⟩
    have hL0 : (s.fetched mem c).rdata_L0=line (mem s.fetch.branches) p.line := by
      rcases hf with hf | ⟨-,hf⟩
      · exact (hf.rdata_kept (Or.inl rfl)).trans hbuffer
      · exact (hf.rdata_kept (Or.inr (Or.inl ⟨_,rfl⟩))).trans hbuffer
    have hhwlp : use_hwlp s.buffer=false := by simp [use_hwlp,hCS]
    have hlast : use_last s.buffer=false := by simp [use_last,hCS]
    exact ⟨⟨haddr,rdata_line haddr hlast hhwlp hL0⟩,hhwlp,second_same hcross hL0⟩
  case NOT_VALID_CROSS_GRANTED =>
    rcases hphase with ⟨hcross,hword,hf⟩
    have hrespond : c.bus.respond=true := hf.fetch_valid.symm.trans hv
    have hk := (word_of_crosses hcross).1
    have hL0 : (s.fetched mem c).rdata_L0=line (mem s.fetch.branches) (p.line+1) :=
      hf.rdata_eq hrespond
    have hlast : use_last s.buffer=true := by simp [use_last,hCS]
    exact ⟨⟨haddr,by rw [rdata_last hlast,hword,hk]⟩,by simp [use_hwlp,hCS],second_next hk hL0⟩
  case VALID_CROSS =>
    rcases hphase with ⟨hk,-,hword,hbuffer,hf⟩
    have hL0 : (s.fetched mem c).rdata_L0=line (mem s.fetch.branches) (p.line+1) :=
      (hf.rdata_kept (Or.inl rfl)).trans hbuffer
    have hlast : use_last s.buffer=true := by simp [use_last,hCS]
    exact ⟨⟨haddr,by rw [rdata_last hlast,hword,hk]⟩,by simp [use_hwlp,hCS],second_next hk hL0⟩
  case VALID_FETCH_DONE =>
    rcases hphase with ⟨hk,hword,hbuffer,hf⟩
    have hL0 : (s.fetched mem c).rdata_L0=line (mem s.fetch.branches) (p.line+1) :=
      (hf.rdata_kept (Or.inl rfl)).trans hbuffer
    have hlast : use_last s.buffer=true := by simp [use_last,hCS]
    exact ⟨⟨haddr,by rw [rdata_last hlast,hword,hk]⟩,by simp [use_hwlp,hCS],second_next hk hL0⟩
  case VALID_GRANTED =>
    rcases hphase with ⟨hcross,hk,hword,-,-⟩
    have hlast : use_last s.buffer=true := by simp [use_last,hCS]
    refine ⟨⟨haddr,by rw [rdata_last hlast,hword,hk]⟩,by simp [use_hwlp,hCS],fun hu hs => ?_⟩
    unfold Pos.crosses at hcross
    rw [hk,hu,hs] at hcross
    exact absurd hcross (by decide)

/-- Every phase has a status of the line buffer, and none is in a hardware loop. -/
theorem Inv.status (h : Inv mem s p) :
    (∃ st, Fetches s.fetch st) ∧ use_hwlp s.buffer=false ∧ s.buffer.CS≠.HWLP_WAIT_GNT := by
  have hphase := h.phase
  unfold Phase at hphase
  unfold use_hwlp
  cases hCS : s.buffer.CS <;> rw [hCS] at hphase
  case IDLE => exact hphase.elim
  case HWLP_WAIT_GNT => exact hphase.elim
  case HWLP_GRANTED => exact hphase.elim
  case HWLP_GRANTED_WAIT => exact hphase.elim
  case HWLP_FETCH_DONE => exact hphase.elim
  case BRANCHED =>
    rcases hphase with hf | hf | hf <;> exact ⟨⟨_,hf⟩,rfl,nofun⟩
  case NOT_VALID => exact ⟨⟨_,hphase.2⟩,rfl,nofun⟩
  case NOT_VALID_GRANTED => exact ⟨⟨_,hphase.2⟩,rfl,nofun⟩
  case NOT_VALID_CROSS =>
    rcases hphase.2.2 with hf | hf <;> exact ⟨⟨_,hf⟩,rfl,nofun⟩
  case NOT_VALID_CROSS_GRANTED => exact ⟨⟨_,hphase.2.2⟩,rfl,nofun⟩
  case VALID =>
    rcases hphase.2.2 with hf | hf
    · exact ⟨⟨_,hf⟩,rfl,nofun⟩
    · exact ⟨⟨_,hf.2⟩,rfl,nofun⟩
  case VALID_CROSS => exact ⟨⟨_,hphase.2.2.2.2⟩,rfl,nofun⟩
  case VALID_GRANTED => exact ⟨⟨_,hphase.2.2.2.2⟩,rfl,nofun⟩
  case VALID_FETCH_DONE => exact ⟨⟨_,hphase.2.2.2⟩,rfl,nofun⟩

/-- The place after a cycle without a branch. -/
def System.place (mem : ℕ → Memory) (s : System) (c : Cycle) (p : Pos) : Pos :=
  if (s.core mem c).ready_i then p.next (mem s.fetch.branches) else p

theorem place_taken (hr : (s.core mem c).ready_i=true) :
    s.place mem c p=p.next (mem s.fetch.branches) := if_pos hr

theorem place_kept (hr : (s.core mem c).ready_i=false) : s.place mem c p=p := by
  unfold System.place
  rw [hr]
  rfl

theorem Inv.hand_of_ready (h : Inv mem s p) (hr : (s.core mem c).ready_i=true) :
    Hand (mem s.fetch.branches) p s.buffer (s.fetched mem c) :=
  (h.hand (Bool.and_eq_true_iff.mp (ready_valid hr)).1).1

/-- The address register holds it. -/
theorem Inv.addr_next (h : Inv mem s p) (hc : Plain c) :
    (s.step mem c).buffer.addr_q=(s.place mem c p).addr := by
  rcases h.status with ⟨⟨st,hf⟩,hhwlp,hwait⟩
  rw [(frame mem hf hc hwait).latch]
  change (fsm _ _ _ _).addr_n=_
  rw [(fsm_addr (i:=s.core mem c) hc.hwloop hhwlp hwait).1]
  cases hr : (s.core mem c).ready_i with
  | true =>
    rw [place_taken hr,(h.hand_of_ready hr).addr_int_eq,hr]
    rfl
  | false =>
    rw [place_kept hr]
    unfold addr_int addr_o
    rw [hr,h.addr]
    rfl

/-- The next state, and whether a word is kept. -/
def outcome (t : State) (f : Fetched) (i : Core) (g : Bool) : FetchState×Bool :=
  ((fsm t f i g).NS,(fsm t f i g).save_rdata_last)

/-- Both after a cycle. -/
theorem Frame.latched (hfr : Frame mem s c st) (hc : Plain c) (hhwlp : use_hwlp s.buffer=false)
    (hwait : s.buffer.CS≠.HWLP_WAIT_GNT) {g : Bool} (hg : st.granted (s.ask mem c) c.bus=g) :
    (s.step mem c).buffer.CS=(outcome s.buffer (s.fetched mem c) (s.core mem c) g).1 ∧
      (s.step mem c).buffer.rdata_last_q=
        if (outcome s.buffer (s.fetched mem c) (s.core mem c) g).2 then
          if (s.core mem c).ready_i then (s.fetched mem c).rdata_L0 3
          else rdata s.buffer (s.fetched mem c)
        else s.buffer.rdata_last_q := by
  rw [hfr.latch,hg]
  refine ⟨rfl,?_⟩
  unfold PrefetchL0Buffer.latch
  rw [(fsm_addr (i:=s.core mem c) hc.hwloop hhwlp hwait).2]
  rfl

/-- The line buffer fetches the next line when the prefetcher asks. -/
theorem Frame.ahead (hfr : Frame mem s c st) (hc : Plain c) (haddr : s.buffer.addr_q=p.addr)
    (hd : do_fetch s.buffer (s.fetched mem c) (s.core mem c)=true →
      p.word=3#2 ∨ next_is_crossword s.buffer (s.fetched mem c)=true)
    (hst : st=.idle ∨ (∃ l, st=.asked l) ∧ c.bus.respond=true ∨
      st=.wants (p.line+1) ∧ do_fetch s.buffer (s.fetched mem c) (s.core mem c)=true) :
    Fetches (s.step mem c).fetch
        (if do_fetch s.buffer (s.fetched mem c) (s.core mem c) then .request (p.line+1) c.bus
        else .idle) ∧
      st.granted (s.ask mem c) c.bus=
        (do_fetch s.buffer (s.fetched mem c) (s.core mem c) && c.bus.grant) := by
  have hahead := Status.ahead _ (q:=s.ask mem c) (b:=c.bus) (l:=p.line+1) hc.branch
    (fun h => real_next haddr (hd h)) hst
  have hfetches := hfr.fetches
  rw [hahead.1] at hfetches
  exact ⟨hfetches,hahead.2⟩

/-- The next instruction starts in the line at hand: the machine waits for the next line only
if the instruction crosses into it. -/
theorem settle_inside {m : Memory} {t : State} {n : L0Buffer.System} {b : Bus} {d : Bool}
    (hf : Fetches n (if d then .request (p.line+1) b else .idle))
    (hbuffer : n.l0.L0_buffer=line m p.line)
    (hlast : (d && b.grant)=true → t.rdata_last_q=m (p.line++3#2))
    (hd : p.crosses m=false → d=true → p.word=3#2)
    (hCS : t.CS=if p.crosses m then
        if d && b.grant then .NOT_VALID_CROSS_GRANTED else .NOT_VALID_CROSS
      else if d && b.grant then .VALID_GRANTED else .VALID) : Phase m t n p := by
  unfold Phase
  cases hcross : p.crosses m <;> cases hg : d && b.grant <;> rw [hcross,hg] at hCS <;>
    rw [hCS]
  · refine ⟨rfl,hbuffer,?_⟩
    cases d with
    | false => exact Or.inl hf
    | true =>
      rw [Bool.true_and] at hg
      unfold Status.request at hf
      rw [hg] at hf
      exact Or.inr ⟨hd hcross rfl,hf⟩
  · rw [Bool.and_eq_true_iff] at hg
    unfold Status.request at hf
    rw [hg.1,hg.2] at hf
    exact ⟨rfl,hd hcross hg.1,hlast (Bool.and_eq_true_iff.mpr hg),hbuffer,hf⟩
  · refine ⟨rfl,hbuffer,?_⟩
    cases d with
    | false => exact Or.inl hf
    | true =>
      rw [Bool.true_and] at hg
      unfold Status.request at hf
      rw [hg] at hf
      exact Or.inr hf
  · rw [Bool.and_eq_true_iff] at hg
    unfold Status.request at hf
    rw [hg.1,hg.2] at hf
    exact ⟨rfl,hlast (Bool.and_eq_true_iff.mpr hg),hf⟩

/-- The next instruction is the first one of the next line. -/
theorem settle_outside {m : Memory} {t : State} {n : L0Buffer.System} {b : Bus} {l : BitVec 28}
    (hf : Fetches n (.request l b))
    (hCS : t.CS=if b.grant then .NOT_VALID_GRANTED else .NOT_VALID) :
    Phase m t n ⟨l,0#2,false⟩ := by
  unfold Phase
  unfold Status.request at hf
  cases hg : b.grant <;> rw [hg] at hCS hf <;> rw [hCS] <;> exact ⟨rfl,hf⟩

theorem fetch_possible_eq {t : State} (haddr : t.addr_q=p.addr) :
    fetch_possible t=(p.word==3#2) := by
  unfold fetch_possible addr_o
  rw [haddr,addr_word]

section Outcomes

variable {t : State} {f : Fetched} {i : Core} {g : Bool}

theorem outcome_valid (hCS : t.CS=.VALID) : outcome t f i g=
    if i.ready_i then
      if next_is_crossword t f then
        if g then (.NOT_VALID_CROSS_GRANTED,true) else (.NOT_VALID_CROSS,false)
      else if next_valid t f then
        if g && next_upper_compressed t f then (.VALID_GRANTED,true) else (.VALID,false)
      else if g then (.NOT_VALID_GRANTED,false) else (.NOT_VALID,false)
    else if g then (.VALID_GRANTED,true) else (.VALID,false) := by
  unfold outcome fsm
  rw [hCS]
  cases i.ready_i <;> cases next_is_crossword t f <;> cases next_valid t f <;> cases g <;>
    cases next_upper_compressed t f <;> rfl

theorem outcome_branched (hCS : t.CS=.BRANCHED) (hl : i.hwloop_i=false) : outcome t f i g=
    if i.ready_i then
      if next_valid t f then if g then (.VALID_GRANTED,true) else (.VALID,false)
      else if next_is_crossword t f then
        if g then (.NOT_VALID_CROSS_GRANTED,true) else (.NOT_VALID_CROSS,false)
      else if g then (.NOT_VALID_GRANTED,false) else (.NOT_VALID,false)
    else if f.fetch_valid then
      if is_crossword t f then (if g then .NOT_VALID_CROSS_GRANTED else .NOT_VALID_CROSS,true)
      else if g then (.VALID_GRANTED,true) else (.VALID,false)
    else (.BRANCHED,false) := by
  unfold outcome fsm
  rw [hCS,hl]
  cases i.ready_i <;> cases next_is_crossword t f <;> cases next_valid t f <;> cases g <;>
    cases f.fetch_valid <;> cases is_crossword t f <;> rfl

theorem outcome_not_valid (hCS : t.CS=.NOT_VALID) :
    outcome t f i g=(if g then .NOT_VALID_GRANTED else .NOT_VALID,false) := by
  unfold outcome fsm
  rw [hCS]
  cases g <;> rfl

theorem outcome_not_valid_granted (hCS : t.CS=.NOT_VALID_GRANTED) :
    outcome t f i g=(if f.fetch_valid then .VALID else .NOT_VALID_GRANTED,false) := by
  unfold outcome fsm
  rw [hCS]
  cases f.fetch_valid <;> rfl

theorem outcome_not_valid_cross (hCS : t.CS=.NOT_VALID_CROSS) :
    outcome t f i g=if g then (.NOT_VALID_CROSS_GRANTED,true) else (.NOT_VALID_CROSS,false) := by
  unfold outcome fsm
  rw [hCS]
  cases g <;> rfl

theorem outcome_not_valid_cross_granted (hCS : t.CS=.NOT_VALID_CROSS_GRANTED) : outcome t f i g=
    (if f.fetch_valid then if i.ready_i then .VALID else .VALID_CROSS
      else .NOT_VALID_CROSS_GRANTED,false) := by
  unfold outcome fsm
  rw [hCS]
  cases f.fetch_valid <;> rfl

theorem outcome_valid_cross (hCS : t.CS=.VALID_CROSS) :
    outcome t f i g=(if i.ready_i then .VALID else .VALID_CROSS,false) := by
  unfold outcome fsm
  rw [hCS]
  cases i.ready_i <;> rfl

/-- The next line comes while the last word is kept. -/
theorem outcome_valid_granted (hCS : t.CS=.VALID_GRANTED) : outcome t f i g=
    (if i.ready_i then
      if f.fetch_valid then
        if next_is_crossword t f then .VALID_CROSS
        else if next_upper_compressed t f then .VALID_FETCH_DONE
        else .VALID
      else if next_is_crossword t f then .NOT_VALID_CROSS_GRANTED
      else if next_upper_compressed t f then .VALID_GRANTED
      else .NOT_VALID_GRANTED
    else if f.fetch_valid then .VALID_FETCH_DONE else .VALID_GRANTED,false) := by
  unfold outcome fsm
  rw [hCS]
  cases i.ready_i <;> cases f.fetch_valid <;> rfl

theorem outcome_valid_fetch_done (hCS : t.CS=.VALID_FETCH_DONE) : outcome t f i g=
    (if i.ready_i then
      if next_is_crossword t f then .VALID_CROSS
      else if next_upper_compressed t f then .VALID_FETCH_DONE
      else .VALID
    else .VALID_FETCH_DONE,false) := by
  unfold outcome fsm
  rw [hCS]
  cases i.ready_i <;> rfl

end Outcomes

/-- An instruction of the line at hand is taken. -/
theorem settle_taken {m : Memory} {t u : State} {n : L0Buffer.System} {b : Bus} {d : Bool}
    {f : Fetched} (hhand : Hand m p u f) (hcross : p.crosses m=false) (hvalid : valid u f=true)
    (hL0 : f.rdata_L0=line m p.line) (hd : d=true → p.word=3#2 ∨ next_is_crossword u f=true)
    (hlast : p.word=3#2 → d=true) (hf : Fetches n (if d then .request (p.line+1) b else .idle))
    (hbuffer : n.l0.L0_buffer=line m p.line) {out : FetchState×Bool}
    (hout : out=if next_valid u f then
        if d && b.grant then (.VALID_GRANTED,true) else (.VALID,false)
      else if next_is_crossword u f then
        if d && b.grant then (.NOT_VALID_CROSS_GRANTED,true) else (.NOT_VALID_CROSS,false)
      else if d && b.grant then (.NOT_VALID_GRANTED,false) else (.NOT_VALID,false))
    (hCS : t.CS=out.1) (hsave : out.2=true → t.rdata_last_q=m (p.line++3#2)) :
    Phase m t n (p.next m) := by
  have hnc := hhand.crossword_eq hL0
  have hline := next_line m p
  rw [hhand.next_valid_eq hvalid,hnc] at hout
  cases hin : p.inside m with
  | false =>
    have hk : p.word=3#2 := by
      unfold Pos.inside at hin
      exact bne_eq_false_iff_eq.mp (Bool.or_eq_false_iff.mp hin).1
    have hnext := next_outside m p hin hcross
    have hno : Pos.crosses m ⟨p.line+1,0#2,false⟩=false := rfl
    rw [hin,hnext,hno,hlast hk,Bool.true_and] at hout
    rw [hlast hk] at hf
    rw [hnext]
    refine settle_outside hf ?_
    rw [hCS,hout]
    cases b.grant <;> rfl
  | true =>
    rw [hin,if_pos rfl] at hline
    rw [hin,Bool.true_and] at hout
    refine settle_inside (d:=d) (b:=b) (by rw [hline]; exact hf) (by rw [hline]; exact hbuffer)
      (fun hg => ?_) (fun hno hd' => ?_) ?_
    · rw [hline]
      refine hsave ?_
      rw [hout,hg]
      cases (p.next m).crosses m <;> rfl
    · rcases hd hd' with hk | hk
      · rw [next_last m p hk hin]
      · rw [hnc,hno] at hk
        exact absurd hk nofun
    · rw [hCS,hout]
      cases (p.next m).crosses m <;> cases d && b.grant <;> rfl

/-- An instruction of the line at hand is not taken. -/
theorem settle_kept {m : Memory} {t : State} {n : L0Buffer.System} {b : Bus} {d : Bool}
    (hd : d=true → p.word=3#2) (hf : Fetches n (if d then .request (p.line+1) b else .idle))
    (hbuffer : n.l0.L0_buffer=line m p.line) {out : FetchState×Bool}
    (hout : out=if p.crosses m then
        (if d && b.grant then .NOT_VALID_CROSS_GRANTED else .NOT_VALID_CROSS,true)
      else if d && b.grant then (.VALID_GRANTED,true) else (.VALID,false))
    (hCS : t.CS=out.1) (hsave : out.2=true → t.rdata_last_q=m (p.line++p.word)) : Phase m t n p := by
  refine settle_inside hf hbuffer (fun hg => ?_) (fun _ => hd) ?_
  · rw [←hd (Bool.and_eq_true_iff.mp hg).1]
    refine hsave ?_
    rw [hout,hg]
    cases p.crosses m <;> rfl
  · rw [hCS,hout]
    cases p.crosses m <;> cases d && b.grant <;> rfl

/-- An instruction of the line at hand. -/
theorem step_valid (h : Inv mem s p) (hc : Plain c) (hCS : s.buffer.CS=.VALID) :
    Phase (mem s.fetch.branches) (s.step mem c).buffer (s.step mem c).fetch (s.place mem c p) := by
  have hphase := h.phase
  unfold Phase at hphase
  rw [hCS] at hphase
  rcases hphase with ⟨hcross,hbuffer,hf⟩
  have hvalid : valid s.buffer (s.fetched mem c)=true := by
    unfold valid
    rw [hCS]
  have hhand := (h.hand hvalid).1
  have hdo : do_fetch s.buffer (s.fetched mem c) (s.core mem c)=
      ((p.word==3#2) || ((s.core mem c).ready_i && next_is_crossword s.buffer (s.fetched mem c))) := by
    unfold do_fetch
    rw [hCS,←fetch_possible_eq h.addr]
  have hL0 : (s.fetched mem c).rdata_L0=line (mem s.fetch.branches) p.line := by
    rcases hf with hf | ⟨-,hf⟩
    · exact (hf.rdata_kept (Or.inl rfl)).trans hbuffer
    · exact (hf.rdata_kept (Or.inr (Or.inl ⟨_,rfl⟩))).trans hbuffer
  have hd : do_fetch s.buffer (s.fetched mem c) (s.core mem c)=true →
      p.word=3#2 ∨ next_is_crossword s.buffer (s.fetched mem c)=true := by
    rw [hdo,Bool.or_eq_true,Bool.and_eq_true,beq_iff_eq]
    exact fun h => h.imp_right And.right
  have hd3 : p.word=3#2 → do_fetch s.buffer (s.fetched mem c) (s.core mem c)=true := fun hk => by
    rw [hdo,hk]
    rfl
  have hahead : ∃ st, Frame mem s c st ∧ Fetches (s.step mem c).fetch
      (if do_fetch s.buffer (s.fetched mem c) (s.core mem c) then .request (p.line+1) c.bus
        else .idle) ∧ st.granted (s.ask mem c) c.bus=
      (do_fetch s.buffer (s.fetched mem c) (s.core mem c) && c.bus.grant) := by
    rcases hf with hf | ⟨hk,hf⟩
    · have hfr := frame mem hf hc h.status.2.2
      exact ⟨_,hfr,hfr.ahead hc h.addr hd (Or.inl rfl)⟩
    · have hfr := frame mem hf hc h.status.2.2
      exact ⟨_,hfr,hfr.ahead hc h.addr hd (Or.inr (Or.inr ⟨rfl,hd3 hk⟩))⟩
  rcases hahead with ⟨st,hfr,hfetch,hg⟩
  have hbuffer' : (s.step mem c).fetch.l0.L0_buffer=line (mem s.fetch.branches) p.line :=
    hfr.buffer.trans hL0
  have hnext := hfr.latched hc h.status.2.1 h.status.2.2 hg
  have hout := outcome_valid (f:=s.fetched mem c) (i:=s.core mem c)
    (g:=do_fetch s.buffer (s.fetched mem c) (s.core mem c) && c.bus.grant) hCS
  cases hr : (s.core mem c).ready_i with
  | false =>
    rw [place_kept hr]
    rw [hr,if_neg nofun] at hout
    rw [hr,Bool.false_and,Bool.or_false] at hdo
    refine settle_kept (fun hk => ?_) hfetch hbuffer' (hout.trans ?_) hnext.1 (fun hsave => ?_)
    · rw [hdo] at hk
      exact eq_of_beq hk
    · rw [hcross]
      rfl
    · rw [hnext.2,hsave,if_pos rfl,hr,if_neg nofun]
      exact hhand.word
  | true =>
    rw [place_taken hr]
    rw [hr,if_pos rfl] at hout
    refine settle_taken hhand hcross hvalid hL0 hd hd3 hfetch hbuffer' ?_ hnext.1 (fun hsave => ?_)
    · -- the next line was asked for, so the upper half of the last word comes next
      have hnv := hhand.next_valid_eq hvalid
      rw [hout,hnv]
      cases hnc : next_is_crossword s.buffer (s.fetched mem c) with
      | true => cases p.inside (mem s.fetch.branches) <;> rfl
      | false =>
        cases hin : p.inside (mem s.fetch.branches) with
        | false => rfl
        | true =>
          cases hdone : do_fetch s.buffer (s.fetched mem c) (s.core mem c) with
          | false => rfl
          | true =>
            have hk := (hd hdone).resolve_right (by rw [hnc]; nofun)
            have hflags := hhand.last_flags hk
            rw [hnc,hin,Bool.false_or] at hflags
            rw [hflags]
            cases c.bus.grant <;> rfl
    · rw [hnext.2,hsave,if_pos rfl,hr,if_pos rfl,hL0]
      rfl

/-- The line of a branch target is still to come, or comes and is used like a line at hand. -/
theorem step_branched (h : Inv mem s p) (hc : Plain c) (hCS : s.buffer.CS=.BRANCHED) :
    Phase (mem s.fetch.branches) (s.step mem c).buffer (s.step mem c).fetch (s.place mem c p) := by
  have hphase := h.phase
  unfold Phase at hphase
  rw [hCS] at hphase
  have hvalid : valid s.buffer (s.fetched mem c)=
      ((s.fetched mem c).fetch_valid && !is_crossword s.buffer (s.fetched mem c)) := by
    unfold valid
    rw [hCS]
  -- an answer that is not for the line at the target changes the status only
  have hstays : ∀ {st}, Fetches s.fetch st → (s.fetched mem c).fetch_valid=false →
      (st.next (s.ask mem c) c.bus=.wants p.line ∨ st.next (s.ask mem c) c.bus=.asked p.line ∨
        st.next (s.ask mem c) c.bus=.aborted p.line) →
      Phase (mem s.fetch.branches) (s.step mem c).buffer (s.step mem c).fetch (s.place mem c p) := by
    intro st hf hfv hnext
    have hfr := frame mem hf hc h.status.2.2
    rw [hfv,Bool.false_and] at hvalid
    have hr := not_ready (c:=c) hvalid
    have hlatched := hfr.latched hc h.status.2.1 h.status.2.2 rfl
    have hout := outcome_branched (f:=s.fetched mem c) (i:=s.core mem c)
      (g:=st.granted (s.ask mem c) c.bus) hCS hc.hwloop
    rw [hr,hfv] at hout
    rw [hout] at hlatched
    have hfetches := hfr.fetches
    rw [place_kept hr]
    unfold Phase
    rw [hlatched.1]
    rcases hnext with hnext | hnext | hnext <;> rw [hnext] at hfetches
    · exact Or.inl hfetches
    · exact Or.inr (Or.inl hfetches)
    · exact Or.inr (Or.inr hfetches)
  have hover : (s.ask mem c).over p.line=p.line := by
    unfold Ask.over
    rw [show (s.ask mem c).branch_i=false from hc.branch]
    rfl
  have hrequest : Status.request p.line c.bus=.wants p.line ∨
      Status.request p.line c.bus=.asked p.line := by
    unfold Status.request
    cases c.bus.grant
    · exact Or.inl rfl
    · exact Or.inr rfl
  rcases hphase with hf | hf | hf
  · refine hstays hf hf.fetch_valid ?_
    dsimp only [Status.next]
    rw [hover]
    exact hrequest.imp_right Or.inl
  · cases hrespond : c.bus.respond with
    | false =>
      refine hstays hf (hf.fetch_valid.trans hrespond) ?_
      dsimp only [Status.next]
      rw [hrespond,show (s.ask mem c).branch_i=false from hc.branch]
      exact Or.inr (Or.inl rfl)
    | true =>
      have hfv : (s.fetched mem c).fetch_valid=true := hf.fetch_valid.trans hrespond
      have hL0 : (s.fetched mem c).rdata_L0=line (mem s.fetch.branches) p.line :=
        hf.rdata_eq hrespond
      have hfr := frame mem hf hc h.status.2.2
      have hdo : do_fetch s.buffer (s.fetched mem c) (s.core mem c)=(p.word==3#2) := by
        unfold do_fetch
        rw [hCS,←fetch_possible_eq h.addr]
      have hd : do_fetch s.buffer (s.fetched mem c) (s.core mem c)=true → p.word=3#2 := fun hk => by
        rw [hdo] at hk
        exact eq_of_beq hk
      rcases hfr.ahead hc h.addr (fun hk => Or.inl (hd hk)) (Or.inr (Or.inl ⟨⟨_,rfl⟩,hrespond⟩)) with
        ⟨hfetch,hg⟩
      have hbuffer' : (s.step mem c).fetch.l0.L0_buffer=line (mem s.fetch.branches) p.line :=
        hfr.buffer.trans hL0
      have hlatched := hfr.latched hc h.status.2.1 h.status.2.2 hg
      have hout := outcome_branched (f:=s.fetched mem c) (i:=s.core mem c)
        (g:=do_fetch s.buffer (s.fetched mem c) (s.core mem c) && c.bus.grant) hCS hc.hwloop
      cases hr : (s.core mem c).ready_i with
      | false =>
        rw [place_kept hr]
        rw [hr,hfv,is_crossword_eq h.addr hL0] at hout
        refine settle_kept hd hfetch hbuffer' hout hlatched.1 (fun hsave => ?_)
        rw [hlatched.2,hsave,if_pos rfl,hr,if_neg nofun]
        exact rdata_line h.addr (by simp [use_last,hCS]) h.status.2.1 hL0
      | true =>
        have hvalid' := (Bool.and_eq_true_iff.mp (ready_valid hr)).1
        have hcross : p.crosses (mem s.fetch.branches)=false := by
          rw [hvalid,hfv,is_crossword_eq h.addr hL0,Bool.true_and,Bool.not_eq_true'] at hvalid'
          exact hvalid'
        rw [place_taken hr]
        rw [hr,if_pos rfl] at hout
        refine settle_taken (h.hand_of_ready hr) hcross hvalid' hL0 (fun hk => Or.inl (hd hk))
          (fun hk => by rw [hdo,hk]; rfl) hfetch hbuffer' hout hlatched.1 (fun hsave => ?_)
        rw [hlatched.2,hsave,if_pos rfl,hr,if_pos rfl,hL0]
        rfl
  · refine hstays hf hf.fetch_valid ?_
    dsimp only [Status.next]
    rw [hover]
    cases c.bus.respond
    · exact Or.inr (Or.inr rfl)
    · exact hrequest.imp_right Or.inl

/-- The first line after the last one waits for its grant. -/
theorem step_not_valid (h : Inv mem s p) (hc : Plain c) (hCS : s.buffer.CS=.NOT_VALID) :
    Phase (mem s.fetch.branches) (s.step mem c).buffer (s.step mem c).fetch (s.place mem c p) := by
  have hphase := h.phase
  unfold Phase at hphase
  rw [hCS] at hphase
  rcases hphase with ⟨hp,hf⟩
  have hvalid : valid s.buffer (s.fetched mem c)=false := by
    unfold valid
    rw [hCS]
  have hfr := frame mem hf hc h.status.2.2
  have hlatched := hfr.latched hc h.status.2.1 h.status.2.2 rfl
  have hfetches := hfr.fetches
  rw [outcome_not_valid hCS] at hlatched
  have hover : (s.ask mem c).over p.line=p.line := by
    unfold Ask.over
    rw [show (s.ask mem c).branch_i=false from hc.branch]
    rfl
  dsimp only [Status.next] at hfetches
  rw [hover] at hfetches
  rw [place_kept (not_ready hvalid),hp]
  exact settle_outside hfetches hlatched.1

/-- A status that asks for a line without an answer stays. -/
theorem Frame.asked_stays {l : BitVec 28} (hfr : Frame mem s c (.asked l)) (hc : Plain c)
    (hrespond : c.bus.respond=false) : Fetches (s.step mem c).fetch (.asked l) := by
  have hfetches := hfr.fetches
  dsimp only [Status.next] at hfetches
  rw [hrespond,show (s.ask mem c).branch_i=false from hc.branch] at hfetches
  exact hfetches

/-- A prefetcher that does not ask leaves the line buffer idle. -/
theorem Frame.rests (hfr : Frame mem s c st) (hc : Plain c)
    (hd : do_fetch s.buffer (s.fetched mem c) (s.core mem c)=false)
    (hst : st=.idle ∨ (∃ l, st=.asked l) ∧ c.bus.respond=true) :
    Fetches (s.step mem c).fetch .idle := by
  have hp : (s.ask mem c).prefetch_i=false := hd
  have hrests := Status.ahead st (q:=s.ask mem c) (b:=c.bus) (l:=0) hc.branch
    (fun h => absurd (hp.symm.trans h) nofun) (hst.imp_right Or.inl)
  have hfetches := hfr.fetches
  rw [hrests.1,hp] at hfetches
  exact hfetches

theorem step_not_valid_granted (h : Inv mem s p) (hc : Plain c)
    (hCS : s.buffer.CS=.NOT_VALID_GRANTED) :
    Phase (mem s.fetch.branches) (s.step mem c).buffer (s.step mem c).fetch (s.place mem c p) := by
  have hphase := h.phase
  unfold Phase at hphase
  rw [hCS] at hphase
  rcases hphase with ⟨hp,hf⟩
  have hfr := frame mem hf hc h.status.2.2
  have hlatched := hfr.latched hc h.status.2.1 h.status.2.2 rfl
  rw [outcome_not_valid_granted hCS] at hlatched
  have hfv : (s.fetched mem c).fetch_valid=c.bus.respond := hf.fetch_valid
  rw [hfv] at hlatched
  have hvalid : valid s.buffer (s.fetched mem c)=(s.fetched mem c).fetch_valid := by
    unfold valid
    rw [hCS]
  cases hrespond : c.bus.respond with
  | false =>
    rw [hrespond] at hlatched hfv
    rw [place_kept (not_ready (hvalid.trans hfv))]
    unfold Phase
    rw [hlatched.1]
    exact ⟨hp,hfr.asked_stays hc hrespond⟩
  | true =>
    rw [hrespond] at hlatched
    have hbuffer' : (s.step mem c).fetch.l0.L0_buffer=line (mem s.fetch.branches) p.line :=
      hfr.buffer.trans (hf.rdata_eq hrespond)
    have hrests := hfr.rests hc (by unfold do_fetch; rw [hCS]) (Or.inr ⟨⟨_,rfl⟩,hrespond⟩)
    -- no instruction that starts in the first word crosses, nor does the one after it
    have hplace : (s.place mem c p).line=p.line ∧
        (s.place mem c p).crosses (mem s.fetch.branches)=false := by
      unfold System.place Pos.crosses
      rw [hp]
      cases (s.core mem c).ready_i with
      | false => exact ⟨rfl,rfl⟩
      | true =>
        rw [if_pos rfl]
        unfold Pos.next Pos.nextWord
        cases Pos.short (mem s.fetch.branches) ⟨p.line,0#2,false⟩ <;> exact ⟨rfl,rfl⟩
    unfold Phase
    rw [hlatched.1]
    exact ⟨hplace.2,by rw [hplace.1]; exact hbuffer',Or.inl hrests⟩

/-- The next line is asked for to complete an instruction. -/
theorem step_not_valid_cross (h : Inv mem s p) (hc : Plain c) (hCS : s.buffer.CS=.NOT_VALID_CROSS) :
    Phase (mem s.fetch.branches) (s.step mem c).buffer (s.step mem c).fetch (s.place mem c p) := by
  have hphase := h.phase
  unfold Phase at hphase
  rw [hCS] at hphase
  rcases hphase with ⟨hcross,hbuffer,hf⟩
  have hk := (word_of_crosses hcross).1
  have hvalid : valid s.buffer (s.fetched mem c)=false := by
    unfold valid
    rw [hCS]
  have hr := not_ready (c:=c) hvalid
  have hdo : do_fetch s.buffer (s.fetched mem c) (s.core mem c)=true := by
    unfold do_fetch
    rw [hCS]
  have hL0 : (s.fetched mem c).rdata_L0=line (mem s.fetch.branches) p.line := by
    rcases hf with hf | hf
    · exact (hf.rdata_kept (Or.inl rfl)).trans hbuffer
    · exact (hf.rdata_kept (Or.inr (Or.inl ⟨_,rfl⟩))).trans hbuffer
  have hahead : ∃ st, Frame mem s c st ∧ Fetches (s.step mem c).fetch
      (if do_fetch s.buffer (s.fetched mem c) (s.core mem c) then .request (p.line+1) c.bus
        else .idle) ∧ st.granted (s.ask mem c) c.bus=
      (do_fetch s.buffer (s.fetched mem c) (s.core mem c) && c.bus.grant) := by
    rcases hf with hf | hf
    · have hfr := frame mem hf hc h.status.2.2
      exact ⟨_,hfr,hfr.ahead hc h.addr (fun _ => Or.inl hk) (Or.inl rfl)⟩
    · have hfr := frame mem hf hc h.status.2.2
      exact ⟨_,hfr,hfr.ahead hc h.addr (fun _ => Or.inl hk) (Or.inr (Or.inr ⟨rfl,hdo⟩))⟩
  rcases hahead with ⟨st,hfr,hfetch,hg⟩
  have hlatched := hfr.latched hc h.status.2.1 h.status.2.2 hg
  rw [outcome_not_valid_cross hCS,hr,hdo,Bool.true_and] at hlatched
  rw [hdo] at hfetch
  rw [place_kept hr]
  refine settle_inside hfetch (hfr.buffer.trans hL0) (fun hgrant => ?_) (fun hno => ?_) ?_
  · rw [Bool.true_and] at hgrant
    rw [hgrant] at hlatched
    have hrdata := rdata_line h.addr (by simp [use_last,hCS]) h.status.2.1 hL0
    rw [hk] at hrdata
    exact hlatched.2.trans hrdata
  · rw [hcross] at hno
    exact absurd hno nofun
  · rw [hcross,if_pos rfl,hlatched.1,Bool.true_and]
    cases c.bus.grant <;> rfl

theorem step_not_valid_cross_granted (h : Inv mem s p) (hc : Plain c)
    (hCS : s.buffer.CS=.NOT_VALID_CROSS_GRANTED) :
    Phase (mem s.fetch.branches) (s.step mem c).buffer (s.step mem c).fetch (s.place mem c p) := by
  have hphase := h.phase
  unfold Phase at hphase
  rw [hCS] at hphase
  rcases hphase with ⟨hcross,hword,hf⟩
  have hk := word_of_crosses hcross
  have hfr := frame mem hf hc h.status.2.2
  have hlatched := hfr.latched hc h.status.2.1 h.status.2.2 rfl
  rw [outcome_not_valid_cross_granted hCS] at hlatched
  have hfv : (s.fetched mem c).fetch_valid=c.bus.respond := hf.fetch_valid
  rw [hfv] at hlatched
  have hvalid : valid s.buffer (s.fetched mem c)=(s.fetched mem c).fetch_valid := by
    unfold valid
    rw [hCS]
  cases hrespond : c.bus.respond with
  | false =>
    rw [hrespond] at hlatched hfv
    rw [place_kept (not_ready (hvalid.trans hfv))]
    unfold Phase
    rw [hlatched.1]
    exact ⟨hcross,hlatched.2.trans hword,hfr.asked_stays hc hrespond⟩
  | true =>
    rw [hrespond,if_pos rfl] at hlatched
    have hbuffer' : (s.step mem c).fetch.l0.L0_buffer=line (mem s.fetch.branches) (p.line+1) :=
      hfr.buffer.trans (hf.rdata_eq hrespond)
    have hrests := hfr.rests hc (by unfold do_fetch; rw [hCS]) (Or.inr ⟨⟨_,rfl⟩,hrespond⟩)
    cases hr : (s.core mem c).ready_i with
    | false =>
      rw [hr] at hlatched
      rw [place_kept hr]
      unfold Phase
      rw [hlatched.1]
      exact ⟨hk.1,hk.2,hlatched.2.trans hword,hbuffer',hrests⟩
    | true =>
      rw [hr] at hlatched
      rw [place_taken hr,next_crossing _ _ hcross]
      unfold Phase
      rw [hlatched.1]
      exact ⟨rfl,hbuffer',Or.inl hrests⟩

/-- After the last word of a line that is kept comes the next line, which is at hand. -/
theorem settle_after {m : Memory} {t : State} {n : L0Buffer.System}
    (hin : p.inside m=false) (hf : Fetches n .idle) (hbuffer : n.l0.L0_buffer=line m (p.line+1))
    (hCS : t.CS=.VALID) : Phase m t n (p.next m) := by
  have hnext : ∃ u, p.next m=⟨p.line+1,0#2,u⟩ := by
    cases hcross : p.crosses m with
    | true => exact ⟨_,next_crossing m p hcross⟩
    | false => exact ⟨_,next_outside m p hin hcross⟩
  rcases hnext with ⟨u,hnext⟩
  rw [hnext]
  unfold Phase
  rw [hCS]
  exact ⟨rfl,hbuffer,Or.inl hf⟩

theorem inside_of_upper {m : Memory} (hk : p.word=3#2) (hu : p.upper=true) :
    p.inside m=false := by
  unfold Pos.inside
  rw [hk,hu]
  rfl

theorem step_valid_cross (h : Inv mem s p) (hc : Plain c) (hCS : s.buffer.CS=.VALID_CROSS) :
    Phase (mem s.fetch.branches) (s.step mem c).buffer (s.step mem c).fetch (s.place mem c p) := by
  have hphase := h.phase
  unfold Phase at hphase
  rw [hCS] at hphase
  rcases hphase with ⟨hk,hu,hword,hbuffer,hf⟩
  have hfr := frame mem hf hc h.status.2.2
  have hlatched := hfr.latched hc h.status.2.1 h.status.2.2 rfl
  rw [outcome_valid_cross hCS] at hlatched
  have hbuffer' : (s.step mem c).fetch.l0.L0_buffer=line (mem s.fetch.branches) (p.line+1) :=
    hfr.buffer.trans ((hf.rdata_kept (Or.inl rfl)).trans hbuffer)
  have hrests := hfr.rests hc (by unfold do_fetch; rw [hCS]) (Or.inl rfl)
  cases hr : (s.core mem c).ready_i with
  | false =>
    rw [hr] at hlatched
    rw [place_kept hr]
    unfold Phase
    rw [hlatched.1]
    exact ⟨hk,hu,hlatched.2.trans hword,hbuffer',hrests⟩
  | true =>
    rw [hr] at hlatched
    rw [place_taken hr]
    exact settle_after (inside_of_upper hk hu) hrests hbuffer' hlatched.1

theorem step_valid_fetch_done (h : Inv mem s p) (hc : Plain c)
    (hCS : s.buffer.CS=.VALID_FETCH_DONE) :
    Phase (mem s.fetch.branches) (s.step mem c).buffer (s.step mem c).fetch (s.place mem c p) := by
  have hphase := h.phase
  unfold Phase at hphase
  rw [hCS] at hphase
  rcases hphase with ⟨hk,hword,hbuffer,hf⟩
  have hfr := frame mem hf hc h.status.2.2
  have hlatched := hfr.latched hc h.status.2.1 h.status.2.2 rfl
  rw [outcome_valid_fetch_done hCS] at hlatched
  have hlast : (s.step mem c).buffer.rdata_last_q=mem s.fetch.branches (p.line++3#2) :=
    hlatched.2.trans hword
  have hbuffer' : (s.step mem c).fetch.l0.L0_buffer=line (mem s.fetch.branches) (p.line+1) :=
    hfr.buffer.trans ((hf.rdata_kept (Or.inl rfl)).trans hbuffer)
  have hrests := hfr.rests hc (by unfold do_fetch; rw [hCS]) (Or.inl rfl)
  cases hr : (s.core mem c).ready_i with
  | false =>
    rw [hr] at hlatched
    rw [place_kept hr]
    unfold Phase
    rw [hlatched.1]
    exact ⟨hk,hlast,hbuffer',hrests⟩
  | true =>
    rw [hr,if_pos rfl] at hlatched
    have hflags := (h.hand_of_ready hr).last_flags hk
    rw [place_taken hr]
    cases hin : p.inside (mem s.fetch.branches) with
    | false =>
      rw [hin,Bool.or_eq_false_iff] at hflags
      rw [hflags.1,hflags.2] at hlatched
      exact settle_after hin hrests hbuffer' hlatched.1
    | true =>
      rw [hin] at hflags
      rw [next_last _ _ hk hin]
      -- both flags are about the line at hand, which is the next one
      unfold Phase
      cases hnc : next_is_crossword s.buffer (s.fetched mem c) with
      | true =>
        rw [hnc] at hlatched
        rw [hlatched.1]
        exact ⟨rfl,rfl,hlast,hbuffer',hrests⟩
      | false =>
        rw [hnc,Bool.false_or] at hflags
        rw [hnc,hflags] at hlatched
        rw [hlatched.1]
        exact ⟨rfl,hlast,hbuffer',hrests⟩

theorem step_valid_granted (h : Inv mem s p) (hc : Plain c) (hCS : s.buffer.CS=.VALID_GRANTED) :
    Phase (mem s.fetch.branches) (s.step mem c).buffer (s.step mem c).fetch (s.place mem c p) := by
  have hphase := h.phase
  unfold Phase at hphase
  rw [hCS] at hphase
  rcases hphase with ⟨hcross,hk,hword,hbuffer,hf⟩
  have hfr := frame mem hf hc h.status.2.2
  have hlatched := hfr.latched hc h.status.2.1 h.status.2.2 rfl
  rw [outcome_valid_granted hCS] at hlatched
  have hlast : (s.step mem c).buffer.rdata_last_q=mem s.fetch.branches (p.line++3#2) :=
    hlatched.2.trans hword
  have hfv : (s.fetched mem c).fetch_valid=c.bus.respond := hf.fetch_valid
  rw [hfv] at hlatched
  cases hrespond : c.bus.respond with
  | false =>
    rw [hrespond] at hlatched
    have hL0 : (s.fetched mem c).rdata_L0=line (mem s.fetch.branches) p.line :=
      (hf.rdata_kept (Or.inr (Or.inr ⟨⟨_,rfl⟩,hrespond⟩))).trans hbuffer
    have hbuffer' := hfr.buffer.trans hL0
    have hstays := hfr.asked_stays hc hrespond
    cases hr : (s.core mem c).ready_i with
    | false =>
      rw [hr] at hlatched
      rw [place_kept hr]
      unfold Phase
      rw [hlatched.1]
      exact ⟨hcross,hk,hlast,hbuffer',hstays⟩
    | true =>
      rw [hr] at hlatched
      have hhand := h.hand_of_ready hr
      have hflags := hhand.last_flags hk
      have hnc := hhand.crossword_eq hL0
      rw [place_taken hr]
      cases hin : p.inside (mem s.fetch.branches) with
      | false =>
        rw [hin,Bool.or_eq_false_iff] at hflags
        rw [hflags.1,hflags.2] at hlatched
        rw [next_outside _ _ hin hcross]
        unfold Phase
        rw [hlatched.1]
        exact ⟨rfl,hstays⟩
      | true =>
        rw [hin] at hflags
        rw [next_last _ _ hk hin] at hnc ⊢
        unfold Phase
        cases hcw : next_is_crossword s.buffer (s.fetched mem c) with
        | true =>
          rw [hcw] at hlatched hnc
          rw [hlatched.1]
          exact ⟨hnc.symm,hlast,hstays⟩
        | false =>
          rw [hcw,Bool.false_or] at hflags
          rw [hcw,hflags] at hlatched
          rw [hcw] at hnc
          rw [hlatched.1]
          exact ⟨hnc.symm,rfl,hlast,hbuffer',hstays⟩
  | true =>
    rw [hrespond] at hlatched
    have hbuffer' : (s.step mem c).fetch.l0.L0_buffer=line (mem s.fetch.branches) (p.line+1) :=
      hfr.buffer.trans (hf.rdata_eq hrespond)
    have hrests := hfr.rests hc (by unfold do_fetch; rw [hCS]) (Or.inr ⟨⟨_,rfl⟩,hrespond⟩)
    cases hr : (s.core mem c).ready_i with
    | false =>
      rw [hr] at hlatched
      rw [place_kept hr]
      unfold Phase
      rw [hlatched.1]
      exact ⟨hk,hlast,hbuffer',hrests⟩
    | true =>
      rw [hr,if_pos rfl,if_pos rfl] at hlatched
      have hflags := (h.hand_of_ready hr).last_flags hk
      rw [place_taken hr]
      cases hin : p.inside (mem s.fetch.branches) with
      | false =>
        rw [hin,Bool.or_eq_false_iff] at hflags
        rw [hflags.1,hflags.2] at hlatched
        exact settle_after hin hrests hbuffer' hlatched.1
      | true =>
        rw [hin] at hflags
        rw [next_last _ _ hk hin]
        unfold Phase
        cases hnc : next_is_crossword s.buffer (s.fetched mem c) with
        | true =>
          rw [hnc] at hlatched
          rw [hlatched.1]
          exact ⟨rfl,rfl,hlast,hbuffer',hrests⟩
        | false =>
          rw [hnc,Bool.false_or] at hflags
          rw [hnc,hflags] at hlatched
          rw [hlatched.1]
          exact ⟨rfl,hlast,hbuffer',hrests⟩

/-- A cycle without a branch goes on to the next instruction when this one is taken. -/
theorem Inv.step_plain (h : Inv mem s p) (hc : Plain c) :
    Inv mem (s.step mem c) (s.place mem c p) := by
  refine ⟨h.addr_next hc,?_⟩
  rcases h.status with ⟨⟨st,hf⟩,-,hwait⟩
  rw [(frame mem hf hc hwait).branches]
  have hphase := h.phase
  unfold Phase at hphase
  cases hCS : s.buffer.CS <;> rw [hCS] at hphase
  case IDLE => exact hphase.elim
  case HWLP_WAIT_GNT => exact hphase.elim
  case HWLP_GRANTED => exact hphase.elim
  case HWLP_GRANTED_WAIT => exact hphase.elim
  case HWLP_FETCH_DONE => exact hphase.elim
  case BRANCHED => exact step_branched h hc hCS
  case NOT_VALID => exact step_not_valid h hc hCS
  case NOT_VALID_GRANTED => exact step_not_valid_granted h hc hCS
  case NOT_VALID_CROSS => exact step_not_valid_cross h hc hCS
  case NOT_VALID_CROSS_GRANTED => exact step_not_valid_cross_granted h hc hCS
  case VALID => exact step_valid h hc hCS
  case VALID_CROSS => exact step_valid_cross h hc hCS
  case VALID_GRANTED => exact step_valid_granted h hc hCS
  case VALID_FETCH_DONE => exact step_valid_fetch_done h hc hCS

/-- A branch leads to its target from every status of the line buffer. -/
theorem inv_branch (hf : Fetches s.fetch st) (hCS : s.buffer.CS≠.HWLP_WAIT_GNT)
    (hl : c.hwloop_i=false) (hb : c.branch_i=true) (hp : c.addr_i=p.addr) :
    Inv mem (s.step mem c) p := by
  have hfetches := fetches_step mem (b:=c.bus) hf (no_hwlp mem hl hCS)
  have hline : lineOf (s.ask mem c).branch_addr_i=p.line := by
    change lineOf c.addr_i=_
    rw [hp]
    exact addr_line p
  have hbuffer : (s.step mem c).buffer.CS=.BRANCHED ∧ (s.step mem c).buffer.addr_q=c.addr_i := by
    unfold System.step PrefetchL0Buffer.step PrefetchL0Buffer.latch control
    rw [show (s.core mem c).branch_i=true from hb]
    exact ⟨rfl,rfl⟩
  refine ⟨hbuffer.2.trans hp,?_⟩
  unfold Phase
  rw [hbuffer.1]
  have hbranch := Status.branch st (q:=s.ask mem c) (b:=c.bus) hb
  rw [hline] at hbranch
  rcases hbranch with hnext | hnext | hnext <;> rw [hnext] at hfetches
  · exact Or.inl hfetches
  · exact Or.inr (Or.inl hfetches)
  · exact Or.inr (Or.inr hfetches)

/-- Before the first branch nothing happens. -/
def Quiet (s : System) : Prop := s.buffer.CS=.IDLE ∧ Fetches s.fetch .idle

theorem Quiet.step_plain (h : Quiet s) (hc : Plain c) : Quiet (s.step mem c) := by
  have hwait : s.buffer.CS≠.HWLP_WAIT_GNT := by
    rw [h.1]
    nofun
  have hfr := frame mem h.2 hc hwait
  refine ⟨?_,hfr.rests hc (by unfold do_fetch; rw [h.1]) (Or.inl rfl)⟩
  rw [hfr.latch]
  unfold PrefetchL0Buffer.latch fsm
  rw [h.1]

theorem Quiet.offers (h : Quiet s) : s.offers mem c=false := by
  unfold System.offers valid
  rw [h.1]
  rfl

end Invariant

section Run

variable {mem : ℕ → Memory} {s : System} {c : Cycle} {p : Pos}

/-- No hardware loop, and the targets of branches are even, as the IF stage makes them. -/
structure Promised (c : Cycle) : Prop where
  no_hwloop : c.hwloop_i=false
  even : c.addr_i.getLsbD 0=false

/-- A run before its first branch, or at the instruction of an address. -/
def Running (mem : ℕ → Memory) (s : System) (pc : BitVec 32) : Prop :=
  Quiet s ∨ ∃ p, pc=Pos.addr p ∧ Inv mem s p

theorem events_taken (hr : (s.core mem c).ready_i=true) :
    s.events mem c=[.accept (addr_o s.buffer) (rdata_o s.buffer (s.fetched mem c))] ∧
      c.branch_i=false := by
  have hoffers := ready_valid hr
  have hvalid : valid_o s.buffer (s.fetched mem c) (s.core mem c)=true := hoffers
  have hb : c.branch_i=false := by
    have hnot := (Bool.and_eq_true_iff.mp hoffers).2
    rwa [Bool.not_eq_true'] at hnot
  unfold System.events
  rw [hr,hvalid,hb]
  exact ⟨rfl,rfl⟩

theorem events_none (hr : (s.core mem c).ready_i=false) :
    s.events mem c=if c.branch_i then [.branch c.addr_i] else [] := by
  unfold System.events
  rw [hr]
  rfl

/-- The events of a cycle are those of the stream, and lead to where it goes on. -/
theorem running_step {pc : BitVec 32} (h : Running mem s pc) (hc : Promised c) :
    ∃ pc', Running mem (s.step mem c) pc' ∧ ∀ es,
      Sequential mem (s.step mem c).fetch.branches pc' es →
        Sequential mem s.fetch.branches pc (s.events mem c++es) := by
  cases hb : c.branch_i with
  | true =>
    rcases pos_of_even hc.even with ⟨p',hp'⟩
    have hnext : Inv mem (s.step mem c) p' := by
      rcases h with hquiet | ⟨p,-,hinv⟩
      · exact inv_branch hquiet.2 (by rw [hquiet.1]; nofun) hc.no_hwloop hb hp'
      · rcases hinv.status with ⟨⟨st,hf⟩,-,hwait⟩
        exact inv_branch hf hwait hc.no_hwloop hb hp'
    have hr : (s.core mem c).ready_i=false := by
      by_contra hr
      rw [(events_taken (Bool.eq_true_of_not_eq_false hr)).2] at hb
      exact absurd hb nofun
    have hbranches : (s.step mem c).fetch.branches=s.fetch.branches+1 := by
      change s.fetch.branches+c.branch_i.toNat=_
      rw [hb]
      rfl
    refine ⟨p'.addr,Or.inr ⟨p',rfl,hnext⟩,fun es hes => ?_⟩
    rw [events_none hr,hb,if_pos rfl,hp']
    rw [hbranches] at hes
    exact hes
  | false =>
    have hplain : Plain c := ⟨hb,hc.no_hwloop⟩
    have hbranches : (s.step mem c).fetch.branches=s.fetch.branches := by
      change s.fetch.branches+c.branch_i.toNat=_
      rw [hb]
      rfl
    rcases h with hquiet | ⟨p,rfl,hinv⟩
    · have hr : (s.core mem c).ready_i=false := by
        by_contra hr
        have hoffers := ready_valid (Bool.eq_true_of_not_eq_false hr)
        rw [hquiet.offers] at hoffers
        exact absurd hoffers nofun
      refine ⟨pc,Or.inl (hquiet.step_plain hplain),fun es hes => ?_⟩
      rw [events_none hr,hb]
      rw [hbranches] at hes
      exact hes
    · have hnext := hinv.step_plain hplain
      refine ⟨(s.place mem c p).addr,Or.inr ⟨_,rfl,hnext⟩,fun es hes => ?_⟩
      rw [hbranches] at hes
      cases hr : (s.core mem c).ready_i with
      | false =>
        rw [place_kept hr] at hes
        rw [events_none hr,hb]
        exact hes
      | true =>
        have hvalid := (Bool.and_eq_true_iff.mp (ready_valid hr)).1
        rcases hinv.hand hvalid with ⟨hhand,hhwlp,hsecond⟩
        rw [place_taken hr,next_addr] at hes
        rw [(events_taken hr).1]
        exact ⟨hinv.addr,hhand.stores hhwlp hsecond,hes⟩

theorem trace_sequential {cycles : List Cycle} (hc : ∀ c ∈ cycles, Promised c) {pc : BitVec 32}
    (h : Running mem s pc) : Sequential mem s.fetch.branches pc (System.trace mem s cycles) := by
  induction cycles generalizing s pc with
  | nil => trivial
  | cons c cycles ih =>
    rcases running_step h (hc c (List.mem_cons_self ..)) with ⟨pc',hnext,hevents⟩
    exact hevents _ (ih (fun c' hc' => hc c' (List.mem_cons_of_mem c hc')) hnext)

theorem running_reset (pc : BitVec 32) : Running mem System.reset pc :=
  Or.inl ⟨rfl,Or.inl rfl,rfl⟩

variable (mem) in
/-- Every run keeps the invariant. -/
theorem running_after {cycles : List Cycle} (hc : ∀ c ∈ cycles, Promised c) :
    ∃ pc, Running mem (after (System.step mem) System.reset cycles) pc := by
  induction cycles using List.reverseRecOn with
  | nil => exact ⟨0,running_reset 0⟩
  | append_singleton cycles c ih =>
    rcases ih (fun c' hc' => hc c' (List.mem_append_left _ hc')) with ⟨pc,h⟩
    rw [after_concat]
    rcases running_step h (hc c (by simp)) with ⟨pc',hnext,-⟩
    exact ⟨pc',hnext⟩

/-- The flags for crossing instructions exclude each other. -/
theorem crosswords_exclusive (s : State) (f : Fetched) :
    next_is_crossword s f=false ∨ is_crossword s f=false := by
  unfold next_is_crossword is_crossword
  by_cases h7 : (addr_o s).extractLsb' 1 3=0b111#3
  · left
    rw [h7]
    rfl
  · right
    rw [beq_eq_false_iff_ne.mpr h7]
    rfl

theorem asserted : Asserted s.buffer (s.fetched mem c) (s.core mem c) := by
  have hexclusive := crosswords_exclusive s.buffer (s.fetched mem c)
  refine ⟨ready_valid,fun h => hexclusive.resolve_left ?_,fun h => hexclusive.resolve_right ?_⟩
  · rw [h]
    nofun
  · rw [h]
    nofun

/-- A request goes out, or an answer is owed and does not come. -/
def Stalls (mem : ℕ → Memory) (s : System) (c : Cycle) : Prop :=
  instr_req_o s.fetch.l0 (s.ask mem c) (s.fetch.reply mem c.bus)=true ∨
    s.fetch.pending≠[] ∧ s.fetch.answer c.bus=none

/-- One cycle keeps the assertions, takes no answer from before the last branch, and after the
first branch waits only for the memory. -/
structure Sound (mem : ℕ → Memory) (s : System) (c : Cycle) : Prop where
  asserted : Asserted s.buffer (s.fetched mem c) (s.core mem c)
  fresh : ∀ n l, s.fetch.answer c.bus=some (n,l) → n≠s.fetch.branches →
    (s.fetched mem c).fetch_valid=false
  waits : s.buffer.CS≠.IDLE → c.branch_i=true ∨ s.offers mem c=true ∨ Stalls mem s c

/-- Only the line after the last branch counts. -/
theorem fetches_fresh (hf : Fetches s.fetch st) {n : ℕ} {l : BitVec 28}
    (hn : s.fetch.answer c.bus=some (n,l)) (hne : n≠s.fetch.branches) :
    (s.fetched mem c).fetch_valid=false := by
  refine hf.fetch_valid.trans ?_
  cases st with
  | idle => rfl
  | wants l => rfl
  | aborted l => rfl
  | asked l' =>
    by_contra hrespond
    have hanswer : s.fetch.answer c.bus=some (s.fetch.branches,l') := by
      unfold L0Buffer.System.answer
      rw [hf.2,show c.bus.respond=true from Bool.eq_true_of_not_eq_false hrespond]
      rfl
    rw [hanswer] at hn
    exact hne (Prod.mk.inj (Option.some.inj hn)).1.symm

theorem stalls_wants {l : BitVec 28} (hf : Fetches s.fetch (.wants l)) : Stalls mem s c := by
  left
  unfold instr_req_o
  rw [hf.1]

theorem answer_none {x : ℕ×BitVec 28} (hpending : s.fetch.pending=[x])
    (hrespond : c.bus.respond=false) :
    s.fetch.pending≠[] ∧ s.fetch.answer c.bus=none := by
  unfold L0Buffer.System.answer
  rw [hpending,hrespond]
  exact ⟨nofun,rfl⟩

theorem stalls_asked {l : BitVec 28} (hf : Fetches s.fetch (.asked l))
    (hfv : (s.fetched mem c).fetch_valid=false ∨
      do_fetch s.buffer (s.fetched mem c) (s.core mem c)=true) : Stalls mem s c := by
  cases hrespond : c.bus.respond with
  | false => exact Or.inr (answer_none hf.2 hrespond)
  | true =>
    left
    have hfetch := hfv.resolve_left (by
      rw [show (s.fetched mem c).fetch_valid=_ from hf.fetch_valid]
      change ¬c.bus.respond=false
      rw [hrespond]
      nofun)
    unfold instr_req_o asks
    rw [hf.1,reply_some _ hf.2,hrespond,show (s.ask mem c).prefetch_i=true from hfetch,Bool.or_true]
    rfl

theorem stalls_aborted {l : BitVec 28} (hf : Fetches s.fetch (.aborted l)) : Stalls mem s c := by
  rcases hf with ⟨hCS,-,x,hx⟩
  cases hrespond : c.bus.respond with
  | false => exact Or.inr (answer_none hx hrespond)
  | true =>
    left
    unfold instr_req_o
    rw [hCS,reply_some _ hx,hrespond]

/-- Where nothing is offered, the prefetcher waits for the memory. -/
theorem Inv.stalls (h : Inv mem s p) (hv : valid s.buffer (s.fetched mem c)=false) :
    Stalls mem s c := by
  have hphase := h.phase
  unfold Phase at hphase
  unfold valid at hv
  cases hCS : s.buffer.CS <;> rw [hCS] at hphase hv
  case IDLE => exact hphase.elim
  case HWLP_WAIT_GNT => exact hphase.elim
  case HWLP_GRANTED => exact hphase.elim
  case HWLP_GRANTED_WAIT => exact hphase.elim
  case HWLP_FETCH_DONE => exact hphase.elim
  case VALID => exact absurd hv nofun
  case VALID_CROSS => exact absurd hv nofun
  case VALID_GRANTED => exact absurd hv nofun
  case VALID_FETCH_DONE => exact absurd hv nofun
  case NOT_VALID => exact stalls_wants hphase.2
  case NOT_VALID_GRANTED => exact stalls_asked hphase.2 (Or.inl hv)
  case NOT_VALID_CROSS_GRANTED => exact stalls_asked hphase.2.2 (Or.inl hv)
  case NOT_VALID_CROSS =>
    rcases hphase.2.2 with hf | hf
    · left
      have hfetch : (s.ask mem c).prefetch_i=true := by
        change do_fetch s.buffer _ _=true
        unfold do_fetch
        rw [hCS]
      unfold instr_req_o asks
      rcases hf.1 with hidle | hidle
      · rw [hidle,hfetch,Bool.or_true]
      · rw [hidle,hfetch,Bool.or_true]
    · exact stalls_wants hf
  case BRANCHED =>
    rcases hphase with hf | hf | hf
    · exact stalls_wants hf
    · refine stalls_asked hf ?_
      cases hfv : (s.fetched mem c).fetch_valid with
      | false => exact Or.inl rfl
      | true =>
        right
        rw [hfv,Bool.true_and,Bool.not_eq_false'] at hv
        have hlast := (Bool.and_eq_true_iff.mp hv).1
        rw [(addr_half_eq h.addr).1] at hlast
        unfold do_fetch
        rw [hCS,fetch_possible_eq h.addr]
        exact (Bool.and_eq_true_iff.mp hlast).1
    · exact stalls_aborted hf

/-- Every cycle is sound. -/
theorem running_sound {pc : BitVec 32} (h : Running mem s pc) : Sound mem s c := by
  refine ⟨asserted,fun n l hn hne => ?_,fun hCS => ?_⟩
  · rcases h with hquiet | ⟨p,-,hinv⟩
    · exact fetches_fresh hquiet.2 hn hne
    · rcases hinv.status with ⟨⟨st,hf⟩,-,-⟩
      exact fetches_fresh hf hn hne
  · rcases h with hquiet | ⟨p,-,hinv⟩
    · exact absurd hquiet.1 hCS
    · cases hb : c.branch_i with
      | true => exact Or.inl rfl
      | false =>
        right
        cases hv : valid s.buffer (s.fetched mem c) with
        | true =>
          left
          unfold System.offers
          rw [hv,hb]
          rfl
        | false => exact Or.inr (hinv.stalls hv)

end Run

section Progress

variable {mem : ℕ → Memory} {s : System} {c : Cycle} {p : Pos} {st : Status}

/-- The memory answers or grants. -/
def moves (mem : ℕ → Memory) (s : System) (c : Cycle) : Bool :=
  (s.fetch.answer c.bus).isSome || s.fetch.gnt mem (s.ask mem c) c.bus

/-- Answers and grants that can come before an instruction is offered. -/
def rank (s : System) : ℕ :=
  match s.buffer.CS with
  | .BRANCHED =>
    match s.fetch.l0.CS with
    | .ABORTED_BRANCH => 5
    | .WAIT_GNT => 4
    | _ => 3
  | .NOT_VALID | .NOT_VALID_CROSS => 2
  | .NOT_VALID_GRANTED | .NOT_VALID_CROSS_GRANTED => 1
  | _ => 0

theorem rank_le (s : System) : rank s≤5 := by
  unfold rank
  split
  · split <;> omega
  all_goals omega

/-- Nothing is offered in a cycle without a branch. -/
structure Waits (mem : ℕ → Memory) (s : System) (c : Cycle) : Prop where
  plain : Plain c
  offers : s.offers mem c=false

theorem Waits.valid_eq (hw : Waits mem s c) : valid s.buffer (s.fetched mem c)=false := by
  have hoffers := hw.offers
  unfold System.offers at hoffers
  rw [hw.plain.branch,Bool.not_false,Bool.and_true] at hoffers
  exact hoffers

/-- The moves of the memory by status. -/
theorem moves_eq (hf : Fetches s.fetch st) (hl : c.hwloop_i=false)
    (hCS : s.buffer.CS≠.HWLP_WAIT_GNT) :
    moves mem s c=((s.fetch.answer c.bus).isSome || st.granted (s.ask mem c) c.bus) := by
  unfold moves
  rw [hf.gnt_eq mem (no_hwlp _ hl hCS)]

theorem answer_empty (h : s.fetch.pending=[]) : s.fetch.answer c.bus=none := by
  unfold L0Buffer.System.answer
  rw [h]
  exact ite_self _

/-- A stalled memory does not move. -/
theorem moves_silent {x : ℕ×BitVec 28} (hpending : s.fetch.pending=[x])
    (hrespond : c.bus.respond=false) (hgranted : st.granted (s.ask mem c) c.bus=false) :
    ((s.fetch.answer c.bus).isSome || st.granted (s.ask mem c) c.bus)=false := by
  rw [(answer_none hpending hrespond).2,hgranted]
  rfl

/-- A move brings the instruction closer. -/
theorem rank_step (h : Inv mem s p) (hw : Waits mem s c) :
    rank (s.step mem c)+(if moves mem s c=true then 1 else 0) ≤ rank s := by
  have hphase := h.phase
  have hv := hw.valid_eq
  have hr := not_ready (c:=c) hv
  have hwait := h.status.2.2
  have hle : (if moves mem s c=true then 1 else 0)≤1 := by split <;> omega
  unfold Phase at hphase
  unfold valid at hv
  cases hCS : s.buffer.CS <;> rw [hCS] at hphase hv
  case IDLE => exact hphase.elim
  case HWLP_WAIT_GNT => exact hphase.elim
  case HWLP_GRANTED => exact hphase.elim
  case HWLP_GRANTED_WAIT => exact hphase.elim
  case HWLP_FETCH_DONE => exact hphase.elim
  case VALID => exact absurd hv nofun
  case VALID_CROSS => exact absurd hv nofun
  case VALID_GRANTED => exact absurd hv nofun
  case VALID_FETCH_DONE => exact absurd hv nofun
  case NOT_VALID =>
    have hf := hphase.2
    have hlatched := (frame mem hf hw.plain hwait).latched hw.plain h.status.2.1 hwait rfl
    rw [outcome_not_valid hCS] at hlatched
    rw [moves_eq hf hw.plain.hwloop hwait,answer_empty hf.2.2,Option.isSome_none,Bool.false_or]
    unfold rank
    rw [hlatched.1,hCS]
    cases Status.granted (.wants p.line) (s.ask mem c) c.bus <;> exact Nat.le_refl 2
  case NOT_VALID_GRANTED =>
    have hf := hphase.2
    have hrespond : c.bus.respond=false := hf.fetch_valid.symm.trans hv
    have hgranted : Status.granted (.asked p.line) (s.ask mem c) c.bus=false := by
      simp [Status.granted,hrespond]
    have hlatched := (frame mem hf hw.plain hwait).latched hw.plain h.status.2.1 hwait rfl
    rw [outcome_not_valid_granted hCS,show (s.fetched mem c).fetch_valid=false from hv] at hlatched
    rw [moves_eq hf hw.plain.hwloop hwait,moves_silent hf.2 hrespond hgranted]
    unfold rank
    rw [hlatched.1,hCS]
    exact Nat.le_refl 1
  case NOT_VALID_CROSS_GRANTED =>
    have hf := hphase.2.2
    have hrespond : c.bus.respond=false := hf.fetch_valid.symm.trans hv
    have hgranted : Status.granted (.asked (p.line+1)) (s.ask mem c) c.bus=false := by
      simp [Status.granted,hrespond]
    have hlatched := (frame mem hf hw.plain hwait).latched hw.plain h.status.2.1 hwait rfl
    rw [outcome_not_valid_cross_granted hCS,
      show (s.fetched mem c).fetch_valid=false from hv] at hlatched
    rw [moves_eq hf hw.plain.hwloop hwait,moves_silent hf.2 hrespond hgranted]
    unfold rank
    rw [hlatched.1,hCS]
    exact Nat.le_refl 1
  case NOT_VALID_CROSS =>
    have hone : ∀ {st}, Fetches s.fetch st → s.fetch.pending=[] →
        rank (s.step mem c)+(if moves mem s c=true then 1 else 0)≤2 := by
      intro st hf hempty
      have hlatched := (frame mem hf hw.plain hwait).latched hw.plain h.status.2.1 hwait rfl
      rw [outcome_not_valid_cross hCS] at hlatched
      rw [moves_eq hf hw.plain.hwloop hwait,answer_empty hempty,Option.isSome_none,Bool.false_or]
      unfold rank
      rw [hlatched.1]
      cases st.granted (s.ask mem c) c.bus <;> exact Nat.le_refl 2
    have hrank : rank s=2 := by
      unfold rank
      rw [hCS]
    rw [hrank]
    rcases hphase.2.2 with hf | hf
    · exact hone hf hf.2
    · exact hone hf hf.2.2
  case BRANCHED =>
    dsimp only at hv
    have hstays : (s.fetched mem c).fetch_valid=false → (s.step mem c).buffer.CS=.BRANCHED := by
      intro hfv
      rcases h.status with ⟨⟨st,hf⟩,hhwlp,-⟩
      have hlatched := (frame mem hf hw.plain hwait).latched hw.plain hhwlp hwait rfl
      rw [outcome_branched hCS hw.plain.hwloop,hr,hfv] at hlatched
      exact hlatched.1
    have hover : (s.ask mem c).over p.line=p.line := by
      unfold Ask.over
      rw [show (s.ask mem c).branch_i=false from hw.plain.branch]
      rfl
    have hrequest : Fetches (s.step mem c).fetch (.request p.line c.bus) →
        (s.step mem c).buffer.CS=.BRANCHED →
        rank (s.step mem c)+(if c.bus.grant=true then 1 else 0)=4 := by
      intro hf hnext
      unfold Status.request at hf
      unfold rank
      rw [hnext]
      cases hg : c.bus.grant <;> rw [hg] at hf
      · rw [hf.1]
        rfl
      · rw [hf.1]
        rfl
    rcases hphase with hf | hf | hf
    · have hfetches := (frame mem hf hw.plain hwait).fetches
      dsimp only [Status.next] at hfetches
      rw [hover] at hfetches
      have hrank := hrequest hfetches (hstays hf.fetch_valid)
      rw [moves_eq hf hw.plain.hwloop hwait,answer_empty hf.2.2,Option.isSome_none,Bool.false_or]
      change rank (s.step mem c)+(if c.bus.grant=true then 1 else 0)≤_
      rw [hrank]
      unfold rank
      rw [hCS,hf.1]
    · have hrank : rank s=3 := by
        unfold rank
        rw [hCS,hf.1]
      rw [hrank]
      cases hrespond : c.bus.respond with
      | false =>
        have hfr := frame mem hf hw.plain hwait
        have hgranted : Status.granted (.asked p.line) (s.ask mem c) c.bus=false := by
          simp [Status.granted,hrespond]
        have hnext := hfr.asked_stays hw.plain hrespond
        rw [moves_eq hf hw.plain.hwloop hwait,moves_silent hf.2 hrespond hgranted]
        unfold rank
        rw [hstays (hf.fetch_valid.trans hrespond),hnext.1]
        exact Nat.le_refl 3
      | true =>
        have hfv : (s.fetched mem c).fetch_valid=true := hf.fetch_valid.trans hrespond
        have hcross : is_crossword s.buffer (s.fetched mem c)=true := by
          rw [hfv,Bool.true_and,Bool.not_eq_false'] at hv
          exact hv
        have hlatched := (frame mem hf hw.plain hwait).latched hw.plain h.status.2.1 hwait rfl
        rw [outcome_branched hCS hw.plain.hwloop,hr,hfv,hcross] at hlatched
        have hnext : rank (s.step mem c)≤2 := by
          unfold rank
          rw [hlatched.1]
          cases Status.granted (.asked p.line) (s.ask mem c) c.bus
          · exact Nat.le_refl 2
          · exact Nat.le_succ 1
        omega
    · have hrank : rank s=5 := by
        unfold rank
        rw [hCS,hf.1]
      have hfetches := (frame mem hf hw.plain hwait).fetches
      dsimp only [Status.next] at hfetches
      rw [hover] at hfetches
      rw [hrank]
      cases hrespond : c.bus.respond with
      | false =>
        have hgranted : Status.granted (.aborted p.line) (s.ask mem c) c.bus=false := by
          simp [Status.granted,hrespond]
        rcases hf.2.2 with ⟨x,hx⟩
        rw [moves_eq hf hw.plain.hwloop hwait,moves_silent hx hrespond hgranted]
        exact rank_le _
      | true =>
        rw [hrespond] at hfetches
        have hnext := hrequest hfetches (hstays hf.fetch_valid)
        omega

/-- Before an instruction is offered the memory moves five times at most. -/
theorem moves_bounded {pc : BitVec 32} (h : Running mem s pc) {cycles : List Cycle}
    (hw : Meets (System.step mem) (Waits mem) s cycles) :
    count (System.step mem) (moves mem) s cycles≤5 := by
  refine Nat.le_trans (count_le_measure (P:=fun s => Quiet s ∨ ∃ p, Inv mem s p) rank
    (fun s c hs hc => ?_) (fun s c hs hc => ?_) ?_ hw) (rank_le s)
  · rcases hs with hquiet | ⟨p,hinv⟩
    · exact Or.inl (hquiet.step_plain hc.plain)
    · exact Or.inr ⟨_,hinv.step_plain hc.plain⟩
  · rcases hs with hquiet | ⟨p,hinv⟩
    · have hwait : s.buffer.CS≠.HWLP_WAIT_GNT := by
        rw [hquiet.1]
        nofun
      have hline : (s.ask mem c).line=none := by
        have hask : do_fetch s.buffer (s.fetched mem c) (s.core mem c)=false := by
          unfold do_fetch
          rw [hquiet.1]
        unfold Ask.line
        rw [show (s.ask mem c).branch_i=false from hc.plain.branch,
          show (s.ask mem c).prefetch_i=false from hask]
        rfl
      have hgranted : Status.granted .idle (s.ask mem c) c.bus=false := by
        simp [Status.granted,hline]
      rw [moves_eq hquiet.2 hc.plain.hwloop hwait,answer_empty hquiet.2.2,hgranted]
      unfold rank
      rw [(hquiet.step_plain hc.plain).1,hquiet.1]
      exact Nat.le_refl 0
    · exact rank_step hinv hc
  · rcases h with hquiet | ⟨p,-,hinv⟩
    · exact Or.inl hquiet
    · exact Or.inr ⟨p,hinv⟩

end Progress

section Delivery

/-- The prefetcher hands out the sequential stream from the last branch target. Every cycle is
sound, and the memory moves five times at most before an instruction is offered. -/
theorem delivers_lines (mem : ℕ → Memory) (cycles : List Cycle) (hc : ∀ c ∈ cycles, Promised c)
    (pc : BitVec 32) : Sequential mem 0 pc (System.trace mem System.reset cycles) ∧
      ∀ before later, before++later=cycles →
        (∀ c, Sound mem (after (System.step mem) System.reset before) c) ∧
        ∀ waits, Meets (System.step mem) (Waits mem) (after (System.step mem) System.reset before)
          waits → count (System.step mem) (moves mem)
            (after (System.step mem) System.reset before) waits≤5 := by
  refine ⟨trace_sequential hc (running_reset pc),?_⟩
  rintro before later rfl
  rcases running_after mem fun c' hc' => hc c' (List.mem_append_left _ hc') with ⟨pc',h⟩
  exact ⟨fun _ => running_sound h,fun _ hw => moves_bounded h hw⟩

/-- A 32-bit instruction at `0x10E` that crosses two lines, compressed ones after the first
branch, and others in the memory before it. -/
def crossing : ℕ → Memory := fun n q =>
  if n=0 then 0xFFFFFFFF else if q=0x43 then 0x80130001 else 0x00010001

/-- A cycle of a run that jumps to `0x10C`. -/
def crossingCycle (branch_i if_valid grant respond : Bool) : Cycle :=
  ⟨branch_i,0x10C,false,0,.WAIT,true,if_valid,⟨grant,respond,fun _ => 0⟩⟩

/-- Three instructions, the second from two lines. -/
def crossingRun : List Cycle :=
  [crossingCycle true false true false,crossingCycle false true true true,
    crossingCycle false false false false,crossingCycle false true false true,
    crossingCycle false true false false]

theorem delivers_lines_run : System.trace crossing System.reset crossingRun=
      [.branch 0x10C,.accept 0x10C 0x80130001,.accept 0x10E 0x00018013,.accept 0x112 0x00010001] ∧
    Sequential crossing 0 0 (System.trace crossing System.reset crossingRun) :=
  ⟨by decide +kernel,(delivers_lines crossing crossingRun (by
    intro c hc
    fin_cases hc <;> exact ⟨rfl,rfl⟩) 0).1⟩

end Delivery

end Pulpissimo.Riscv.PrefetchL0Buffer
