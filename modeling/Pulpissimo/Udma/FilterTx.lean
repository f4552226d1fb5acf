import Pulpissimo.Lib.Machine
import Pulpissimo.Udma.FilterWalk
import Pulpissimo.Udma.TxFifoMark

/-!
# Fetch side of the filter

`udma_filter_tx_datafetch` asks the memory for the items of a walk and streams the answers with
the marks of their rows. A ledger beside the registers notes the walks that were started, the
addresses that were asked for, the answers and what was streamed. The stream is the walk with its
marks, as long as no mark is set while one of its kind is on its way.
-/

namespace Pulpissimo.Udma.FilterTx

open Pulpissimo.Machine Pulpissimo.Udma.FilterWalk Pulpissimo.Udma.TxFifoMark

variable {L2_AWIDTH_NOAL TRANS_SIZE : ℕ}

/-- Registers. -/
structure State (L2_AWIDTH_NOAL TRANS_SIZE : ℕ) where
  u_fifo : TxFifoMark.State
  pointers : Pointers L2_AWIDTH_NOAL TRANS_SIZE
  r_issof : Bool

/-- One cycle of inputs. -/
structure Input (L2_AWIDTH_NOAL TRANS_SIZE : ℕ) where
  tx_ch_gnt_i : Bool
  tx_ch_valid_i : Bool
  tx_ch_data_i : BitVec 32
  cmd_start_i : Bool
  cfg : Config L2_AWIDTH_NOAL TRANS_SIZE
  stream_ready_i : Bool

/-- Values after reset. -/
def reset : State L2_AWIDTH_NOAL TRANS_SIZE := ⟨TxFifoMark.reset,Pointers.reset,false⟩

section Code

variable (s : State L2_AWIDTH_NOAL TRANS_SIZE) (i : Input L2_AWIDTH_NOAL TRANS_SIZE)

def s_data_tx_req : Bool := req_o s.u_fifo

def tx_ch_req_o : Bool := s_data_tx_req s && s_running s.pointers

def tx_ch_addr_o : BitVec L2_AWIDTH_NOAL := s.pointers.r_loc_pointer

/-- A request is granted. -/
def handles : Bool := s_data_tx_req s && i.tx_ch_gnt_i

/-- `s_loc_pointer` inside a row. -/
def column : BitVec L2_AWIDTH_NOAL := s.pointers.r_loc_pointer+stride i.cfg

/-- `s_loc_pointer` behind a row. -/
def row : BitVec L2_AWIDTH_NOAL :=
  match s.pointers.r_mode with
  | .MODE_SLIDING => s.pointers.r_loc_startaddr+stride i.cfg
  | _ => s.pointers.r_loc_startaddr

def s_is_sof : Bool := s.pointers.r_mode != .MODE_2D && handles s i && s.r_issof

def s_is_eof : Bool := s.pointers.r_mode != .MODE_2D && handles s i && endsRow i.cfg s.pointers

def s_is_sof_next : Bool :=
  s.pointers.r_mode != .MODE_2D && handles s i && endsRow i.cfg s.pointers &&
    !endsWalk i.cfg s.pointers

def cmd_done_o : Bool := handles s i && endsWalk i.cfg s.pointers

def fifoIn : TxFifoMark.Input where
  gnt_i := i.tx_ch_gnt_i
  sof_i := s_is_sof s i
  eof_i := s_is_eof s i
  ready_i := i.stream_ready_i
  valid_i := i.tx_ch_valid_i
  data_i := i.tx_ch_data_i

def tx_ch_ready_o : Bool := ready_o s.u_fifo

def stream_valid_o : Bool := valid_o s.u_fifo

/-- `stream_data_o`, `stream_sof_o` and `stream_eof_o`. -/
def stream_o : Entry := s_fifoout s.u_fifo

/-- One clock edge. -/
def step : State L2_AWIDTH_NOAL TRANS_SIZE where
  u_fifo := TxFifoMark.step s.u_fifo (fifoIn s i)
  pointers := s.pointers.next i.cfg i.cmd_start_i (handles s i) (column s i) (row s i)
  r_issof :=
    if s_start s.pointers i.cmd_start_i || s_is_sof_next s i then true
    else if s.r_issof && handles s i then false
    else s.r_issof

end Code

/-- What was started, went out and came in. -/
structure Ledger (L2_AWIDTH_NOAL TRANS_SIZE : ℕ) where
  /-- Configuration of the last start. -/
  cfg : Config L2_AWIDTH_NOAL TRANS_SIZE
  plan : List (Item L2_AWIDTH_NOAL)
  asked : List (BitVec L2_AWIDTH_NOAL)
  answers : List (BitVec 32)
  streamed : List Entry

section Ledger

variable (s : State L2_AWIDTH_NOAL TRANS_SIZE) (i : Input L2_AWIDTH_NOAL TRANS_SIZE)

/-- The walk that is started. -/
def started : List (Item L2_AWIDTH_NOAL) :=
  if s_start s.pointers i.cmd_start_i then walk i.cfg else []

/-- The request that is granted. -/
def askedNow : List (BitVec L2_AWIDTH_NOAL) :=
  if tx_ch_req_o s && i.tx_ch_gnt_i then [tx_ch_addr_o s] else []

def answersNow : List (BitVec 32) :=
  if i.tx_ch_valid_i && tx_ch_ready_o s then [i.tx_ch_data_i] else []

def streamedNow : List Entry :=
  if stream_valid_o s && i.stream_ready_i then [stream_o s] else []

def Ledger.next (o : Ledger L2_AWIDTH_NOAL TRANS_SIZE) : Ledger L2_AWIDTH_NOAL TRANS_SIZE where
  cfg := if s_start s.pointers i.cmd_start_i then i.cfg else o.cfg
  plan := o.plan++started s i
  asked := o.asked++askedNow s i
  answers := o.answers++answersNow s i
  streamed := o.streamed++streamedNow s i

end Ledger

/-- Registers and ledger. -/
abbrev Watched (L2_AWIDTH_NOAL TRANS_SIZE : ℕ) :=
  State L2_AWIDTH_NOAL TRANS_SIZE×Ledger L2_AWIDTH_NOAL TRANS_SIZE

def start : Watched L2_AWIDTH_NOAL TRANS_SIZE := (reset,⟨⟨0,0,.MODE_LINEAR,0,0⟩,[],[],[],[]⟩)

def watch (w : Watched L2_AWIDTH_NOAL TRANS_SIZE) (i : Input L2_AWIDTH_NOAL TRANS_SIZE) :
    Watched L2_AWIDTH_NOAL TRANS_SIZE :=
  (step w.1 i,w.2.next w.1 i)

/-- The answer to the request for an item, with the marks of the item. -/
def entry (d : Item L2_AWIDTH_NOAL) (data : BitVec 32) : Entry := ⟨d.eof,d.sof,data⟩

/-- The marks of an item. -/
def markOf (d : Item L2_AWIDTH_NOAL) : Mark := ⟨d.sof,d.eof⟩

/-- The cycles in which memory and configuration keep to their rules. -/
structure Follows (w : Watched L2_AWIDTH_NOAL TRANS_SIZE) (i : Input L2_AWIDTH_NOAL TRANS_SIZE) :
    Prop where
  /-- Grants are for requests. -/
  granted : i.tx_ch_gnt_i=true → tx_ch_req_o w.1=true
  /-- Answers are for requests that were granted. -/
  answered : i.tx_ch_valid_i=true → w.2.answers.length < w.2.asked.length
  /-- The configuration stays while a walk is under way. -/
  held : s_running w.1.pointers=true → i.cfg=w.2.cfg
  /-- A start is for one of the three patterns. -/
  pattern : s_start w.1.pointers i.cmd_start_i=true → i.cfg.cfg_mode_i≠.MODE_2D

/-- The cycles in which no mark is lost. -/
structure Clean (w : Watched L2_AWIDTH_NOAL TRANS_SIZE) (i : Input L2_AWIDTH_NOAL TRANS_SIZE) : Prop
    extends Follows w i where
  /-- No first item of a row is asked for while another one is on its way. -/
  sof : s_is_sof w.1 i=true →
    w.1.u_fifo.r_mark_sof_cnt=0 ∨ s_mark_sof_evt w.1.u_fifo (fifoIn w.1 i)=true
  /-- No last item of a row is asked for while another one is on its way. -/
  eof : s_is_eof w.1 i=true →
    w.1.u_fifo.r_mark_eof_cnt=0 ∨ s_mark_eof_evt w.1.u_fifo (fifoIn w.1 i)=true

instance (w : Watched L2_AWIDTH_NOAL TRANS_SIZE) (i : Input L2_AWIDTH_NOAL TRANS_SIZE) :
    Decidable (Follows w i) :=
  decidable_of_iff
    ((i.tx_ch_gnt_i=true → tx_ch_req_o w.1=true) ∧
      (i.tx_ch_valid_i=true → w.2.answers.length < w.2.asked.length) ∧
      (s_running w.1.pointers=true → i.cfg=w.2.cfg) ∧
      (s_start w.1.pointers i.cmd_start_i=true → i.cfg.cfg_mode_i≠.MODE_2D))
    ⟨fun ⟨h₁,h₂,h₃,h₄⟩ => ⟨h₁,h₂,h₃,h₄⟩,fun ⟨h₁,h₂,h₃,h₄⟩ => ⟨h₁,h₂,h₃,h₄⟩⟩

instance (w : Watched L2_AWIDTH_NOAL TRANS_SIZE) (i : Input L2_AWIDTH_NOAL TRANS_SIZE) :
    Decidable (Clean w i) :=
  decidable_of_iff
    (Follows w i ∧
      (s_is_sof w.1 i=true →
        w.1.u_fifo.r_mark_sof_cnt=0 ∨ s_mark_sof_evt w.1.u_fifo (fifoIn w.1 i)=true) ∧
      (s_is_eof w.1 i=true →
        w.1.u_fifo.r_mark_eof_cnt=0 ∨ s_mark_eof_evt w.1.u_fifo (fifoIn w.1 i)=true))
    ⟨fun ⟨h₁,h₂,h₃⟩ => ⟨h₁,h₂,h₃⟩,fun ⟨h₁,h₂,h₃⟩ => ⟨h₁,h₂,h₃⟩⟩

/-- The walks are fetched and streamed. -/
structure Fetches (w : Watched L2_AWIDTH_NOAL TRANS_SIZE) : Prop where
  /-- The addresses are those of the walks. -/
  asked : w.2.asked=(w.2.plan.take w.2.asked.length).map Item.addr
  /-- The stream has the answers with the marks of their items. -/
  streamed : w.2.streamed=(List.zipWith entry w.2.plan w.2.answers).take w.2.streamed.length
  /-- Four items at most are between the request and the stream. -/
  behind : w.2.streamed.length ≤ w.2.answers.length ∧ w.2.answers.length ≤ w.2.asked.length ∧
    w.2.asked.length ≤ w.2.streamed.length+4
  /-- The filter is idle when all items were asked for. -/
  idle : w.1.pointers.r_state=.ST_IDLE ↔ w.2.asked.length=w.2.plan.length
  /-- The next item is asked for as soon as there is room for it. -/
  requests : tx_ch_req_o w.1=true ↔
    w.2.asked.length < w.2.plan.length ∧ w.2.asked.length < w.2.streamed.length+4
  /-- An answer is streamed as soon as it came. -/
  valid : stream_valid_o w.1=true ↔ w.2.streamed.length < w.2.answers.length

/-- The items that are left of the walk. -/
def Leaves (c : Config L2_AWIDTH_NOAL TRANS_SIZE) (left : List (Item L2_AWIDTH_NOAL))
    (s : State L2_AWIDTH_NOAL TRANS_SIZE) : Prop :=
  (s.pointers.r_state=.ST_IDLE ∧ left=[]) ∨
    ∃ k,At (address c) c k s.pointers ∧ left=(walk c).drop k ∧ s.r_issof=decide (k%columns c=0)

section Leaves

variable {c : Config L2_AWIDTH_NOAL TRANS_SIZE} {left : List (Item L2_AWIDTH_NOAL)}
  {s : State L2_AWIDTH_NOAL TRANS_SIZE} {i : Input L2_AWIDTH_NOAL TRANS_SIZE} {k : ℕ}

/-- The pointers follow the walk. -/
theorem at_handle (h : At (address c) c k s.pointers) (hcfg : i.cfg=c) (hgo : handles s i=true) :
    (k+1=rows c*columns c → (step s i).pointers.r_state=.ST_IDLE) ∧
      (k+1≠rows c*columns c → At (address c) c (k+1) (step s i).pointers) := by
  unfold step
  dsimp only
  rw [hgo,hcfg]
  refine ⟨h.finish,fun hmore => h.next hmore (fun _ => ?_) (fun _ => ?_)⟩
  · rw [column,hcfg,h.pointer,address_column]
  · unfold row
    rw [h.mode,hcfg,h.startaddr]
    cases hmode : c.cfg_mode_i with
    | MODE_SLIDING => exact (address_sliding hmode).symm
    | _ =>
      have hother : c.cfg_mode_i≠.MODE_SLIDING := hmode ▸ Mode.noConfusion
      exact (address_same hother).trans (address_same hother).symm

/-- The pointers wait for a grant. -/
theorem at_wait (h : At (address c) c k s.pointers) (hcfg : i.cfg=c) (hgo : handles s i=false) :
    (step s i).pointers=s.pointers := by
  unfold step
  dsimp only
  rw [hgo,hcfg]
  exact h.wait

/-- The marks that go with a request. -/
theorem marks_eq (h : At (address c) c k s.pointers) (hcfg : i.cfg=c)
    (hissof : s.r_issof=decide (k%columns c=0)) :
    s_is_sof s i=(handles s i && (nth c k).sof) ∧ s_is_eof s i=(handles s i && (nth c k).eof) := by
  have hpattern : (s.pointers.r_mode != .MODE_2D)=true := by
    rw [h.mode]
    exact bne_iff_ne.mpr h.pattern
  have hrow : endsRow i.cfg s.pointers=(nth c k).eof := by
    rw [hcfg,Bool.eq_iff_iff,h.endsRow_iff]
    exact decide_eq_true_iff.symm
  unfold s_is_sof s_is_eof
  rw [hpattern,Bool.true_and,hrow,hissof]
  exact ⟨rfl,rfl⟩

/-- The first item of a row is marked. -/
theorem issof_step (h : At (address c) c k s.pointers) (hcfg : i.cfg=c)
    (hmore : k+1≠rows c*columns c) (hgo : handles s i=true) :
    (step s i).r_issof=decide ((k+1)%columns c=0) := by
  have hpattern : (s.pointers.r_mode != .MODE_2D)=true := by
    rw [h.mode]
    exact bne_iff_ne.mpr h.pattern
  have hends : endsWalk c s.pointers=false := by
    rw [←Bool.not_eq_true,h.endsWalk_iff]
    exact hmore
  have hnext : s_is_sof_next s i=endsRow c s.pointers := by
    unfold s_is_sof_next
    rw [hpattern,hgo,hcfg,hends]
    exact (Bool.and_true _).trans (Bool.true_and _)
  have hclear : (if s.r_issof then false else s.r_issof)=false := by
    cases s.r_issof <;> rfl
  unfold step
  dsimp only
  rw [h.not_start,hnext,hgo,Bool.false_or,Bool.and_true,hclear]
  by_cases hlast : k%columns c=c.cfg_len0_i.toNat
  · rw [h.endsRow_iff.mpr hlast,(next_row hlast).1]
    rfl
  · rw [Bool.eq_false_iff.mpr (mt h.endsRow_iff.mp hlast),(next_column hlast).1]
    exact (decide_eq_false (Nat.succ_ne_zero _)).symm

theorem issof_wait (h : At (address c) c k s.pointers) (hgo : handles s i=false) :
    (step s i).r_issof=s.r_issof := by
  unfold step s_is_sof_next
  dsimp only
  rw [h.not_start,hgo,Bool.and_false,Bool.and_false]
  rfl

/-- What is asked for is the head of what is left. -/
theorem Leaves.step (h : Leaves c left s)
    (hgranted : i.tx_ch_gnt_i=true → tx_ch_req_o s=true)
    (hheld : s_running s.pointers=true → i.cfg=c)
    (hpattern : s_start s.pointers i.cmd_start_i=true → i.cfg.cfg_mode_i≠.MODE_2D) :
    ∃ out left',left++started s i=out++left' ∧ askedNow s i=out.map Item.addr ∧
      out.map markOf=(if handles s i then [⟨s_is_sof s i,s_is_eof s i⟩] else []) ∧
      Leaves (if s_start s.pointers i.cmd_start_i then i.cfg else c) left' (FilterTx.step s i) := by
  rcases h with ⟨hidle,rfl⟩ | ⟨k,hat,rfl,hissof⟩
  · have hrun : s_running s.pointers=false := by rw [s_running,hidle]; rfl
    have hgnt : i.tx_ch_gnt_i=false := by
      cases hgnt : i.tx_ch_gnt_i with
      | false => rfl
      | true =>
        have hreq := hgranted hgnt
        rw [tx_ch_req_o,hrun,Bool.and_false] at hreq
        exact absurd hreq Bool.false_ne_true
    have hgo : handles s i=false := by rw [handles,hgnt,Bool.and_false]
    refine ⟨[],started s i,rfl,?_,?_,?_⟩
    · rw [askedNow,hgnt,Bool.and_false]
      rfl
    · rw [hgo]
      rfl
    · unfold started
      cases hcmd : i.cmd_start_i with
      | false =>
        have hstart : s_start s.pointers false=false := Bool.and_false _
        rw [hstart]
        refine Or.inl ⟨?_,rfl⟩
        unfold FilterTx.step Pointers.next
        dsimp only
        rw [hcmd,hstart,hgo]
        exact hidle
      | true =>
        have hstart : s_start s.pointers true=true := by rw [s_start,hidle]; rfl
        have hboth : s_start s.pointers i.cmd_start_i=true := by rw [hcmd]; exact hstart
        rw [hstart]
        refine Or.inr ⟨0,?_,rfl,?_⟩
        · have hfirst : At (address i.cfg) i.cfg 0
              (s.pointers.next i.cfg true (handles s i) (column s i) (row s i)) :=
            at_start hidle (hpattern hboth) address_zero (handles s i)
          unfold FilterTx.step
          dsimp only
          rw [hcmd]
          exact hfirst
        · unfold FilterTx.step
          dsimp only
          rw [hboth,Nat.zero_mod]
          rfl
  · have hcfg : i.cfg=c := hheld (by rw [s_running,hat.running]; rfl)
    have hstarted : started s i=[] := by rw [started,hat.not_start]; rfl
    have hmarks := marks_eq hat hcfg hissof
    rw [hstarted,List.append_nil,hat.not_start,if_neg Bool.false_ne_true]
    have hreq : tx_ch_req_o s=s_data_tx_req s := by
      rw [tx_ch_req_o,s_running,hat.running]
      exact Bool.and_true _
    have hasked : askedNow s i=if handles s i then [s.pointers.r_loc_pointer] else [] := by
      rw [askedNow,hreq]
      rfl
    cases hgo : handles s i with
    | false =>
      refine ⟨[],(walk c).drop k,rfl,?_,rfl,Or.inr ⟨k,?_,rfl,?_⟩⟩
      · rw [hasked,hgo]
        rfl
      · rw [at_wait hat hcfg hgo]
        exact hat
      · rw [issof_wait hat hgo]
        exact hissof
    | true =>
      refine ⟨[nth c k],(walk c).drop (k+1),drop_walk hat.inside,?_,?_,?_⟩
      · rw [hasked,hgo,hat.pointer]
        rfl
      · rw [hmarks.1,hmarks.2,hgo]
        rfl
      · by_cases hlast : k+1=rows c*columns c
        · refine Or.inl ⟨(at_handle hat hcfg hgo).1 hlast,List.drop_eq_nil_of_le ?_⟩
          rw [length_walk,hlast]
        · exact Or.inr ⟨k+1,(at_handle hat hcfg hgo).2 hlast,rfl,
            issof_step hat hcfg hlast hgo⟩

end Leaves

/-- Items that were answered, and items that were asked for and not answered. -/
structure Inv (w : Watched L2_AWIDTH_NOAL TRANS_SIZE) (served flight left : List (Item L2_AWIDTH_NOAL))
    (l : List Entry) : Prop where
  plan : w.2.plan=served++(flight++left)
  asked : w.2.asked=(served++flight).map Item.addr
  answers : w.2.answers.length=served.length
  streamed : w.2.streamed++l=List.zipWith entry served w.2.answers
  holds : Holds w.1.u_fifo (flight.map markOf) l
  leaves : Leaves w.2.cfg left w.1

section Inv

variable {w : Watched L2_AWIDTH_NOAL TRANS_SIZE} {i : Input L2_AWIDTH_NOAL TRANS_SIZE}
  {served flight left : List (Item L2_AWIDTH_NOAL)} {l : List Entry}

theorem inv_start : Inv (start : Watched L2_AWIDTH_NOAL TRANS_SIZE) [] [] [] [] where
  plan := rfl
  asked := rfl
  answers := rfl
  streamed := rfl
  holds := holds_reset
  leaves := Or.inl ⟨rfl,rfl⟩

/-- What goes into the stream leaves the queue. -/
theorem streamed_rest (h : Holds w.1.u_fifo (flight.map markOf) l) :
    streamedNow w.1 i++IoFifo.rest (fifoInput w.1.u_fifo (fifoIn w.1 i)) l=l := by
  unfold streamedNow stream_valid_o stream_o IoFifo.rest fifoInput fifoIn
  dsimp only
  rcases l with _ | ⟨x,xs⟩
  · have hempty : ¬valid_o w.1.u_fifo=true := fun hvalid => h.valid_o_iff.mp hvalid rfl
    rw [Bool.eq_false_iff.mpr hempty,Bool.false_and,if_neg Bool.false_ne_true]
    split_ifs <;> rfl
  · have hfront : s_fifoout w.1.u_fifo=x := h.stores.data_o_eq
    rw [h.valid_o_iff.mpr (List.cons_ne_nil x xs),hfront,Bool.true_and]
    split_ifs <;> rfl

/-- An answer is for the first item on its way. -/
theorem Inv.came (h : Inv w served flight left l) (hc : Clean w i) :
    ∃ came stay,flight=came++stay ∧ came.length=i.tx_ch_valid_i.toNat ∧
      answersNow w.1 i=List.replicate came.length i.tx_ch_data_i := by
  cases hvalid : i.tx_ch_valid_i with
  | false =>
    refine ⟨[],flight,rfl,rfl,?_⟩
    rw [answersNow,hvalid]
    rfl
  | true =>
    have hflight : flight≠[] := fun hnil => by
      have hlt := hc.answered hvalid
      rw [h.answers,h.asked,hnil,List.append_nil,List.length_map] at hlt
      exact lt_irrefl _ hlt
    have hmarks : flight.map markOf≠[] := fun hnil => hflight (List.map_eq_nil_iff.mp hnil)
    have hready : tx_ch_ready_o w.1=true :=
      (h.holds.comes_eq (i:=fifoIn w.1 i) fun _ => hmarks).2 hvalid
    rcases List.exists_cons_of_ne_nil hflight with ⟨d,ds,rfl⟩
    refine ⟨[d],ds,rfl,rfl,?_⟩
    rw [answersNow,hvalid,hready]
    rfl

/-- One cycle in which nothing is lost. -/
theorem Inv.step (h : Inv w served flight left l) (hc : Clean w i) :
    ∃ served flight left l,Inv (watch w i) served flight left l := by
  rcases h.leaves.step hc.granted hc.held hc.pattern with ⟨out,left',hleft,hout,hmarks,hleaves⟩
  rcases h.came hc with ⟨came,stay,rfl,hcame,hanswers⟩
  have hholds := h.holds
  rw [List.map_append] at hholds
  have hsofAsks : s_is_sof w.1 i=true → handles w.1 i=true := fun hsof =>
    (Bool.and_eq_true_iff.mp (Bool.and_eq_true_iff.mp hsof).1).2
  have heofAsks : s_is_eof w.1 i=true → handles w.1 i=true := fun heof =>
    (Bool.and_eq_true_iff.mp (Bool.and_eq_true_iff.mp heof).1).2
  have hnext := hholds.step (i:=fifoIn w.1 i) ((List.length_map _).trans hcame) hsofAsks heofAsks
    hc.sof hc.eof
  have hnow : (stay++out).map markOf=stay.map markOf++
      if asks w.1.u_fifo (fifoIn w.1 i) then [⟨(fifoIn w.1 i).sof_i,(fifoIn w.1 i).eof_i⟩] else [] := by
    rw [List.map_append,hmarks]
    rfl
  have hentries : List.zipWith entry came (answersNow w.1 i)=
      (came.map markOf).map (·.entry i.tx_ch_data_i) := by
    rw [hanswers,List.map_map]
    clear hcame hanswers hnext hholds h
    induction came with
    | nil => rfl
    | cons d ds ih => exact congrArg _ ih
  rw [←hnow] at hnext
  refine ⟨served++came,stay++out,left',_,?_,?_,?_,?_,hnext,hleaves⟩
  · have hplan : (watch w i).2.plan=w.2.plan++started w.1 i := rfl
    simp only [hplan,h.plan,List.append_assoc,hleft]
  · have hasked : (watch w i).2.asked=w.2.asked++askedNow w.1 i := rfl
    simp only [hasked,h.asked,hout,List.map_append,List.append_assoc]
  · have hlength : (watch w i).2.answers.length=w.2.answers.length+(answersNow w.1 i).length :=
      List.length_append
    rw [hlength,h.answers,hanswers,List.length_replicate,List.length_append]
  · have hstreamed : (watch w i).2.streamed=w.2.streamed++streamedNow w.1 i := rfl
    have hall : (watch w i).2.answers=w.2.answers++answersNow w.1 i := rfl
    rw [hstreamed,hall,List.zipWith_append h.answers.symm,←h.streamed,hentries,List.append_assoc,
      ←List.append_assoc (streamedNow w.1 i),streamed_rest h.holds,List.append_assoc]
    rfl

/-- The invariant says that the walks are fetched. -/
theorem Inv.fetches (h : Inv w served flight left l) : Fetches w := by
  have hstreamed := congrArg List.length h.streamed
  have hasked := congrArg List.length h.asked
  have hplan := congrArg List.length h.plan
  have hanswers := h.answers
  have hflight : (flight.map markOf).length=flight.length := List.length_map _
  have hroom : flight.length+l.length ≤ 4 := hflight ▸ h.holds.room
  simp only [List.length_append,List.length_map,List.length_zipWith] at hstreamed hasked hplan
  have hleft : w.1.pointers.r_state=.ST_IDLE ↔ left=[] := by
    rcases h.leaves with ⟨hidle,hnil⟩ | ⟨k,hat,hdrop,_⟩
    · exact iff_of_true hidle hnil
    · refine iff_of_false ?_ ?_
      · rw [hat.running]
        exact Phase.noConfusion
      · rw [hdrop,drop_walk hat.inside]
        exact List.cons_ne_nil _ _
  refine ⟨?_,?_,⟨?_,?_,?_⟩,?_,?_,?_⟩
  · rw [hasked,h.plan,←List.append_assoc,←List.length_append,List.take_left]
    exact h.asked
  · have hzip : List.zipWith entry w.2.plan w.2.answers=w.2.streamed++l := by
      have hall : List.zipWith entry (served++(flight++left)) (w.2.answers++[])=
          List.zipWith entry served w.2.answers++List.zipWith entry (flight++left) [] :=
        List.zipWith_append h.answers.symm
      rw [List.append_nil,List.zipWith_nil_right,List.append_nil,←h.streamed] at hall
      rw [h.plan,hall]
    rw [hzip,List.take_left]
  · omega
  · omega
  · omega
  · rw [hleft,←List.length_eq_zero_iff]
    omega
  · have hroomy : s_data_tx_req w.1=true ↔ flight.length+l.length < 4 :=
      hflight ▸ h.holds.req_o_iff
    have hrun : s_running w.1.pointers=true ↔ left≠[] := by
      rw [Ne,←hleft,s_running,beq_iff_eq]
      cases w.1.pointers.r_state <;> decide
    rw [tx_ch_req_o,Bool.and_eq_true_iff,hroomy,hrun,←List.length_pos_iff_ne_nil]
    omega
  · unfold stream_valid_o
    rw [h.holds.valid_o_iff,←List.length_pos_iff_ne_nil]
    omega

end Inv

section Example

/-- A cycle of a circular transfer of words over rows of `len0+1` items. -/
def exampleInput (len0 len1 : BitVec 16) (cmd gnt : Bool) (answer : Option (BitVec 32)) :
    Input 15 16 where
  tx_ch_gnt_i := gnt
  tx_ch_valid_i := answer.isSome
  tx_ch_data_i := answer.getD 0
  cmd_start_i := cmd
  cfg := ⟨0x100,2,.MODE_CIRCULAR,len0,len1⟩
  stream_ready_i := true

/-- Two rows of one item, both asked for before the first answer. -/
def lostInputs : List (Input 15 16) :=
  [exampleInput 0 1 true false none,exampleInput 0 1 false true none,
    exampleInput 0 1 false true none,exampleInput 0 1 false false (some 0x11),
    exampleInput 0 1 false false (some 0x22),exampleInput 0 1 false false none]

/-- The marks of the first row are lost. -/
theorem not_fetches : Meets watch Follows (start : Watched 15 16) lostInputs ∧
    ¬Fetches (after watch (start : Watched 15 16) lostInputs) :=
  ⟨by decide +kernel,fun h => absurd h.streamed (by decide +kernel)⟩

end Example

/-- In every run in which no mark is set while one of its kind is on its way, the walks are
fetched and streamed with the marks of their rows. -/
theorem fetches_of_clean (is : List (Input L2_AWIDTH_NOAL TRANS_SIZE))
    (hc : Meets watch Clean start is) : Fetches (after watch start is) := by
  have hinv : ∃ served flight left l,Inv (after watch start is) served flight left l :=
    after_invariant_of_meets (P:=fun w => ∃ served flight left l,Inv w served flight left l)
      (fun _ _ ⟨_,_,_,_,h⟩ hclean => h.step hclean) ⟨[],[],[],[],inv_start⟩ hc
  rcases hinv with ⟨_,_,_,_,h⟩
  exact h.fetches

section Example

/-- Two rows of two items, one request in flight behind the other. -/
def exampleInputs : List (Input 15 16) :=
  [exampleInput 1 1 true false none,exampleInput 1 1 false true none,
    exampleInput 1 1 false true none,exampleInput 1 1 false true (some 0x11),
    exampleInput 1 1 false true (some 0x22),exampleInput 1 1 false false (some 0x33),
    exampleInput 1 1 false false (some 0x44),exampleInput 1 1 false false none]

/-- The rule for that run: two rows are streamed with their marks. -/
theorem fetches_of_clean_example :
    (after watch (start : Watched 15 16) exampleInputs).2.asked=[0x100,0x104,0x100,0x104] ∧
      (after watch (start : Watched 15 16) exampleInputs).2.streamed=
        [⟨false,true,0x11⟩,⟨true,false,0x22⟩,⟨false,true,0x33⟩,⟨true,false,0x44⟩] ∧
      Fetches (after watch (start : Watched 15 16) exampleInputs) :=
  ⟨by decide +kernel,by decide +kernel,fetches_of_clean exampleInputs (by decide +kernel)⟩

end Example

end Pulpissimo.Udma.FilterTx
