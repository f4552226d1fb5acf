import Mathlib.Data.List.GetD
import Pulpissimo.Udma.IoFifo

/-!
# The queue that marks the rows

`io_tx_fifo_mark` asks for as many values as it has room for. The first and the last value of a
row are marked when they are asked for, and the mark is put on the value when it comes: a counter
for each kind of mark says how many values are still to come until then. There is one counter for
each kind, so that one value of a kind at most may be on its way.
-/

namespace Pulpissimo.Udma.TxFifoMark

open Pulpissimo.Udma.IoFifo

/-- `BUFFER_DEPTH` of the filter. -/
abbrev BUFFER_DEPTH : ℕ := 4

/-- `LOG_BUFFER_DEPTH`, one more than the logarithm. -/
abbrev LOG_BUFFER_DEPTH : ℕ := 3

/-- A value with its marks. -/
structure Entry where
  eof : Bool
  sof : Bool
  data : BitVec 32
deriving DecidableEq

instance : Inhabited Entry := ⟨⟨false,false,0⟩⟩

/-- Registers. -/
structure State where
  i_fifo : IoFifo.State BUFFER_DEPTH Entry
  r_inflight : BitVec (LOG_BUFFER_DEPTH+1)
  r_mark_sof_cnt : BitVec (LOG_BUFFER_DEPTH+1)
  r_mark_eof_cnt : BitVec (LOG_BUFFER_DEPTH+1)

/-- One cycle of inputs. The clear input is tied to zero. -/
structure Input where
  gnt_i : Bool
  sof_i : Bool
  eof_i : Bool
  ready_i : Bool
  valid_i : Bool
  data_i : BitVec 32

/-- Values after reset. -/
def reset : State := ⟨IoFifo.reset,0,0,0⟩

section Code

variable (s : State) (i : Input)

def s_free_ele : BitVec (LOG_BUFFER_DEPTH+1) :=
  BitVec.ofNat _ BUFFER_DEPTH-BitVec.ofNat _ s.i_fifo.elements

def s_stop_req : Bool := s_free_ele s==s.r_inflight

def ready_o : Bool := IoFifo.ready_o s.i_fifo

def req_o : Bool := ready_o s && !s_stop_req s

def valid_o : Bool := IoFifo.valid_o s.i_fifo

/-- The entry in front: `data_o`, `sof_o` and `eof_o`. -/
def s_fifoout : Entry := IoFifo.data_o s.i_fifo

/-- A value comes. -/
def comes : Bool := i.valid_i && ready_o s

/-- A value is asked for. -/
def asks : Bool := req_o s && i.gnt_i

def s_mark_sof_evt : Bool := s.r_mark_sof_cnt==1 && comes s i

def s_mark_eof_evt : Bool := s.r_mark_eof_cnt==1 && comes s i

def s_fifoin : Entry := ⟨s_mark_eof_evt s i,s_mark_sof_evt s i,i.data_i⟩

def fifoInput : IoFifo.Input Entry := ⟨false,i.ready_i,i.valid_i,s_fifoin s i⟩

/-- A counter of marks. -/
def mark (cnt : BitVec (LOG_BUFFER_DEPTH+1)) (set : Bool) : BitVec (LOG_BUFFER_DEPTH+1) :=
  if set then if asks s i && (!i.valid_i || !ready_o s) then s.r_inflight+1 else s.r_inflight
  else if cnt != 0 && comes s i then cnt-1
  else cnt

/-- One clock edge. -/
def step : State where
  i_fifo := IoFifo.step s.i_fifo (fifoInput s i)
  r_inflight :=
    if asks s i then if !i.valid_i || !ready_o s then s.r_inflight+1 else s.r_inflight
    else if comes s i then s.r_inflight-1
    else s.r_inflight
  r_mark_sof_cnt := mark s i s.r_mark_sof_cnt i.sof_i
  r_mark_eof_cnt := mark s i s.r_mark_eof_cnt i.eof_i

end Code

/-- A counter says which of the values on their way has a mark. -/
def Counts (cnt : ℕ) (marks : List Bool) : Prop := ∀ k, marks.getD k false=true ↔ k+1=cnt

section Counts

variable {cnt : ℕ} {marks : List Bool}

theorem counts_nil : Counts 0 [] := fun k =>
  ⟨fun h => absurd h Bool.false_ne_true,fun h => absurd h (Nat.succ_ne_zero k)⟩

theorem Counts.le (h : Counts cnt marks) : cnt ≤ marks.length := by
  rcases cnt with _ | k
  · exact Nat.zero_le _
  · by_contra hlong
    have hmark := (h k).mpr rfl
    rw [List.getD_eq_default _ _ (by omega)] at hmark
    exact Bool.false_ne_true hmark

/-- The value that comes has the mark if the counter is at one. -/
theorem Counts.head {b : Bool} (h : Counts cnt (b::marks)) : b=(cnt==1) := by
  have hfirst := h 0
  rw [List.getD_cons_zero] at hfirst
  rw [Bool.eq_iff_iff,hfirst,beq_iff_eq]
  exact eq_comm

theorem Counts.tail {b : Bool} (h : Counts cnt (b::marks)) : Counts (cnt-1) marks := by
  intro k
  have hnext := h (k+1)
  rw [List.getD_cons_succ] at hnext
  rw [hnext]
  omega

/-- An unmarked value behind the others. -/
theorem Counts.concat_false (h : Counts cnt marks) : Counts cnt (marks++[false]) := by
  intro k
  rw [←h k]
  rcases Nat.lt_or_ge k marks.length with hlt | hge
  · rw [List.getD_append _ _ _ _ hlt]
  · rw [List.getD_append_right _ _ _ _ hge,List.getD_eq_default _ _ hge]
    rcases Nat.eq_zero_or_pos (k-marks.length) with hzero | hpos
    · rw [hzero,List.getD_cons_zero]
    · rw [List.getD_eq_default _ _ (Nat.succ_le_of_lt hpos)]

/-- A marked value behind unmarked ones. -/
theorem Counts.concat_true (h : Counts 0 marks) : Counts (marks.length+1) (marks++[true]) := by
  intro k
  rcases Nat.lt_trichotomy k marks.length with hlt | rfl | hgt
  · rw [List.getD_append _ _ _ _ hlt,h k]
    omega
  · rw [List.getD_append_right _ _ _ _ le_rfl,Nat.sub_self,List.getD_cons_zero]
    exact iff_of_true rfl rfl
  · rw [List.getD_append_right _ _ _ _ hgt.le,List.getD_eq_default _ _ (by simp; omega)]
    exact iff_of_false Bool.false_ne_true (by omega)

end Counts

/-- Marks of a value that is on its way. -/
structure Mark where
  sof : Bool
  eof : Bool
deriving DecidableEq

/-- The value comes. -/
def Mark.entry (m : Mark) (data : BitVec 32) : Entry := ⟨m.eof,m.sof,data⟩

/-- The queue has some entries, and other values are on their way to it. -/
structure Holds (s : State) (flight : List Mark) (l : List Entry) : Prop where
  stores : Stores s.i_fifo l
  room : flight.length+l.length ≤ BUFFER_DEPTH
  inflight : s.r_inflight=BitVec.ofNat _ flight.length
  sof : ∃ cnt,s.r_mark_sof_cnt=BitVec.ofNat _ cnt ∧ Counts cnt (flight.map Mark.sof)
  eof : ∃ cnt,s.r_mark_eof_cnt=BitVec.ofNat _ cnt ∧ Counts cnt (flight.map Mark.eof)

section Holds

variable {s : State} {i : Input} {flight : List Mark} {l : List Entry}

theorem holds_reset : Holds reset [] [] where
  stores := stores_reset (by decide)
  room := Nat.zero_le _
  inflight := rfl
  sof := ⟨0,rfl,counts_nil⟩
  eof := ⟨0,rfl,counts_nil⟩

theorem Holds.ready_o_iff (h : Holds s flight l) : ready_o s=true ↔ l.length < BUFFER_DEPTH :=
  h.stores.ready_o_iff

/-- Values are asked for where there is room for them. -/
theorem Holds.req_o_iff (h : Holds s flight l) :
    req_o s=true ↔ flight.length+l.length < BUFFER_DEPTH := by
  have hdepth : BUFFER_DEPTH=4 := rfl
  have hwide : 2^(LOG_BUFFER_DEPTH+1)=16 := rfl
  have hroom := h.room
  have hready := h.ready_o_iff
  have hstop : s_stop_req s=true ↔ flight.length+l.length=BUFFER_DEPTH := by
    rw [s_stop_req,s_free_ele,h.stores.count,h.inflight,beq_iff_eq,←BitVec.toNat_inj,
      BitVec.toNat_sub,BitVec.toNat_ofNat,BitVec.toNat_ofNat,BitVec.toNat_ofNat,hwide]
    omega
  rw [req_o,Bool.and_eq_true_iff,hready,Bool.not_eq_true',←Bool.not_eq_true,hstop]
  omega

theorem Holds.valid_o_iff (h : Holds s flight l) : valid_o s=true ↔ l≠[] := h.stores.valid_o_iff

/-- A value that comes finds room. -/
theorem Holds.comes_eq (h : Holds s flight l) (hflight : i.valid_i=true → flight≠[]) :
    comes s i=i.valid_i ∧ (i.valid_i=true → ready_o s=true) := by
  have hready : i.valid_i=true → ready_o s=true := fun hvalid => by
    have hroom := h.room
    have hpos := List.length_pos_of_ne_nil (hflight hvalid)
    exact h.ready_o_iff.mpr (by omega)
  refine ⟨?_,hready⟩
  unfold comes
  cases hvalid : i.valid_i with
  | false => rfl
  | true => rw [hready hvalid]; rfl

theorem toNat_count {reg : BitVec (LOG_BUFFER_DEPTH+1)} {cnt : ℕ} {marks : List Bool}
    (hreg : reg=BitVec.ofNat _ cnt) (hcounts : Counts cnt marks)
    (hlength : marks.length ≤ BUFFER_DEPTH) : reg.toNat=cnt := by
  have hlt : cnt < 16 := hcounts.le.trans_lt (hlength.trans_lt (by decide))
  rw [hreg,BitVec.toNat_ofNat]
  exact Nat.mod_eq_of_lt hlt

/-- A value that comes gets the mark that it was asked for with. -/
theorem evt_eq {reg : BitVec (LOG_BUFFER_DEPTH+1)} {cnt : ℕ} {b : Bool} {marks : List Bool}
    (hreg : reg=BitVec.ofNat _ cnt) (hcounts : Counts cnt (b::marks))
    (hlength : (b::marks).length ≤ BUFFER_DEPTH) (hcomes : comes s i=true) :
    (reg==1 && comes s i)=b := by
  have hnat := toNat_count hreg hcounts hlength
  have hone : reg=1 ↔ cnt=1 := by
    rw [←BitVec.toNat_inj,hnat]
    rfl
  rw [hcomes,Bool.and_true,hcounts.head,Bool.eq_iff_iff,beq_iff_eq,beq_iff_eq,hone]

/-- A counter follows its marks, if no other mark of its kind is on its way. -/
theorem mark_step {reg : BitVec (LOG_BUFFER_DEPTH+1)} {set : Bool} {cnt : ℕ} {came stay : List Bool}
    (hreg : reg=BitVec.ofNat _ cnt) (hcounts : Counts cnt (came++stay))
    (hlength : (came++stay).length ≤ BUFFER_DEPTH)
    (hinflight : s.r_inflight=BitVec.ofNat _ (came++stay).length)
    (hcame : came.length=(comes s i).toNat)
    (hset : set=true → asks s i=true) (honce : set=true → reg=0 ∨ (reg==1 && comes s i)=true) :
    ∃ cnt,mark s i reg set=BitVec.ofNat _ cnt ∧
      Counts cnt (stay++if asks s i then [set] else []) := by
  have hnat := toNat_count hreg hcounts hlength
  have hzero : reg=0 → cnt=0 := fun h => by rw [←hnat,h]; rfl
  have hone : reg=1 → cnt=1 := fun h => by rw [←hnat,h]; rfl
  have hno : (!i.valid_i || !ready_o s)=!comes s i := by
    rw [comes,Bool.not_and]
  cases hvalue : comes s i with
  | false =>
    rw [hvalue] at hcame
    rcases List.length_eq_zero_iff.mp hcame
    cases set with
    | false =>
      have hkeep : mark s i reg false=reg := by
        rw [mark,hvalue,Bool.and_false]
        rfl
      refine ⟨cnt,hkeep.trans hreg,?_⟩
      split_ifs
      · exact hcounts.concat_false
      · rwa [List.append_nil]
    | true =>
      rcases honce rfl with hfree | hnow
      · have hnew : mark s i reg true=s.r_inflight+1 := by
          rw [mark,hset rfl,hno,hvalue]
          rfl
        rw [hzero hfree] at hcounts
        refine ⟨stay.length+1,?_,?_⟩
        · rw [hnew,hinflight,BitVec.ofNat_add]
          rfl
        · rw [if_pos (hset rfl)]
          exact hcounts.concat_true
      · rw [hvalue,Bool.and_false] at hnow
        exact absurd hnow Bool.false_ne_true
  | true =>
    rw [hvalue] at hcame
    rcases List.length_eq_one_iff.mp hcame with ⟨b,rfl⟩
    have htail := hcounts.tail
    cases set with
    | false =>
      have hdown : mark s i reg false=BitVec.ofNat _ (cnt-1) := by
        rw [mark,hvalue,Bool.and_true,if_neg Bool.false_ne_true]
        by_cases hfree : reg=0
        · rw [hzero hfree,hfree]
          rfl
        · have hpos : cnt≠0 := fun hc => hfree (hreg.trans (congrArg _ hc))
          rw [if_pos (bne_iff_ne.mpr hfree),hreg]
          exact BitVec.ofNat_sub_ofNat_of_le cnt 1 (by decide) (Nat.one_le_iff_ne_zero.mpr hpos)
      refine ⟨cnt-1,hdown,?_⟩
      split_ifs
      · exact htail.concat_false
      · rwa [List.append_nil]
    | true =>
      have hlast : cnt-1=0 := by
        rcases honce rfl with hfree | hnow
        · rw [hzero hfree]
        · rw [hone (beq_iff_eq.mp (Bool.and_eq_true_iff.mp hnow).1)]
      have hnew : mark s i reg true=s.r_inflight := by
        rw [mark,hset rfl,hno,hvalue]
        rfl
      rw [hlast] at htail
      refine ⟨stay.length+1,?_,?_⟩
      · rw [hnew,hinflight,List.singleton_append,List.length_cons]
      · rw [if_pos (hset rfl)]
        exact htail.concat_true

/-- The queue takes the values that come, with the marks they were asked for with. -/
theorem Holds.pushed_eq {came stay : List Mark} (h : Holds s (came++stay) l)
    (hcame : came.length=(comes s i).toNat) :
    pushed s.i_fifo (fifoInput s i)=came.map (·.entry i.data_i) := by
  cases hvalue : comes s i with
  | false =>
    rw [hvalue] at hcame
    rw [List.length_eq_zero_iff.mp hcame]
    exact if_neg (Bool.eq_false_iff.mp hvalue)
  | true =>
    rw [hvalue] at hcame
    rcases List.length_eq_one_iff.mp hcame with ⟨m,rfl⟩
    rcases h.sof with ⟨cnt,hsofReg,hsof⟩
    rcases h.eof with ⟨cnt',heofReg,heof⟩
    have hlength : ([m]++stay).length ≤ BUFFER_DEPTH := (Nat.le_add_right _ _).trans h.room
    have hsofEvt : s_mark_sof_evt s i=m.sof :=
      evt_eq hsofReg hsof ((List.length_map _).trans_le hlength) hvalue
    have heofEvt : s_mark_eof_evt s i=m.eof :=
      evt_eq heofReg heof ((List.length_map _).trans_le hlength) hvalue
    have hentry : s_fifoin s i=m.entry i.data_i := by
      rw [s_fifoin,hsofEvt,heofEvt]
      rfl
    rw [List.map_singleton,←hentry]
    exact if_pos hvalue

/-- What is on its way is counted. -/
theorem inflight_step {came stay : List Mark} (h : Holds s (came++stay) l)
    (hcame : came.length=(comes s i).toNat) :
    (step s i).r_inflight=
      BitVec.ofNat _ (stay++if asks s i then [(⟨i.sof_i,i.eof_i⟩ : Mark)] else []).length := by
  have hinflight := h.inflight
  have hno : (!i.valid_i || !ready_o s)=!comes s i := by rw [comes,Bool.not_and]
  rw [List.length_append] at hinflight ⊢
  rw [hcame] at hinflight
  unfold step
  dsimp only
  rw [hno]
  cases hasks : asks s i <;> cases hvalue : comes s i <;> rw [hvalue] at hinflight
  · rw [hinflight]
    simp
  · rw [hinflight]
    have hone : (1 : BitVec (LOG_BUFFER_DEPTH+1))=BitVec.ofNat _ 1 := rfl
    simp only [Bool.false_eq_true,if_false,if_true,Bool.toNat_true,List.length_nil,hone]
    rw [BitVec.ofNat_sub_ofNat_of_le _ 1 (by decide) (Nat.le_add_right _ _),Nat.add_sub_cancel_left]
    rfl
  · rw [hinflight]
    simp [BitVec.ofNat_add]
  · have hcount : true.toNat+stay.length=stay.length+1 := Nat.add_comm _ _
    rw [hinflight,hcount]
    simp

/-- The values that come are taken from those on their way, and those asked for join them. -/
theorem Holds.step {came stay : List Mark} (h : Holds s (came++stay) l)
    (hcame : came.length=i.valid_i.toNat) (hsofAsks : i.sof_i=true → asks s i=true)
    (heofAsks : i.eof_i=true → asks s i=true)
    (hsofOnce : i.sof_i=true → s.r_mark_sof_cnt=0 ∨ s_mark_sof_evt s i=true)
    (heofOnce : i.eof_i=true → s.r_mark_eof_cnt=0 ∨ s_mark_eof_evt s i=true) :
    Holds (TxFifoMark.step s i) (stay++if asks s i then [⟨i.sof_i,i.eof_i⟩] else [])
      (IoFifo.rest (fifoInput s i) l++came.map (·.entry i.data_i)) := by
  have hflight : i.valid_i=true → came++stay≠[] := fun hvalid hnil => by
    rw [hvalid,(List.append_eq_nil_iff.mp hnil).1] at hcame
    exact absurd hcame Nat.zero_ne_one
  rw [←(h.comes_eq hflight).1] at hcame
  have hlength : (came++stay).length ≤ BUFFER_DEPTH := (Nat.le_add_right _ _).trans h.room
  refine ⟨?_,?_,?_,?_,?_⟩
  · rw [←h.pushed_eq hcame]
    exact h.stores.step rfl
  · have hdepth : BUFFER_DEPTH=4 := rfl
    have hreq := h.req_o_iff
    have hroom := h.room
    have hrest : (IoFifo.rest (fifoInput s i) l).length ≤ l.length := by
      unfold IoFifo.rest
      split_ifs <;> simp
    rw [List.length_append] at hreq hroom
    rw [List.length_append,List.length_append,List.length_map]
    split_ifs with hasks
    · have hmore := hreq.mp (Bool.and_eq_true_iff.mp hasks).1
      rw [List.length_singleton]
      omega
    · rw [List.length_nil]
      omega
  · exact inflight_step h hcame
  · rcases h.sof with ⟨cnt,hreg,hcounts⟩
    rw [List.map_append] at hcounts
    have hmarks := mark_step hreg hcounts (by simpa using hlength) (by simpa using h.inflight)
      (by simpa using hcame) hsofAsks hsofOnce
    rw [List.map_append]
    split_ifs at hmarks ⊢ <;> exact hmarks
  · rcases h.eof with ⟨cnt,hreg,hcounts⟩
    rw [List.map_append] at hcounts
    have hmarks := mark_step hreg hcounts (by simpa using hlength) (by simpa using h.inflight)
      (by simpa using hcame) heofAsks heofOnce
    rw [List.map_append]
    split_ifs at hmarks ⊢ <;> exact hmarks

end Holds

end Pulpissimo.Udma.TxFifoMark
