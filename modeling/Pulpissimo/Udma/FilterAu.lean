import Mathlib.Algebra.BigOperators.Group.List.Basic
import Mathlib.Data.BitVec
import Pulpissimo.Lib.Machine

/-!
# The arithmetic unit of the filter

`udma_filter_au` multiplies, adds and shifts a stream of operands in a pipeline of two stages
that moves whenever the output is ready. A ledger beside the registers notes the operands that
were taken and the data that were given since the last start. The data are those of the
operands one by one, or of whole frames where the mode accumulates, except that the modes which
should subtract the second operand add it.
-/

namespace Pulpissimo.Udma.FilterAu

open Pulpissimo.Machine

/-- `MODE0` to `MODE15`. -/
inductive Mode where
  | MODE0 | MODE1 | MODE2 | MODE3 | MODE4 | MODE5 | MODE6 | MODE7
  | MODE8 | MODE9 | MODE10 | MODE11 | MODE12 | MODE13 | MODE14 | MODE15
deriving DecidableEq

/-- Configuration. -/
structure Config where
  cfg_use_signed_i : Bool
  cfg_bypass_i : Bool
  cfg_mode_i : Mode
  cfg_shift_i : BitVec 5
  cfg_reg0_i : BitVec 32
  cfg_reg1_i : BitVec 32

/-- Registers. -/
structure State where
  r_accumulator : BitVec 32
  /-- An operand is in the first stage. -/
  r_sample_dly : Bool
  /-- A result is in the accumulator. -/
  r_sample_out : Bool
  r_operanda : BitVec 32
  r_operandb : BitVec 32
  r_sof : Bool
  r_eof : Bool
  /-- The result of a frame is in the accumulator. -/
  r_accoutvalid : Bool

/-- One cycle of inputs. -/
structure Input where
  cmd_start_i : Bool
  operanda_data_i : BitVec 32
  operanda_datasize_i : BitVec 2
  operanda_valid_i : Bool
  operanda_sof_i : Bool
  operanda_eof_i : Bool
  operandb_data_i : BitVec 32
  operandb_datasize_i : BitVec 2
  operandb_valid_i : Bool
  output_ready_i : Bool

/-- Values after reset. -/
def reset : State := ⟨0,false,false,0,0,false,false,false⟩

/-- Controls of a mode. -/
structure Control where
  s_en_opb : Bool
  s_mulb_opa : Bool
  s_mulb_opb : Bool
  s_mulb_reg : Bool
  s_sum_acc : Bool
  s_sum_reg : Bool
  s_sum_opb : Bool
  s_sum_inv : Bool

/-- Defaults of the controls. -/
def defaults : Control := ⟨true,false,false,false,false,false,false,false⟩

def control : Mode → Control
  | .MODE0 => { defaults with s_mulb_opb := true }
  | .MODE1 => { defaults with s_mulb_opb := true, s_sum_reg := true }
  | .MODE2 => { defaults with s_mulb_opb := true, s_sum_acc := true }
  | .MODE3 => { defaults with s_en_opb := false, s_mulb_opa := true }
  | .MODE4 => { defaults with s_mulb_opa := true, s_sum_opb := true }
  | .MODE5 => { defaults with s_mulb_opa := true, s_sum_opb := true, s_sum_inv := true }
  | .MODE6 => { defaults with s_en_opb := false, s_mulb_opa := true, s_sum_acc := true }
  | .MODE7 => { defaults with s_en_opb := false, s_mulb_opa := true, s_sum_reg := true }
  | .MODE8 => { defaults with s_en_opb := false, s_mulb_reg := true }
  | .MODE9 => { defaults with s_mulb_reg := true, s_sum_opb := true }
  | .MODE10 => { defaults with s_mulb_reg := true, s_sum_opb := true, s_sum_inv := true }
  | .MODE11 => { defaults with s_en_opb := false, s_mulb_reg := true, s_sum_reg := true }
  | .MODE12 => { defaults with s_en_opb := false, s_mulb_reg := true, s_sum_acc := true }
  | .MODE13 => { defaults with s_sum_opb := true }
  | .MODE14 => { defaults with s_sum_opb := true, s_sum_inv := true }
  | .MODE15 => { defaults with s_en_opb := false, s_sum_reg := true }

/-- Operand of `datasize`, of which `signed` extends the sign. -/
def s_in_op (signed : Bool) (datasize : BitVec 2) (data : BitVec 32) : BitVec 32 :=
  if datasize=0 then
    (BitVec.cons (data.getLsbD 7 && signed) (data.extractLsb' 0 8)).signExtend 32
  else if datasize=1 then
    (BitVec.cons (data.getLsbD 15 && signed) (data.extractLsb' 0 16)).signExtend 32
  else data

section Code

variable (c : Config) (s : State) (i : Input)

def s_in_opa : BitVec 32 := s_in_op c.cfg_use_signed_i i.operanda_datasize_i i.operanda_data_i

def s_in_opb : BitVec 32 := s_in_op c.cfg_use_signed_i i.operandb_datasize_i i.operandb_data_i

def s_opa : BitVec 32 := s.r_operanda

def s_opb : BitVec 32 :=
  if c.cfg_bypass_i then 1
  else if (control c.cfg_mode_i).s_mulb_opb then s.r_operandb
  else if (control c.cfg_mode_i).s_mulb_reg then c.cfg_reg1_i
  else if (control c.cfg_mode_i).s_mulb_opa then s.r_operanda
  else 1

def s_sum : BitVec 32 :=
  if c.cfg_bypass_i then 0
  else if (control c.cfg_mode_i).s_sum_opb then s.r_operandb
  else if (control c.cfg_mode_i).s_sum_reg then c.cfg_reg0_i
  else if (control c.cfg_mode_i).s_sum_acc && !s.r_sof then s.r_accumulator
  else 0

/-- Product and sum. `s_sum_inv` does not come in. -/
def s_mac : BitVec 66 :=
  (s_opa s).signExtend 66*(s_opb c s).signExtend 66+
    (BitVec.cons ((s_sum c s).getLsbD 31 && c.cfg_use_signed_i) (s_sum c s)).signExtend 66

def output_data_o : BitVec 32 := s.r_accumulator.sshiftRight c.cfg_shift_i.toNat

def output_valid_o : Bool :=
  if (control c.cfg_mode_i).s_sum_acc then s.r_accoutvalid else s.r_sample_out

def s_sample_opa : Bool :=
  i.output_ready_i && (i.operanda_valid_i && (c.cfg_bypass_i || !(control c.cfg_mode_i).s_en_opb ||
    ((control c.cfg_mode_i).s_en_opb && i.operandb_valid_i)))

def s_sample_opb : Bool :=
  i.output_ready_i && (i.operanda_valid_i && ((control c.cfg_mode_i).s_en_opb && i.operandb_valid_i))

def operanda_ready_o : Bool := s_sample_opa c i

def operandb_ready_o : Bool := s_sample_opb c i

/-- One clock edge. -/
def step : State :=
  if i.cmd_start_i then
    { s with r_sample_dly := false, r_sample_out := false, r_accoutvalid := false,
             r_sof := false, r_eof := false }
  else if i.output_ready_i then
    { r_accumulator := if s.r_sample_dly then (s_mac c s).extractLsb' 0 32 else s.r_accumulator
      r_sample_dly := s_sample_opa c i
      r_sample_out := s.r_sample_dly
      r_operanda := if s_sample_opa c i then s_in_opa c i else s.r_operanda
      r_operandb := if s_sample_opb c i then s_in_opb c i else s.r_operandb
      r_sof := i.operanda_sof_i && s_sample_opa c i
      r_eof := i.operanda_eof_i && s_sample_opa c i
      r_accoutvalid := s.r_eof }
  else s

end Code

/-- The value of `n` bytes' worth of a word, by sign or by zeros. -/
def extend (signed : Bool) (n : ℕ) (data : BitVec 32) : BitVec 32 :=
  if signed then (data.setWidth n).signExtend 32 else (data.setWidth n).setWidth 32

/-- Operand of a datasize: a byte, a half-word, or a word. -/
def operand (signed : Bool) (datasize : BitVec 2) (data : BitVec 32) : BitVec 32 :=
  if datasize=0 then extend signed 8 data
  else if datasize=1 then extend signed 16 data
  else data

/-- Operands that were taken together, with the marks of the first one. -/
structure Item where
  a : BitVec 32
  b : BitVec 32
  sof : Bool
  eof : Bool

/-- Function of a mode, or the term that it accumulates. -/
def function (mode : Mode) (reg0 reg1 a b : BitVec 32) : BitVec 32 := match mode with
  | .MODE0 => a*b
  | .MODE1 => a*b+reg0
  | .MODE2 => a*b
  | .MODE3 => a*a
  | .MODE4 => a*a+b
  | .MODE5 => a*a-b
  | .MODE6 => a*a
  | .MODE7 => a*a+reg0
  | .MODE8 => a*reg1
  | .MODE9 => a*reg1+b
  | .MODE10 => a*reg1-b
  | .MODE11 => a*reg1+reg0
  | .MODE12 => a*reg1
  | .MODE13 => a+b
  | .MODE14 => a-b
  | .MODE15 => a+reg0

/-- Modes that accumulate. -/
def Mode.accumulates : Mode → Bool
  | .MODE2 | .MODE6 | .MODE12 => true
  | _ => false

/-- Modes that subtract the second operand. -/
def Mode.subtracts : Mode → Bool
  | .MODE5 | .MODE10 | .MODE14 => true
  | _ => false

/-- Complete frames of a stream, each with its last item, behind `cur`. -/
def frames (cur : List Item) : List Item → List (List Item)
  | [] => []
  | it::l => if it.eof then (cur++[it])::frames [] l else frames (cur++[it]) l

section Spec

variable (c : Config)

def value (it : Item) : BitVec 32 := function c.cfg_mode_i c.cfg_reg0_i c.cfg_reg1_i it.a it.b

def shifted (x : BitVec 32) : BitVec 32 := x.sshiftRight c.cfg_shift_i.toNat

/-- Data that a stream of operands has to give. -/
def expected (items : List Item) : List (BitVec 32) :=
  if c.cfg_mode_i.accumulates then (frames [] items).map fun f => shifted c (f.map (value c)).sum
  else items.map fun it => shifted c (value c it)

end Spec

/-- What came in and went out since the last start. -/
structure Ledger where
  taken : List Item
  given : List (BitVec 32)

/-- Registers and ledger. -/
abbrev Watched := State×Ledger

section Watch

variable (c : Config)

/-- Operands of a cycle. -/
def item (i : Input) : Item where
  a := operand c.cfg_use_signed_i i.operanda_datasize_i i.operanda_data_i
  b := operand c.cfg_use_signed_i i.operandb_datasize_i i.operandb_data_i
  sof := i.operanda_sof_i
  eof := i.operanda_eof_i

def Ledger.next (o : Ledger) (s : State) (i : Input) : Ledger :=
  if i.cmd_start_i then ⟨[],[]⟩
  else
    { taken := o.taken++if operanda_ready_o c i && i.operanda_valid_i then [item c i] else []
      given := o.given++
        if output_valid_o c s && i.output_ready_i then [output_data_o c s] else [] }

def start : Watched := (reset,⟨[],[]⟩)

def watch (w : Watched) (i : Input) : Watched := (step c w.1 i,w.2.next c w.1 i)

/-- The cycles in which the function of the mode is computed. -/
structure Clean (w : Watched) (i : Input) : Prop where
  /-- A second operand that should be subtracted is its own negative. -/
  sign : c.cfg_mode_i.subtracts=true → i.output_ready_i=true → i.operanda_valid_i=true →
    i.operandb_valid_i=true → (item c i).b+(item c i).b=0
  /-- Operands that are accumulated come in frames. -/
  framed : c.cfg_mode_i.accumulates=true → operanda_ready_o c i=true →
    i.operanda_sof_i=w.2.taken.getLast?.all Item.eof

/-- The unit gives what its mode says. -/
structure Computes (w : Watched) : Prop where
  /-- The data are those of the operands, but for two that are on the way. -/
  output : ∃ coming,expected c w.2.taken=w.2.given++coming ∧ coming.length ≤ 2
  /-- Two cycles in which the output is ready are enough for all of them. -/
  leave : ∀ is, Meets (watch c) (fun w i => Clean c w i ∧ i.cmd_start_i=false) w is →
    2 ≤ count (watch c) (fun _ i => i.output_ready_i) w is →
      expected c w.2.taken <+: (after (watch c) w is).2.given

end Watch

section Arithmetic

variable {c : Config} {s : State} {i : Input}

/-- A sign that was put in front is that of the extended part. -/
theorem signExtend_cons (b : Bool) {n m : ℕ} (x : BitVec n) (h : n < m) :
    (BitVec.cons (x.getLsbD (n-1) && b) x).signExtend m=
      if b then x.signExtend m else x.setWidth m := by
  apply BitVec.eq_of_getLsbD_eq
  intro k hk
  rw [BitVec.getLsbD_signExtend,BitVec.getLsbD_cons,BitVec.msb_cons]
  cases b with
  | false =>
    rw [if_neg Bool.false_ne_true,BitVec.getLsbD_setWidth,Bool.and_false]
    rcases Nat.lt_trichotomy k n with hlt | rfl | hgt
    · rw [if_pos (by omega),if_neg (by omega)]
    · rw [if_pos (by omega),if_pos rfl,BitVec.getLsbD_of_ge x k le_rfl,Bool.and_false]
    · rw [if_neg (by omega),BitVec.getLsbD_of_ge x k hgt.le]
  | true =>
    rw [if_pos rfl,BitVec.getLsbD_signExtend,BitVec.msb_eq_getLsbD_last,Bool.and_true]
    rcases Nat.lt_trichotomy k n with hlt | rfl | hgt
    · rw [if_pos (by omega),if_neg (by omega),if_pos hlt]
    · rw [if_pos (by omega),if_pos rfl,if_neg (by omega)]
    · rw [if_neg (by omega),if_neg (by omega)]

theorem s_in_op_eq (signed : Bool) (datasize : BitVec 2) (data : BitVec 32) :
    s_in_op signed datasize data=operand signed datasize data := by
  have hpart : ∀ n, 0 < n → n < 32 →
      (BitVec.cons (data.getLsbD (n-1) && signed) (data.extractLsb' 0 n)).signExtend 32=
        extend signed n data := by
    intro n hpos hn
    have hsign : data.getLsbD (n-1)=(data.setWidth n).getLsbD (n-1) := by
      rw [BitVec.getLsbD_setWidth,decide_eq_true (by omega),Bool.true_and]
    rw [←BitVec.setWidth_eq_extractLsb' hn.le,hsign,signExtend_cons signed _ hn,extend]
  unfold s_in_op operand
  rw [hpart 8 (by decide) (by decide),hpart 16 (by decide) (by decide)]

/-- The lower word of an extension. -/
theorem setWidth_signExtend {n m : ℕ} (x : BitVec n) (h : n ≤ m) : (x.signExtend m).setWidth n=x := by
  apply BitVec.eq_of_getLsbD_eq
  intro k hk
  rw [BitVec.getLsbD_setWidth,BitVec.getLsbD_signExtend,decide_eq_true hk,decide_eq_true (by omega),
    if_pos hk,Bool.true_and,Bool.true_and]

/-- The accumulator takes the product and the sum in its own width. -/
theorem s_mac_low : (s_mac c s).extractLsb' 0 32=s_opa s*s_opb c s+s_sum c s := by
  have hsum : ((BitVec.cons ((s_sum c s).getLsbD 31 && c.cfg_use_signed_i)
      (s_sum c s)).signExtend 66).setWidth 32=s_sum c s := by
    have hlow := congrArg (BitVec.setWidth 32) (setWidth_signExtend (m:=66)
      (BitVec.cons ((s_sum c s).getLsbD 31 && c.cfg_use_signed_i) (s_sum c s)) (by decide))
    rwa [BitVec.setWidth_setWidth_of_le _ (by decide),BitVec.setWidth_cons] at hlow
  rw [←BitVec.setWidth_eq_extractLsb' (by decide),s_mac,BitVec.setWidth_add _ _ (by decide),
    BitVec.setWidth_mul _ _ (by decide),setWidth_signExtend _ (by decide),
    setWidth_signExtend _ (by decide),hsum]

end Arithmetic

section Results

variable (c : Config)

/-- The accumulator behind an operand, as the unit computes it. -/
def computed (acc : BitVec 32) (it : Item) : BitVec 32 :=
  let k := control c.cfg_mode_i
  it.a*(if k.s_mulb_opb then it.b else if k.s_mulb_reg then c.cfg_reg1_i
      else if k.s_mulb_opa then it.a else 1)+
    if k.s_sum_opb then it.b else if k.s_sum_reg then c.cfg_reg0_i
      else if k.s_sum_acc && !it.sof then acc else 0

/-- The accumulator behind some operands. -/
def total (acc : BitVec 32) (items : List Item) : BitVec 32 := items.foldl (computed c) acc

/-- An operand gives the accumulator's value, at the end of a frame where the mode accumulates. -/
def gives (it : Item) : Bool := !(control c.cfg_mode_i).s_sum_acc || it.eof

/-- Data that the unit gives. -/
def results (acc : BitVec 32) : List Item → List (BitVec 32)
  | [] => []
  | it::l => (if gives c it then [shifted c (computed c acc it)] else [])++
      results (computed c acc it) l

variable {c} {acc : BitVec 32}

theorem total_append (l m : List Item) : total c acc (l++m)=total c (total c acc l) m :=
  List.foldl_append

theorem results_append (l m : List Item) :
    results c acc (l++m)=results c acc l++results c (total c acc l) m := by
  induction l generalizing acc with
  | nil => rfl
  | cons it l ih => rw [List.cons_append,results,results,ih,List.append_assoc]; rfl

theorem length_results_le (l : List Item) : (results c acc l).length ≤ l.length := by
  induction l generalizing acc with
  | nil => exact le_rfl
  | cons it l ih =>
    have hrest := @ih (computed c acc it)
    rw [results,List.length_append,List.length_cons]
    split_ifs
    · rw [List.length_singleton]
      omega
    · rw [List.length_nil]
      omega

theorem accumulates_eq (mode : Mode) : (control mode).s_sum_acc=mode.accumulates := by
  cases mode <;> rfl

/-- The first of a frame's operands are marked, and only those. -/
def Framed (first : Bool) : List Item → Prop
  | [] => True
  | it::l => it.sof=first ∧ Framed it.eof l

theorem framed_concat {first : Bool} {l : List Item} {it : Item} :
    Framed first (l++[it]) ↔ Framed first l ∧ it.sof=(l.getLast?.map Item.eof).getD first := by
  induction l generalizing first with
  | nil => exact ⟨fun h => ⟨trivial,h.1⟩,fun h => ⟨h.2,trivial⟩⟩
  | cons x l ih =>
    rw [List.cons_append,Framed,ih,Framed,and_assoc]
    have hlast : (((x::l).getLast?.map Item.eof).getD first)=(l.getLast?.map Item.eof).getD x.eof := by
      cases l with
      | nil => rfl
      | cons y l =>
        rw [List.getLast?_cons_cons,List.getLast?_cons]
        rfl
    rw [hlast]

/-- Operands on which the unit computes the function of its mode. -/
structure Suited (items : List Item) : Prop where
  sign : c.cfg_mode_i.subtracts=true → ∀ it ∈ items, it.b+it.b=0
  framed : c.cfg_mode_i.accumulates=true → Framed true items

/-- The sum that is computed is that of the mode. -/
theorem computed_eq {it : Item} (hsign : c.cfg_mode_i.subtracts=true → it.b+it.b=0) :
    computed c acc it=value c it+if c.cfg_mode_i.accumulates && !it.sof then acc else 0 := by
  have hsub : c.cfg_mode_i.subtracts=true → ∀ x, x+it.b=x-it.b := fun h x =>
    eq_sub_of_add_eq (by rw [add_assoc,hsign h,add_zero])
  unfold computed value
  cases hmode : c.cfg_mode_i <;>
    simp [control,defaults,function,Mode.accumulates,Mode.subtracts,hmode] at hsub ⊢ <;> exact hsub _

/-- Modes that do not accumulate give the function of every operand. -/
theorem results_eq_map (hmode : c.cfg_mode_i.accumulates=false) {items : List Item}
    (hsign : c.cfg_mode_i.subtracts=true → ∀ it ∈ items, it.b+it.b=0) :
    results c acc items=items.map fun it => shifted c (value c it) := by
  induction items generalizing acc with
  | nil => rfl
  | cons it l ih =>
    have hfirst : computed c acc it=value c it := by
      rw [computed_eq fun h => hsign h it List.mem_cons_self,hmode]
      exact add_zero _
    have hgives : gives c it=true := by
      rw [gives,accumulates_eq,hmode]
      rfl
    rw [results,if_pos hgives,hfirst,ih fun h x hx => hsign h x (List.mem_cons_of_mem _ hx)]
    rfl

/-- Modes that accumulate give the sums of the frames. -/
theorem results_eq_frames (hmode : c.cfg_mode_i.accumulates=true) {cur items : List Item}
    (hacc : cur≠[] → acc=(cur.map (value c)).sum) (hframed : Framed (decide (cur=[])) items) :
    results c acc items=(frames cur items).map fun f => shifted c (f.map (value c)).sum := by
  induction items generalizing acc cur with
  | nil => rfl
  | cons it l ih =>
    obtain ⟨hsof,hrest⟩ := hframed
    have hno : c.cfg_mode_i.subtracts=true → it.b+it.b=0 := fun h => by
      cases hm : c.cfg_mode_i <;> rw [hm] at hmode h <;> cases h <;> cases hmode
    have hsum : computed c acc it=((cur++[it]).map (value c)).sum := by
      rw [computed_eq hno,hmode,hsof,List.map_append,List.sum_append,add_comm]
      by_cases hcur : cur=[]
      · rw [hcur]
        simp
      · rw [hacc hcur]
        simp [hcur]
    rw [results,gives,accumulates_eq,hmode,frames]
    cases heof : it.eof with
    | true =>
      rw [heof] at hrest
      rw [if_pos (by decide),if_pos rfl,List.map_cons,@ih _ [] (fun h => absurd rfl h) hrest,hsum]
      rfl
    | false =>
      rw [heof] at hrest
      have hopen : decide (cur++[it]=[])=false := by simp
      rw [if_neg (by decide),if_neg Bool.false_ne_true,@ih _ (cur++[it]) (fun _ => hsum) (hopen ▸ hrest)]
      rfl

/-- On such operands the results are the data of the mode. -/
theorem Suited.results_eq {items : List Item} (h : Suited (c:=c) items) (acc : BitVec 32) :
    results c acc items=expected c items := by
  unfold expected
  cases hmode : c.cfg_mode_i.accumulates with
  | false => exact results_eq_map hmode h.sign
  | true => exact results_eq_frames hmode (fun hne => absurd rfl hne) (h.framed hmode)

end Results

/-- Operands in the first stage. -/
inductive First (c : Config) (s : State) : List Item → Prop
  | empty (hvalid : s.r_sample_dly=false) (heof : s.r_eof=false) : First c s []
  | held (it : Item) (hvalid : s.r_sample_dly=true) (ha : s.r_operanda=it.a)
      (hb : (control c.cfg_mode_i).s_en_opb=true → s.r_operandb=it.b) (hsof : s.r_sof=it.sof)
      (heof : s.r_eof=it.eof) : First c s [it]

/-- Operands whose result is in the accumulator. -/
inductive Second (s : State) : List Item → Prop
  | empty (hvalid : s.r_sample_out=false) (heof : s.r_accoutvalid=false) : Second s []
  | held (it : Item) (hvalid : s.r_sample_out=true) (heof : s.r_accoutvalid=it.eof) : Second s [it]

/-- The stages hold the last operands that were taken. -/
structure Inv (c : Config) (w : Watched) : Prop where
  stages : ∃ base done second first,w.2.taken=done++second++first ∧
    w.2.given=results c base done ∧ w.1.r_accumulator=total c base (done++second) ∧
      Second w.1 second ∧ First c w.1 first
  suited : Suited (c:=c) w.2.taken

section Pipeline

variable {c : Config} {s : State} {i : Input}

theorem sample_opa_iff (h : s_sample_opa c i=true) : i.output_ready_i=true ∧ i.operanda_valid_i=true := by
  rw [s_sample_opa,Bool.and_eq_true_iff,Bool.and_eq_true_iff] at h
  exact ⟨h.1,h.2.1⟩

/-- A mode that uses the second operand takes both at once. -/
theorem sample_opb_eq (hbypass : c.cfg_bypass_i=false) (hen : (control c.cfg_mode_i).s_en_opb=true) :
    s_sample_opb c i=s_sample_opa c i := by
  rw [s_sample_opa,s_sample_opb,hbypass,hen]
  rfl

/-- Modes that do not take the second operand do not look at it. -/
theorem computed_of_first (hbypass : c.cfg_bypass_i=false) {it : Item} (ha : s.r_operanda=it.a)
    (hb : (control c.cfg_mode_i).s_en_opb=true → s.r_operandb=it.b) (hsof : s.r_sof=it.sof) :
    (s_mac c s).extractLsb' 0 32=computed c s.r_accumulator it := by
  rw [s_mac_low,computed,s_opa,s_opb,s_sum,hbypass,ha,hsof]
  cases hmode : c.cfg_mode_i <;> simp [control,defaults,hmode] at hb ⊢ <;> rw [hb]

/-- A result that goes out. -/
theorem Second.given {items : List Item} (h : Second s items) {acc : BitVec 32}
    (hacc : s.r_accumulator=total c acc items) :
    (if output_valid_o c s then [output_data_o c s] else [])=results c acc items := by
  rcases h with ⟨hvalid,heof⟩ | ⟨it,hvalid,heof⟩
  · have hno : ¬output_valid_o c s=true := by
      rw [output_valid_o,hvalid,heof,ite_self]
      exact Bool.false_ne_true
    rw [if_neg hno]
    rfl
  · have hout : output_valid_o c s=gives c it := by
      rw [output_valid_o,hvalid,heof,gives]
      cases (control c.cfg_mode_i).s_sum_acc <;> rfl
    have hdata : output_data_o c s=shifted c (computed c acc it) := by
      rw [output_data_o,hacc]
      rfl
    rw [hout,hdata,results,results,List.append_nil]

theorem step_ready (hstart : i.cmd_start_i=false) (hready : i.output_ready_i=true) :
    step c s i=
      { r_accumulator := if s.r_sample_dly then (s_mac c s).extractLsb' 0 32 else s.r_accumulator
        r_sample_dly := s_sample_opa c i
        r_sample_out := s.r_sample_dly
        r_operanda := if s_sample_opa c i then s_in_opa c i else s.r_operanda
        r_operandb := if s_sample_opb c i then s_in_opb c i else s.r_operandb
        r_sof := i.operanda_sof_i && s_sample_opa c i
        r_eof := i.operanda_eof_i && s_sample_opa c i
        r_accoutvalid := s.r_eof } := by
  rw [step,hstart,hready]
  rfl

/-- Operands that are taken come into the first stage. -/
theorem first_step (hbypass : c.cfg_bypass_i=false) (hstart : i.cmd_start_i=false)
    (hready : i.output_ready_i=true) : First c (step c s i)
      (if operanda_ready_o c i && i.operanda_valid_i then [item c i] else []) := by
  rw [step_ready hstart hready]
  cases htake : s_sample_opa c i with
  | false =>
    rw [operanda_ready_o,htake]
    exact .empty rfl (Bool.and_false _)
  | true =>
    rw [operanda_ready_o,htake,(sample_opa_iff htake).2]
    refine .held _ rfl (s_in_op_eq _ _ _) (fun hen => ?_) (Bool.and_true _) (Bool.and_true _)
    have hboth := (sample_opb_eq (i:=i) hbypass hen).trans htake
    exact (if_pos hboth).trans (s_in_op_eq _ _ _)

/-- The result of the first stage comes into the accumulator. -/
theorem First.step (hbypass : c.cfg_bypass_i=false) (hstart : i.cmd_start_i=false)
    (hready : i.output_ready_i=true) {items : List Item} (h : First c s items) :
    Second (step c s i) items ∧ (FilterAu.step c s i).r_accumulator=total c s.r_accumulator items := by
  rw [step_ready hstart hready]
  rcases h with ⟨hvalid,heof⟩ | ⟨it,hvalid,ha,hb,hsof,heof⟩
  · exact ⟨.empty hvalid heof,if_neg (hvalid ▸ Bool.false_ne_true)⟩
  · exact ⟨.held it hvalid heof,(if_pos hvalid).trans (computed_of_first hbypass ha hb hsof)⟩

theorem Suited.concat {items : List Item} {it : Item} (h : Suited (c:=c) items)
    (hsign : c.cfg_mode_i.subtracts=true → it.b+it.b=0)
    (hsof : c.cfg_mode_i.accumulates=true → it.sof=items.getLast?.all Item.eof) :
    Suited (c:=c) (items++[it]) where
  sign := fun hm x hx => by
    rcases List.mem_append.mp hx with hx | hx
    · exact h.sign hm x hx
    · rw [List.mem_singleton.mp hx]
      exact hsign hm
  framed := fun hm => by
    refine framed_concat.mpr ⟨h.framed hm,(hsof hm).trans ?_⟩
    cases items.getLast? <;> rfl

end Pipeline

theorem Inv.start (c : Config) : Inv c start where
  stages := ⟨0,[],[],[],rfl,rfl,rfl,.empty rfl rfl,.empty rfl rfl⟩
  suited := ⟨fun _ _ hx => absurd hx List.not_mem_nil,fun _ => trivial⟩

theorem Inv.step {c : Config} (hbypass : c.cfg_bypass_i=false) {w : Watched} {i : Input}
    (h : Inv c w) (hclean : Clean c w i) : Inv c (watch c w i) := by
  rcases w with ⟨s,o⟩
  cases hstart : i.cmd_start_i with
  | true =>
    have hledger : o.next c s i=⟨[],[]⟩ := if_pos hstart
    have hstep : FilterAu.step c s i=
        ⟨s.r_accumulator,false,false,s.r_operanda,s.r_operandb,false,false,false⟩ := if_pos hstart
    rw [watch,hledger,hstep]
    exact ⟨⟨s.r_accumulator,[],[],[],rfl,rfl,rfl,.empty rfl rfl,.empty rfl rfl⟩,
      (Inv.start c).suited⟩
  | false =>
    obtain ⟨base,done,second,first,htaken,hgiven,hacc,hsecond,hfirst⟩ := h.stages
    have hledger : o.next c s i=
        ⟨o.taken++(if operanda_ready_o c i && i.operanda_valid_i then [item c i] else []),
          o.given++if output_valid_o c s && i.output_ready_i then [output_data_o c s] else []⟩ :=
      if_neg (hstart ▸ Bool.false_ne_true)
    refine ⟨?_,?_⟩
    · cases hready : i.output_ready_i with
      | false =>
        have hhold : FilterAu.step c s i=s := by
          rw [FilterAu.step,hstart,hready]
          rfl
        have hnone : operanda_ready_o c i=false := by
          rw [operanda_ready_o,s_sample_opa,hready]
          rfl
        rw [watch,hledger,hhold,hnone,hready,Bool.and_false]
        exact ⟨base,done,second,first,(List.append_nil _).trans htaken,
          (List.append_nil _).trans hgiven,hacc,hsecond,hfirst⟩
      | true =>
        obtain ⟨hsecond',hacc'⟩ := hfirst.step hbypass hstart hready
        rw [total_append] at hacc
        rw [watch,hledger,hready,Bool.and_true]
        refine ⟨base,done++second,first,_,?_,?_,?_,hsecond',first_step hbypass hstart hready⟩
        · exact congrArg (·++_) htaken
        · rw [results_append,←hsecond.given hacc]
          exact congrArg (·++_) hgiven
        · rw [hacc',hacc,total_append,total_append]
    · have htaken : (watch c (s,o) i).2.taken=
          o.taken++if operanda_ready_o c i && i.operanda_valid_i then [item c i] else [] := by
        rw [watch,hledger]
      rw [htaken]
      split_ifs with htake
      · have hsample := (Bool.and_eq_true_iff.mp htake).1
        refine h.suited.concat (fun hm => ?_) fun hm => hclean.framed hm hsample
        have hen : (control c.cfg_mode_i).s_en_opb=true := by
          cases hmode : c.cfg_mode_i <;> rw [hmode] at hm <;> first | rfl | cases hm
        have hboth := (sample_opb_eq hbypass hen).trans hsample
        rw [s_sample_opb,hen,Bool.true_and,Bool.and_eq_true_iff,Bool.and_eq_true_iff] at hboth
        exact hclean.sign hm hboth.1 hboth.2.1 hboth.2.2
      · rw [List.append_nil]
        exact h.suited

section Computes

variable {c : Config} {w : Watched} {i : Input}

theorem First.length_eq {s : State} {items : List Item} (h : First c s items) :
    items.length=s.r_sample_dly.toNat := by
  rcases h with ⟨hvalid,_⟩ | ⟨it,hvalid,_⟩ <;> rw [hvalid] <;> rfl

theorem Second.length_eq {s : State} {items : List Item} (h : Second s items) :
    items.length=s.r_sample_out.toNat := by
  rcases h with ⟨hvalid,_⟩ | ⟨it,hvalid,_⟩ <;> rw [hvalid] <;> rfl

/-- Operands that are a beginning of suited ones are suited. -/
theorem Suited.of_append {l m : List Item} (h : Suited (c:=c) (l++m)) : Suited (c:=c) l where
  sign := fun hm it hit => h.sign hm it (List.mem_append_left _ hit)
  framed := fun hm => by
    have hall := h.framed hm
    clear h
    induction m using List.reverseRecOn with
    | nil => rwa [List.append_nil] at hall
    | append_singleton m it ih =>
      rw [←List.append_assoc] at hall
      exact ih (framed_concat.mp hall).1

/-- The data that are given are those of the operands that left the stages. -/
theorem Inv.given_eq (h : Inv c w) : ∃ done rest,w.2.taken=done++rest ∧ w.2.given=expected c done ∧
    (∃ coming,expected c w.2.taken=expected c done++coming ∧ coming.length ≤ rest.length) ∧
      rest.length=w.1.r_sample_out.toNat+w.1.r_sample_dly.toNat := by
  obtain ⟨base,done,second,first,htaken,hgiven,_,hsecond,hfirst⟩ := h.stages
  have hsuited := h.suited
  rw [List.append_assoc] at htaken
  have hall := hsuited.results_eq base
  rw [htaken] at hsuited
  have hdone := hsuited.of_append.results_eq base
  refine ⟨done,second++first,htaken,hgiven.trans hdone,⟨results c (total c base done) (second++first),?_,
    length_results_le (second++first)⟩,?_⟩
  · rw [←hall,←hdone,htaken,results_append]
  · rw [List.length_append,hsecond.length_eq,hfirst.length_eq]

/-- Operands that were taken later add to the data. -/
theorem expected_prefix {l m : List Item} (h : Suited (c:=c) (l++m)) :
    expected c l <+: expected c (l++m) := by
  rw [←h.results_eq 0,←h.of_append.results_eq 0,results_append]
  exact List.prefix_append _ _

/-- Stages that the first `n` operands have before them. -/
def behind (n : ℕ) (w : Watched) : ℕ :=
  if n+w.1.r_sample_out.toNat+w.1.r_sample_dly.toNat ≤ w.2.taken.length then 0
  else if n+w.1.r_sample_dly.toNat ≤ w.2.taken.length then 1 else 2

theorem behind_step {n : ℕ} (hstart : i.cmd_start_i=false) (hn : n ≤ w.2.taken.length) :
    behind n (watch c w i) ≤ behind n w ∧
      (i.output_ready_i=true → 0 < behind n w → behind n (watch c w i) < behind n w) := by
  rcases w with ⟨s,o⟩
  have hledger : (watch c (s,o) i).2.taken=
      o.taken++if operanda_ready_o c i && i.operanda_valid_i then [item c i] else [] := by
    rw [watch,Ledger.next,hstart]
    rfl
  cases hready : i.output_ready_i with
  | false =>
    have hhold : (watch c (s,o) i).1=s := by
      rw [watch,step,hstart,hready]
      rfl
    have hnone : operanda_ready_o c i=false := by
      rw [operanda_ready_o,s_sample_opa,hready]
      rfl
    rw [hnone] at hledger
    have hsame : (watch c (s,o) i).2.taken=o.taken := hledger.trans (List.append_nil _)
    refine ⟨?_,nofun⟩
    unfold behind
    rw [hhold,hsame]
  | true =>
    have hout : (watch c (s,o) i).1.r_sample_out=s.r_sample_dly := by
      rw [watch,step_ready hstart hready]
    have hdly : (watch c (s,o) i).1.r_sample_dly=operanda_ready_o c i := by
      rw [watch,step_ready hstart hready]
      rfl
    have hlength : (watch c (s,o) i).2.taken.length=o.taken.length+(operanda_ready_o c i).toNat := by
      rw [hledger,List.length_append]
      cases htake : operanda_ready_o c i with
      | false => rfl
      | true => rw [(sample_opa_iff htake).2]; rfl
    have hn : n ≤ o.taken.length := hn
    unfold behind
    rw [hout,hdly,hlength]
    dsimp only
    constructor
    · split_ifs <;> omega
    · intro _ hsome
      split_ifs at hsome ⊢ <;> omega

theorem Inv.computes (hbypass : c.cfg_bypass_i=false) (h : Inv c w) : Computes c w where
  output := by
    obtain ⟨done,rest,_,hgiven,⟨coming,hall,hlength⟩,hrest⟩ := h.given_eq
    refine ⟨coming,hgiven ▸ hall,hlength.trans ?_⟩
    have hout := Bool.toNat_le w.1.r_sample_out
    have hdly := Bool.toNat_le w.1.r_sample_dly
    omega
  leave := by
    intro is hclean hcount
    have hkeep : ∀ (v : Watched) (i : Input),Inv c v ∧ w.2.taken <+: v.2.taken →
        Clean c v i ∧ i.cmd_start_i=false →
          Inv c (watch c v i) ∧ w.2.taken <+: (watch c v i).2.taken := by
      rintro v i ⟨hv,hgrown⟩ ⟨hC,hstart⟩
      refine ⟨hv.step hbypass hC,hgrown.trans ?_⟩
      rw [watch,Ledger.next,hstart]
      exact List.prefix_append _ _
    obtain ⟨⟨hlast,hgrown⟩,hleft⟩ := measure_after_of_meets (behind w.2.taken.length) hkeep
      (fun v i hv hC => (behind_step hC.2 hv.2.length_le).1)
      (fun v i hv hC => (behind_step hC.2 hv.2.length_le).2) ⟨h,List.prefix_rfl⟩ hclean
    have hmost : behind w.2.taken.length w ≤ 2 := by
      unfold behind
      split_ifs <;> decide
    have hzero := Nat.le_zero.mp (hleft.trans (Nat.sub_eq_zero_of_le (hmost.trans hcount)).le)
    obtain ⟨done,rest,htaken,hgiven,_,hrest⟩ := hlast.given_eq
    -- All operands that were taken before are among those that left the stages.
    have hlength : w.2.taken.length ≤ done.length := by
      have hsum := congrArg List.length htaken
      rw [List.length_append] at hsum
      unfold behind at hzero
      split_ifs at hzero
      omega
    have hsuited := hlast.suited
    rw [htaken] at hgrown hsuited
    rcases List.prefix_of_prefix_length_le hgrown (List.prefix_append done rest) hlength with
      ⟨later,rfl⟩
    rw [hgiven]
    exact expected_prefix hsuited.of_append

/-- In every run whose cycles compute the function of the mode, the data are those of the mode. -/
theorem computes_of_clean (c : Config) (hbypass : c.cfg_bypass_i=false) (is : List Input)
    (h : Meets (watch c) (Clean c) start is) : Computes c (after (watch c) start is) :=
  (after_invariant_of_meets (fun _ _ hw hC => hw.step hbypass hC) (Inv.start c) h).computes hbypass

end Computes

section Example

instance (c : Config) (w : Watched) (i : Input) : Decidable (Clean c w i) :=
  decidable_of_iff
    ((c.cfg_mode_i.subtracts=true → i.output_ready_i=true → i.operanda_valid_i=true →
        i.operandb_valid_i=true → (item c i).b+(item c i).b=0) ∧
      (c.cfg_mode_i.accumulates=true → operanda_ready_o c i=true →
        i.operanda_sof_i=w.2.taken.getLast?.all Item.eof))
    ⟨fun ⟨h₁,h₂⟩ => ⟨h₁,h₂⟩,fun ⟨h₁,h₂⟩ => ⟨h₁,h₂⟩⟩

/-- Signed bytes in a mode, shifted by one place. -/
def exampleConfig (mode : Mode) : Config := ⟨true,false,mode,1,0,0⟩

/-- A cycle with a byte for each operand. -/
def exampleInput (a b : BitVec 32) (sof eof ready : Bool) : Input :=
  ⟨false,a,0,true,sof,eof,b,0,true,ready⟩

/-- A cycle without operands. -/
def idleInput : Input := ⟨false,0,0,false,false,false,0,0,false,true⟩

/-- Two operands of the mode `A-B` give their sum. -/
theorem not_computes : ¬Computes (exampleConfig .MODE14)
    (after (watch (exampleConfig .MODE14)) start
      [exampleInput 7 3 true true true,idleInput,idleInput]) := by
  rintro ⟨⟨coming,hall,_⟩,_⟩
  have hgiven : (after (watch (exampleConfig .MODE14)) start
      [exampleInput 7 3 true true true,idleInput,idleInput]).2.given=[5] := by decide +kernel
  have hexpected : expected (exampleConfig .MODE14) (after (watch (exampleConfig .MODE14)) start
      [exampleInput 7 3 true true true,idleInput,idleInput]).2.taken=[2] := by decide +kernel
  rw [hgiven,hexpected,List.singleton_append,List.cons.injEq] at hall
  exact absurd hall.1 (by decide)

/-- A frame of two products, the second one behind a stall, in the mode that accumulates. -/
def exampleInputs : List Input :=
  [exampleInput 7 3 true false true,exampleInput 0xFE 5 false true false,
    exampleInput 0xFE 5 false true true,idleInput,idleInput]

/-- The rule for that run: half of `7*3-2*5` comes out. -/
theorem computes_of_clean_example :
    (after (watch (exampleConfig .MODE2)) start exampleInputs).2.given=[5] ∧
      Computes (exampleConfig .MODE2) (after (watch (exampleConfig .MODE2)) start exampleInputs) :=
  ⟨by decide +kernel,computes_of_clean (exampleConfig .MODE2) rfl exampleInputs (by decide +kernel)⟩

end Example

end Pulpissimo.Udma.FilterAu
