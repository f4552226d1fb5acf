import Mathlib.Data.BitVec
import Pulpissimo.Lib.LoopNest
import Pulpissimo.Lib.Odometer
import Pulpissimo.Udma.ChAddrgen

/-!
# Walks of the filter

A transfer of the filter goes over the rows of a pattern and over the items of every row. The
rows of a sliding transfer start one item behind each other, those of a circular one all at the
same address, and a linear transfer has one row. The walk is written as two loops and as one
sequence, in which the places of a running number are the two indices. The pointers of the fetch
and of the write-back side move alike, but for the addresses they go to.
-/

namespace Pulpissimo.Udma.FilterWalk

open Pulpissimo Pulpissimo.Odometer Pulpissimo.Udma.ChAddrgen

variable {L2_AWIDTH_NOAL TRANS_SIZE : ℕ}

/-- Modes of a transfer. -/
inductive Mode where
  | MODE_LINEAR
  | MODE_SLIDING
  | MODE_CIRCULAR
  | MODE_2D
deriving DecidableEq

/-- Configuration of a transfer. -/
structure Config (L2_AWIDTH_NOAL TRANS_SIZE : ℕ) where
  cfg_start_addr_i : BitVec L2_AWIDTH_NOAL
  cfg_datasize_i : BitVec 2
  cfg_mode_i : Mode
  cfg_len0_i : BitVec TRANS_SIZE
  cfg_len1_i : BitVec TRANS_SIZE
deriving DecidableEq

/-- An item of the walk, with the marks of the first and of the last one of a row. -/
structure Item (L2_AWIDTH_NOAL : ℕ) where
  addr : BitVec L2_AWIDTH_NOAL
  sof : Bool
  eof : Bool
deriving DecidableEq

section Walk

variable (c : Config L2_AWIDTH_NOAL TRANS_SIZE)

def s_datasize_toadd : BitVec TRANS_SIZE := BitVec.ofNat TRANS_SIZE (toadd c.cfg_datasize_i)

/-- Bytes of an item, as an address. -/
def stride : BitVec L2_AWIDTH_NOAL := (s_datasize_toadd c).setWidth L2_AWIDTH_NOAL

/-- Rows of the pattern. -/
def rows : ℕ := if c.cfg_mode_i=.MODE_LINEAR then 1 else c.cfg_len1_i.toNat+1

/-- Items of a row. -/
def columns : ℕ := c.cfg_len0_i.toNat+1

/-- Items between the start address and item `w` of row `l`. -/
def offset (l w : ℕ) : ℕ := if c.cfg_mode_i=.MODE_SLIDING then l+w else w

def address (l w : ℕ) : BitVec L2_AWIDTH_NOAL :=
  c.cfg_start_addr_i+BitVec.ofNat L2_AWIDTH_NOAL (offset c l w)*stride c

def item (l w : ℕ) : Item L2_AWIDTH_NOAL :=
  ⟨address c l w,decide (w=0),decide (w=c.cfg_len0_i.toNat)⟩

/-- All items, row by row. -/
def walk : List (Item L2_AWIDTH_NOAL) :=
  (List.range (rows c)).flatMap fun l => (List.range (columns c)).map (item c l)

/-- Item number `k`. -/
def nth (k : ℕ) : Item L2_AWIDTH_NOAL := item c (k/columns c) (k%columns c)

end Walk

section Lemmas

variable {c : Config L2_AWIDTH_NOAL TRANS_SIZE} {k l w : ℕ}

theorem columns_pos : 0 < columns c := Nat.succ_pos _

theorem walk_eq : walk c=(List.range (rows c*columns c)).map (nth c) :=
  LoopNest.flatMap_range columns_pos (item c) (rows c)

@[simp] theorem length_walk : (walk c).length=rows c*columns c := by
  rw [walk_eq,List.length_map,List.length_range]

theorem drop_walk (hk : k < rows c*columns c) : (walk c).drop k=nth c k::(walk c).drop (k+1) := by
  have hlt : k < (walk c).length := hk.trans_eq length_walk.symm
  rw [List.drop_eq_getElem_cons hlt]
  congr 1
  simp only [walk_eq,List.getElem_map,List.getElem_range]

theorem row_lt (hk : k < rows c*columns c) : k/columns c < rows c :=
  Nat.div_lt_of_lt_mul (Nat.mul_comm _ _ ▸ hk)

theorem column_lt : k%columns c < columns c := Nat.mod_lt _ columns_pos

/-- An item that is not the last one of its row has a neighbour. -/
theorem next_column (hw : k%columns c≠c.cfg_len0_i.toNat) :
    (k+1)%columns c=k%columns c+1 ∧ (k+1)/columns c=k/columns c := by
  refine next_inside ?_
  unfold columns at hw ⊢
  omega

/-- The last item of a row has the next row behind it. -/
theorem next_row (hw : k%columns c=c.cfg_len0_i.toNat) :
    (k+1)%columns c=0 ∧ (k+1)/columns c=k/columns c+1 :=
  next_carry (congrArg (·+1) hw)

/-- The walk ends behind the last item of the last row. -/
theorem last_iff (hk : k < rows c*columns c) :
    k+1=rows c*columns c ↔ k%columns c=c.cfg_len0_i.toNat ∧ k/columns c+1=rows c := by
  have hrow := row_lt hk
  constructor
  · intro hlast
    by_cases hw : k%columns c=c.cfg_len0_i.toNat
    · refine ⟨hw,?_⟩
      have hnext := (next_row hw).2
      rw [hlast,Nat.mul_div_cancel _ columns_pos] at hnext
      exact hnext.symm
    · have hnext := (next_column hw).2
      rw [hlast,Nat.mul_div_cancel _ columns_pos] at hnext
      exact absurd hnext hrow.ne'
  · rintro ⟨hw,hl⟩
    have hround := rounds_of_last (congrArg (·+1) hw : k%columns c+1=columns c)
    rw [hround,hl,Nat.mul_comm]

theorem address_zero : address c 0 0=c.cfg_start_addr_i := by
  have hoffset : offset c 0 0=0 := ite_self _
  rw [address,hoffset,BitVec.zero_mul,BitVec.add_zero]

theorem ofNat_succ_mul (n : ℕ) (x : BitVec L2_AWIDTH_NOAL) :
    BitVec.ofNat L2_AWIDTH_NOAL (n+1)*x=BitVec.ofNat L2_AWIDTH_NOAL n*x+x := by
  rw [BitVec.ofNat_add,BitVec.add_mul,BitVec.one_mul]

/-- Neighbours in a row are one item apart. -/
theorem address_column : address c l (w+1)=address c l w+stride c := by
  have hoffset : offset c l (w+1)=offset c l w+1 := by
    unfold offset
    split_ifs <;> rfl
  rw [address,hoffset,ofNat_succ_mul,address,add_assoc]

/-- The rows of a sliding transfer start one item apart. -/
theorem address_sliding (hmode : c.cfg_mode_i=.MODE_SLIDING) :
    address c (l+1) 0=address c l 0+stride c := by
  have hoffset : offset c (l+1) 0=offset c l 0+1 := by
    unfold offset
    rw [if_pos hmode,if_pos hmode]
  rw [address,hoffset,ofNat_succ_mul,address,add_assoc]

/-- The rows of the other transfers start at one address. -/
theorem address_same (hmode : c.cfg_mode_i≠.MODE_SLIDING) : address c l 0=c.cfg_start_addr_i := by
  have hoffset : offset c l 0=offset c 0 0 := by
    unfold offset
    rw [if_neg hmode,if_neg hmode]
  rw [address,hoffset,←address,address_zero]

end Lemmas

/-- A counter goes up as long as it fits. -/
theorem toNat_count {x : BitVec TRANS_SIZE} {n : ℕ} (hx : x.toNat=n) (hfit : n+1 < 2^TRANS_SIZE) :
    (x+1).toNat=n+1 := by
  have hlt : 1 < 2^TRANS_SIZE := by omega
  have hone : (1 : BitVec TRANS_SIZE).toNat=1 := Nat.mod_eq_of_lt hlt
  rw [BitVec.toNat_add,hx,hone,Nat.mod_eq_of_lt hfit]

/-- States of both sides. -/
inductive Phase where
  | ST_IDLE
  | ST_RUNNING
deriving DecidableEq

/-- Registers that both sides have. -/
structure Pointers (L2_AWIDTH_NOAL TRANS_SIZE : ℕ) where
  r_loc_startaddr : BitVec L2_AWIDTH_NOAL
  r_loc_pointer : BitVec L2_AWIDTH_NOAL
  r_ptn_buffer_l : BitVec TRANS_SIZE
  r_ptn_buffer_w : BitVec TRANS_SIZE
  r_mode : Mode
  r_state : Phase
deriving DecidableEq

/-- Values after reset. -/
def Pointers.reset : Pointers L2_AWIDTH_NOAL TRANS_SIZE := ⟨0,0,0,0,.MODE_LINEAR,.ST_IDLE⟩

section Pointers

variable (c : Config L2_AWIDTH_NOAL TRANS_SIZE) (p : Pointers L2_AWIDTH_NOAL TRANS_SIZE)

def s_running : Bool := p.r_state==.ST_RUNNING

/-- The item is the last one of its row. -/
def endsRow : Bool := p.r_ptn_buffer_w==c.cfg_len0_i

/-- The item is the last one, as `s_done` tests it. -/
def endsWalk : Bool :=
  match p.r_mode with
  | .MODE_LINEAR => endsRow c p
  | .MODE_SLIDING => endsRow c p && p.r_ptn_buffer_l==c.cfg_len1_i
  | .MODE_CIRCULAR => endsRow c p && p.r_ptn_buffer_l==c.cfg_len1_i
  | .MODE_2D => false

/-- The pointers behind an item, where the next one of the row is at `column` and the next row
is at `row`. -/
def advance (column row : BitVec L2_AWIDTH_NOAL) : Pointers L2_AWIDTH_NOAL TRANS_SIZE :=
  match p.r_mode with
  | .MODE_LINEAR =>
    if endsWalk c p then { p with r_ptn_buffer_w := 0 }
    else { p with r_ptn_buffer_w := p.r_ptn_buffer_w+1,r_loc_pointer := column }
  | .MODE_SLIDING =>
    if endsWalk c p then { p with r_ptn_buffer_w := 0,r_ptn_buffer_l := 0 }
    else if endsRow c p then
      ⟨p.r_loc_startaddr+stride c,row,p.r_ptn_buffer_l+1,0,p.r_mode,p.r_state⟩
    else { p with r_ptn_buffer_w := p.r_ptn_buffer_w+1,r_loc_pointer := column }
  | .MODE_CIRCULAR =>
    if endsWalk c p then { p with r_ptn_buffer_w := 0,r_ptn_buffer_l := 0 }
    else if endsRow c p then
      ⟨p.r_loc_startaddr,row,p.r_ptn_buffer_l+1,0,p.r_mode,p.r_state⟩
    else { p with r_ptn_buffer_w := p.r_ptn_buffer_w+1,r_loc_pointer := column }
  | .MODE_2D => p

def s_start (cmd_start_i : Bool) : Bool := p.r_state==.ST_IDLE && cmd_start_i

/-- One clock edge, in which an item is handled if `handled`. -/
def Pointers.next (cmd_start_i handled : Bool) (column row : BitVec L2_AWIDTH_NOAL) :
    Pointers L2_AWIDTH_NOAL TRANS_SIZE :=
  if s_start p cmd_start_i then
    ⟨c.cfg_start_addr_i,c.cfg_start_addr_i,0,0,c.cfg_mode_i,.ST_RUNNING⟩
  else if handled then
    { advance c p column row with
      r_state := if s_running p && endsWalk c p then .ST_IDLE else p.r_state }
  else p

end Pointers

/-- Item `k` of the walk is next, with the pointer at `addr`. -/
structure At (addr : ℕ → ℕ → BitVec L2_AWIDTH_NOAL) (c : Config L2_AWIDTH_NOAL TRANS_SIZE)
    (k : ℕ) (p : Pointers L2_AWIDTH_NOAL TRANS_SIZE) : Prop where
  running : p.r_state=.ST_RUNNING
  mode : p.r_mode=c.cfg_mode_i
  pattern : c.cfg_mode_i≠.MODE_2D
  inside : k < rows c*columns c
  row : p.r_ptn_buffer_l.toNat=k/columns c
  column : p.r_ptn_buffer_w.toNat=k%columns c
  pointer : p.r_loc_pointer=addr (k/columns c) (k%columns c)
  startaddr : p.r_loc_startaddr=address c (k/columns c) 0

section At

variable {addr : ℕ → ℕ → BitVec L2_AWIDTH_NOAL} {c : Config L2_AWIDTH_NOAL TRANS_SIZE} {k : ℕ}
  {p : Pointers L2_AWIDTH_NOAL TRANS_SIZE} {start : Bool} {column row : BitVec L2_AWIDTH_NOAL}

/-- A start puts the pointers at the first item. -/
theorem at_start (hidle : p.r_state=.ST_IDLE) (hpattern : c.cfg_mode_i≠.MODE_2D)
    (haddr : addr 0 0=c.cfg_start_addr_i) (handled : Bool) :
    At addr c 0 (p.next c true handled column row) := by
  have hstart : s_start p true=true := by rw [s_start,hidle]; rfl
  rw [Pointers.next,if_pos hstart]
  refine ⟨rfl,rfl,hpattern,?_,?_,?_,?_,?_⟩
  · have hrows : 0 < rows c := by
      unfold rows
      split_ifs <;> omega
    exact Nat.mul_pos hrows columns_pos
  · rw [Nat.zero_div]; exact BitVec.toNat_zero
  · rw [Nat.zero_mod]; exact BitVec.toNat_zero
  · rw [Nat.zero_div,Nat.zero_mod,haddr]
  · rw [Nat.zero_div,address_zero]

theorem At.not_start (h : At addr c k p) : s_start p start=false := by
  rw [s_start,h.running]
  rfl

/-- Nothing moves while no item is handled. -/
theorem At.wait (h : At addr c k p) : p.next c start false column row=p := by
  rw [Pointers.next,h.not_start]
  rfl

theorem At.endsRow_iff (h : At addr c k p) :
    endsRow c p=true ↔ k%columns c=c.cfg_len0_i.toNat := by
  rw [endsRow,beq_iff_eq,←BitVec.toNat_inj,h.column]

theorem At.endsWalk_iff (h : At addr c k p) : endsWalk c p=true ↔ k+1=rows c*columns c := by
  have hl : p.r_ptn_buffer_l=c.cfg_len1_i ↔ k/columns c=c.cfg_len1_i.toNat := by
    rw [←BitVec.toNat_inj,h.row]
  have hrow := row_lt h.inside
  rw [last_iff h.inside,←h.endsRow_iff]
  unfold endsWalk rows at *
  rw [h.mode]
  cases hmode : c.cfg_mode_i with
  | MODE_LINEAR =>
    rw [if_pos hmode] at hrow
    exact (and_iff_left (congrArg (·+1) (Nat.lt_one_iff.mp hrow))).symm
  | MODE_SLIDING =>
    rw [if_neg Mode.noConfusion,Nat.add_right_cancel_iff,←hl]
    exact Bool.and_eq_true_iff.trans (and_congr_right' beq_iff_eq)
  | MODE_CIRCULAR =>
    rw [if_neg Mode.noConfusion,Nat.add_right_cancel_iff,←hl]
    exact Bool.and_eq_true_iff.trans (and_congr_right' beq_iff_eq)
  | MODE_2D => exact absurd hmode h.pattern

/-- The last item ends the walk. -/
theorem At.finish (h : At addr c k p) (hlast : k+1=rows c*columns c) :
    (p.next c start true column row).r_state=.ST_IDLE := by
  rw [Pointers.next,h.not_start,h.endsWalk_iff.mpr hlast,s_running,h.running]
  rfl

/-- Pointers behind an item that is not the last one. -/
theorem At.advance_eq (h : At addr c k p) (hmore : endsWalk c p=false) :
    advance c p column row=
      if endsRow c p then
        ⟨if c.cfg_mode_i=.MODE_SLIDING then p.r_loc_startaddr+stride c else p.r_loc_startaddr,row,
          p.r_ptn_buffer_l+1,0,p.r_mode,p.r_state⟩
      else { p with r_ptn_buffer_w := p.r_ptn_buffer_w+1,r_loc_pointer := column } := by
  have hmode := h.mode
  unfold advance
  rw [hmore]
  cases hkind : c.cfg_mode_i with
  | MODE_LINEAR =>
    have hrow : endsRow c p=false := by
      rw [endsWalk,hmode,hkind] at hmore
      exact hmore
    rw [hmode,hkind,hrow]
    rfl
  | MODE_SLIDING => rw [hmode,hkind]; rfl
  | MODE_CIRCULAR => rw [hmode,hkind]; rfl
  | MODE_2D => exact absurd hkind h.pattern

/-- Another item leads to the one behind it. -/
theorem At.next (h : At addr c k p) (hmore : k+1≠rows c*columns c)
    (hcolumn : k%columns c≠c.cfg_len0_i.toNat → column=addr (k/columns c) (k%columns c+1))
    (hrow : k%columns c=c.cfg_len0_i.toNat → row=addr (k/columns c+1) 0) :
    At addr c (k+1) (p.next c start true column row) := by
  have hends : endsWalk c p=false := by
    rw [←Bool.not_eq_true,h.endsWalk_iff]
    exact hmore
  have hnext : p.next c start true column row=advance c p column row := by
    rw [Pointers.next,h.not_start,hends,Bool.and_false,h.advance_eq hends]
    simp only [Bool.false_eq_true,if_false,if_true]
    split_ifs <;> rfl
  have hinside : k+1 < rows c*columns c := lt_of_le_of_ne h.inside hmore
  rw [hnext,h.advance_eq hends]
  by_cases hlast : k%columns c=c.cfg_len0_i.toNat
  · have hplace := next_row hlast
    have hlt := row_lt hinside
    rw [if_pos (h.endsRow_iff.mpr hlast)]
    refine ⟨h.running,h.mode,h.pattern,hinside,?_,?_,?_,?_⟩
    · rw [hplace.2] at hlt ⊢
      have hfit : k/columns c+1 < 2^TRANS_SIZE := by
        have hlen := c.cfg_len1_i.isLt
        unfold rows at hlt
        split_ifs at hlt <;> omega
      exact toNat_count h.row hfit
    · rw [hplace.1]
      exact BitVec.toNat_zero
    · rw [hplace.1,hplace.2]
      exact hrow hlast
    · rw [hplace.2]
      dsimp only
      split_ifs with hkind
      · rw [address_sliding hkind,h.startaddr]
      · rw [address_same hkind,h.startaddr,address_same hkind]
  · have hplace := next_column hlast
    have hlt : k%columns c < columns c := column_lt
    rw [if_neg (mt h.endsRow_iff.mp hlast)]
    refine ⟨h.running,h.mode,h.pattern,hinside,?_,?_,?_,?_⟩
    · rw [hplace.2]
      exact h.row
    · rw [hplace.1]
      have hfit : k%columns c+1 < 2^TRANS_SIZE := by
        have hlen := c.cfg_len0_i.isLt
        unfold columns at hlt hlast ⊢
        omega
      exact toNat_count h.column hfit
    · rw [hplace.1,hplace.2]
      exact hcolumn hlast
    · rw [hplace.2]
      exact h.startaddr

end At

end Pulpissimo.Udma.FilterWalk
