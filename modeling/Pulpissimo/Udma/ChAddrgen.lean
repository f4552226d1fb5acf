import Mathlib.Algebra.BigOperators.Group.List.Basic
import Mathlib.Data.BitVec
import Pulpissimo.Lib.Machine

/-!
# Addresses of a channel

`udma_ch_addrgen` keeps the address and the bytes left of a channel's transfer. The values of
the next cycle, the conditions under which they are taken and the flag of a waiting
enable are three separate blocks. A book kept beside the registers says which
transfers the channel has to serve: it knows of starts, sizes and bytes only.
-/

namespace Pulpissimo.Udma.ChAddrgen

open Pulpissimo.Machine

variable {L2_AWIDTH_NOAL TRANS_SIZE : ℕ}

/-- Registers. -/
structure State (L2_AWIDTH_NOAL TRANS_SIZE : ℕ) where
  r_addresses : BitVec L2_AWIDTH_NOAL
  r_counters : BitVec TRANS_SIZE
  r_filter : Bool
  r_en : Bool
  r_event : Bool
  /-- A datum of the transfer was granted. -/
  r_ch_en : Bool
  /-- First cycle of a transfer. -/
  r_sot : Bool
  /-- An enable waits for the end of the transfer. -/
  r_pending_en : Bool

/-- Values after reset. -/
def reset : State L2_AWIDTH_NOAL TRANS_SIZE := ⟨0,0,false,false,false,false,false,false⟩

/-- One cycle of inputs. -/
structure Input (L2_AWIDTH_NOAL TRANS_SIZE : ℕ) where
  cfg_startaddr_i : BitVec L2_AWIDTH_NOAL
  cfg_size_i : BitVec TRANS_SIZE
  cfg_continuous_i : Bool
  cfg_en_i : Bool
  cfg_filter_i : Bool
  cfg_clr_i : Bool
  int_not_stall_i : Bool
  int_datasize_i : BitVec 2
  int_ch_grant_i : Bool

/-- Bytes of a datum. -/
def toadd (datasize : BitVec 2) : ℕ :=
  if datasize=0 then 1 else if datasize=1 then 2 else if datasize=2 then 4 else 0

section Code

variable (s : State L2_AWIDTH_NOAL TRANS_SIZE) (i : Input L2_AWIDTH_NOAL TRANS_SIZE)

def s_datasize_toadd : BitVec TRANS_SIZE := BitVec.ofNat TRANS_SIZE (toadd i.int_datasize_i)

def s_compare : Bool := decide (s.r_counters ≤ s_datasize_toadd i)

def s_pending_en : Bool :=
  if i.cfg_en_i && (s.r_ch_en || s.r_en) &&
      (!s_compare s i || (s_compare s i && (!i.int_not_stall_i || !i.int_ch_grant_i))) then true
  else if s.r_en && i.int_ch_grant_i && i.int_not_stall_i && decide (s.r_counters ≤ s_datasize_toadd i)
    then false
  else s.r_pending_en

/-- The channel is granted a datum and moves on. -/
def serves : Bool := i.int_not_stall_i && s.r_en && i.int_ch_grant_i

/-- Values that `proc_next_val` offers to the registers. -/
def next : State L2_AWIDTH_NOAL TRANS_SIZE :=
  if i.cfg_en_i && !s.r_en then
    { s with
      r_counters := i.cfg_size_i
      r_addresses := i.cfg_startaddr_i
      r_en := true
      r_ch_en := false
      r_event := false
      r_sot := true
      r_filter := i.cfg_filter_i }
  else if i.cfg_clr_i then
    { s with
      r_counters := 0
      r_addresses := 0
      r_en := false
      r_ch_en := false
      r_event := false
      r_sot := false
      r_filter := false }
  else if serves s i then
    if s_compare s i then
      if !i.cfg_continuous_i && !s.r_pending_en && !i.cfg_en_i then
        { s with
          r_event := true
          r_en := false
          r_ch_en := false
          r_counters := 0
          r_addresses := 0
          r_filter := false
          r_sot := false }
      else
        { s with
          r_event := true
          r_counters := i.cfg_size_i
          r_addresses := i.cfg_startaddr_i
          r_filter := i.cfg_filter_i
          r_en := true
          r_ch_en := true
          r_sot := true }
    else
      { s with
        r_event := false
        r_sot := false
        r_ch_en := true
        r_counters := s.r_counters-s_datasize_toadd i
        r_addresses := s.r_addresses+(s_datasize_toadd i).setWidth L2_AWIDTH_NOAL }
  else
    { s with
      r_event := false
      r_sot := false }

/-- The cycles that take every offered value. -/
def samples : Bool :=
  (i.cfg_en_i && !s.r_en) || i.cfg_clr_i || (i.cfg_en_i && s_compare s i && i.int_not_stall_i)

/-- One clock edge. -/
def step : State L2_AWIDTH_NOAL TRANS_SIZE :=
  let n := next s i
  let kept := { s with r_event := n.r_event, r_sot := n.r_sot, r_pending_en := s_pending_en s i }
  if samples s i then
    { kept with
      r_counters := n.r_counters
      r_addresses := n.r_addresses
      r_en := n.r_en
      r_ch_en := n.r_ch_en
      r_filter := n.r_filter }
  else if serves s i then
    if s_compare s i then
      let moved := { kept with
        r_counters := n.r_counters
        r_addresses := n.r_addresses
        r_filter := n.r_filter }
      if !i.cfg_continuous_i && !s.r_pending_en then
        { moved with r_en := n.r_en, r_ch_en := n.r_ch_en }
      else moved
    else
      { kept with
        r_ch_en := n.r_ch_en, r_counters := n.r_counters, r_addresses := n.r_addresses }
  else kept

def int_ch_en_o : Bool := s.r_en

def int_ch_en_prev_o : Bool := (next s i).r_en

def int_ch_events_o : Bool := s.r_event

def int_ch_sot_o : Bool := s.r_sot

def int_ch_pending_o : Bool := s.r_pending_en

def int_ch_curr_addr_o : BitVec L2_AWIDTH_NOAL := s.r_addresses

def int_ch_bytes_left_o : BitVec TRANS_SIZE := s.r_counters

def int_filter_o : Bool := s.r_filter

end Code


section Steps

variable {s : State L2_AWIDTH_NOAL TRANS_SIZE} {i : Input L2_AWIDTH_NOAL TRANS_SIZE}

/-- A disabled channel waits for an enable and then takes the configuration. -/
theorem step_idle (hen : s.r_en=false) (hch : s.r_ch_en=false) (hpend : s.r_pending_en=false) :
    (step s i).r_en=i.cfg_en_i ∧ (step s i).r_ch_en=false ∧ (step s i).r_pending_en=false ∧
      (step s i).r_event=false ∧ (i.cfg_en_i=true → (step s i).r_addresses=i.cfg_startaddr_i ∧
        (step s i).r_counters=i.cfg_size_i) := by
  cases hcfg : i.cfg_en_i <;> cases hclr : i.cfg_clr_i <;>
    simp [step,next,samples,serves,s_pending_en,hen,hch,hpend,hcfg,hclr]

/-- A running channel that is not granted keeps its place and notes an enable. -/
theorem step_wait (hen : s.r_en=true) (hclr : i.cfg_clr_i=false) (hserve : serves s i=false) :
    (step s i).r_en=true ∧ (step s i).r_pending_en=(s.r_pending_en || i.cfg_en_i) ∧
      (step s i).r_event=false ∧ (step s i).r_addresses=s.r_addresses ∧
      (step s i).r_counters=s.r_counters := by
  have hstop : i.int_not_stall_i=false ∨ i.int_ch_grant_i=false := by
    simpa [serves,hen,or_iff_not_imp_left] using hserve
  cases hcfg : i.cfg_en_i <;> cases hcmp : s_compare s i <;> rcases hstop with hst | hst <;>
    simp [step,next,samples,s_pending_en,hen,hclr,hserve,hcmp,hcfg,hst]

/-- A datum that is not the last one moves the channel on. -/
theorem step_middle (hen : s.r_en=true) (hclr : i.cfg_clr_i=false) (hserve : serves s i=true)
    (hcmp : s_compare s i=false) :
    (step s i).r_en=true ∧ (step s i).r_pending_en=(s.r_pending_en || i.cfg_en_i) ∧
      (step s i).r_event=false ∧
      (step s i).r_addresses=s.r_addresses+(s_datasize_toadd i).setWidth L2_AWIDTH_NOAL ∧
      (step s i).r_counters=s.r_counters-s_datasize_toadd i := by
  have hle : ¬s.r_counters ≤ s_datasize_toadd i := of_decide_eq_false hcmp
  cases hcfg : i.cfg_en_i <;>
    simp [step,next,samples,s_pending_en,hen,hclr,hserve,hcmp,hcfg,hle]

/-- The last datum raises the event, and the channel starts again if it is continuous or an
enable came, this cycle included. -/
theorem step_last (hen : s.r_en=true) (hclr : i.cfg_clr_i=false) (hserve : serves s i=true)
    (hcmp : s_compare s i=true) :
    (step s i).r_en=(i.cfg_continuous_i || s.r_pending_en || i.cfg_en_i) ∧
      ((step s i).r_ch_en=true → (step s i).r_en=true) ∧
      (step s i).r_pending_en=false ∧ (step s i).r_event=true ∧
      ((step s i).r_en=true → (step s i).r_addresses=i.cfg_startaddr_i ∧
        (step s i).r_counters=i.cfg_size_i) := by
  have hle : s.r_counters ≤ s_datasize_toadd i := of_decide_eq_true hcmp
  have hgo : i.int_not_stall_i=true ∧ i.int_ch_grant_i=true := by
    simpa [serves,hen] using hserve
  cases hcfg : i.cfg_en_i <;> cases hcont : i.cfg_continuous_i <;> cases hpend : s.r_pending_en <;>
    simp [step,next,samples,s_pending_en,hen,hclr,hserve,hcmp,hcfg,hcont,hpend,hle,hgo]

end Steps

/-- A datum that a transfer was granted, with the outputs in that cycle. -/
structure Beat (L2_AWIDTH_NOAL : ℕ) where
  addr : BitVec L2_AWIDTH_NOAL
  bytes_left : ℕ
  /-- Its bytes. -/
  size : ℕ

/-- One transfer. -/
structure Transfer (L2_AWIDTH_NOAL : ℕ) where
  startaddr : BitVec L2_AWIDTH_NOAL
  size : ℕ
  beats : List (Beat L2_AWIDTH_NOAL)
  /-- An enable came since it began. -/
  again : Bool

/-- What a channel has to serve and has served. -/
structure Book (L2_AWIDTH_NOAL : ℕ) where
  /-- Completed transfers. -/
  done : List (Transfer L2_AWIDTH_NOAL)
  now : Option (Transfer L2_AWIDTH_NOAL)
  /-- Cycles with an event. -/
  events : ℕ

namespace Transfer

variable (t : Transfer L2_AWIDTH_NOAL)

/-- Bytes served. -/
def bytes : ℕ := (t.beats.map Beat.size).sum

/-- The first `n` data of `d` bytes at consecutive addresses. -/
def row (d n : ℕ) : List (Beat L2_AWIDTH_NOAL) :=
  (List.range n).map fun k => ⟨t.startaddr+BitVec.ofNat L2_AWIDTH_NOAL (k*d),t.size-k*d,d⟩

/-- Data of `d` bytes in the transfer. -/
def total (d : ℕ) : ℕ := (t.size+d-1)/d

/-- The transfer after a datum. -/
def grant (b : Beat L2_AWIDTH_NOAL) (cfg_en : Bool) : Transfer L2_AWIDTH_NOAL :=
  { t with beats := t.beats++[b], again := t.again || cfg_en }

end Transfer

/-- A transfer with the configuration of a cycle. -/
def begins (i : Input L2_AWIDTH_NOAL TRANS_SIZE) : Transfer L2_AWIDTH_NOAL :=
  ⟨i.cfg_startaddr_i,i.cfg_size_i.toNat,[],false⟩

/-- The book after a cycle. A transfer ends with the datum that serves the last of its bytes, and
the next one begins then if the channel is continuous or an enable came. -/
def Book.next (o : Book L2_AWIDTH_NOAL) (s : State L2_AWIDTH_NOAL TRANS_SIZE)
    (i : Input L2_AWIDTH_NOAL TRANS_SIZE) : Book L2_AWIDTH_NOAL :=
  let o := { o with events := o.events+(int_ch_events_o s).toNat }
  match o.now with
  | none => if i.cfg_en_i then { o with now := some (begins i) } else o
  | some t =>
    if i.int_not_stall_i && i.int_ch_grant_i then
      let b := ⟨int_ch_curr_addr_o s,(int_ch_bytes_left_o s).toNat,toadd i.int_datasize_i⟩
      let t := t.grant b i.cfg_en_i
      if t.size ≤ t.bytes then
        { o with
          done := o.done++[t]
          now := if i.cfg_continuous_i || t.again then some (begins i) else none }
      else { o with now := some t }
    else { o with now := some { t with again := t.again || i.cfg_en_i } }

/-- The registers and the book. -/
abbrev Watched (L2_AWIDTH_NOAL TRANS_SIZE : ℕ) :=
  State L2_AWIDTH_NOAL TRANS_SIZE × Book L2_AWIDTH_NOAL

/-- One clock edge, with the book kept. -/
def watch (w : Watched L2_AWIDTH_NOAL TRANS_SIZE) (i : Input L2_AWIDTH_NOAL TRANS_SIZE) :
    Watched L2_AWIDTH_NOAL TRANS_SIZE := (step w.1 i,w.2.next w.1 i)

/-- Reset with an empty book. -/
def start : Watched L2_AWIDTH_NOAL TRANS_SIZE := (reset,⟨[],none,0⟩)

/-- A running transfer is not cleared. -/
def Uncleared (w : Watched L2_AWIDTH_NOAL TRANS_SIZE) (i : Input L2_AWIDTH_NOAL TRANS_SIZE) : Prop :=
  i.cfg_clr_i=true → int_ch_en_o w.1=false

/-- The channel serves its book: every completed transfer of at least one byte had all its data
and no other, and the address, the bytes left, the enable and the events are those of the book. -/
structure Served (w : Watched L2_AWIDTH_NOAL TRANS_SIZE) : Prop where
  enabled : int_ch_en_o w.1=w.2.now.isSome
  complete : ∀ t ∈ w.2.done, 0 < t.size → ∀ d, 0 < d → (∀ b ∈ t.beats, b.size=d) →
    t.beats=t.row d (t.total d)
  running : ∀ t, w.2.now=some t → 0 < t.size → ∀ d, 0 < d → (∀ b ∈ t.beats, b.size=d) →
    t.beats=t.row d t.beats.length ∧ t.beats.length < t.total d ∧
      int_ch_curr_addr_o w.1=t.startaddr+BitVec.ofNat L2_AWIDTH_NOAL (t.beats.length*d) ∧
      (int_ch_bytes_left_o w.1).toNat=t.size-t.beats.length*d
  events : w.2.events+(int_ch_events_o w.1).toNat=w.2.done.length

/-- Data lie one behind the other, from `n` bytes after a start. -/
def Follows (startaddr : BitVec L2_AWIDTH_NOAL) (size : ℕ) :
    ℕ → List (Beat L2_AWIDTH_NOAL) → Prop
  | _,[] => True
  | n,b::bs => b.addr=startaddr+BitVec.ofNat L2_AWIDTH_NOAL n ∧ b.bytes_left=size-n ∧
      Follows startaddr size (n+b.size) bs

theorem Transfer.bytes_grant (t : Transfer L2_AWIDTH_NOAL) (b : Beat L2_AWIDTH_NOAL) (c : Bool) :
    (t.grant b c).bytes=t.bytes+b.size := by
  simp [Transfer.bytes,Transfer.grant]

theorem Follows.concat {startaddr : BitVec L2_AWIDTH_NOAL} {size n : ℕ}
    {bs : List (Beat L2_AWIDTH_NOAL)} {b : Beat L2_AWIDTH_NOAL} (h : Follows startaddr size n bs)
    (haddr : b.addr=startaddr+BitVec.ofNat L2_AWIDTH_NOAL (n+(bs.map Beat.size).sum))
    (hleft : b.bytes_left=size-(n+(bs.map Beat.size).sum)) :
    Follows startaddr size n (bs++[b]) := by
  induction bs generalizing n with
  | nil => exact ⟨haddr,hleft,trivial⟩
  | cons c bs ih =>
    rw [List.map_cons,List.sum_cons,←Nat.add_assoc] at haddr hleft
    exact ⟨h.1,h.2.1,ih h.2.2 haddr hleft⟩

/-- Data of one size that lie one behind the other are a row. -/
theorem Transfer.eq_row {t : Transfer L2_AWIDTH_NOAL} {d : ℕ}
    (h : Follows t.startaddr t.size 0 t.beats) (hd : ∀ b ∈ t.beats, b.size=d) : t.beats=t.row d t.beats.length := by
  have hall : ∀ (bs : List (Beat L2_AWIDTH_NOAL)) (m : ℕ), Follows t.startaddr t.size (m*d) bs →
      (∀ b ∈ bs, b.size=d) → bs=(List.range' m bs.length).map fun k =>
        (⟨t.startaddr+BitVec.ofNat L2_AWIDTH_NOAL (k*d),t.size-k*d,d⟩ : Beat L2_AWIDTH_NOAL) := by
    intro bs
    induction bs with
    | nil => exact fun _ _ _ => rfl
    | cons b bs ih =>
      intro m hrow hsize
      have hb : b.size=d := hsize b List.mem_cons_self
      have hnext : m*d+b.size=(m+1)*d := by rw [hb,Nat.succ_mul]
      have hrest := ih (m+1) (hnext ▸ hrow.2.2) fun c hc => hsize c (List.mem_cons_of_mem b hc)
      rw [List.length_cons,List.range'_succ,List.map_cons,←hrest,←hrow.1,←hrow.2.1,←hb]
  have hrow := hall t.beats 0 ((Nat.zero_mul d).symm ▸ h) hd
  rw [Transfer.row,List.range_eq_range']
  exact hrow

/-- Bytes of data of one size. -/
theorem sum_sizes {bs : List (Beat L2_AWIDTH_NOAL)} {d : ℕ} (h : ∀ b ∈ bs, b.size=d) :
    (bs.map Beat.size).sum=bs.length*d := by
  rw [List.map_congr_left h,List.map_const',List.sum_replicate_nat]

/-- A transfer that is complete: all its bytes were served, the last of them by its last datum. -/
structure Full (t : Transfer L2_AWIDTH_NOAL) : Prop where
  follows : Follows t.startaddr t.size 0 t.beats
  all : t.size ≤ t.bytes
  last : ∃ bs b,t.beats=bs++[b] ∧ (0 < t.size → (bs.map Beat.size).sum < t.size)

/-- The registers of a running transfer. -/
structure Along (s : State L2_AWIDTH_NOAL TRANS_SIZE) (t : Transfer L2_AWIDTH_NOAL) : Prop where
  en : s.r_en=true
  pending : s.r_pending_en=t.again
  addr : s.r_addresses=t.startaddr+BitVec.ofNat L2_AWIDTH_NOAL t.bytes
  left : s.r_counters.toNat=t.size-t.bytes
  part : 0 < t.size → t.bytes < t.size
  follows : Follows t.startaddr t.size 0 t.beats

/-- The registers serve the book. -/
structure Inv (w : Watched L2_AWIDTH_NOAL TRANS_SIZE) : Prop where
  idle : w.2.now=none → w.1.r_en=false ∧ w.1.r_ch_en=false ∧ w.1.r_pending_en=false
  along : ∀ t, w.2.now=some t → Along w.1 t
  full : ∀ t ∈ w.2.done, Full t
  events : w.2.events+w.1.r_event.toNat=w.2.done.length

theorem Inv.start : Inv (start : Watched L2_AWIDTH_NOAL TRANS_SIZE) where
  idle := fun _ => ⟨rfl,rfl,rfl⟩
  along := fun _ ht => nomatch ht
  full := fun _ ht => absurd ht List.not_mem_nil
  events := rfl

section Inv

variable {s : State L2_AWIDTH_NOAL TRANS_SIZE} {i : Input L2_AWIDTH_NOAL TRANS_SIZE}
  {o : Book L2_AWIDTH_NOAL} {t : Transfer L2_AWIDTH_NOAL}

/-- The datum that a running transfer is granted. -/
def beat (s : State L2_AWIDTH_NOAL TRANS_SIZE) (i : Input L2_AWIDTH_NOAL TRANS_SIZE) :
    Beat L2_AWIDTH_NOAL :=
  ⟨int_ch_curr_addr_o s,(int_ch_bytes_left_o s).toNat,toadd i.int_datasize_i⟩

/-- A transfer that begins has its configuration in the registers. -/
theorem Along.begins (hen : s.r_en=true) (hpend : s.r_pending_en=false)
    (haddr : s.r_addresses=i.cfg_startaddr_i) (hleft : s.r_counters=i.cfg_size_i) :
    Along s (begins i) where
  en := hen
  pending := hpend
  addr := haddr.trans (BitVec.add_zero _).symm
  left := congrArg BitVec.toNat hleft
  part := fun h => h
  follows := trivial

/-- The granted datum lies behind the others of its transfer. -/
theorem Along.follows_grant (h : Along s t) :
    Follows t.startaddr t.size 0 (t.beats++[beat s i]) := by
  apply h.follows.concat
  · rw [Nat.zero_add]
    exact h.addr
  · rw [Nat.zero_add]
    exact h.left

theorem s_datasize_toadd_toNat (hT : 2 < TRANS_SIZE) (i : Input L2_AWIDTH_NOAL TRANS_SIZE) :
    (s_datasize_toadd i).toNat=toadd i.int_datasize_i := by
  have hpow : 2^3 ≤ 2^TRANS_SIZE := Nat.pow_le_pow_right (by decide) hT
  have hle : toadd i.int_datasize_i ≤ 4 := by
    unfold toadd
    split_ifs <;> decide
  rw [s_datasize_toadd,BitVec.toNat_ofNat,Nat.mod_eq_of_lt (by omega)]

/-- The last datum is the one that serves the last bytes. -/
theorem Along.compare_iff (hT : 2 < TRANS_SIZE) (h : Along s t) :
    s_compare s i=true ↔ t.size ≤ (t.grant (beat s i) c).bytes := by
  rw [Transfer.bytes_grant,s_compare,decide_eq_true_iff,BitVec.le_def,h.left,
    s_datasize_toadd_toNat hT]
  exact Nat.sub_le_iff_le_add'

/-- A datum that is not the last one leaves the rest. -/
theorem Along.middle (hT : 2 < TRANS_SIZE) (h : Along s t) (hclr : i.cfg_clr_i=false)
    (hserve : serves s i=true) (hcmp : s_compare s i=false) :
    Along (step s i) (t.grant (beat s i) i.cfg_en_i) := by
  obtain ⟨hen,hpend,_,haddr,hleft⟩ := step_middle h.en hclr hserve hcmp
  have hmore : ¬t.size ≤ (t.grant (beat s i) i.cfg_en_i).bytes := by
    rw [←h.compare_iff hT,hcmp]
    exact Bool.false_ne_true
  have hsum : (t.grant (beat s i) i.cfg_en_i).bytes=t.bytes+toadd i.int_datasize_i :=
    t.bytes_grant _ _
  refine ⟨hen,?_,?_,?_,fun _ => Nat.lt_of_not_le hmore,h.follows_grant⟩
  · rw [hpend,h.pending]
    rfl
  · rw [haddr,h.addr,hsum,BitVec.add_assoc,BitVec.ofNat_add,←s_datasize_toadd_toNat hT,
      BitVec.ofNat_toNat]
    rfl
  · have hle : s_datasize_toadd i ≤ s.r_counters := by
      have hcmp' := of_decide_eq_false hcmp
      exact BitVec.le_of_lt (BitVec.not_le.mp hcmp')
    rw [hleft,BitVec.toNat_sub_of_le hle,h.left,s_datasize_toadd_toNat hT,hsum]
    exact Nat.sub_sub _ _ _

/-- A transfer is complete with its last datum. -/
theorem Along.full (hT : 2 < TRANS_SIZE) (h : Along s t) (c : Bool) (hcmp : s_compare s i=true) :
    Full (t.grant (beat s i) c) where
  follows := h.follows_grant
  all := (h.compare_iff hT).mp hcmp
  last := ⟨t.beats,beat s i,rfl,h.part⟩

/-- A running transfer under a book. -/
theorem Along.inv (h : Along s t) {done : List (Transfer L2_AWIDTH_NOAL)}
    (hfull : ∀ u ∈ done, Full u) {n : ℕ} (hn : n+s.r_event.toNat=done.length) :
    Inv (s,⟨done,some t,n⟩) where
  idle := fun hnone => nomatch hnone
  along := by
    rintro u ⟨⟩
    exact h
  full := hfull
  events := hn

/-- One cycle of a running transfer. -/
theorem Inv.running (hT : 2 < TRANS_SIZE) (h : Inv (s,o)) (hnow : o.now=some t)
    (hclr : i.cfg_clr_i=false) : Inv (watch (s,o) i) := by
  have ht : Along s t := h.along t hnow
  have hevents : o.events+s.r_event.toNat=o.done.length := h.events
  have hgo : (i.int_not_stall_i && i.int_ch_grant_i)=serves s i := by
    rw [serves,ht.en,Bool.and_true]
  cases hserve : serves s i with
  | false =>
    obtain ⟨hen,hpend,hevent,haddr,hleft⟩ := step_wait ht.en hclr hserve
    have hbook : o.next s i=
        ⟨o.done,some { t with again := t.again || i.cfg_en_i },o.events+s.r_event.toNat⟩ := by
      simp [Book.next,hnow,hgo,hserve,int_ch_events_o]
    have hnext : Along (step s i) { t with again := t.again || i.cfg_en_i } :=
      ⟨hen,hpend.trans (by rw [ht.pending]),haddr.trans ht.addr,
        (congrArg BitVec.toNat hleft).trans ht.left,ht.part,ht.follows⟩
    rw [watch,hbook]
    exact hnext.inv h.full (by rw [hevent]; exact hevents)
  | true =>
    have hbook : o.next s i=
        if t.size ≤ (t.grant (beat s i) i.cfg_en_i).bytes then
          ⟨o.done++[t.grant (beat s i) i.cfg_en_i],
            if i.cfg_continuous_i || (t.again || i.cfg_en_i) then some (begins i) else none,
            o.events+s.r_event.toNat⟩
        else ⟨o.done,some (t.grant (beat s i) i.cfg_en_i),o.events+s.r_event.toNat⟩ := by
      simp only [Book.next,hnow,hgo,hserve]
      rfl
    rw [watch,hbook]
    cases hcmp : s_compare s i with
    | false =>
      have hmore : ¬t.size ≤ (t.grant (beat s i) i.cfg_en_i).bytes := by
        rw [←ht.compare_iff hT,hcmp]
        exact Bool.false_ne_true
      have hevent := (step_middle ht.en hclr hserve hcmp).2.2.1
      rw [if_neg hmore]
      exact (ht.middle hT hclr hserve hcmp).inv h.full (by rw [hevent]; exact hevents)
    | true =>
      obtain ⟨hen,hch,hpend,hevent,hload⟩ := step_last ht.en hclr hserve hcmp
      have hfull : ∀ u ∈ o.done++[t.grant (beat s i) i.cfg_en_i], Full u := by
        intro u hu
        rcases List.mem_append.mp hu with hu | hu
        · exact h.full u hu
        · rw [List.mem_singleton.mp hu]
          exact ht.full hT _ hcmp
      have hcount : o.events+s.r_event.toNat+(step s i).r_event.toNat=
          (o.done++[t.grant (beat s i) i.cfg_en_i]).length := by
        rw [hevents,hevent,List.length_append]
        rfl
      rw [if_pos ((ht.compare_iff hT).mp hcmp),←ht.pending,←Bool.or_assoc,←hen]
      cases hgoes : (step s i).r_en with
      | true =>
        obtain ⟨haddr,hleft⟩ := hload hgoes
        rw [if_pos rfl]
        exact (Along.begins hgoes hpend haddr hleft).inv hfull hcount
      | false =>
        rw [if_neg Bool.false_ne_true]
        refine ⟨fun _ => ⟨hgoes,?_,hpend⟩,fun _ hu => (nomatch hu),hfull,hcount⟩
        cases hchen : (step s i).r_ch_en with
        | false => rfl
        | true => rw [←hgoes,hch hchen]

/-- One cycle of a disabled channel. -/
theorem Inv.waiting (h : Inv (s,o)) (hnow : o.now=none) : Inv (watch (s,o) i) := by
  obtain ⟨hen,hch,hpend⟩ := h.idle hnow
  obtain ⟨hen',hch',hpend',hevent,hload⟩ := step_idle (i:=i) hen hch hpend
  have hevents : o.events+s.r_event.toNat=o.done.length := h.events
  cases hcfg : i.cfg_en_i with
  | true =>
    have hbook : o.next s i=⟨o.done,some (begins i),o.events+s.r_event.toNat⟩ := by
      simp [Book.next,hnow,hcfg,int_ch_events_o]
    rw [watch,hbook]
    exact (Along.begins (hen'.trans hcfg) hpend' (hload hcfg).1 (hload hcfg).2).inv h.full
      (by rw [hevent]; exact hevents)
  | false =>
    have hbook : o.next s i=⟨o.done,none,o.events+s.r_event.toNat⟩ := by
      simp [Book.next,hnow,hcfg,int_ch_events_o]
    rw [watch,hbook]
    exact ⟨fun _ => ⟨hen'.trans hcfg,hch',hpend'⟩,fun _ hu => (nomatch hu),h.full,
      by rw [hevent]; exact hevents⟩

theorem Inv.step (hT : 2 < TRANS_SIZE) {w : Watched L2_AWIDTH_NOAL TRANS_SIZE} (h : Inv w)
    (hclr : Uncleared w i) : Inv (watch w i) := by
  cases hnow : w.2.now with
  | none => exact h.waiting hnow
  | some t =>
    refine h.running hT hnow (Bool.not_eq_true _ ▸ fun hc => ?_)
    exact Bool.false_ne_true ((hclr hc).symm.trans (h.along t hnow).en)

end Inv

/-- Data of `d` bytes before the last one. -/
theorem succ_le_total {t : Transfer L2_AWIDTH_NOAL} {n d : ℕ} (hd : 0 < d) (h : n*d < t.size) :
    n+1 ≤ t.total d := by
  rw [Transfer.total,Nat.le_div_iff_mul_le hd,Nat.succ_mul]
  omega

/-- Data of `d` bytes that serve all bytes, the last of them by the last datum. -/
theorem succ_eq_total {t : Transfer L2_AWIDTH_NOAL} {n d : ℕ} (hd : 0 < d) (h : n*d < t.size)
    (hall : t.size ≤ (n+1)*d) : n+1=t.total d := by
  refine le_antisymm (succ_le_total hd h) (Nat.le_of_lt_succ ?_)
  rw [Transfer.total,Nat.div_lt_iff_lt_mul hd,Nat.succ_mul (n+1)]
  omega

theorem Full.eq_row {t : Transfer L2_AWIDTH_NOAL} (h : Full t) (hsize : 0 < t.size) {d : ℕ}
    (hd : 0 < d) (hsizes : ∀ b ∈ t.beats, b.size=d) : t.beats=t.row d (t.total d) := by
  rcases h.last with ⟨bs,b,hbeats,hpart⟩
  have hlength : t.beats.length=bs.length+1 := by
    rw [hbeats]
    exact List.length_append
  have hbefore : bs.length*d < t.size := by
    rw [←sum_sizes fun c hc => hsizes c (hbeats ▸ List.mem_append_left _ hc)]
    exact hpart hsize
  have hall : t.size ≤ (bs.length+1)*d := by
    rw [←hlength,←sum_sizes hsizes]
    exact h.all
  rw [←succ_eq_total hd hbefore hall,←hlength]
  exact Transfer.eq_row h.follows hsizes

/-- A book that the registers serve is served. -/
theorem Inv.served {w : Watched L2_AWIDTH_NOAL TRANS_SIZE} (h : Inv w) : Served w where
  enabled := by
    cases hnow : w.2.now with
    | none => exact (h.idle hnow).1
    | some t => exact (h.along t hnow).en
  complete := fun t ht hsize _ hd hsizes => (h.full t ht).eq_row hsize hd hsizes
  running := by
    intro t hnow hsize d hd hsizes
    have ht := h.along t hnow
    have hbytes : t.bytes=t.beats.length*d := sum_sizes hsizes
    refine ⟨Transfer.eq_row ht.follows hsizes,succ_le_total hd ?_,?_,?_⟩
    · rw [←hbytes]
      exact ht.part hsize
    · rw [←hbytes]
      exact ht.addr
    · rw [←hbytes]
      exact ht.left
  events := h.events

/-- In every run in which no running transfer is cleared the channel serves its book: data of
`d` bytes at the addresses from the start on, as many as the size takes, one event for each
completed transfer, and one further transfer exactly if the channel is continuous or an enable came. -/
theorem served_after (hT : 2 < TRANS_SIZE) (is : List (Input L2_AWIDTH_NOAL TRANS_SIZE))
    (h : Meets watch Uncleared start is) : Served (after watch start is) :=
  (after_invariant_of_meets (fun _ _ hw hC => Inv.step hT hw hC) Inv.start h).served

/-- A transfer of five bytes in half-words with an enable in the cycle of its last grant. -/
def exampleInputs : List (Input 18 16) :=
  let i : Input 18 16 := ⟨100,5,false,false,false,false,true,1,true⟩
  [{ i with cfg_en_i := true },i,{ i with int_not_stall_i := false },i,{ i with cfg_en_i := true },
    { i with int_ch_grant_i := false }]

/-- The rule for that run, and its book: three data, and the next transfer. -/
theorem served_after_example :
    ((after watch start exampleInputs).2.done.map fun t => t.beats.map Beat.addr)=[[100,102,104]] ∧
      int_ch_en_o (after watch start exampleInputs).1=true ∧
      Served (after watch start exampleInputs) := by
  refine ⟨by decide +kernel,by decide +kernel,served_after (by decide) exampleInputs ?_⟩
  simp only [exampleInputs,meets_cons,meets_nil,Uncleared]
  decide

end Pulpissimo.Udma.ChAddrgen
