import Mathlib.Data.List.GetD
import Pulpissimo.Lib.Lanes
import Pulpissimo.Lib.LoopNest
import Pulpissimo.Udma.SdioData

/-!
# Blocks read from the card

What comes out of a read, for every card. A word is given out with its fourth byte, so the
bytes behind the last whole word of a block are lost, and of a block with more than 512 bytes
only the rest over 512 is counted. The counter that should bound the wait for a start bit is not
started for it: after a reset it stands, and behind a write it may still run.
-/

namespace Pulpissimo.Udma.SdioRead

open Pulpissimo.Bits Pulpissimo.Lanes Pulpissimo.Machine Pulpissimo.Udma.SdioData

section Card

/-- What a transfer is configured to. -/
structure Transfer where
  quad : Bool
  /-- Bytes of a block less one. -/
  size : BitVec 10
  /-- Blocks less one. -/
  num : BitVec 8

/-- The cycle that starts a read. -/
structure Asks (c : Transfer) (i : Input) : Prop where
  clr : i.clr_stat_i=false
  start : i.data_start_i=true
  rwn : i.data_rwn_i=true
  num : i.data_block_num_i=c.num

/-- A later cycle of the transfer. -/
structure Holds (c : Transfer) (i : Input) : Prop where
  clr : i.clr_stat_i=false
  start : i.data_start_i=false
  quad : i.data_quad_i=c.quad
  size : i.data_block_size_i=c.size

/-- How the card answers a block: after a delay the start bit, the data, 16 cycles of checksums
and the stop bit. -/
structure Answer (c : Transfer) where
  waits : List (BitVec 4)
  head : BitVec 4
  data : List (BitVec 4)
  crc : List (BitVec 4)
  stop : BitVec 4
  waits_high : ∀ x ∈ waits, x.getLsbD 0=true
  head_low : head.getLsbD 0=false
  data_length : data.length=(c.size.toNat+1)*per c.quad
  crc_length : crc.length=16
  stop_high : stop.getLsbD 0=true

variable {c : Transfer}

/-- The card's lines. -/
def Answer.lines (a : Answer c) : List (BitVec 4) := a.waits++a.head::(a.data++a.crc++[a.stop])

/-- Byte `q` of the data: high nibble first on four lanes, highest bit first on one. -/
def byteOf (quad : Bool) (data : List (BitVec 4)) (q : ℕ) : BitVec 8 :=
  if quad then data.getD (2*q) 0++data.getD (2*q+1) 0
  else ofBits fun k => (data.getD (8*q+(7-k)) 0).getLsbD 0

def Answer.bytes (a : Answer c) : List (BitVec 8) :=
  (List.range (c.size.toNat+1)).map (byteOf c.quad a.data)

/-- Bytes of a word in the order of memory. -/
def bytes (x : BitVec 32) : List (BitVec 8) := (List.range 4).map fun k => lane 8 k x

/-- The interface, the words it gave out, and for each end of transfer how many these were then. -/
structure Seen where
  s : State
  words : List (BitVec 32)
  eots : List ℕ

/-- One cycle seen. -/
def watch (u : Seen) (i : Input) : Seen :=
  let words := u.words++if out_data_if_valid_o u.s i then [out_data_if_data_o u.s i] else []
  ⟨step u.s i,words,u.eots++if eot_o u.s i then [words.length] else []⟩

/-- All bytes of the blocks came out, and then one end of transfer. -/
def Delivers (answers : List (Answer c)) (u : Seen) : Prop :=
  u.words.flatMap bytes=answers.flatMap Answer.bytes ∧ u.eots=[u.words.length]

/-- The interface is idle with the timeout in its status. -/
def TimedOut (s : State) : Prop := s.r_state=.ST_IDLE ∧ (status_o s).getLsbD 0=true

/-- No block is cut off by the cycle. -/
def Uncut (s : State) (i : Input) : Prop :=
  i.clr_stat_i=true → s.r_state ≠ .ST_TX_START ∧ s.r_state ≠ .ST_TX_SHIFT ∧
    s.r_state ≠ .ST_RX_SHIFT ∧ (s.r_state=.ST_RX_START → i.sddata_i.getLsbD 0=true)

/-- A counter that is left over from an earlier transfer runs out. -/
def RunsOut (s : State) : Prop := s.r_cnt_running=true ∧ s.r_cnt ≠ 0

end Card

section Words

variable {quad : Bool} {size n : ℕ}

/-- The cycle of a word in which its bit `b` comes. -/
def sample (quad : Bool) (b : ℕ) : ℕ :=
  if quad then 2*(b/8)+(if b%8 < 4 then 1 else 0) else 8*(b/8)+(7-b%8)

/-- The lane on which it comes. -/
def wire (quad : Bool) (b : ℕ) : ℕ := if quad then b%4 else 0

/-- Word `m` of the data. -/
def word (quad : Bool) (data : List (BitVec 4)) (m : ℕ) : BitVec 32 :=
  ofBits fun b => (data.getD (m*(4*per quad)+sample quad b) 0).getLsbD (wire quad b)

theorem sample_lt {b : ℕ} (hb : b < 32) : sample quad b < 4*per quad := by
  unfold sample per
  cases quad with
  | true =>
    simp only [if_true]
    split_ifs <;> omega
  | false =>
    simp only [Bool.false_eq_true,if_false]
    omega

/-- The place of the lines' values in a word. -/
theorem getLsbD_datain {s : State} {i : Input} (h : Place quad size n s) (hi : i.data_quad_i=quad)
    {b : ℕ} (hb : b < 32) : (s_datain s i).getLsbD b=
      if sample quad b=n%(4*per quad) then i.sddata_i.getLsbD (wire quad b)
      else s.r_data.getLsbD b := by
  have hbyte := h.byte
  have hbit := h.bit
  unfold s_datain place sample wire per at *
  rw [hi]
  cases quad with
  | true =>
    simp only [if_true] at hbyte hbit ⊢
    have hzero : s.r_bit_cnt=0 ↔ n%2=0 := by
      rw [←hbit,←BitVec.toNat_inj]
      rfl
    rw [getLsbD_ofBits_lt _ hb,hbyte]
    simp only [hzero]
    by_cases hs : 2*(b/8)+(if b%8 < 4 then 1 else 0)=n%(4*2)
    · have hin : 8*(n/2%4)+(if n%2=0 then 4 else 0) ≤ b ∧
          b < 8*(n/2%4)+(if n%2=0 then 4 else 0)+4 := by
        split_ifs at hs ⊢ <;> omega
      have hat : b-(8*(n/2%4)+(if n%2=0 then 4 else 0))=b%4 := by
        split_ifs at hs ⊢ <;> omega
      rw [if_pos hs,if_pos hin,hat]
    · have hout : ¬(8*(n/2%4)+(if n%2=0 then 4 else 0) ≤ b ∧
          b < 8*(n/2%4)+(if n%2=0 then 4 else 0)+4) := by
        split_ifs at hs ⊢ <;> omega
      rw [if_neg hs,if_neg hout]
  | false =>
    simp only [Bool.false_eq_true,if_false] at hbyte hbit ⊢
    rw [getLsbD_setBit _ _ _ hb,hbyte,hbit]
    congr 1
    rw [eq_iff_iff]
    omega

/-- The bytes of a word are those of the data. -/
theorem lane_word (data : List (BitVec 4)) (m : ℕ) {k : ℕ} (hk : k < 4) :
    lane 8 k (word quad data m)=byteOf quad data (4*m+k) := by
  apply BitVec.eq_of_getLsbD_eq
  intro j hj
  rw [getLsbD_lane _ hj,word,getLsbD_ofBits_lt _ (by omega)]
  unfold sample wire byteOf per
  cases quad with
  | true =>
    simp only [if_true]
    rw [BitVec.getLsbD_append]
    have hmod : (8*k+j)%4=j%4 := by omega
    rw [hmod]
    by_cases hlow : j < 4
    · have hlow' : (8*k+j)%8 < 4 := by omega
      rw [if_pos hlow',if_pos hlow,Nat.mod_eq_of_lt hlow]
      congr 2
      omega
    · have hhigh : ¬(8*k+j)%8 < 4 := by omega
      have hsub : j%4=j-4 := by omega
      rw [if_neg hhigh,hsub]
      simp only [hlow,if_false]
      congr 2
      omega
  | false =>
    simp only [Bool.false_eq_true,if_false]
    rw [getLsbD_ofBits_lt _ hj]
    congr 2
    change m*(4*8)+(8*((8*k+j)/8)+(7-(8*k+j)%8))=8*(4*m+k)+(7-j)
    omega

theorem flatMap_words (data : List (BitVec 4)) (m : ℕ) :
    ((List.range m).map (word quad data)).flatMap bytes=
      (List.range (4*m)).map (byteOf quad data) := by
  rw [Nat.mul_comm,List.flatMap_map]
  have hword : ∀ q, bytes (word quad data q)=
      (List.range 4).map fun k => byteOf quad data (4*q+k) := by
    intro q
    exact List.map_congr_left fun k hk => lane_word data q (List.mem_range.mp hk)
  simp only [hword]
  rw [LoopNest.flatMap_range (by decide) (fun q k => byteOf quad data (4*q+k)) m]
  apply List.map_congr_left
  intro k _
  rw [Nat.div_add_mod]

/-- Words that are complete do not change with the data behind them. -/
theorem word_append {data : List (BitVec 4)} {m : ℕ} (hm : (m+1)*(4*per quad) ≤ data.length)
    (more : List (BitVec 4)) : word quad (data++more) m=word quad data m := by
  apply BitVec.eq_of_getLsbD_eq
  intro b hb
  have hs : sample quad b < 4*per quad := sample_lt hb
  rw [Nat.add_mul,Nat.one_mul] at hm
  have hfit : m*(4*per quad)+sample quad b < data.length := by omega
  rw [word,word,getLsbD_ofBits_lt _ hb,getLsbD_ofBits_lt _ hb,List.getD_append _ _ _ _ hfit]

end Words

section Steps

variable {c : Transfer} {s : State} {i : Input} {m n : ℕ}

/-- Between two blocks the counters are where they were left. -/
structure Await (s : State) : Prop where
  state : s.r_state=.ST_RX_START
  cycles : s.r_cnt_byte=false
  bit : s.r_bit_cnt=0
  stopped : s.r_cnt_running=false → s.r_cnt=0x1FF

/-- Nothing comes out in the cycle. -/
structure Still (s : State) (i : Input) : Prop where
  valid : out_data_if_valid_o s i=false
  eot : eot_o s i=false

theorem Still.watch {u : Seen} (h : Still u.s i) : watch u i=⟨step u.s i,u.words,u.eots⟩ := by
  simp [SdioRead.watch,h.valid,h.eot]

/-- Without a start the interface stays idle. -/
theorem idle_stays (hi : Holds c i) (hs : s.r_state=.ST_IDLE) :
    Still s i ∧ (step s i).r_state=.ST_IDLE := by
  refine ⟨⟨?_,?_⟩,?_⟩
  · simp [out_data_if_valid_o,comb,hs,hi.start]
  · simp [eot_o,comb,hs,hi.start]
  · simp [step,comb,hs,hi.start]

theorem Await.still (h : Await s) : Still s i := by
  refine ⟨?_,?_⟩ <;> simp only [out_data_if_valid_o,eot_o,comb,h.state] <;> split_ifs <;> rfl

theorem Await.done (h : Await s) : s_cnt_done s i=decide (s.r_cnt=0) := by
  rw [s_cnt_done,h.cycles,if_neg Bool.false_ne_true,beq_eq_decide]

/-- While the counter has not run out, the wait goes on. -/
theorem Await.wait (h : Await s) (hi : Holds c i) (hline : i.sddata_i.getLsbD 0=true)
    (hcnt : s.r_cnt ≠ 0) : Await (step s i) ∧ (step s i).r_cnt_block=s.r_cnt_block ∧
      (step s i).r_cnt_running=s.r_cnt_running ∧
      (step s i).r_cnt=if s.r_cnt_running then s.r_cnt-1 else s.r_cnt := by
  have hdone : s_cnt_done s i=false := by
    rw [h.done]
    exact decide_eq_false hcnt
  have hcomb : (comb s i).s_state=.ST_RX_START ∧ (comb s i).s_cnt_start=false ∧
      (comb s i).s_cnt_block_upd=false := by
    simp only [comb,h.state,hline,hdone,Bool.not_true,Bool.false_eq_true,if_false,and_self]
  obtain ⟨hstate,hstart,hupd⟩ := hcomb
  have hrun : (step s i).r_cnt_running=s.r_cnt_running := by
    simp [step,hstart,hdone]
  have hleft : (step s i).r_cnt=if s.r_cnt_running then s.r_cnt-1 else s.r_cnt := by
    simp [step,hstart,hdone,h.cycles]
  refine ⟨⟨?_,?_,(bit_cnt_stands h.cycles).trans h.bit,fun hstop => ?_⟩,?_,hrun,hleft⟩
  · simp [step,hi.clr,hstate]
  · simp [step,hstart,hdone,h.cycles]
  · rw [hrun] at hstop
    rw [hleft,hstop]
    exact h.stopped hstop
  · simp [step,hupd]

/-- When it has, the transfer is over. -/
theorem Await.expires (h : Await s) (hi : Holds c i) (hline : i.sddata_i.getLsbD 0=true)
    (hcnt : s.r_cnt=0) : TimedOut (step s i) := by
  have hdone : s_cnt_done s i=true := by
    rw [h.done]
    exact decide_eq_true hcnt
  have hcomb : (comb s i).s_state=.ST_IDLE ∧
      (comb s i).s_status=s.r_status ||| STATUS_RSP_TIMEOUT := by
    simp only [comb,h.state,hline,hdone,Bool.not_true,Bool.false_eq_true,if_false,if_true,and_self]
  refine ⟨?_,?_⟩
  · simp [step,hi.clr,hcomb.1]
  · have hset : ∀ v : BitVec 7, ((v ||| STATUS_RSP_TIMEOUT).setWidth 6).getLsbD 0=true := by decide
    simp only [status_o,step,hi.clr,hcomb.2]
    exact hset _

/-- With the start bit the block begins. -/
theorem Await.head (h : Await s) (hi : Holds c i) (hline : i.sddata_i.getLsbD 0=false) :
    (step s i).r_state=.ST_RX_SHIFT ∧ Place c.quad (c.size.toNat%512) 0 (step s i) ∧
      (step s i).r_cnt_block=s.r_cnt_block := by
  have hcomb : (comb s i).s_state=.ST_RX_SHIFT ∧ (comb s i).s_cnt_start=true ∧
      (comb s i).s_cnt_byte=true ∧ (comb s i).s_cnt_target=c.size.setWidth 9 ∧
      (comb s i).s_cnt_block_upd=false := by
    simp only [comb,h.state,hline,hi.size,Bool.not_false,if_true,and_self]
  obtain ⟨hstate,hstart,hbyte,htarget,hupd⟩ := hcomb
  have hplace : Place c.quad (comb s i).s_cnt_target.toNat 0 (step s i) :=
    Place.start hstart hbyte ((bit_cnt_stands h.cycles).trans h.bit)
  rw [htarget,BitVec.toNat_setWidth] at hplace
  refine ⟨?_,hplace,?_⟩
  · simp [step,hi.clr,hstate]
  · simp [step,hupd]

/-- A nibble of a block, or its bit, comes in. A word is complete with its last one. -/
theorem shift_step (hs : s.r_state=.ST_RX_SHIFT) (h : Place c.quad m n s) (hi : Holds c i) :
    out_data_if_valid_o s i=decide ((n+1)%(4*per c.quad)=0) ∧ eot_o s i=false ∧
      (step s i).r_data=s_datain s i ∧ (step s i).r_cnt_block=s.r_cnt_block := by
  rw [←h.last hi.quad]
  cases hdone : s_cnt_done s i <;>
    simp [out_data_if_valid_o,eot_o,step,comb,hs,hdone,hi.clr]

theorem shift_next (hs : s.r_state=.ST_RX_SHIFT) (h : Place c.quad m n s) (hi : Holds c i)
    (hn : n+1 < per c.quad*(m+1)) :
    (step s i).r_state=.ST_RX_SHIFT ∧ Place c.quad m (n+1) (step s i) := by
  have hdone : s_cnt_done s i=false := by
    rw [h.done hi.quad]
    exact decide_eq_false (Nat.ne_of_lt hn)
  refine ⟨?_,h.next hi.quad hn ?_⟩
  · simp [step,comb,hs,hdone,hi.clr]
  · simp [comb,hs,hdone]

theorem shift_last (hs : s.r_state=.ST_RX_SHIFT) (h : Place c.quad m n s) (hi : Holds c i)
    (hn : n+1=per c.quad*(m+1)) :
    (step s i).r_state=.ST_RX_CRC ∧ Counts 15 (step s i) := by
  have hdone : s_cnt_done s i=true := by
    rw [h.done hi.quad]
    exact decide_eq_true hn
  have hevnt : s_cnt_byte_evnt s i=true := by
    rw [h.evnt hi.quad,hn,Nat.mul_mod_right]
    rfl
  have hcomb : (comb s i).s_state=.ST_RX_CRC ∧ (comb s i).s_cnt_start=true ∧
      (comb s i).s_cnt_byte=false ∧ (comb s i).s_cnt_target=15 := by
    simp [comb,hs,hdone]
  obtain ⟨hstate,hstart,hbyte,htarget⟩ := hcomb
  have hcounts : Counts (comb s i).s_cnt_target.toNat (step s i) :=
    Counts.start hstart hbyte (by simp [step,h.bytes,hevnt])
  rw [htarget] at hcounts
  exact ⟨by simp [step,hi.clr,hstate],hcounts⟩

/-- Outside of a block no word is complete. -/
theorem lastbitofword_cycles (hbit : s.r_bit_cnt=0) : s_lastbitofword s i=false := by
  rw [s_lastbitofword,s_cnt_byte_evnt,hbit,s_bit_cnt_target]
  cases i.data_quad_i <;> rfl

/-- A cycle of the checksums. -/
theorem crc_next (hs : s.r_state=.ST_RX_CRC) (h : Counts (n+1) s) (hi : Holds c i) :
    Still s i ∧ (step s i).r_state=.ST_RX_CRC ∧ Counts n (step s i) ∧
      (step s i).r_cnt_block=s.r_cnt_block := by
  have hdone : s_cnt_done s i=false := by
    rw [h.done]
    exact decide_eq_false (Nat.succ_ne_zero n)
  have hlast := lastbitofword_cycles (i:=i) h.bit
  refine ⟨⟨?_,?_⟩,?_,h.next (by simp [comb,hs,hdone]),?_⟩
  · simp [out_data_if_valid_o,comb,hs,hdone,hlast]
  · simp [eot_o,comb,hs,hdone]
  · simp [step,comb,hs,hdone,hi.clr]
  · simp [step,comb,hs,hdone]

/-- With the last one the block is over, and with the last block the transfer. -/
theorem crc_last (hs : s.r_state=.ST_RX_CRC) (h : Counts 0 s) (hi : Holds c i) :
    out_data_if_valid_o s i=false ∧
      if s.r_cnt_block=0 then eot_o s i=true ∧ (step s i).r_state=.ST_IDLE
      else eot_o s i=false ∧ Await (step s i) ∧ (step s i).r_cnt_running=false ∧
        (step s i).r_cnt_block=s.r_cnt_block-1 := by
  have hdone : s_cnt_done s i=true := h.done
  have hlast := lastbitofword_cycles (i:=i) h.bit
  by_cases hblock : s.r_cnt_block=0
  · have hover : s_cnt_block_done s=true := by rw [s_cnt_block_done,hblock]; rfl
    have hcomb : (comb s i).s_out_data_valid=false ∧ (comb s i).s_eot=true ∧
        (comb s i).s_state=.ST_IDLE := by
      simp only [comb,hs,hdone,hlast,hover,if_true,and_self]
    obtain ⟨hvalid,heot,hstate⟩ := hcomb
    rw [if_pos hblock]
    exact ⟨hvalid,heot,by simp [step,hstate]⟩
  · have hover : s_cnt_block_done s=false := beq_eq_false_iff_ne.mpr hblock
    have hcomb : (comb s i).s_out_data_valid=false ∧ (comb s i).s_eot=false ∧
        (comb s i).s_state=.ST_RX_START ∧ (comb s i).s_cnt_start=false ∧
        (comb s i).s_cnt_block_upd=true ∧ (comb s i).s_cnt_block=s.r_cnt_block-1 := by
      simp only [comb,hs,hdone,hlast,hover,Bool.false_eq_true,if_true,if_false,and_self]
    obtain ⟨hvalid,heot,hstate,hstart,hupd,hnum⟩ := hcomb
    have hstop : (step s i).r_cnt_running=false := by simp [step,hstart,hdone]
    rw [if_neg hblock]
    refine ⟨hvalid,heot,⟨?_,?_,(bit_cnt_stands h.cycles).trans h.bit,fun _ => ?_⟩,hstop,?_⟩
    · simp [step,hi.clr,hstate]
    · simp [step,hstart,hdone]
    · simp [step,hstart,hdone]
    · simp [step,hupd,hnum]

end Steps

section Bound

variable {c : Transfer} {u : Seen} {i : Input}

/-- Words of a block. -/
def room (c : Transfer) : ℕ := (c.size.toNat%512+1)/4

/-- Where a read is, with at most `most` words given out at its end. -/
inductive Stage (c : Transfer) (most : ℕ) (u : Seen) : Prop
  | idle (state : u.s.r_state=.ST_IDLE) (words : u.words.length ≤ most)
  | await (h : Await u.s) (words : u.words.length+(u.s.r_cnt_block.toNat+1)*room c ≤ most)
  | shift (n : ℕ) (state : u.s.r_state=.ST_RX_SHIFT) (place : Place c.quad (c.size.toNat%512) n u.s)
      (lt : n < per c.quad*(c.size.toNat%512+1))
      (words : u.words.length+(u.s.r_cnt_block.toNat+1)*room c ≤ most+n/(4*per c.quad))
  | check (n : ℕ) (state : u.s.r_state=.ST_RX_CRC) (counts : Counts n u.s)
      (words : u.words.length+u.s.r_cnt_block.toNat*room c ≤ most)

/-- The words of a block are as many as fit into what is counted of it. -/
theorem words_of_block {n : ℕ} (hn : n=per c.quad*(c.size.toNat%512+1)) :
    n/(4*per c.quad)=room c := by
  rw [hn,Nat.mul_comm 4,Nat.mul_div_mul_left _ _ (per_pos _)]
  rfl

theorem pred_block {v : BitVec 8} (hv : v ≠ 0) : (v-1).toNat+1=v.toNat := by
  have hpos : 0 < v.toNat := by
    rw [Nat.pos_iff_ne_zero]
    exact fun h => hv (BitVec.eq_of_toNat_eq h)
  have hsub : (v-1).toNat=v.toNat-1 := BitVec.toNat_sub_of_le (BitVec.le_def.mpr hpos)
  omega

theorem Stage.next {most : ℕ} (h : Stage c most u) (hi : Holds c i) :
    Stage c most (watch u i) := by
  cases h with
  | idle hs hwords =>
    obtain ⟨hstill,hidle⟩ := idle_stays hi hs
    rw [hstill.watch]
    exact .idle hidle hwords
  | await h hwords =>
    rw [(h.still (i:=i)).watch]
    cases hline : i.sddata_i.getLsbD 0 with
    | false =>
      obtain ⟨hstate,hplace,hblock⟩ := h.head hi hline
      refine .shift 0 hstate hplace (Nat.mul_pos (per_pos _) (Nat.succ_pos _)) ?_
      dsimp only
      rw [hblock,Nat.zero_div]
      exact hwords
    | true =>
      by_cases hcnt : s_cnt_done u.s i=true
      · rw [h.done,decide_eq_true_iff] at hcnt
        exact .idle (h.expires hi hline hcnt).1 (by dsimp only; omega)
      · rw [h.done,decide_eq_true_iff] at hcnt
        obtain ⟨hwait,hblock,-⟩ := h.wait hi hline hcnt
        exact .await hwait (hblock ▸ hwords)
  | shift n hs hplace hlt hwords =>
    obtain ⟨hvalid,heot,-,hblock⟩ := shift_step hs hplace hi
    have hcount : (watch u i).words.length+n/(4*per c.quad)=
        u.words.length+(n+1)/(4*per c.quad) := by
      simp only [watch,hvalid,Nat.succ_div,Nat.dvd_iff_mod_eq_zero,List.length_append]
      by_cases hend : (n+1)%(4*per c.quad)=0
      · simp [hend]
        omega
      · simp [hend]
    have hkept : (watch u i).s.r_cnt_block=u.s.r_cnt_block := hblock
    rcases Nat.lt_or_ge (n+1) (per c.quad*(c.size.toNat%512+1)) with hn | hn
    · obtain ⟨hstate,hnext⟩ := shift_next hs hplace hi hn
      refine .shift (n+1) hstate hnext hn ?_
      rw [hkept]
      omega
    · have hn : n+1=per c.quad*(c.size.toNat%512+1) := le_antisymm hlt hn
      obtain ⟨hstate,hcounts⟩ := shift_last hs hplace hi hn
      refine .check 15 hstate hcounts ?_
      rw [words_of_block hn] at hcount
      rw [hkept]
      rw [Nat.add_mul,Nat.one_mul] at hwords
      omega
  | check n hs hcounts hwords =>
    cases n with
    | succ n =>
      obtain ⟨hstill,hstate,hnext,hblock⟩ := crc_next hs hcounts hi
      rw [hstill.watch]
      exact .check n hstate hnext (hblock ▸ hwords)
    | zero =>
      obtain ⟨hvalid,hrest⟩ := crc_last hs hcounts hi
      have hsame : (watch u i).words=u.words := by simp [watch,hvalid]
      by_cases hblock : u.s.r_cnt_block=0
      · rw [if_pos hblock] at hrest
        refine .idle hrest.2 ?_
        rw [hsame]
        omega
      · rw [if_neg hblock] at hrest
        refine .await hrest.2.1 ?_
        have hnum : (watch u i).s.r_cnt_block=u.s.r_cnt_block-1 := hrest.2.2.2
        rw [hsame,hnum,pred_block hblock]
        exact hwords

theorem Stage.run {most : ℕ} {is : List Input} (h : Stage c most u) (hi : ∀ i ∈ is, Holds c i) :
    Stage c most (after watch u is) := by
  induction is generalizing u with
  | nil => exact h
  | cons i is ih =>
    exact ih (h.next (hi i List.mem_cons_self)) fun j hj => hi j (List.mem_cons_of_mem _ hj)

theorem Stage.words_le {most : ℕ} (h : Stage c most u) : u.words.length ≤ most := by
  cases h with
  | idle hs hwords => exact hwords
  | await h hwords => omega
  | check n hs hcounts hwords => omega
  | shift n hs hplace hlt hwords =>
    have hle : n/(4*per c.quad) ≤ room c := by
      rw [←words_of_block (c:=c) rfl]
      exact Nat.div_le_div_right hlt.le
    rw [Nat.add_mul,Nat.one_mul] at hwords
    omega

end Bound

section Wait

variable {c : Transfer} {u : Seen}

/-- As long as the counter lasts, the wait for the start bit goes on. -/
theorem Await.waits {is : List Input} (h : Await u.s) (hi : ∀ i ∈ is, Holds c i)
    (hlines : ∀ x ∈ is.map (·.sddata_i), x.getLsbD 0=true)
    (hcnt : u.s.r_cnt_running=true → is.length ≤ u.s.r_cnt.toNat) :
    ∃ s, after watch u is=⟨s,u.words,u.eots⟩ ∧ Await s ∧ s.r_cnt_block=u.s.r_cnt_block ∧
      s.r_cnt_running=u.s.r_cnt_running ∧
      (u.s.r_cnt_running=true → s.r_cnt.toNat+is.length=u.s.r_cnt.toNat) := by
  induction is generalizing u with
  | nil => exact ⟨u.s,rfl,h,rfl,rfl,fun _ => rfl⟩
  | cons i is ih =>
    have hfirst := hi i List.mem_cons_self
    have hhigh : i.sddata_i.getLsbD 0=true := hlines _ List.mem_cons_self
    have hpos : u.s.r_cnt ≠ 0 := by
      intro hzero
      cases hrun : u.s.r_cnt_running with
      | true =>
        have hlen := hcnt hrun
        rw [hzero] at hlen
        exact Nat.not_succ_le_zero _ hlen
      | false =>
        rw [h.stopped hrun] at hzero
        exact absurd hzero (by decide)
    obtain ⟨hwait,hblock,hrun,hleft⟩ := h.wait hfirst hhigh hpos
    have hdown : u.s.r_cnt_running=true → (step u.s i).r_cnt.toNat+1=u.s.r_cnt.toNat := by
      intro hr
      have hsub : (u.s.r_cnt-1).toNat=u.s.r_cnt.toNat-1 := by
        refine BitVec.toNat_sub_of_le (BitVec.le_def.mpr ?_)
        exact Nat.pos_of_ne_zero fun h => hpos (BitVec.eq_of_toNat_eq h)
      have hlen := hcnt hr
      rw [List.length_cons] at hlen
      rw [hleft,hr,if_pos rfl,hsub]
      omega
    rw [after_cons,(h.still (i:=i)).watch]
    obtain ⟨s,hs,hend⟩ := ih (u:=⟨step u.s i,u.words,u.eots⟩) hwait
      (fun j hj => hi j (List.mem_cons_of_mem _ hj))
      (fun x hx => hlines x (List.mem_cons_of_mem _ hx)) (fun hr => by
        have hlen := hcnt (hrun ▸ hr)
        have hone := hdown (hrun ▸ hr)
        rw [List.length_cons] at hlen
        dsimp only
        omega)
    refine ⟨s,hs,hend.1,hend.2.1.trans hblock,hend.2.2.1.trans hrun,fun hr => ?_⟩
    have hlen := hend.2.2.2 (hrun.trans hr)
    have hone := hdown hr
    dsimp only at hlen
    rw [List.length_cons]
    omega

theorem idle_run {is : List Input} (hs : u.s.r_state=.ST_IDLE) (hi : ∀ i ∈ is, Holds c i) :
    (after watch u is).s.r_state=.ST_IDLE ∧ (after watch u is).words=u.words := by
  induction is generalizing u with
  | nil => exact ⟨hs,rfl⟩
  | cons i is ih =>
    obtain ⟨hstill,hidle⟩ := idle_stays (hi i List.mem_cons_self) hs
    rw [after_cons,hstill.watch]
    exact ih hidle fun j hj => hi j (List.mem_cons_of_mem _ hj)

/-- When the counter runs out in the wait, no more words come. -/
theorem Await.cut {is : List Input} (h : Await u.s) (hi : ∀ i ∈ is, Holds c i)
    (hrun : u.s.r_cnt_running=true) {k : ℕ} (hk : k=u.s.r_cnt.toNat) (hlen : k < is.length)
    (hlines : ∀ x ∈ (is.take (k+1)).map (·.sddata_i), x.getLsbD 0=true) :
    (after watch u is).words=u.words := by
  have hsplit : is.take (k+1)=is.take k++[is[k]] := by
    rw [List.take_add_one,List.getElem?_eq_getElem hlen]
    rfl
  rw [hsplit,List.map_append] at hlines
  obtain ⟨s,hs,hwait,-,-,hleft⟩ := h.waits
    (fun j (hj : j ∈ is.take k) => hi j (List.mem_of_mem_take hj))
    (fun x hx => hlines x (List.mem_append_left _ hx))
    (fun _ => by rw [List.length_take]; omega)
  have hzero : s.r_cnt=0 := by
    have hcount := hleft hrun
    rw [List.length_take,Nat.min_eq_left hlen.le] at hcount
    apply BitVec.eq_of_toNat_eq
    change s.r_cnt.toNat=0
    omega
  have hheld := hi _ (List.getElem_mem hlen)
  have hover := hwait.expires hheld
    (hlines _ (List.mem_append_right _ List.mem_cons_self)) hzero
  have hcut : after watch u (is.take (k+1))=⟨step s is[k],u.words,u.eots⟩ := by
    rw [hsplit,after_concat,hs,(hwait.still (i:=is[k])).watch]
  have hrest := idle_run (u:=⟨step s is[k],u.words,u.eots⟩) hover.1
    fun j (hj : j ∈ is.drop (k+1)) => hi j (List.mem_of_mem_drop hj)
  rw [←hcut,←after_append,List.take_append_drop] at hrest
  exact hrest.2.trans (by rw [hcut])

/-- Without a start bit the wait ends when the counter runs out. -/
theorem Await.times_out {s : State} {env : ℕ → Input} (h : Await s) (hi : ∀ n, Holds c (env n))
    (hlines : ∀ n, (env n).sddata_i.getLsbD 0=true) (hrun : s.r_cnt_running=true) :
    ∃ n, TimedOut (states step s env n) := by
  induction hk : s.r_cnt.toNat generalizing s env with
  | zero =>
    exact ⟨1,h.expires (hi 0) (hlines 0) (BitVec.eq_of_toNat_eq hk)⟩
  | succ k ih =>
    have hcnt : s.r_cnt ≠ 0 := by
      rintro hzero
      rw [hzero] at hk
      exact absurd hk (Nat.succ_ne_zero k).symm
    obtain ⟨hwait,-,hrun',hleft⟩ := h.wait (hi 0) (hlines 0) hcnt
    have hsub : (s.r_cnt-1).toNat=s.r_cnt.toNat-1 :=
      BitVec.toNat_sub_of_le (BitVec.le_def.mpr (hk ▸ Nat.succ_le_succ (Nat.zero_le k)))
    obtain ⟨n,hn⟩ := ih hwait (fun n => hi (n+1)) (fun n => hlines (n+1))
      (hrun'.trans hrun) (by rw [hleft,hrun,if_pos rfl,hsub,hk]; rfl)
    exact ⟨n+1,by rw [states_shift]; exact hn⟩

/-- A counter that stands never ends it. -/
theorem Await.hangs {s : State} {env : ℕ → Input} (h : Await s) (hi : ∀ n, Holds c (env n))
    (hlines : ∀ n, (env n).sddata_i.getLsbD 0=true) (hrun : s.r_cnt_running=false) (n : ℕ) :
    Await (states step s env n) ∧ (states step s env n).r_cnt_running=false := by
  induction n with
  | zero => exact ⟨h,hrun⟩
  | succ n ih =>
    obtain ⟨hwait,hstop⟩ := ih
    have hcnt : (states step s env n).r_cnt ≠ 0 := by
      rw [hwait.stopped hstop]
      decide
    obtain ⟨hnext,-,hrun',-⟩ := hwait.wait (hi n) (hlines n) hcnt
    exact ⟨hnext,hrun'.trans hstop⟩

end Wait

section Block

variable {c : Transfer} {u : Seen} {w : List (BitVec 32)} {ds : List (BitVec 4)}

/-- Of a block `ds` has come in, behind the words `w`. -/
structure Gets (c : Transfer) (w : List (BitVec 32)) (ds : List (BitVec 4)) (u : Seen) : Prop where
  state : u.s.r_state=.ST_RX_SHIFT
  place : Place c.quad c.size.toNat ds.length u.s
  fill : ∀ b, b < 32 → sample c.quad b < ds.length%(4*per c.quad) → u.s.r_data.getLsbD b=
    (ds.getD (ds.length/(4*per c.quad)*(4*per c.quad)+sample c.quad b) 0).getLsbD (wire c.quad b)
  words : u.words=w++(List.range (ds.length/(4*per c.quad))).map (word c.quad ds)

/-- The register with what is on the lines has all of the word so far. -/
theorem Gets.datain (h : Gets c w ds u) {i : Input} (hi : Holds c i) {b : ℕ} (hb : b < 32)
    (hs : sample c.quad b ≤ ds.length%(4*per c.quad)) : (s_datain u.s i).getLsbD b=
      ((ds++[i.sddata_i]).getD (ds.length/(4*per c.quad)*(4*per c.quad)+sample c.quad b) 0).getLsbD
        (wire c.quad b) := by
  have hdiv := Nat.div_add_mod ds.length (4*per c.quad)
  rw [Nat.mul_comm] at hdiv
  rw [getLsbD_datain h.place hi.quad hb]
  by_cases hlast : sample c.quad b=ds.length%(4*per c.quad)
  · rw [if_pos hlast,hlast,hdiv,List.getD_append_right _ _ _ _ (Nat.le_refl _),Nat.sub_self]
    rfl
  · have hin : ds.length/(4*per c.quad)*(4*per c.quad)+sample c.quad b < ds.length := by omega
    rw [if_neg hlast,List.getD_append _ _ _ _ hin]
    exact h.fill b hb (lt_of_le_of_ne hs hlast)

/-- A word is given out once it is complete. -/
theorem Gets.watch (h : Gets c w ds u) {i : Input} (hi : Holds c i) :
    watch u i=⟨step u.s i,w++(List.range ((ds++[i.sddata_i]).length/(4*per c.quad))).map
      (word c.quad (ds++[i.sddata_i])),u.eots⟩ := by
  obtain ⟨hvalid,heot,-,-⟩ := shift_step h.state h.place hi
  have hpos : 0 < 4*per c.quad := Nat.mul_pos (by decide) (per_pos _)
  have hold : (List.range (ds.length/(4*per c.quad))).map (word c.quad (ds++[i.sddata_i]))=
      (List.range (ds.length/(4*per c.quad))).map (word c.quad ds) := by
    refine List.map_congr_left fun m hm => word_append ?_ _
    exact (Nat.le_div_iff_mul_le hpos).mp (List.mem_range.mp hm)
  simp only [SdioRead.watch,hvalid,heot,h.words,List.length_append,List.length_singleton,
    Nat.succ_div,Nat.dvd_iff_mod_eq_zero]
  by_cases hend : (ds.length+1)%(4*per c.quad)=0
  · have hword : s_datain u.s i=
        word c.quad (ds++[i.sddata_i]) (ds.length/(4*per c.quad)) := by
      apply BitVec.eq_of_getLsbD_eq
      intro b hb
      have hlt : sample c.quad b < 4*per c.quad := sample_lt hb
      have hmod : ds.length%(4*per c.quad)+1=4*per c.quad := by
        have hle := Nat.mod_lt ds.length hpos
        have hsucc := Nat.add_mod ds.length 1 (4*per c.quad)
        rw [hend] at hsucc
        by_contra hne
        rw [Nat.mod_eq_of_lt (a:=1) (by omega),Nat.mod_eq_of_lt (by omega)] at hsucc
        omega
      rw [h.datain hi hb (by omega),word,getLsbD_ofBits_lt _ hb]
    simp [hend,List.range_succ,hold,out_data_if_data_o,hword]
  · simp [hend,hold]

theorem Gets.next (h : Gets c w ds u) {i : Input} (hi : Holds c i)
    (hn : ds.length+1 < per c.quad*(c.size.toNat+1)) :
    Gets c w (ds++[i.sddata_i]) (SdioRead.watch u i) := by
  obtain ⟨-,-,hdata,-⟩ := shift_step h.state h.place hi
  obtain ⟨hstate,hplace⟩ := shift_next h.state h.place hi hn
  have hlen : (ds++[i.sddata_i]).length=ds.length+1 := List.length_append
  refine ⟨hstate,hlen ▸ hplace,fun b hb hs => ?_,by rw [h.watch hi]⟩
  change (step u.s i).r_data.getLsbD b=_
  rw [hlen,Nat.succ_div] at *
  by_cases hend : 4*per c.quad ∣ ds.length+1
  · rw [Nat.mod_eq_zero_of_dvd hend] at hs
    exact absurd hs (Nat.not_lt_zero _)
  · have hmod : (ds.length+1)%(4*per c.quad) ≤ ds.length%(4*per c.quad)+1 := by
      rw [Nat.add_mod]
      exact (Nat.mod_le _ _).trans (Nat.add_le_add_left (Nat.mod_le _ _) _)
    rw [hdata,if_neg hend]
    exact h.datain hi hb (by omega)

/-- The rest of the data comes in, with all words out at its end. -/
theorem Gets.run {is : List Input} (h : Gets c w ds u) (hi : ∀ i ∈ is, Holds c i)
    (hne : is ≠ []) (hlen : ds.length+is.length=per c.quad*(c.size.toNat+1)) :
    ∃ s, after SdioRead.watch u is=⟨s,w++(List.range ((ds.length+is.length)/(4*per c.quad))).map
        (word c.quad (ds++is.map (·.sddata_i))),u.eots⟩ ∧
      s.r_state=.ST_RX_CRC ∧ Counts 15 s ∧ s.r_cnt_block=u.s.r_cnt_block := by
  induction is generalizing u ds with
  | nil => exact absurd rfl hne
  | cons i is ih =>
    have hfirst := hi i List.mem_cons_self
    obtain ⟨-,-,-,hblock⟩ := shift_step h.state h.place hfirst
    rw [List.length_cons] at hlen
    cases is with
    | nil =>
      obtain ⟨hstate,hcounts⟩ := shift_last h.state h.place hfirst (by simpa using hlen)
      refine ⟨step u.s i,?_,hstate,hcounts,hblock⟩
      rw [after_cons,after_nil,h.watch hfirst,List.length_append]
      rfl
    | cons j is =>
      have hmore := h.next hfirst (by rw [List.length_cons] at hlen; omega)
      obtain ⟨s,hs,hend⟩ := ih hmore (fun j hj => hi j (List.mem_cons_of_mem _ hj))
        (List.cons_ne_nil _ _) (by rw [List.length_append,List.length_singleton]; omega)
      refine ⟨s,?_,hend.1,hend.2.1,hend.2.2.trans hblock⟩
      have heots : (SdioRead.watch u i).eots=u.eots := by rw [h.watch hfirst]
      have hall : ds.length+(i::j::is).length=ds.length+1+(j::is).length := by
        rw [List.length_cons,Nat.add_right_comm,Nat.add_assoc]
      rw [after_cons,hs,heots,List.length_append,List.length_singleton,List.append_assoc,hall]
      rfl

/-- The checksums pass. -/
theorem crc_run {is : List Input} {n : ℕ} (hs : u.s.r_state=.ST_RX_CRC) (h : Counts n u.s)
    (hi : ∀ i ∈ is, Holds c i) (hlen : is.length=n+1) :
    ∃ s, after watch u is=⟨s,u.words,
        u.eots++if u.s.r_cnt_block=0 then [u.words.length] else []⟩ ∧
      if u.s.r_cnt_block=0 then s.r_state=.ST_IDLE
      else Await s ∧ s.r_cnt_running=false ∧ s.r_cnt_block=u.s.r_cnt_block-1 := by
  induction is generalizing u n with
  | nil => exact absurd hlen (Nat.succ_ne_zero n).symm
  | cons i is ih =>
    have hfirst := hi i List.mem_cons_self
    rw [List.length_cons] at hlen
    cases n with
    | zero =>
      obtain rfl : is=[] := List.length_eq_zero_iff.mp (Nat.succ.inj hlen)
      obtain ⟨hvalid,hrest⟩ := crc_last hs h hfirst
      refine ⟨step u.s i,?_⟩
      by_cases hblock : u.s.r_cnt_block=0
      · rw [if_pos hblock] at hrest ⊢
        rw [if_pos hblock]
        exact ⟨by simp [watch,hvalid,hrest.1],hrest.2⟩
      · rw [if_neg hblock] at hrest ⊢
        rw [if_neg hblock]
        exact ⟨by simp [watch,hvalid,hrest.1],hrest.2⟩
    | succ n =>
      obtain ⟨hstill,hstate,hnext,hblock⟩ := crc_next hs h hfirst
      rw [after_cons,hstill.watch]
      obtain ⟨s,hrun,hend⟩ := ih (u:=⟨step u.s i,u.words,u.eots⟩) hstate hnext
        (fun j hj => hi j (List.mem_cons_of_mem _ hj)) (Nat.succ.inj hlen)
      dsimp only at hrun hend
      rw [hblock] at hrun hend
      exact ⟨s,hrun,hend⟩

/-- An answer comes in before the counter that is left over runs out. -/
theorem answer_run (a : Answer c) {is : List Input} (h : Await u.s) (hi : ∀ i ∈ is, Holds c i)
    (hlines : is.map (·.sddata_i)=a.lines) (hsize : c.size.toNat < 512)
    (hword : c.size.toNat%4=3)
    (hcnt : u.s.r_cnt_running=true → a.waits.length ≤ u.s.r_cnt.toNat) :
    ∃ s v, after watch u is=⟨s,v,u.eots++if u.s.r_cnt_block=0 then [v.length] else []⟩ ∧
      v.flatMap bytes=u.words.flatMap bytes++a.bytes ∧
      if u.s.r_cnt_block=0 then s.r_state=.ST_IDLE
      else Await s ∧ s.r_cnt_running=false ∧ s.r_cnt_block=u.s.r_cnt_block-1 := by
  obtain ⟨ws,rest,rfl,hws,hrest⟩ := List.map_eq_append_iff.mp hlines
  obtain ⟨i,rest,rfl,hhead,hrest⟩ := List.map_eq_cons_iff.mp hrest
  obtain ⟨body,last,rfl,hbody,hlast⟩ := List.map_eq_append_iff.mp hrest
  obtain ⟨data,crc,rfl,hdata,hcrc⟩ := List.map_eq_append_iff.mp hbody
  obtain ⟨stop,tl,rfl,hstop,htl⟩ := List.map_eq_cons_iff.mp hlast
  obtain rfl := List.map_eq_nil_iff.mp htl
  have hwaits : ws.length=a.waits.length := by rw [←hws,List.length_map]
  have hbits : data.length=(c.size.toNat+1)*per c.quad := by
    rw [←a.data_length,←hdata,List.length_map]
  have hsums : crc.length=16 := by rw [←a.crc_length,←hcrc,List.length_map]
  simp only [List.mem_append,List.mem_cons,List.not_mem_nil,or_false] at hi
  -- the wait and the start bit
  obtain ⟨s,hrun,hwait,hblock,hrunning,hleft⟩ := h.waits
    (fun j (hj : j ∈ ws) => hi j (by tauto))
    (by rw [hws]; exact a.waits_high) (by rw [hwaits]; exact hcnt)
  have hheld := hi i (by tauto)
  obtain ⟨hstate,hplace,hblock'⟩ := hwait.head hheld (by rw [hhead]; exact a.head_low)
  rw [Nat.mod_eq_of_lt hsize] at hplace
  have hstart : Gets c u.words [] ⟨step s i,u.words,u.eots⟩ := by
    refine ⟨hstate,hplace,fun b _ hb => ?_,by simp⟩
    rw [List.length_nil,Nat.zero_mod] at hb
    exact absurd hb (Nat.not_lt_zero _)
  -- the data
  obtain ⟨s',hrun',hstate',hcounts,hblock''⟩ := hstart.run
    (fun j (hj : j ∈ data) => hi j (by tauto))
    (by
      intro hnil
      rw [hnil] at hbits
      exact absurd hbits (Nat.ne_of_lt (Nat.mul_pos (Nat.succ_pos _) (per_pos _))))
    (by rw [List.length_nil,Nat.zero_add,hbits,Nat.mul_comm])
  have hwords : (data.length)/(4*per c.quad)=(c.size.toNat+1)/4 := by
    rw [hbits,Nat.mul_div_mul_right _ _ (per_pos _)]
  rw [List.length_nil,Nat.zero_add,hwords,List.nil_append,hdata] at hrun'
  -- the checksums
  obtain ⟨s'',hrun'',hend⟩ := crc_run
    (u:=⟨s',u.words++(List.range ((c.size.toNat+1)/4)).map (word c.quad a.data),u.eots⟩) hstate'
    hcounts (fun j (hj : j ∈ crc) => hi j (by tauto)) hsums
  have hnum : s'.r_cnt_block=u.s.r_cnt_block := hblock''.trans (hblock'.trans hblock)
  dsimp only at hrun'' hend
  rw [hnum] at hrun'' hend
  have hbytes :
      (u.words++(List.range ((c.size.toNat+1)/4)).map (word c.quad a.data)).flatMap bytes=
        u.words.flatMap bytes++a.bytes := by
    have hall : 4*((c.size.toNat+1)/4)=c.size.toNat+1 := by omega
    rw [List.flatMap_append,flatMap_words,hall]
    rfl
  -- the stop bit
  have hstopped := hi stop (by tauto)
  have hsofar : after watch u (ws++i::(data++crc++[stop]))=watch ⟨s'',
      u.words++(List.range ((c.size.toNat+1)/4)).map (word c.quad a.data),u.eots++
        if u.s.r_cnt_block=0 then
          [(u.words++(List.range ((c.size.toNat+1)/4)).map (word c.quad a.data)).length]
        else []⟩ stop := by
    rw [after_append,hrun,after_cons,(hwait.still (i:=i)).watch,after_append,after_append,hrun',
      hrun'',after_cons,after_nil]
  by_cases hlast : u.s.r_cnt_block=0
  · simp only [if_pos hlast] at hend hsofar ⊢
    obtain ⟨hstill,hidle⟩ := idle_stays hstopped hend
    rw [hstill.watch] at hsofar
    exact ⟨_,_,hsofar,hbytes,hidle⟩
  · simp only [if_neg hlast] at hend hsofar ⊢
    obtain ⟨hagain,hoff,hless⟩ := hend
    have hlong : s''.r_cnt ≠ 0 := by
      rw [hagain.stopped hoff]
      decide
    obtain ⟨hnext,hsame,hrunning',-⟩ :=
      hagain.wait hstopped (by rw [hstop]; exact a.stop_high) hlong
    rw [(hagain.still (i:=stop)).watch] at hsofar
    exact ⟨_,_,hsofar,hbytes,hnext,hrunning'.trans hoff,hsame.trans hless⟩

/-- All blocks come in. -/
theorem answers_run {answers : List (Answer c)} {is : List Input} (h : Await u.s)
    (hi : ∀ i ∈ is, Holds c i) (hlines : is.map (·.sddata_i)=answers.flatMap Answer.lines)
    (hlen : answers.length=u.s.r_cnt_block.toNat+1) (hsize : c.size.toNat < 512)
    (hword : c.size.toNat%4=3)
    (hcnt : u.s.r_cnt_running=true → ∀ a ∈ answers.head?, a.waits.length ≤ u.s.r_cnt.toNat) :
    ∃ s v, after watch u is=⟨s,v,u.eots++[v.length]⟩ ∧
      v.flatMap bytes=u.words.flatMap bytes++answers.flatMap Answer.bytes := by
  induction answers generalizing u is with
  | nil => exact absurd hlen (Nat.succ_ne_zero _).symm
  | cons a answers ih =>
    rw [List.flatMap_cons] at hlines
    obtain ⟨is,js,rfl,hfirst,hrest⟩ := List.map_eq_append_iff.mp hlines
    obtain ⟨s,v,hrun,hbytes,hend⟩ := answer_run a h
      (fun j hj => hi j (List.mem_append_left _ hj)) hfirst hsize hword (fun hr => hcnt hr a rfl)
    rw [List.length_cons] at hlen
    by_cases hblock : u.s.r_cnt_block=0
    · rw [hblock] at hlen
      obtain rfl : answers=[] := List.length_eq_zero_iff.mp (Nat.succ.inj hlen)
      obtain rfl := List.map_eq_nil_iff.mp hrest
      rw [if_pos hblock] at hrun
      rw [List.append_nil]
      refine ⟨s,v,hrun,?_⟩
      rw [hbytes]
      simp
    · rw [if_neg hblock] at hend
      rw [if_neg hblock,List.append_nil] at hrun
      obtain ⟨hagain,hoff,hless⟩ := hend
      have hpred := pred_block hblock
      obtain ⟨s',v',hrun',hbytes'⟩ := ih (u:=⟨s,v,u.eots⟩) hagain
        (fun j hj => hi j (List.mem_append_right _ hj)) hrest (by dsimp only; rw [hless]; omega)
        (fun hr => absurd hr (by dsimp only; rw [hoff]; exact Bool.false_ne_true))
      refine ⟨s',v',by rw [after_append,hrun,hrun'],?_⟩
      rw [hbytes']
      dsimp only
      rw [hbytes,List.flatMap_cons,List.append_assoc]

end Block

section Idle

variable {c : Transfer} {s : State} {i : Input}

/-- Bytes are counted in a block only, and a counter that stands has its highest value. -/
structure Settled (s : State) : Prop where
  bytes : s.r_cnt_byte=true → s.r_state=.ST_TX_SHIFT ∨ s.r_state=.ST_RX_SHIFT
  bit : s.r_cnt_byte=false → s.r_bit_cnt=0
  stopped : s.r_cnt_running=false → s.r_cnt=0x1FF ∧ s.r_cnt_byte=false

/-- The count of bytes starts with a block. -/
theorem byte_starts (h : (comb s i).s_cnt_byte=true) :
    ((comb s i).s_state=.ST_TX_SHIFT ∨ (comb s i).s_state=.ST_RX_SHIFT) ∧
      (s.r_state=.ST_TX_START ∨ s.r_state=.ST_RX_START ∧ i.sddata_i.getLsbD 0=false) := by
  cases hs : s.r_state with
  | ST_TX_START => exact ⟨Or.inl (by simp only [comb,hs]),Or.inl rfl⟩
  | ST_RX_START =>
    cases hline : i.sddata_i.getLsbD 0 with
    | false =>
      exact ⟨Or.inr (by simp only [comb,hs,hline,Bool.not_false,if_true]),Or.inr ⟨rfl,rfl⟩⟩
    | true =>
      simp only [comb,hs,hline,Bool.not_true,Bool.false_eq_true,if_false] at h
      split_ifs at h
  | ST_TX_STOP | ST_TX_END | ST_RX_STOP =>
    simp only [comb,hs] at h
    exact absurd h Bool.false_ne_true
  | _ =>
    simp only [comb,hs] at h
    split_ifs at h

/-- In a block the counter starts anew exactly when the block is over. -/
theorem block_over (hs : s.r_state=.ST_TX_SHIFT ∨ s.r_state=.ST_RX_SHIFT) :
    (comb s i).s_cnt_start=s_cnt_done s i ∧
      (s_cnt_done s i=false → (comb s i).s_state=s.r_state) := by
  rcases hs with hs | hs <;> cases hdone : s_cnt_done s i <;> simp [comb,hs,hdone]

theorem Settled.next (h : Settled s) (hc : Uncut s i) : Settled (step s i) := by
  refine ⟨fun hbyte => ?_,fun hbyte => ?_,fun hrun => ?_⟩
  · simp only [step] at hbyte ⊢
    cases hstart : (comb s i).s_cnt_start with
    | true =>
      rw [hstart,if_pos rfl] at hbyte
      obtain ⟨hto,hfrom⟩ := byte_starts hbyte
      have hclr : i.clr_stat_i=false := by
        refine Bool.eq_false_of_not_eq_true fun hclr => ?_
        obtain ⟨htx,-,-,hrx⟩ := hc hclr
        rcases hfrom with hfrom | ⟨hfrom,hline⟩
        · exact htx hfrom
        · exact absurd (hrx hfrom) (by rw [hline]; exact Bool.false_ne_true)
      rw [hclr,if_neg Bool.false_ne_true]
      exact hto
    | false =>
      rw [hstart,if_neg Bool.false_ne_true] at hbyte
      cases hdone : s_cnt_done s i with
      | true =>
        rw [hdone,if_pos rfl] at hbyte
        exact absurd hbyte Bool.false_ne_true
      | false =>
        rw [hdone,if_neg Bool.false_ne_true] at hbyte
        have hs := h.bytes hbyte
        have hclr : i.clr_stat_i=false := by
          refine Bool.eq_false_of_not_eq_true fun hclr => ?_
          obtain ⟨-,htx,hrx,-⟩ := hc hclr
          exact hs.elim htx hrx
        rw [hclr,if_neg Bool.false_ne_true,(block_over hs).2 hdone]
        exact hs
  · cases hcount : s.r_cnt_byte with
    | false => exact (bit_cnt_stands hcount).trans (h.bit hcount)
    | true =>
      have hdone : s_cnt_done s i=true := by
        by_contra hnot
        have hdone := Bool.eq_false_of_not_eq_true hnot
        have hstart := (block_over (i:=i) (h.bytes hcount)).1
        simp [step,hstart,hdone,hcount] at hbyte
      rw [s_cnt_done,hcount,if_pos rfl,Bool.and_eq_true] at hdone
      simp [step,hcount,hdone.2]
  · cases hstart : (comb s i).s_cnt_start with
    | true => simp [step,hstart] at hrun
    | false =>
      cases hdone : s_cnt_done s i with
      | true => simp [step,hstart,hdone]
      | false =>
        have hoff : s.r_cnt_running=false := by simpa [step,hstart,hdone] using hrun
        simpa [step,hstart,hdone,hoff] using h.stopped hoff

/-- The start of a read leaves the counter as it is. -/
theorem Settled.asks (h : Settled s) (hs : s.r_state=.ST_IDLE) (hask : Asks c i) :
    Still s i ∧ Await (step s i) ∧ (step s i).r_cnt_block=c.num ∧
      ((step s i).r_cnt_running=true ↔ RunsOut s) ∧
      (RunsOut s → (step s i).r_cnt.toNat+1=s.r_cnt.toNat) := by
  have hcycles : s.r_cnt_byte=false := by
    refine Bool.eq_false_of_not_eq_true fun hbyte => ?_
    rcases h.bytes hbyte with hne | hne <;> rw [hs] at hne <;> exact absurd hne (by decide)
  have hdone : s_cnt_done s i=decide (s.r_cnt=0) := by
    rw [s_cnt_done,hcycles,if_neg Bool.false_ne_true,beq_eq_decide]
  have hcomb : (comb s i).s_state=.ST_RX_START ∧ (comb s i).s_cnt_start=false ∧
      (comb s i).s_cnt_block_upd=true ∧ (comb s i).s_cnt_block=c.num ∧
      (comb s i).s_out_data_valid=false ∧ (comb s i).s_eot=false := by
    simp only [comb,hs,hask.start,hask.rwn,hask.num,if_true,and_self]
  obtain ⟨hstate,hstart,hupd,hnum,hvalid,heot⟩ := hcomb
  have hrun : (step s i).r_cnt_running=true ↔ RunsOut s := by
    unfold RunsOut
    by_cases hzero : s.r_cnt=0
    · rw [decide_eq_true hzero] at hdone
      simp [step,hstart,hdone,hzero]
    · rw [decide_eq_false hzero] at hdone
      exact ⟨fun h => ⟨by simpa [step,hstart,hdone] using h,hzero⟩,
        fun h => by simpa [step,hstart,hdone] using h.1⟩
  refine ⟨⟨hvalid,heot⟩,⟨?_,?_,(bit_cnt_stands hcycles).trans (h.bit hcycles),fun hoff => ?_⟩,?_,
    hrun,fun hout => ?_⟩
  · simp [step,hask.clr,hstate]
  · simp [step,hstart,hcycles]
  · cases hzero : s_cnt_done s i with
    | true => simp [step,hstart,hzero]
    | false =>
      have hoff' : s.r_cnt_running=false := by simpa [step,hstart,hzero] using hoff
      simpa [step,hstart,hzero,hoff'] using (h.stopped hoff').1
  · simp [step,hupd,hnum]
  · have hless : (step s i).r_cnt=s.r_cnt-1 := by
      rw [decide_eq_false hout.2] at hdone
      simp [step,hstart,hdone,hout.1,hcycles]
    have hpos : 0 < s.r_cnt.toNat := Nat.pos_of_ne_zero fun hz => hout.2 (BitVec.eq_of_toNat_eq hz)
    have hsub : (s.r_cnt-1).toNat=s.r_cnt.toNat-1 := BitVec.toNat_sub_of_le (BitVec.le_def.mpr hpos)
    rw [hless,hsub]
    omega

/-- From an idle interface, the answers of a card are delivered exactly if a block is made of whole
words and has at most 512 bytes, and a counter that is left over does not run out before the first
start bit. -/
theorem delivers_iff {answers : List (Answer c)} {js : List Input} (h : Settled s)
    (hs : s.r_state=.ST_IDLE) (hask : Asks c i) (hlen : answers.length=c.num.toNat+1)
    (hi : ∀ j ∈ js, Holds c j) (hlines : js.map (·.sddata_i)=answers.flatMap Answer.lines) :
    Delivers answers (after watch ⟨s,[],[]⟩ (i::js)) ↔ c.size.toNat%4=3 ∧ c.size.toNat < 512 ∧
      (RunsOut s → ∀ a ∈ answers.head?, a.waits.length < s.r_cnt.toNat) := by
  obtain ⟨hstill,hawait,hblock,hrun,hcnt⟩ := h.asks hs hask
  rw [after_cons,hstill.watch]
  constructor
  · rintro ⟨hbytes,-⟩
    -- as many bytes come out as words are given out
    have hwords : 4*(after watch ⟨step s i,[],[]⟩ js).words.length=
        answers.length*(c.size.toNat+1) := by
      have hfour : ∀ ws : List (BitVec 32), (ws.flatMap bytes).length=4*ws.length := by
        intro ws
        simp [List.length_flatMap,bytes,Nat.mul_comm]
      rw [←hfour,hbytes]
      simp [List.length_flatMap,Answer.bytes]
    have hstage : Stage c (answers.length*room c) ⟨step s i,[],[]⟩ := by
      refine .await hawait ?_
      dsimp only
      rw [hblock,←hlen,List.length_nil,Nat.zero_add]
    have hmost := (hstage.run hi).words_le
    have hfit : c.size.toNat+1 ≤ 4*room c := by
      have hmul : answers.length*(c.size.toNat+1) ≤ answers.length*(4*room c) := by
        rw [←hwords,Nat.mul_left_comm]
        exact Nat.mul_le_mul_left 4 hmost
      exact Nat.le_of_mul_le_mul_left hmul (by omega)
    unfold room at hfit
    refine ⟨by omega,by omega,fun hout a ha => ?_⟩
    by_contra hlate
    obtain ⟨rest,rfl⟩ : ∃ rest, answers=a::rest := List.head?_eq_some_iff.mp ha
    have hone := hcnt hout
    have hwaits : js.map (·.sddata_i)=a.waits++(a.head::(a.data++a.crc++[a.stop])++
        rest.flatMap Answer.lines) := by
      rw [hlines,List.flatMap_cons,Answer.lines,List.append_assoc]
    have hlong : a.waits.length < js.length := by
      have hsame : (js.map (·.sddata_i)).length=js.length := List.length_map _
      rw [←hsame,hwaits,List.length_append]
      simp
    have hcut := hawait.cut (u:=⟨step s i,[],[]⟩) hi (hrun.mpr hout) rfl
      (by dsimp only; omega) (fun x hx => by
        rw [List.map_take,hwaits,List.take_append_of_le_length (by dsimp only; omega)] at hx
        exact a.waits_high x (List.mem_of_mem_take hx))
    rw [hcut,List.length_nil,List.length_cons] at hwords
    exact absurd hwords (Nat.ne_of_lt (Nat.mul_pos (Nat.succ_pos _) (Nat.succ_pos _)))
  · rintro ⟨hword,hsize,hearly⟩
    obtain ⟨s',v,hend,hbytes⟩ := answers_run (u:=⟨step s i,[],[]⟩) hawait hi hlines
      (by dsimp only; rw [hblock]; exact hlen) hsize hword (fun hr a ha => by
        have hlt := hearly (hrun.mp hr) a ha
        have hone := hcnt (hrun.mp hr)
        dsimp only
        omega)
    rw [hend]
    exact ⟨hbytes,rfl⟩

/-- With a silent card the read ends exactly if a counter is left over. -/
theorem timesOut_iff {env : ℕ → Input} (h : Settled s) (hs : s.r_state=.ST_IDLE)
    (hask : Asks c i) (hi : ∀ n, Holds c (env n))
    (hlines : ∀ n, (env n).sddata_i.getLsbD 0=true) :
    (∃ n, TimedOut (states step (step s i) env n)) ↔ RunsOut s := by
  obtain ⟨-,hawait,-,hrun,-⟩ := h.asks hs hask
  refine ⟨fun ⟨n,hn⟩ => ?_,fun hout => hawait.times_out hi hlines (hrun.mpr hout)⟩
  by_contra hnot
  have hoff : (step s i).r_cnt_running=false :=
    Bool.eq_false_of_not_eq_true fun hr => hnot (hrun.mp hr)
  have hstate := (hawait.hangs hi hlines hoff n).1.state
  rw [hn.1] at hstate
  exact absurd hstate (by decide)

end Idle

/-- After every run in which no block is cut off, a read from the idle state delivers the answers of
a card exactly if a block is made of whole words and has at most 512 bytes, and a counter left over
from a write does not run out before the first start bit; and with a silent card it ends, with the
timeout in the status, exactly if there is such a counter. -/
theorem read_iff {is : List Input} (hrun : Meets step Uncut reset is)
    (hs : (after step reset is).r_state=.ST_IDLE) {c : Transfer} {i : Input} (hask : Asks c i) :
    (∀ (answers : List (Answer c)) (js : List Input), answers.length=c.num.toNat+1 →
      (∀ j ∈ js, Holds c j) → js.map (·.sddata_i)=answers.flatMap Answer.lines →
      (Delivers answers (after watch ⟨after step reset is,[],[]⟩ (i::js)) ↔
        c.size.toNat%4=3 ∧ c.size.toNat < 512 ∧ (RunsOut (after step reset is) →
          ∀ a ∈ answers.head?, a.waits.length < (after step reset is).r_cnt.toNat))) ∧
    ∀ env : ℕ → Input, (∀ n, Holds c (env n)) → (∀ n, (env n).sddata_i.getLsbD 0=true) →
      ((∃ n, TimedOut (states step (step (after step reset is) i) env n)) ↔
        RunsOut (after step reset is)) := by
  have hsettled : Settled (after step reset is) :=
    after_invariant_of_meets (fun _ _ h hc => h.next hc)
      ⟨fun h => absurd h Bool.false_ne_true,fun _ => rfl,fun _ => ⟨rfl,rfl⟩⟩ hrun
  exact ⟨fun _ _ hlen hi hlines => delivers_iff hsettled hs hask hlen hi hlines,
    fun _ hi hlines => timesOut_iff hsettled hs hask hi hlines⟩

/-- A read of one block on one lane, in its first and in its later cycles. -/
def request (go : Bool) (size : BitVec 10) (line : BitVec 4) : Input :=
  ⟨false,go,size,0,true,false,0,true,line⟩

/-- A card that answers at once. -/
def answer (size : BitVec 10) : Answer ⟨false,size,0⟩ where
  waits := [1]
  head := 0
  data := List.replicate ((size.toNat+1)*per false) 1
  crc := List.replicate 16 0
  stop := 1
  waits_high := by decide
  head_low := rfl
  data_length := List.length_replicate
  crc_length := rfl
  stop_high := rfl

/-- A block of four bytes is delivered after a reset. -/
theorem read_iff_example :
    Delivers [answer 3] (after watch ⟨reset,[],[]⟩
        (request true 3 1::(answer 3).lines.map (request false 3))) ∧
      ¬∃ n, TimedOut
        (states step (step reset (request true 3 1)) (fun _ => request false 3 1) n) := by
  have hask : Asks ⟨false,3,0⟩ (request true 3 1) := ⟨rfl,rfl,rfl,rfl⟩
  have hrun : Meets step Uncut reset [] := trivial
  have h := read_iff hrun rfl hask
  refine ⟨(h.1 [answer 3] _ rfl (fun j hj => ?_) ?_).mpr
    ⟨rfl,by decide,fun hout => absurd hout.1 Bool.false_ne_true⟩,fun hend =>
    absurd ((h.2 _ (fun _ => ⟨rfl,rfl,rfl,rfl⟩) (fun _ => rfl)).mp hend).1 Bool.false_ne_true⟩
  · obtain ⟨x,-,rfl⟩ := List.mem_map.mp hj
    exact ⟨rfl,rfl,rfl,rfl⟩
  · rw [List.map_map]
    exact (List.map_id _).trans (List.append_nil _).symm

/-- A block of one byte is not. -/
theorem not_delivers_byte : ¬Delivers [answer 0] (after watch ⟨reset,[],[]⟩
    (request true 0 1::(answer 0).lines.map (request false 0))) := by
  have hwords : (after watch ⟨reset,[],[]⟩
      (request true 0 1::(answer 0).lines.map (request false 0))).words=[] := by decide +kernel
  rintro ⟨hbytes,-⟩
  rw [hwords] at hbytes
  exact absurd (congrArg List.length hbytes) (by decide)

end Pulpissimo.Udma.SdioRead
