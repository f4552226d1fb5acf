import Pulpissimo.Lib.Lanes
import Pulpissimo.Lib.LoopNest
import Pulpissimo.Udma.SdioData

/-!
# Blocks written to the card

What the lines show of a block, against its frame on each lane: start bit, bytes of the words
taken, checksum of just these bits and stop bit. The checksums start from zero because they are
shifted out to their end, or because a received block comes with its own checksum, so that the
register is zero behind it. Neither holds where a block is cut off or arrives with an error.
-/

namespace Pulpissimo.Udma.SdioData

open Pulpissimo.Machine Pulpissimo.Lanes

section Frame

/-- Byte `q` of some words. -/
def byteAt (words : List (BitVec 32)) (q : ℕ) : BitVec 8 := lane 8 (q%4) (words.getD (q/4) 0)

/-- Bit `j` of a byte on a lane: high nibble first on four lanes, highest bit first on one. -/
def bitOf (quad : Bool) (l : Fin 4) (x : BitVec 8) (j : ℕ) : Bool :=
  if quad then x.getLsbD (if j=0 then 4+l else l) else x.getLsbD (7-j)

/-- Bits of a block of `size+1` bytes on a lane. -/
def blockBits (quad : Bool) (l : Fin 4) (words : List (BitVec 32)) (size : ℕ) : List Bool :=
  (List.range (size+1)).flatMap fun q =>
    (List.range (per quad)).map (bitOf quad l (byteAt words q))

/-- Start bit, bits, their checksum and stop bit. -/
def frame (bits : List Bool) : List Bool :=
  false::(bits++Crc.msbs (Crc.crc gen16 bits) 16++[true])

/-- A block that was written. -/
structure Block where
  quad : Bool
  /-- Bytes less one. -/
  size : BitVec 10
  words : List (BitVec 32)
  line : List (BitVec 4)

/-- The lane is in use. -/
def InUse (quad : Bool) (l : Fin 4) : Prop := l=0 ∨ quad=true

instance (quad : Bool) (l : Fin 4) : Decidable (InUse quad l) :=
  inferInstanceAs (Decidable (l=0 ∨ quad=true))

/-- The block has its words and its frame on every lane in use. -/
def Block.Right (b : Block) : Prop :=
  b.words.length=(b.size.toNat+1+3)/4 ∧
    ∀ l, InUse b.quad l →
      b.line.map (·.getLsbD l)=frame (blockBits b.quad l b.words b.size.toNat)

instance (b : Block) : Decidable b.Right :=
  inferInstanceAs (Decidable (_ ∧ ∀ l, InUse b.quad l → _))

end Frame

section Run

/-- What was on the lines: the block that is written, the one that is read, and the blocks whose
stop bit is out. -/
structure Log where
  line : List (BitVec 4)
  words : List (BitVec 32)
  heard : List (BitVec 4)
  written : List Block

/-- The interface with what was seen of it, and the configuration of the last cycle. -/
structure Sys where
  s : State
  log : Log
  quad : Bool
  size : BitVec 10

def start : Sys := ⟨reset,⟨[],[],[],[]⟩,false,0⟩

/-- One cycle seen. A block that is cut off does not count as written. -/
def observe (log : Log) (s : State) (i : Input) : Log :=
  let line := log.line++if sddata_oen_o s i 0 then [] else [sddata_o s i]
  let words := log.words++
    if in_data_if_ready_o s i && i.in_data_if_valid_i then [i.in_data_if_data_i] else []
  let heard :=
    if s.r_state=.ST_RX_SHIFT ∨ s.r_state=.ST_RX_CRC then log.heard++[i.sddata_i] else []
  if s.r_state=.ST_TX_END then
    ⟨[],[],heard,log.written++[⟨i.data_quad_i,i.data_block_size_i,words,line⟩]⟩
  else if i.clr_stat_i then ⟨[],[],heard,log.written⟩
  else ⟨line,words,heard,log.written⟩

def next (u : Sys) (i : Input) : Sys :=
  ⟨step u.s i,observe u.log u.s i,i.data_quad_i,i.data_block_size_i⟩

/-- What a cycle must not bring in a state: blocks have at most 512 bytes, a word is there when it
is taken, a block is not cut off while it is shifted, and one that was read came with its
checksum. -/
def Undisturbed (u : Sys) (i : Input) : Fsm → Prop
  | .ST_TX_START =>
    i.clr_stat_i=false ∧ i.data_block_size_i.toNat < 512 ∧ i.in_data_if_valid_i=true
  | .ST_TX_SHIFT =>
    i.clr_stat_i=false ∧ (in_data_if_ready_o u.s i=true → i.in_data_if_valid_i=true)
  | .ST_TX_CRC => i.clr_stat_i=false
  | .ST_RX_START => i.sddata_i.getLsbD 0=false → i.clr_stat_i=false
  | .ST_RX_SHIFT => i.clr_stat_i=false
  | .ST_RX_CRC =>
    i.clr_stat_i=false ∧ (s_cnt_done u.s i=true → ∀ l, InUse i.data_quad_i l →
      Crc.crc gen16 ((u.log.heard++[i.sddata_i]).map (·.getLsbD l))=0)
  | _ => True

instance (u : Sys) (i : Input) : ∀ f, Decidable (Undisturbed u i f)
  | .ST_TX_START => inferInstanceAs (Decidable (_ ∧ _ ∧ _))
  | .ST_TX_SHIFT => inferInstanceAs (Decidable (_ ∧ (_ → _)))
  | .ST_TX_CRC | .ST_RX_SHIFT => inferInstanceAs (Decidable (_=_))
  | .ST_RX_START => inferInstanceAs (Decidable (_ → _))
  | .ST_RX_CRC => inferInstanceAs (Decidable (_ ∧ (_ → ∀ l, InUse i.data_quad_i l → _)))
  | .ST_IDLE | .ST_WAIT | .ST_TX_STOP | .ST_TX_END | .ST_TX_CRCSTAT | .ST_TX_BUSY
  | .ST_RX_STOP => inferInstanceAs (Decidable True)

/-- The configuration is held until the transfer is over, and nothing disturbs a block. -/
def Clean (u : Sys) (i : Input) : Prop :=
  (u.s.r_state ≠ .ST_IDLE → i.data_quad_i=u.quad ∧ i.data_block_size_i=u.size) ∧
    Undisturbed u i u.s.r_state

instance (u : Sys) (i : Input) : Decidable (Clean u i) :=
  inferInstanceAs (Decidable ((_ → _ ∧ _) ∧ Undisturbed u i _))

end Run

section Bits

variable {quad : Bool} {l : Fin 4} {words : List (BitVec 32)} {size n : ℕ}

/-- Bit `n` of a block on a lane. -/
def bitAt (quad : Bool) (l : Fin 4) (words : List (BitVec 32)) (n : ℕ) : Bool :=
  bitOf quad l (byteAt words (n/per quad)) (n%per quad)

theorem blockBits_eq :
    blockBits quad l words size=(List.range ((size+1)*per quad)).map (bitAt quad l words) :=
  LoopNest.flatMap_range (per_pos quad) (fun q => bitOf quad l (byteAt words q)) (size+1)

/-- Bits that are out do not change with the words that are taken later. -/
theorem bitAt_append {k : ℕ} (hk : k < 4*per quad*words.length) (more : List (BitVec 32)) :
    bitAt quad l (words++more) k=bitAt quad l words k := by
  have hpos := per_pos quad
  have hword : k/per quad/4 < words.length := by
    rw [Nat.div_div_eq_div_mul,Nat.div_lt_iff_lt_mul (by omega)]
    rw [Nat.mul_comm,Nat.mul_comm (per quad) 4]
    exact hk
  unfold bitAt byteAt
  rw [List.getD_append _ _ _ _ hword]

theorem range_bitAt_append (hn : n ≤ 4*per quad*words.length) (more : List (BitVec 32)) :
    (List.range n).map (bitAt quad l (words++more))=(List.range n).map (bitAt quad l words) :=
  List.map_congr_left fun _ hk => bitAt_append (lt_of_lt_of_le (List.mem_range.mp hk) hn) more

/-- The bit that is on a lane. -/
theorem getLsbD_dataout {s : State} {i : Input} (h : Place quad size n s) (hi : i.data_quad_i=quad)
    (hdata : s.r_data=words.getD (n/(4*per quad)) 0) (hl : InUse quad l) :
    (s_dataout s i).getLsbD l=bitAt quad l words n := by
  have hbyte := h.byte
  have hbit := h.bit
  have hword : n/per quad/4=n/(4*per quad) := by rw [Nat.div_div_eq_div_mul,Nat.mul_comm]
  unfold s_dataout place bitAt bitOf byteAt
  rw [hi,hword,←hdata]
  unfold per at hbyte hbit ⊢
  cases quad with
  | true =>
    rw [if_pos rfl] at hbyte hbit
    rw [if_pos rfl,if_pos rfl,if_pos rfl,if_pos rfl,BitVec.getLsbD_extractLsb',
      decide_eq_true l.isLt,Bool.true_and,hbyte]
    have hzero : s.r_bit_cnt=0 ↔ n%2=0 := by
      rw [←hbit,←BitVec.toNat_inj]
      rfl
    by_cases heven : n%2=0
    · rw [if_pos (hzero.mpr heven),if_pos heven,getLsbD_lane _ (by omega)]
      congr 1
      omega
    · rw [if_neg (fun h => heven (hzero.mp h)),if_neg heven,getLsbD_lane _ (by omega)]
      rfl
  | false =>
    obtain rfl : l=0 := hl.resolve_right Bool.false_ne_true
    rw [if_neg Bool.false_ne_true] at hbyte hbit
    rw [if_neg Bool.false_ne_true,if_neg Bool.false_ne_true,if_neg Bool.false_ne_true,
      if_neg Bool.false_ne_true,BitVec.getLsbD_setWidth,BitVec.getLsbD_ofBool,hbyte,hbit,
      getLsbD_lane _ (by omega)]
    simp

end Bits

section Phases

/-- The places where the bits of a lane stand in a row of nibbles. -/
def laneOf (l : Fin 4) (line : List (BitVec 4)) : List Bool := line.map (·.getLsbD l)

theorem laneOf_concat (l : Fin 4) (line : List (BitVec 4)) (x : BitVec 4) :
    laneOf l (line++[x])=laneOf l line++[x.getLsbD l] := by
  rw [laneOf,List.map_append]
  rfl

/-- No block is on the lines and the checksums are zero. -/
structure Rest (u : Sys) : Prop where
  cycles : u.s.r_cnt_byte=false
  bit : u.s.r_bit_cnt=0
  crc : ∀ l, u.s.r_crc l=0
  line : u.log.line=[]
  words : u.log.words=[]

/-- `n` bits of a block are out on every lane. -/
structure Shift (u : Sys) (n : ℕ) : Prop where
  state : u.s.r_state=.ST_TX_SHIFT
  place : Place u.quad u.size.toNat n u.s
  lt : n < (u.size.toNat+1)*per u.quad
  count : u.log.words.length=n/(4*per u.quad)+1
  data : u.s.r_data=u.log.words.getD (n/(4*per u.quad)) 0
  line : ∀ l, InUse u.quad l →
    laneOf l u.log.line=false::(List.range n).map (bitAt u.quad l u.log.words)
  crc : ∀ l, InUse u.quad l →
    u.s.r_crc l=Crc.crc gen16 ((List.range n).map (bitAt u.quad l u.log.words))
  unused : ∀ l, ¬InUse u.quad l → u.s.r_crc l=0

/-- The words of the block and its bits on the lanes, with `j` bits of the checksums. -/
structure Framed (u : Sys) (j : ℕ) : Prop where
  count : u.log.words.length=(u.size.toNat+1+3)/4
  line : ∀ l, InUse u.quad l →
    laneOf l u.log.line=false::(blockBits u.quad l u.log.words u.size.toNat++
      Crc.msbs (Crc.crc gen16 (blockBits u.quad l u.log.words u.size.toNat)) j)

/-- `j` bits of the checksums are out. -/
structure Check (u : Sys) (j : ℕ) : Prop where
  state : u.s.r_state=.ST_TX_CRC
  counts : Counts (15-j) u.s
  lt : j < 16
  framed : Framed u j
  crc : ∀ l, InUse u.quad l →
    u.s.r_crc l=Crc.crc gen16 (blockBits u.quad l u.log.words u.size.toNat) <<< j
  unused : ∀ l, ¬InUse u.quad l → u.s.r_crc l=0

/-- Only the stop bit is not out. -/
structure Stop (u : Sys) : Prop where
  state : u.s.r_state=.ST_TX_END
  cycles : u.s.r_cnt_byte=false
  bit : u.s.r_bit_cnt=0
  crc : ∀ l, u.s.r_crc l=0
  framed : Framed u 16

/-- A block comes in. -/
structure Hear (u : Sys) : Prop where
  state : (u.s.r_state=.ST_RX_SHIFT ∧ u.s.r_cnt_byte=true) ∨
    (u.s.r_state=.ST_RX_CRC ∧ u.s.r_cnt_byte=false ∧ u.s.r_bit_cnt=0)
  crc : ∀ l, InUse u.quad l → u.s.r_crc l=Crc.crc gen16 (laneOf l u.log.heard)
  unused : ∀ l, ¬InUse u.quad l → u.s.r_crc l=0
  line : u.log.line=[]
  words : u.log.words=[]

/-- What the interface does. -/
inductive Phase (u : Sys) : Prop
  | idle (state : u.s.r_state=.ST_IDLE) (rest : Rest u)
  | start (state : u.s.r_state=.ST_TX_START) (rest : Rest u)
  | wait (state : u.s.r_state=.ST_TX_CRCSTAT ∨ u.s.r_state=.ST_TX_BUSY) (rest : Rest u)
  | await (state : u.s.r_state=.ST_RX_START) (rest : Rest u)
  | shift (n : ℕ) (h : Shift u n)
  | check (j : ℕ) (h : Check u j)
  | stop (h : Stop u)
  | hear (h : Hear u)

variable {u : Sys} {i : Input}

theorem active_iff {quad : Bool} (hi : i.data_quad_i=quad) (l : Fin 4) :
    active i l=true ↔ InUse quad l := by
  rw [active,hi,Bool.or_eq_true,beq_iff_eq]
  rfl

/-- Without a bit that is one the checksums stay zero. -/
theorem crc_stays {s : State} {l : Fin 4} (hzero : s.r_crc l=0)
    (hin : (s_crc_in s i).getLsbD l=false ∨ (comb s i).s_crc_en=false) :
    (step s i).r_crc l=0 := by
  have hclear : ∀ b shift clr, crc16 0 b shift clr false=0 := by decide
  have hstep : ∀ shift clr, crc16 0 false shift clr true=0 := by decide
  change crc16 (s.r_crc l) ((s_crc_in s i).getLsbD l) _ _ (active i l && (comb s i).s_crc_en)=0
  rw [hzero]
  rcases hin with hin | hen
  · rw [hin]
    cases active i l && (comb s i).s_crc_en with
    | true => exact hstep _ _
    | false => exact hclear _ _ _
  · rw [hen,Bool.and_false]
    exact hclear _ _ _

/-- A cycle in which the interface does not drive the lines. -/
structure Quiet (s : State) (i : Input) : Prop where
  oen : (comb s i).s_sddata_oen=true
  data : (comb s i).s_sddata=0
  intx : (comb s i).s_crc_intx=false
  ready : (comb s i).s_in_data_ready=false
  state : s.r_state ≠ .ST_TX_END ∧ s.r_state ≠ .ST_RX_SHIFT ∧ s.r_state ≠ .ST_RX_CRC

theorem Quiet.observe {s : State} (h : Quiet s i) {log : Log} (hline : log.line=[])
    (hwords : log.words=[]) : observe log s i=⟨[],[],[],log.written⟩ := by
  have hoen : sddata_oen_o s i 0=true := h.oen
  have hready : in_data_if_ready_o s i=false := h.ready
  have hheard : ¬(s.r_state=.ST_RX_SHIFT ∨ s.r_state=.ST_RX_CRC) := by
    rintro (h' | h')
    · exact h.state.2.1 h'
    · exact h.state.2.2 h'
  rw [SdioData.observe,hline,hwords,hoen,hready]
  rw [if_neg h.state.1,if_neg hheard,if_pos rfl,Bool.false_and,if_neg Bool.false_ne_true]
  split_ifs <;> rfl

/-- The registers stay at rest in a quiet cycle that starts no block. -/
theorem Rest.next (h : Rest u) (hquiet : Quiet u.s i) (hbyte : (comb u.s i).s_cnt_byte=false) :
    Rest (next u i) := by
  have hlog : (SdioData.next u i).log=⟨[],[],[],u.log.written⟩ := hquiet.observe h.line h.words
  have hin : s_crc_in u.s i=0 := by
    rw [s_crc_in,hquiet.intx,if_neg Bool.false_ne_true,hquiet.data]
  refine ⟨?_,(bit_cnt_stands h.cycles).trans h.bit,fun l => ?_,?_,?_⟩
  · change (step u.s i).r_cnt_byte=false
    simp only [step,hbyte,h.cycles,ite_self]
  · exact crc_stays (h.crc l) (Or.inl (by rw [hin]; exact BitVec.getLsbD_zero))
  · rw [hlog]
  · rw [hlog]

theorem quiet_idle {s : State} (hs : s.r_state=.ST_IDLE) :
    Quiet s i ∧ (comb s i).s_cnt_byte=false := by
  refine ⟨⟨?_,?_,?_,?_,?_⟩,?_⟩ <;> cases hstart : i.data_start_i <;> simp [comb,hs,hstart]

theorem quiet_wait {s : State} (hs : s.r_state=.ST_TX_CRCSTAT ∨ s.r_state=.ST_TX_BUSY) :
    Quiet s i ∧ (comb s i).s_cnt_byte=false := by
  rcases hs with hs | hs
  · refine ⟨⟨?_,?_,?_,?_,?_⟩,?_⟩ <;> cases hdone : s_cnt_done s i <;> simp [comb,hs,hdone]
  · refine ⟨⟨?_,?_,?_,?_,by simp [hs]⟩,?_⟩ <;> simp only [comb,hs] <;> split_ifs <;> rfl

theorem quiet_await {s : State} (hs : s.r_state=.ST_RX_START) : Quiet s i := by
  refine ⟨?_,?_,?_,?_,by simp [hs]⟩ <;> simp only [comb,hs] <;> split_ifs <;> rfl

theorem Phase.of_idle (hs : u.s.r_state=.ST_IDLE) (h : Rest u) : Phase (next u i) := by
  obtain ⟨hquiet,hbyte⟩ := quiet_idle (i:=i) hs
  have hrest := h.next hquiet hbyte
  cases hclr : i.clr_stat_i with
  | true => exact .idle (by simp [next,step,hclr]) hrest
  | false =>
    cases hstart : i.data_start_i with
    | false => exact .idle (by simp [next,step,comb,hs,hclr,hstart]) hrest
    | true =>
      cases hrwn : i.data_rwn_i with
      | true => exact .await (by simp [next,step,comb,hs,hclr,hstart,hrwn]) hrest
      | false => exact .start (by simp [next,step,comb,hs,hclr,hstart,hrwn]) hrest

theorem Phase.of_wait (hs : u.s.r_state=.ST_TX_CRCSTAT ∨ u.s.r_state=.ST_TX_BUSY) (h : Rest u) :
    Phase (next u i) := by
  obtain ⟨hquiet,hbyte⟩ := quiet_wait (i:=i) hs
  have hrest := h.next hquiet hbyte
  cases hclr : i.clr_stat_i with
  | true => exact .idle (by simp [next,step,hclr]) hrest
  | false =>
    rcases hs with hs | hs
    · cases hdone : s_cnt_done u.s i with
      | true => exact .wait (Or.inr (by simp [next,step,comb,hs,hclr,hdone])) hrest
      | false => exact .wait (Or.inl (by simp [next,step,comb,hs,hclr,hdone])) hrest
    · cases hdone : s_cnt_done u.s i with
      | true => exact .idle (by simp [next,step,comb,hs,hclr,hdone]) hrest
      | false =>
        cases hcard : i.sddata_i.getLsbD 0 with
        | false =>
          refine .wait (Or.inr ?_) hrest
          simp only [SdioData.next,step,comb,hs,hclr,hdone,hcard,Bool.false_eq_true,if_false]
        | true =>
          cases hlast : s_cnt_block_done u.s with
          | true => exact .idle (by simp [next,step,comb,hs,hclr,hdone,hcard,hlast]) hrest
          | false => exact .start (by simp [next,step,comb,hs,hclr,hdone,hcard,hlast]) hrest

theorem Phase.of_await (hs : u.s.r_state=.ST_RX_START) (h : Rest u) (hc : Clean u i) :
    Phase (next u i) := by
  have hquiet := quiet_await (i:=i) hs
  have hlog : (next u i).log=⟨[],[],[],u.log.written⟩ := hquiet.observe h.line h.words
  have hin : s_crc_in u.s i=0 := by
    rw [s_crc_in,hquiet.intx,if_neg Bool.false_ne_true,hquiet.data]
  have hzero : ∀ l, (step u.s i).r_crc l=0 := fun l =>
    crc_stays (h.crc l) (Or.inl (by rw [hin]; exact BitVec.getLsbD_zero))
  cases hcard : i.sddata_i.getLsbD 0 with
  | false =>
    have hclr : i.clr_stat_i=false := by
      have hcond := hc.2
      rw [hs] at hcond
      exact hcond hcard
    refine .hear ⟨Or.inl ⟨?_,?_⟩,fun l _ => ?_,fun l _ => hzero l,?_,?_⟩
    · simp only [next,step,comb,hs,hclr,hcard,Bool.false_eq_true,if_false,Bool.not_false,if_true]
    · simp only [next,step,comb,hs,hcard,Bool.not_false,if_true]
    · rw [hlog]
      exact hzero l
    · rw [hlog]
    · rw [hlog]
  | true =>
    have hbyte : (comb u.s i).s_cnt_byte=false := by
      simp only [comb,hs,hcard,Bool.not_true,Bool.false_eq_true,if_false]
      split_ifs <;> rfl
    have hrest := h.next hquiet hbyte
    cases hclr : i.clr_stat_i with
    | true => exact .idle (by simp [next,step,hclr]) hrest
    | false =>
      cases hdone : s_cnt_done u.s i with
      | true =>
        refine .idle ?_ hrest
        simp only [next,step,comb,hs,hclr,hcard,hdone,Bool.not_true,Bool.false_eq_true,if_false,
          if_true]
      | false =>
        refine .await ?_ hrest
        simp only [next,step,comb,hs,hclr,hcard,hdone,Bool.not_true,Bool.false_eq_true,if_false]

/-- A cycle in which a block comes in: its bits go into the checksums and the lines are off. -/
structure Listens (s : State) (i : Input) : Prop where
  oen : (comb s i).s_sddata_oen=true
  intx : (comb s i).s_crc_intx=true
  en : (comb s i).s_crc_en=true
  shift : (comb s i).s_crc_shift=false
  clr : (comb s i).s_crc_clr=false
  ready : (comb s i).s_in_data_ready=false
  state : s.r_state=.ST_RX_SHIFT ∨ s.r_state=.ST_RX_CRC

theorem listens {s : State} (hs : s.r_state=.ST_RX_SHIFT ∨ s.r_state=.ST_RX_CRC) :
    Listens s i := by
  rcases hs with hs | hs
  · refine ⟨?_,?_,?_,?_,?_,?_,Or.inl hs⟩ <;> simp only [comb,hs] <;> split_ifs <;> rfl
  · refine ⟨?_,?_,?_,?_,?_,?_,Or.inr hs⟩ <;> simp only [comb,hs] <;> split_ifs <;> rfl

theorem Listens.observe {s : State} (h : Listens s i) (hclr : i.clr_stat_i=false) {log : Log}
    (hline : log.line=[]) (hwords : log.words=[]) :
    observe log s i=⟨[],[],log.heard++[i.sddata_i],log.written⟩ := by
  have hoen : sddata_oen_o s i 0=true := h.oen
  have hready : in_data_if_ready_o s i=false := h.ready
  have hend : s.r_state ≠ .ST_TX_END := by
    rcases h.state with hs | hs <;> rw [hs] <;> decide
  rw [SdioData.observe,hline,hwords,hoen,hready,if_neg hend,if_pos h.state,if_pos rfl,hclr,
    Bool.false_and,if_neg Bool.false_ne_true,if_neg Bool.false_ne_true]
  rfl

/-- The checksums go on with the bits of the block. -/
theorem Listens.crc {s : State} (h : Listens s i) (l : Fin 4) : (step s i).r_crc l=
    if active i l then Crc.step gen16 (s.r_crc l) (i.sddata_i.getLsbD l) else s.r_crc l := by
  change crc16 (s.r_crc l) ((s_crc_in s i).getLsbD l) (active i l && (comb s i).s_crc_shift)
    (active i l && (comb s i).s_crc_clr) (active i l && (comb s i).s_crc_en)=_
  rw [s_crc_in,h.intx,if_pos rfl,h.en,h.shift,h.clr]
  cases active i l with
  | true => exact crc16_sample _ _ _ _
  | false => rfl

theorem Phase.of_hear (h : Hear u) (hc : Clean u i) : Phase (next u i) := by
  have hstate : u.s.r_state=.ST_RX_SHIFT ∨ u.s.r_state=.ST_RX_CRC := by
    rcases h.state with hs | hs
    · exact Or.inl hs.1
    · exact Or.inr hs.1
  have hlisten := listens (i:=i) hstate
  have hheld : i.data_quad_i=u.quad := by
    refine (hc.1 ?_).1
    rcases hstate with hs | hs <;> rw [hs] <;> decide
  have hclr : i.clr_stat_i=false := by
    have hcond := hc.2
    rcases hstate with hs | hs
    · rw [hs] at hcond
      exact hcond
    · rw [hs] at hcond
      exact hcond.1
  have hlog : (next u i).log=⟨[],[],u.log.heard++[i.sddata_i],u.log.written⟩ :=
    hlisten.observe hclr h.line h.words
  have hcrc : ∀ l, InUse u.quad l →
      (step u.s i).r_crc l=Crc.crc gen16 (laneOf l (u.log.heard++[i.sddata_i])) := by
    intro l hl
    rw [hlisten.crc,if_pos ((active_iff hheld l).mpr hl),h.crc l hl,laneOf_concat,Crc.crc_concat]
  have hunused : ∀ l, ¬InUse u.quad l → (step u.s i).r_crc l=0 := by
    intro l hl
    rw [hlisten.crc,if_neg fun ha => hl ((active_iff hheld l).mp ha),h.unused l hl]
  have hmore : ((next u i).s.r_state=.ST_RX_SHIFT ∧ (next u i).s.r_cnt_byte=true) ∨
      ((next u i).s.r_state=.ST_RX_CRC ∧ (next u i).s.r_cnt_byte=false ∧
        (next u i).s.r_bit_cnt=0) → Phase (next u i) := by
    intro hs
    refine .hear ⟨hs,fun l hl => ?_,fun l hl => ?_,?_,?_⟩
    · rw [hlog]
      exact hcrc l (hheld ▸ hl)
    · exact hunused l (hheld ▸ hl)
    · rw [hlog]
    · rw [hlog]
  cases hdone : s_cnt_done u.s i with
  | false =>
    apply hmore
    rcases h.state with ⟨hs,hbytes⟩ | ⟨hs,hcycles,hbit⟩
    · refine Or.inl ⟨?_,?_⟩ <;> simp [next,step,comb,hs,hclr,hdone,hbytes]
    · refine Or.inr ⟨?_,?_,?_⟩ <;> simp [next,step,comb,hs,hclr,hdone,hcycles,hbit]
  | true =>
    rcases h.state with ⟨hs,hbytes⟩ | ⟨hs,hcycles,hbit⟩
    · have hevnt : s_cnt_byte_evnt u.s i=true := by
        rw [s_cnt_done,hbytes,if_pos rfl,Bool.and_eq_true] at hdone
        exact hdone.2
      apply hmore
      refine Or.inr ⟨?_,?_,?_⟩ <;> simp [next,step,comb,hs,hclr,hdone,hbytes,hevnt]
    · have hsum : ∀ l, InUse i.data_quad_i l →
          Crc.crc gen16 (laneOf l (u.log.heard++[i.sddata_i]))=0 := by
        have hcond := hc.2
        rw [hs] at hcond
        exact hcond.2 hdone
      have hrest : Rest (next u i) := by
        refine ⟨?_,(bit_cnt_stands hcycles).trans hbit,fun l => ?_,?_,?_⟩
        · cases hlast : s_cnt_block_done u.s <;> simp [next,step,comb,hs,hdone,hlast]
        · by_cases hl : InUse u.quad l
          · exact (hcrc l hl).trans (hsum l (hheld.symm ▸ hl))
          · exact hunused l hl
        · rw [hlog]
        · rw [hlog]
      cases hlast : s_cnt_block_done u.s with
      | true => exact .idle (by simp [next,step,comb,hs,hclr,hdone,hlast]) hrest
      | false => exact .await (by simp [next,step,comb,hs,hclr,hdone,hlast]) hrest

/-- The first cycle of a block: its start bit goes out and its first word is taken. -/
theorem Phase.of_start (hs : u.s.r_state=.ST_TX_START) (h : Rest u) (hc : Clean u i) :
    Phase (next u i) := by
  obtain ⟨hclr,hsize,hvalid⟩ : i.clr_stat_i=false ∧ i.data_block_size_i.toNat < 512 ∧
      i.in_data_if_valid_i=true := by
    have hcond := hc.2
    rw [hs] at hcond
    exact hcond
  have hlog : (next u i).log=⟨[0],[i.in_data_if_data_i],[],u.log.written⟩ := by
    have hoen : sddata_oen_o u.s i 0=false := by simp [sddata_oen_o,active,comb,hs]
    have hdata : sddata_o u.s i=0 := by simp [sddata_o,comb,hs]
    have hready : in_data_if_ready_o u.s i=true := by simp [in_data_if_ready_o,comb,hs]
    simp [next,observe,hoen,hdata,hready,hvalid,hclr,hs,h.line,h.words]
  have hin : s_crc_in u.s i=0 := by simp [s_crc_in,comb,hs]
  have hzero : ∀ l, (step u.s i).r_crc l=0 := fun l =>
    crc_stays (h.crc l) (Or.inl (by rw [hin]; exact BitVec.getLsbD_zero))
  have hplace : Place i.data_quad_i i.data_block_size_i.toNat 0 (step u.s i) := by
    have htarget : (comb u.s i).s_cnt_target.toNat=i.data_block_size_i.toNat := by
      have ht : (comb u.s i).s_cnt_target=i.data_block_size_i.setWidth 9 := by simp [comb,hs]
      rw [ht,BitVec.toNat_setWidth]
      exact Nat.mod_eq_of_lt hsize
    have hfirst : Place i.data_quad_i (comb u.s i).s_cnt_target.toNat 0 (step u.s i) :=
      Place.start (by simp [comb,hs]) (by simp [comb,hs]) ((bit_cnt_stands h.cycles).trans h.bit)
    rwa [htarget] at hfirst
  refine .shift 0 ⟨?_,hplace,Nat.mul_pos (Nat.succ_pos _) (per_pos _),?_,?_,fun l _ => ?_,
    fun l _ => hzero l,fun l _ => hzero l⟩
  · simp [next,step,comb,hs,hclr]
  · rw [hlog,Nat.zero_div]
    rfl
  · rw [hlog,Nat.zero_div]
    simp [next,step,comb,hs,hclr]
  · have hzeroes : (0 : BitVec 4).getLsbD l=false := BitVec.getLsbD_zero
    rw [hlog,laneOf,List.map_singleton,hzeroes]
    rfl

section Shift

variable {n : ℕ}

theorem Shift.held (h : Shift u n) (hc : Clean u i) :
    i.data_quad_i=u.quad ∧ i.data_block_size_i=u.size :=
  hc.1 (by rw [h.state]; decide)

theorem Shift.clr (h : Shift u n) (hc : Clean u i) : i.clr_stat_i=false := by
  have hcond := hc.2
  rw [h.state] at hcond
  exact hcond.1

/-- All the bits so far are from words that are there. -/
theorem Shift.covered (h : Shift u n) : n+1 ≤ 4*per u.quad*u.log.words.length := by
  have hpos := per_pos u.quad
  rw [h.count,Nat.mul_add,Nat.mul_one]
  have hmod := Nat.mod_lt n (by omega : 0 < 4*per u.quad)
  have hdiv := Nat.div_add_mod n (4*per u.quad)
  omega

/-- The next bit goes out and into the checksum. -/
theorem Shift.bits (h : Shift u n) (hi : i.data_quad_i=u.quad) {l : Fin 4} (hl : InUse u.quad l) :
    laneOf l (u.log.line++[sddata_o u.s i])=
        false::(List.range (n+1)).map (bitAt u.quad l u.log.words) ∧
      (step u.s i).r_crc l=
        Crc.crc gen16 ((List.range (n+1)).map (bitAt u.quad l u.log.words)) := by
  have hout : sddata_o u.s i=s_dataout u.s i := by
    simp only [sddata_o,comb,h.state]
    split_ifs <;> rfl
  have hin : s_crc_in u.s i=s_dataout u.s i := by
    simp only [s_crc_in,comb,h.state]
    split_ifs <;> simp_all
  have hen : (comb u.s i).s_crc_en=true := by
    simp only [comb,h.state]
    split_ifs <;> rfl
  have hbit := getLsbD_dataout h.place hi h.data hl
  rw [List.range_succ,List.map_append,List.map_singleton]
  refine ⟨?_,?_⟩
  · rw [laneOf_concat,h.line l hl,hout,hbit]
    rfl
  · change crc16 (u.s.r_crc l) ((s_crc_in u.s i).getLsbD l) _ _
      (active i l && (comb u.s i).s_crc_en)=_
    simp only [(active_iff hi l).mpr hl,hen,Bool.true_and]
    rw [crc16_sample,hin,hbit,h.crc l hl,Crc.crc_concat]

theorem Shift.unused_next (h : Shift u n) (hi : i.data_quad_i=u.quad) {l : Fin 4}
    (hl : ¬InUse u.quad l) : (step u.s i).r_crc l=0 := by
  have hoff : active i l=false :=
    Bool.eq_false_of_not_eq_true fun ha => hl ((active_iff hi l).mp ha)
  change crc16 (u.s.r_crc l) _ (active i l && _) (active i l && _) (active i l && _)=0
  rw [hoff,h.unused l hl]
  rfl

/-- A block goes on with its words, its bits on the lanes and their checksums. -/
theorem Shift.observe (h : Shift u n) (hc : Clean u i) :
    (next u i).log=⟨u.log.line++[sddata_o u.s i],u.log.words++
      if in_data_if_ready_o u.s i then [i.in_data_if_data_i] else [],[],u.log.written⟩ := by
  have hoen : sddata_oen_o u.s i 0=false := by
    simp only [sddata_oen_o,active,comb,h.state]
    split_ifs <;> simp_all
  have hready : (in_data_if_ready_o u.s i && i.in_data_if_valid_i)=in_data_if_ready_o u.s i := by
    have hcond := hc.2
    rw [h.state] at hcond
    cases hr : in_data_if_ready_o u.s i with
    | false => rfl
    | true => rw [hcond.2 hr]; rfl
  change SdioData.observe u.log u.s i=_
  simp [SdioData.observe,hoen,hready,h.state,h.clr hc]

theorem Shift.next (h : Shift u n) (hc : Clean u i) (hn : n+1 < (u.size.toNat+1)*per u.quad) :
    Shift (next u i) (n+1) := by
  obtain ⟨hquad,hsize⟩ := h.held hc
  have hclr := h.clr hc
  have hdone : s_cnt_done u.s i=false := by
    rw [h.place.done hquad,Nat.mul_comm]
    exact decide_eq_false (Nat.ne_of_lt hn)
  have hready : in_data_if_ready_o u.s i=decide ((n+1)%(4*per u.quad)=0) := by
    rw [←h.place.last hquad]
    simp [in_data_if_ready_o,comb,h.state,hdone]
  have hstate : (SdioData.next u i).s.r_state=.ST_TX_SHIFT := by
    simp [SdioData.next,step,comb,h.state,hclr,hdone]
  have hplace : Place (SdioData.next u i).quad (SdioData.next u i).size.toNat (n+1)
      (SdioData.next u i).s := by
    change Place i.data_quad_i i.data_block_size_i.toNat (n+1) (step u.s i)
    rw [hquad,hsize]
    refine h.place.next hquad (by rwa [Nat.mul_comm] at hn) ?_
    simp [comb,h.state,hdone]
  have hdata : (step u.s i).r_data=
      if in_data_if_ready_o u.s i then i.in_data_if_data_i else u.s.r_data := by
    simp [step,comb,h.state,hclr,hdone,in_data_if_ready_o]
  have hcover := h.covered
  have hlog := h.observe hc
  have hbits : ∀ l, InUse u.quad l → ∀ more,
      laneOf l (u.log.line++[sddata_o u.s i])=
          false::(List.range (n+1)).map (bitAt u.quad l (u.log.words++more)) ∧
        (step u.s i).r_crc l=
          Crc.crc gen16 ((List.range (n+1)).map (bitAt u.quad l (u.log.words++more))) := by
    intro l hl more
    rw [range_bitAt_append hcover]
    exact h.bits hquad hl
  refine ⟨hstate,hplace,?_,?_,?_,fun l hl => ?_,fun l hl => ?_,fun l hl => ?_⟩
  · change n+1 < (i.data_block_size_i.toNat+1)*per i.data_quad_i
    rwa [hquad,hsize]
  · change (SdioData.next u i).log.words.length=(n+1)/(4*per i.data_quad_i)+1
    rw [hlog,hquad,Nat.succ_div,List.length_append,h.count,hready]
    by_cases hend : (n+1)%(4*per u.quad)=0
    · rw [if_pos (decide_eq_true hend),if_pos (Nat.dvd_of_mod_eq_zero hend)]
      rfl
    · rw [if_neg (by simpa using hend),if_neg fun hd => hend (Nat.mod_eq_zero_of_dvd hd)]
      rfl
  · change (step u.s i).r_data=(SdioData.next u i).log.words.getD ((n+1)/(4*per i.data_quad_i)) 0
    rw [hlog,hdata,hquad,Nat.succ_div,hready]
    by_cases hend : (n+1)%(4*per u.quad)=0
    · rw [if_pos (decide_eq_true hend),if_pos (decide_eq_true hend),
        if_pos (Nat.dvd_of_mod_eq_zero hend),←h.count,
        List.getD_append_right _ _ _ _ (Nat.le_refl _),Nat.sub_self]
      rfl
    · rw [if_neg (by simpa using hend),if_neg (by simpa using hend),
        if_neg fun hd => hend (Nat.mod_eq_zero_of_dvd hd),List.append_nil]
      exact h.data
  · rw [hlog]
    exact (hbits l (hquad ▸ hl) _).1.trans (by rw [←hquad]; rfl)
  · rw [hlog]
    exact (hbits l (hquad ▸ hl) _).2.trans (by rw [←hquad]; rfl)
  · exact h.unused_next hquad (hquad ▸ hl)

/-- With the last bit of the block its checksums are complete. -/
theorem Shift.last (h : Shift u n) (hc : Clean u i) (hn : n+1=(u.size.toNat+1)*per u.quad) :
    Check (SdioData.next u i) 0 := by
  obtain ⟨hquad,hsize⟩ := h.held hc
  have hclr := h.clr hc
  have hpos := per_pos u.quad
  have hdone : s_cnt_done u.s i=true := by
    rw [h.place.done hquad,Nat.mul_comm]
    exact decide_eq_true hn
  have hevnt : s_cnt_byte_evnt u.s i=true := by
    rw [h.place.evnt hquad,hn,Nat.mul_mod_left]
    rfl
  have hready : in_data_if_ready_o u.s i=false := by
    simp [in_data_if_ready_o,comb,h.state,hdone]
  have hlog := h.observe hc
  rw [hready,if_neg Bool.false_ne_true,List.append_nil] at hlog
  have hbyte : n/per u.quad=u.size.toNat := by
    rw [Nat.div_eq_iff hpos]
    rw [Nat.add_mul,Nat.one_mul] at hn
    omega
  have hword : n/(4*per u.quad)=u.size.toNat/4 := by
    rw [Nat.mul_comm,←Nat.div_div_eq_div_mul,hbyte]
  have hbits : ∀ l, InUse u.quad l →
      laneOf l (u.log.line++[sddata_o u.s i])=
          false::blockBits u.quad l u.log.words u.size.toNat ∧
        (step u.s i).r_crc l=Crc.crc gen16 (blockBits u.quad l u.log.words u.size.toNat) := by
    intro l hl
    rw [blockBits_eq,←hn]
    exact h.bits hquad hl
  refine ⟨?_,?_,by omega,⟨?_,fun l hl => ?_⟩,fun l hl => ?_,fun l hl => ?_⟩
  · simp [SdioData.next,step,comb,h.state,hclr,hdone]
  · have hstart : Counts (comb u.s i).s_cnt_target.toNat (step u.s i) :=
      Counts.start (by simp [comb,h.state,hdone]) (by simp [comb,h.state,hdone])
        (by simp [step,h.place.bytes,hevnt])
    have htarget : (comb u.s i).s_cnt_target=15 := by simp [comb,h.state,hdone]
    rw [htarget] at hstart
    exact hstart
  · rw [hlog]
    change u.log.words.length=(i.data_block_size_i.toNat+1+3)/4
    rw [hsize,h.count,hword]
    omega
  · rw [hlog]
    change laneOf l (u.log.line++[sddata_o u.s i])=false::(blockBits i.data_quad_i l u.log.words
      i.data_block_size_i.toNat++_)
    rw [hquad,hsize,(hbits l (hquad ▸ hl)).1]
    exact congrArg _ (List.append_nil _).symm
  · rw [hlog]
    change (step u.s i).r_crc l=Crc.crc gen16 (blockBits i.data_quad_i l u.log.words
      i.data_block_size_i.toNat) <<< 0
    rw [hquad,hsize,(hbits l (hquad ▸ hl)).2,BitVec.shiftLeft_zero]
  · exact h.unused_next hquad (hquad ▸ hl)

end Shift

section Check

variable {j : ℕ}

theorem Check.held (h : Check u j) (hc : Clean u i) :
    i.data_quad_i=u.quad ∧ i.data_block_size_i=u.size :=
  hc.1 (by rw [h.state]; decide)

theorem Check.clr (h : Check u j) (hc : Clean u i) : i.clr_stat_i=false := by
  have hcond := hc.2
  rw [h.state] at hcond
  exact hcond

/-- The next bit of the checksums goes out. -/
theorem Check.framed_next (h : Check u j) (hc : Clean u i) : Framed (next u i) (j+1) := by
  obtain ⟨hquad,hsize⟩ := h.held hc
  have hout : sddata_o u.s i=s_crc_out u.s := by
    simp only [sddata_o,comb,h.state]
    split_ifs <;> rfl
  have hlog : (next u i).log=
      ⟨u.log.line++[sddata_o u.s i],u.log.words,[],u.log.written⟩ := by
    have hoen : sddata_oen_o u.s i 0=false := by
      simp only [sddata_oen_o,active,comb,h.state]
      split_ifs <;> simp_all
    have hready : in_data_if_ready_o u.s i=false := by
      simp only [in_data_if_ready_o,comb,h.state]
      split_ifs <;> rfl
    simp [next,observe,hoen,hready,h.state,h.clr hc]
  refine ⟨?_,fun l hl => ?_⟩
  · rw [hlog]
    change u.log.words.length=(i.data_block_size_i.toNat+1+3)/4
    rw [hsize]
    exact h.framed.count
  · have hl' : InUse u.quad l := hquad ▸ hl
    have hbit : (s_crc_out u.s).getLsbD l=
        (Crc.crc gen16 (blockBits u.quad l u.log.words u.size.toNat)).getLsbD (16-1-j) := by
      have hj := h.lt
      rw [s_crc_out,Bits.getLsbD_ofBits_lt _ l.isLt,h.crc l hl',BitVec.getLsbD_shiftLeft]
      have hin : ¬15 < j := by omega
      simp [hin]
    rw [hlog]
    change laneOf l (u.log.line++[sddata_o u.s i])=false::(blockBits i.data_quad_i l u.log.words
      i.data_block_size_i.toNat++Crc.msbs (Crc.crc gen16 (blockBits i.data_quad_i l u.log.words
        i.data_block_size_i.toNat)) (j+1))
    rw [hquad,hsize,laneOf_concat,h.framed.line l hl',hout,hbit,Crc.msbs_succ]
    simp

/-- The checksums move up by a bit. -/
theorem Check.crc_next (h : Check u j) (hi : i.data_quad_i=u.quad) {l : Fin 4} :
    (InUse u.quad l → (step u.s i).r_crc l=u.s.r_crc l <<< 1) ∧
      (¬InUse u.quad l → (step u.s i).r_crc l=0) := by
  have hen : (comb u.s i).s_crc_en=false := by
    simp only [comb,h.state]
    split_ifs <;> rfl
  have hshift : (comb u.s i).s_crc_shift=true := by
    simp only [comb,h.state]
    split_ifs <;> rfl
  have hclr : (comb u.s i).s_crc_clr=false := by
    simp only [comb,h.state]
    split_ifs <;> rfl
  refine ⟨fun hl => ?_,fun hl => crc_stays (h.unused l hl) (Or.inr hen)⟩
  change crc16 (u.s.r_crc l) _ (active i l && (comb u.s i).s_crc_shift)
    (active i l && (comb u.s i).s_crc_clr) (active i l && (comb u.s i).s_crc_en)=_
  simp only [(active_iff hi l).mpr hl,hen,hshift,hclr,Bool.true_and]
  exact crc16_shift _ _

theorem Check.next (h : Check u j) (hc : Clean u i) (hj : j+1 < 16) : Check (next u i) (j+1) := by
  obtain ⟨hquad,hsize⟩ := h.held hc
  have hdone : s_cnt_done u.s i=false := by
    rw [h.counts.done]
    exact decide_eq_false (by omega)
  have hcounts : Counts (15-(j+1)) (step u.s i) := by
    have hmore : 15-j=15-(j+1)+1 := by omega
    exact Counts.next (hmore ▸ h.counts) (by simp [comb,h.state,hdone])
  have hframed := h.framed_next hc
  have hwords : (SdioData.next u i).log.words=u.log.words := by
    have hready : in_data_if_ready_o u.s i=false := by
      simp [in_data_if_ready_o,comb,h.state,hdone]
    simp [SdioData.next,SdioData.observe,h.state,h.clr hc,hready]
  refine ⟨?_,hcounts,hj,hframed,fun l hl => ?_,fun l hl => ?_⟩
  · simp [SdioData.next,step,comb,h.state,h.clr hc,hdone]
  · rw [hwords]
    change (step u.s i).r_crc l=Crc.crc gen16 (blockBits i.data_quad_i l u.log.words
      i.data_block_size_i.toNat) <<< (j+1)
    have hl' : InUse u.quad l := hquad ▸ hl
    rw [hquad,hsize,(h.crc_next hquad).1 hl',h.crc l hl',BitVec.shiftLeft_add]
  · exact (h.crc_next hquad).2 (hquad ▸ hl)

/-- Behind their last bit the checksums are zero. -/
theorem Check.last (h : Check u j) (hc : Clean u i) (hj : j=15) : Stop (SdioData.next u i) := by
  obtain ⟨hquad,hsize⟩ := h.held hc
  have hdone : s_cnt_done u.s i=true := by
    rw [h.counts.done]
    exact decide_eq_true (by omega)
  have hframed := h.framed_next hc
  rw [hj] at hframed
  refine ⟨?_,?_,(bit_cnt_stands h.counts.cycles).trans h.counts.bit,fun l => ?_,hframed⟩
  · simp [SdioData.next,step,comb,h.state,h.clr hc,hdone]
  · simp [SdioData.next,step,comb,h.state,hdone]
  · by_cases hl : InUse u.quad l
    · have hover : ∀ v : BitVec 16, v <<< 15 <<< 1=0 := by
        intro v
        rw [←BitVec.shiftLeft_add]
        exact BitVec.shiftLeft_eq_zero (by decide)
      exact ((h.crc_next hquad).1 hl).trans (by rw [h.crc l hl,hj]; exact hover _)
    · exact (h.crc_next hquad).2 hl

end Check

/-- The stop bit goes out: a block is written. -/
theorem Phase.of_stop (h : Stop u) (hc : Clean u i) : Phase (next u i) ∧
    ∃ b : Block, b.Right ∧ (next u i).log.written=u.log.written++[b] := by
  obtain ⟨hquad,hsize⟩ := hc.1 (by rw [h.state]; decide)
  have hone : ∀ l : Fin 4, (0xF : BitVec 4).getLsbD l=true := by decide
  have hoen : sddata_oen_o u.s i 0=false := by simp [sddata_oen_o,active,comb,h.state]
  have hdata : sddata_o u.s i=0xF := by simp [sddata_o,comb,h.state]
  have hready : in_data_if_ready_o u.s i=false := by simp [in_data_if_ready_o,comb,h.state]
  have hlog : (next u i).log=⟨[],[],[],u.log.written++
      [⟨u.quad,u.size,u.log.words,u.log.line++[0xF]⟩]⟩ := by
    simp [next,observe,hoen,hdata,hready,h.state,hquad,hsize]
  have hrest : Rest (next u i) := by
    refine ⟨?_,(bit_cnt_stands h.cycles).trans h.bit,fun l => ?_,?_,?_⟩
    · simp [next,step,comb,h.state]
    · exact crc_stays (h.crc l) (Or.inr (by simp [comb,h.state]))
    · rw [hlog]
    · rw [hlog]
  refine ⟨?_,_,⟨h.framed.count,fun l hl => ?_⟩,by rw [hlog]⟩
  · cases hclr : i.clr_stat_i with
    | true => exact .idle (by simp [next,step,hclr]) hrest
    | false => exact .wait (Or.inl (by simp [next,step,comb,h.state,hclr])) hrest
  · change laneOf l (u.log.line++[0xF])=_
    rw [laneOf_concat,h.framed.line l hl,hone,frame]
    rfl

/-- Only a stop bit makes a block a written one. -/
theorem written_stays (hs : u.s.r_state ≠ .ST_TX_END) :
    (next u i).log.written=u.log.written := by
  simp only [next,observe,if_neg hs]
  split_ifs <;> rfl

theorem Phase.next (h : Phase u) (hc : Clean u i) : Phase (next u i) ∧
    ((next u i).log.written=u.log.written ∨
      ∃ b : Block, b.Right ∧ (next u i).log.written=u.log.written++[b]) := by
  cases h with
  | idle hs hrest => exact ⟨.of_idle hs hrest,Or.inl (written_stays (by rw [hs]; decide))⟩
  | start hs hrest => exact ⟨.of_start hs hrest hc,Or.inl (written_stays (by rw [hs]; decide))⟩
  | wait hs hrest =>
    refine ⟨.of_wait hs hrest,Or.inl (written_stays ?_)⟩
    rcases hs with hs | hs <;> rw [hs] <;> decide
  | await hs hrest => exact ⟨.of_await hs hrest hc,Or.inl (written_stays (by rw [hs]; decide))⟩
  | shift n h =>
    refine ⟨?_,Or.inl (written_stays (by rw [h.state]; decide))⟩
    rcases Nat.lt_or_ge (n+1) ((u.size.toNat+1)*per u.quad) with hn | hn
    · exact .shift (n+1) (h.next hc hn)
    · exact .check 0 (h.last hc (le_antisymm h.lt hn))
  | check j h =>
    refine ⟨?_,Or.inl (written_stays (by rw [h.state]; decide))⟩
    rcases Nat.lt_or_ge (j+1) 16 with hj | hj
    · exact .check (j+1) (h.next hc hj)
    · exact .stop (h.last hc (by have := h.lt; omega))
  | stop h =>
    obtain ⟨hphase,hblock⟩ := Phase.of_stop h hc
    exact ⟨hphase,Or.inr hblock⟩
  | hear h =>
    refine ⟨.of_hear h hc,Or.inl (written_stays ?_)⟩
    rcases h.state with hs | hs <;> rw [hs.1] <;> decide

theorem phase_start : Phase SdioData.start := .idle rfl ⟨rfl,rfl,fun _ => rfl,rfl,rfl⟩

end Phases

/-- Over a run in which no block is cut off or read with an error, no block has more than 512 bytes
and words are there when they are taken, each block that is written has its frame on every lane in
use, out of as many words as it needs. -/
theorem written_right {is : List Input} (hc : Meets next Clean start is) :
    ∀ b ∈ (after next start is).log.written, b.Right := by
  refine (after_invariant_of_meets (P:=fun u => Phase u ∧ ∀ b ∈ u.log.written, b.Right) ?_
    ⟨phase_start,fun b hb => (nomatch hb)⟩ hc).2
  rintro u i ⟨hphase,hright⟩ hcl
  obtain ⟨hnext,hsame | ⟨b,hb,hmore⟩⟩ := hphase.next hcl
  · exact ⟨hnext,hsame ▸ hright⟩
  · refine ⟨hnext,fun c hmem => ?_⟩
    rw [hmore,List.mem_append,List.mem_singleton] at hmem
    rcases hmem with hmem | rfl
    · exact hright c hmem
    · exact hb

/-- A request of a transfer, and its configuration in the cycles behind. -/
def request (go : Bool) (rwn : Bool) (line : BitVec 4) : Input :=
  ⟨false,go,0,0,rwn,false,0x42,true,line⟩

/-- A block of one byte written behind a block that was read with its checksum. -/
theorem written_right_example :
    let is := request true true 1::List.replicate 25 (request false true 0)++
      request true false 1::List.replicate 26 (request false false 1)
    (after next start is).log.written.length=1 ∧
      ∀ b ∈ (after next start is).log.written, b.Right :=
  ⟨by decide +kernel,written_right (by decide +kernel)⟩

/-- Behind a block that was read with a wrong checksum, the checksum of a written block is not that
of its bits. -/
theorem exists_written_wrong :
    let is := request true true 1::request false true 0::List.replicate 24 (request false true 1)++
      request true false 1::List.replicate 26 (request false false 1)
    ∃ b ∈ (after next start is).log.written, ¬b.Right := by
  decide +kernel

end Pulpissimo.Udma.SdioData
