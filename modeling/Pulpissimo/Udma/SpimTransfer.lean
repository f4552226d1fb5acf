import Pulpissimo.Lib.Machine
import Pulpissimo.Udma.SpimBits

/-!
# Transfers of the SPI master

Beside the two shift registers stands what a transfer has sent or received so far. The bits that are
sent are those of the words in their order, and the words that are received have the bits that
came, as long as a transfer starts after the end of the one before, a receiving one does not
end in its first cycle, and in the custom order it receives full words.
-/

namespace Pulpissimo.Udma.SpimTxrx

open Pulpissimo.Machine

/-- A transfer that sends, with the words that were taken and the bits that were sent. -/
structure Tx where
  size : BitVec 16
  qpi : Bool
  custom : Bool
  words : List (BitVec 32)
  sent : List Bool
deriving DecidableEq

/-- A transfer that receives, with the bits that came. -/
structure Rx where
  size : BitVec 16
  qpi : Bool
  custom : Bool
  got : List Bool
deriving DecidableEq

/-- The bits of the words in their order. -/
def Tx.stream (t : Tx) : List Bool := t.words.flatMap (bitsOf t.custom)

/-- The registers with the transfers that are on. -/
structure Sys where
  s : State
  tx : Option Tx
  rx : Option Rx

def start : Sys := ⟨reset,none,none⟩

section Code

variable (u : Sys) (i : Input)

/-- The order that both sides get with a start. -/
def order : Bool := i.tx_customsize_i || i.rx_customsize_i

/-- The word that is taken. -/
def taken (s : State) : List (BitVec 32) := if tx_data_ready_o s i then [i.tx_data_i] else []

/-- Bits that are sent in a cycle. -/
def bitsOut (s : State) : List Bool := if s_tx_clken s then driven s i else []

/-- Bits that are received in a cycle. -/
def bitsIn (s : State) : List Bool := if receives s i then sampled i else []

def txNext : Option Tx :=
  u.tx.elim (if i.tx_start_i then some ⟨i.tx_size_i,i.tx_qpi_i,order i,taken i u.s,[]⟩ else none)
    fun t => if tx_done_o u.s i then none
      else some { t with words := t.words++taken i u.s, sent := t.sent++bitsOut i u.s }

def rxNext : Option Rx :=
  u.rx.elim (if i.rx_start_i then some ⟨i.rx_size_i,i.rx_qpi_i,order i,[]⟩ else none)
    fun r => if rx_done_o u.s i then none else some { r with got := r.got++bitsIn i u.s }

/-- One cycle. -/
def next : Sys := ⟨step u.s i,txNext u i,rxNext u i⟩

end Code

/-- A transfer that sends is right in a cycle. -/
structure Sends (s : State) (i : Input) (t : Tx) : Prop where
  /-- The bits are the next ones of the words. -/
  bits : t.sent++bitsOut i s <+: t.stream
  /-- It ends with its last bit. -/
  done : tx_done_o s i=true ↔ (t.sent++bitsOut i s).length=t.size.toNat+1
  /-- A word is taken when those before are sent and there are more bits to send. -/
  words : tx_data_ready_o s i=true → 32*t.words.length=(t.sent++bitsOut i s).length ∧
    (t.sent++bitsOut i s).length < t.size.toNat+1

/-- A transfer that receives is right in a cycle. -/
structure Receives (s : State) (i : Input) (r : Rx) : Prop where
  /-- A word is given with its last bit and with that of the transfer. -/
  valid : rx_data_valid_o s i=true ↔ bitsIn i s≠[] ∧ ((r.got++bitsIn i s).length%32=0 ∨
    (r.got++bitsIn i s).length=r.size.toNat+1)
  /-- It has the bits that came since the word before. -/
  data : rx_data_valid_o s i=true → (bitsOf r.custom (rx_data_o s i)).take
      ((r.got++bitsIn i s).length-32*(r.got.length/32))=
    (r.got++bitsIn i s).drop (32*(r.got.length/32))
  /-- It ends with its last bit. -/
  done : rx_done_o s i=true ↔ bitsIn i s≠[] ∧ (r.got++bitsIn i s).length=r.size.toNat+1

/-- Both sides are right in a cycle. -/
structure Right (u : Sys) (i : Input) : Prop where
  tx : ∀ t ∈ u.tx,Sends u.s i t
  rx : ∀ r ∈ u.rx,Receives u.s i r
  /-- Without a transfer nothing is sent and nothing received. -/
  quiet : (u.tx=none → bitsOut i u.s=[]) ∧ (u.rx=none → rx_data_valid_o u.s i=false)

/-- Where the transfers are right. -/
structure Fits (u : Sys) (i : Input) : Prop where
  /-- The lines are kept while a transfer is on, and no start comes with its last bits. -/
  tx : ∀ t ∈ u.tx,i.tx_qpi_i=t.qpi ∧
    (s_tx_clken u.s=true → t.sent.length+lanes t.qpi=t.size.toNat+1 → i.tx_start_i=false)
  /-- The same, and the last bits do not come in the first cycle. -/
  rx : ∀ r ∈ u.rx,i.rx_qpi_i=r.qpi ∧
    (receives u.s i=true → r.got.length+lanes r.qpi=r.size.toNat+1 →
      i.rx_start_i=false ∧ u.s.r_rx_clken=true)
  /-- With four lines there are full nibbles. -/
  txStart : u.tx=none → i.tx_start_i=true → Whole i.tx_qpi_i (i.tx_size_i.toNat+1)
  /-- The same, and in the custom order full words. -/
  rxStart : u.rx=none → i.rx_start_i=true → Whole i.rx_qpi_i (i.rx_size_i.toNat+1) ∧
    (order i=true → (i.rx_size_i.toNat+1)%32=0)
  /-- A start on one side keeps the order of the other one. -/
  keeps : (u.tx=none ∧ i.tx_start_i=true) ∨ (u.rx=none ∧ i.rx_start_i=true) →
    (∀ t ∈ u.tx,t.custom=order i) ∧ (∀ r ∈ u.rx,r.custom=order i)

/-- The registers of a transfer that sends. -/
structure TxInv (s : State) (t : Tx) : Prop where
  busy : s.tx_state≠.TX_IDLE
  custom : s.r_customsize=t.custom
  whole : Whole t.qpi (t.size.toNat+1)
  counter : At t.size.toNat t.sent.length s.r_tx_counter
  aligned : t.sent.length%lanes t.qpi=0
  count : s.r_customsize=false → s.r_tx_counter_bits.toNat=t.sent.length%8/lanes t.qpi
  wait : s.tx_state=.TX_WAIT_DATA → t.sent=t.stream
  send : s.tx_state=.TX_SEND → ∃ old w,t.words=old++[w] ∧ 32*old.length+t.sent.length%32=t.sent.length ∧
    t.sent=old.flatMap (bitsOf t.custom)++(bitsOf t.custom w).take (t.sent.length%32) ∧
    Holds t.custom (t.sent.length%32) s.r_tx_shift_reg w

/-- The registers of a transfer that receives. -/
structure RxInv (s : State) (r : Rx) : Prop where
  busy : s.rx_state=.RX_RECEIVE
  custom : s.r_customsize=r.custom
  whole : Whole r.qpi (r.size.toNat+1)
  full : r.custom=true → (r.size.toNat+1)%32=0
  counter : At r.size.toNat r.got.length s.r_rx_counter
  aligned : r.got.length%lanes r.qpi=0
  count : s.r_customsize=false → s.r_rx_counter_bits.toNat=r.got.length%32/lanes r.qpi
  first : s.r_rx_clken=false → r.got=[]
  got : Got r.custom s.r_rx_shift_reg (r.got.drop (32*(r.got.length/32)))

/-- The registers are those of the transfers. -/
structure Inv (u : Sys) : Prop where
  txIdle : u.tx=none → u.s.tx_state=.TX_IDLE
  rxIdle : u.rx=none → u.s.rx_state=.RX_IDLE
  tx : ∀ t ∈ u.tx,TxInv u.s t
  rx : ∀ r ∈ u.rx,RxInv u.s r

theorem inv_start : Inv start :=
  ⟨fun _ => rfl,fun _ => rfl,fun _ h => (nomatch h),fun _ h => (nomatch h)⟩

/-- Length of the bits of words. -/
theorem length_flatMap_bitsOf (custom : Bool) (ws : List (BitVec 32)) :
    (ws.flatMap (bitsOf custom)).length=32*ws.length := by
  induction ws with
  | nil => rfl
  | cons w ws ih =>
    rw [List.flatMap_cons,List.length_append,length_bitsOf,ih,List.length_cons]
    omega

theorem length_stream (t : Tx) : t.stream.length=32*t.words.length :=
  length_flatMap_bitsOf t.custom t.words

section Tx

variable {s : State} {i : Input} {t : Tx}

theorem length_driven (s : State) (i : Input) : (driven s i).length=lanes i.tx_qpi_i := by
  unfold driven lanes
  cases i.tx_qpi_i <;> rfl

theorem lanes_pos (qpi : Bool) : 0 < lanes qpi := by
  cases qpi <;> decide

/-- The bits that are sent end where they should. -/
theorem TxInv.done_iff (h : TxInv s t) (hqpi : i.tx_qpi_i=t.qpi) :
    tx_done_o s i=true ↔ s_tx_clken s=true ∧ t.sent.length+lanes t.qpi=t.size.toNat+1 := by
  rw [tx_done_o,Bool.and_eq_true_iff,hqpi,h.counter.done_iff h.aligned h.whole]

/-- What is sent after a cycle that sends. -/
theorem TxInv.sent_step (h : TxInv s t) (hqpi : i.tx_qpi_i=t.qpi) (hsend : s_tx_clken s=true) :
    ∃ old w,t.words=old++[w] ∧ 32*old.length+t.sent.length%32=t.sent.length ∧
      Holds t.custom (t.sent.length%32) s.r_tx_shift_reg w ∧
      t.sent++driven s i=
        old.flatMap (bitsOf t.custom)++(bitsOf t.custom w).take (t.sent.length%32+lanes t.qpi) := by
  obtain ⟨old,w,hwords,hlength,hsent,hholds⟩ := h.send (of_decide_eq_true hsend)
  have haligned := h.aligned
  have hk : t.sent.length%32%lanes i.tx_qpi_i=0 := by
    rw [hqpi]
    rcases lanes_cases t.qpi with ⟨-,hl⟩ | ⟨-,hl⟩ <;> rw [hl] at haligned ⊢ <;> omega
  have hdriven := driven_eq hsend h.custom hholds hk (Nat.mod_lt _ (by decide))
  refine ⟨old,w,hwords,hlength,hholds,?_⟩
  rw [hdriven,hqpi,List.take_add,←List.append_assoc,←hsent]

/-- The places of the chunk before and after some bits. -/
theorem At.place_step {size p : ℕ} {c : Counter} {qpi : Bool} (h : At size p c)
    (hp : p%lanes qpi=0) (hsize : Whole qpi (size+1)) :
    p+lanes qpi ≤ size+1 ∧ p%32+lanes qpi ≤ 32 ∧
      ((p+lanes qpi)%32=0 ↔ p%32+lanes qpi=32) := by
  have hle := h.le
  rcases lanes_cases qpi with ⟨-,hlanes⟩ | ⟨hqpi,hlanes⟩
  · rw [hlanes]
    omega
  · have hwhole := hsize hqpi
    rw [hlanes] at hp ⊢
    omega

/-- A word is asked for where the ones before are sent and there are more bits. -/
theorem TxInv.asks_iff (h : TxInv s t) (hqpi : i.tx_qpi_i=t.qpi)
    (hstart : s_tx_clken s=true → t.sent.length+lanes t.qpi=t.size.toNat+1 → i.tx_start_i=false) :
    asks s i=true ↔ s.tx_state=.TX_WAIT_DATA ∨ (s.tx_state=.TX_SEND ∧
      (t.sent.length+lanes t.qpi)%32=0 ∧ t.sent.length+lanes t.qpi≠t.size.toNat+1) := by
  unfold asks
  cases hstate : s.tx_state with
  | TX_IDLE => exact absurd hstate h.busy
  | TX_WAIT_DATA => simp
  | TX_SEND =>
    have hsend : s_tx_clken s=true := decide_eq_true hstate
    rw [Bool.and_eq_true_iff,Bool.or_eq_true_iff,Bool.not_eq_true',←Bool.not_eq_true,hqpi,
      h.counter.lo_done_iff h.aligned h.whole,h.counter.done_iff h.aligned h.whole]
    constructor
    · rintro ⟨hlo,hdone | hgo⟩
      · exact .inr ⟨rfl,hlo.resolve_right hdone,hdone⟩
      · have hne : t.sent.length+lanes t.qpi≠t.size.toNat+1 := fun hend => by
          rw [hstart hsend hend] at hgo
          exact (nomatch hgo)
        exact .inr ⟨rfl,hlo.resolve_right hne,hne⟩
    · rintro (hwait | ⟨-,hword,hne⟩)
      · exact (nomatch hwait)
      · exact ⟨.inl hword,.inl hne⟩

theorem TxInv.length_words (h : TxInv s t) : 32*t.words.length=
    if s.tx_state=.TX_WAIT_DATA then t.sent.length else 32*(t.sent.length/32)+32 := by
  cases hstate : s.tx_state with
  | TX_IDLE => exact absurd hstate h.busy
  | TX_WAIT_DATA =>
    rw [if_pos rfl,h.wait hstate,length_stream]
  | TX_SEND =>
    obtain ⟨old,w,hwords,hlength,-,-⟩ := h.send hstate
    rw [if_neg (by decide),hwords,List.length_append]
    simp only [List.length_singleton]
    omega

/-- A transfer that sends is right in a cycle. -/
theorem TxInv.sends (h : TxInv s t) (hqpi : i.tx_qpi_i=t.qpi)
    (hstart : s_tx_clken s=true → t.sent.length+lanes t.qpi=t.size.toNat+1 → i.tx_start_i=false) :
    Sends s i t := by
  have hdone := h.done_iff hqpi
  have hasks := h.asks_iff hqpi hstart
  have hlength := h.length_words
  have hle := h.counter.le
  obtain ⟨hmax,hfit,hend⟩ := h.counter.place_step h.aligned h.whole
  by_cases hsend : s_tx_clken s=true
  · have hstate : s.tx_state=.TX_SEND := of_decide_eq_true hsend
    have hout : (t.sent++bitsOut i s).length=t.sent.length+lanes t.qpi := by
      rw [bitsOut,if_pos hsend,List.length_append,length_driven,hqpi]
    refine ⟨?_,?_,fun hready => ?_⟩
    · obtain ⟨old,w,hwords,-,-,hsent⟩ := h.sent_step hqpi hsend
      rw [bitsOut,if_pos hsend,hsent,Tx.stream,hwords,List.flatMap_append]
      simp only [List.flatMap_cons,List.flatMap_nil,List.append_nil]
      exact (List.prefix_append_right_inj _).mpr (List.take_prefix _ _)
    · rw [hdone,hout]
      exact ⟨fun hboth => hboth.2,fun hlast => ⟨hsend,hlast⟩⟩
    · have hask := (Bool.and_eq_true_iff.mp hready).1
      rw [hasks,hstate] at hask
      obtain hwait | ⟨-,hword,hne⟩ := hask
      · exact (nomatch hwait)
      · rw [hstate,if_neg (by decide)] at hlength
        rw [hout]
        omega
  · have hstate : s.tx_state=.TX_WAIT_DATA := by
      cases hstate : s.tx_state with
      | TX_IDLE => exact absurd hstate h.busy
      | TX_WAIT_DATA => rfl
      | TX_SEND => exact absurd (decide_eq_true hstate) hsend
    have hout : t.sent++bitsOut i s=t.sent := by
      rw [bitsOut,if_neg hsend,List.append_nil]
    rw [hstate,if_pos rfl] at hlength
    refine ⟨?_,?_,fun _ => ?_⟩
    · rw [hout,←h.wait hstate]
    · rw [hdone,hout]
      exact ⟨fun hboth => absurd hboth.1 hsend,fun hlast => by omega⟩
    · rw [hout]
      omega

/-- A counter that goes back from its last value counts modulo the number of its values. -/
theorem toNat_wrap {last n : BitVec 5} (h : n.toNat ≤ last.toNat) :
    (wrap last n).toNat=(n.toNat+1)%(last.toNat+1) := by
  have hlast := last.isLt
  unfold wrap
  by_cases heq : n=last
  · rw [if_pos heq,heq,Nat.mod_self]
    rfl
  · have hne : n.toNat≠last.toNat := fun hnat => heq (BitVec.eq_of_toNat_eq hnat)
    have hone : (1 : BitVec 5).toNat=1 := rfl
    rw [if_neg heq,BitVec.toNat_add,hone,Nat.mod_eq_of_lt (by omega),Nat.mod_eq_of_lt (by omega)]

/-- The place in a byte or in a word after some bits, counted in bits or in nibbles. -/
theorem wrap_place {qpi : Bool} {last n : BitVec 5} {p m : ℕ} (hm : m=8 ∨ m=32)
    (hlast : (last.toNat+1)*lanes qpi=m) (hp : p%lanes qpi=0) (hn : n.toNat=p%m/lanes qpi) :
    (wrap last n).toNat=(p+lanes qpi)%m/lanes qpi := by
  have hle : n.toNat ≤ last.toNat := by
    rw [hn]
    rcases lanes_cases qpi with ⟨-,hl⟩ | ⟨-,hl⟩ <;> rw [hl] at hlast ⊢ <;>
      rcases hm with rfl | rfl <;> omega
  rw [toNat_wrap hle,hn]
  rcases lanes_cases qpi with ⟨-,hl⟩ | ⟨-,hl⟩ <;> rw [hl] at hlast hp ⊢ <;>
    rcases hm with rfl | rfl
  · rw [show last.toNat+1=8 by omega]
    omega
  · rw [show last.toNat+1=32 by omega]
    omega
  · rw [show last.toNat+1=2 by omega]
    omega
  · rw [show last.toNat+1=8 by omega]
    omega

/-- Where a word is asked for and those before are sent, it is loaded or waited for. -/
theorem loads_or_waits (hasks : asks s i=true) {custom : Bool} {ws : List (BitVec 32)}
    {sent : List Bool} (hsent : sent=ws.flatMap (bitsOf custom)) :
    ((step s i).tx_state=.TX_WAIT_DATA ∧ sent=(ws++taken i s).flatMap (bitsOf custom)) ∨
    ((step s i).tx_state=.TX_SEND ∧ ∃ old w,ws++taken i s=old++[w] ∧
      32*old.length+sent.length%32=sent.length ∧
      sent=old.flatMap (bitsOf custom)++(bitsOf custom w).take (sent.length%32) ∧
      Holds custom (sent.length%32) (step s i).r_tx_shift_reg w) := by
  have hnext : (step s i).tx_state=if i.tx_data_valid_i then .TX_SEND else .TX_WAIT_DATA :=
    if_pos hasks
  by_cases hvalid : i.tx_data_valid_i=true
  · have hready : tx_data_ready_o s i=true := Bool.and_eq_true_iff.mpr ⟨hasks,hvalid⟩
    have hreg : (step s i).r_tx_shift_reg=i.tx_data_i := if_pos hready
    have hlength : sent.length=32*ws.length := by
      rw [hsent,length_flatMap_bitsOf]
    have hzero : sent.length%32=0 := by omega
    refine .inr ⟨by rw [hnext,if_pos hvalid],ws,i.tx_data_i,?_,?_,?_,?_⟩
    · rw [taken,if_pos hready]
    · omega
    · rw [hzero,List.take_zero,List.append_nil]
      exact hsent
    · rw [hzero,hreg]
      exact holds_load _ _
  · have hnone : taken i s=[] := if_neg fun hready => hvalid (Bool.and_eq_true_iff.mp hready).2
    refine .inl ⟨by rw [hnext,if_neg hvalid],?_⟩
    rw [hnone,List.append_nil]
    exact hsent

/-- The rest of the registers go with them. -/
theorem TxInv.of_loads (hasks : asks s i=true) (hsent : t.sent=t.words.flatMap (bitsOf t.custom))
    (hcustom : (step s i).r_customsize=t.custom) (hwhole : Whole t.qpi (t.size.toNat+1))
    (hcounter : At t.size.toNat t.sent.length (step s i).r_tx_counter)
    (haligned : t.sent.length%lanes t.qpi=0)
    (hcount : (step s i).r_customsize=false →
      (step s i).r_tx_counter_bits.toNat=t.sent.length%8/lanes t.qpi) :
    TxInv (step s i) { t with words := t.words++taken i s } := by
  rcases loads_or_waits hasks hsent with ⟨hwait,hstream⟩ | ⟨hsend,hword⟩
  · refine ⟨?_,hcustom,hwhole,hcounter,haligned,hcount,fun _ => hstream,fun hsend => ?_⟩
    · rw [hwait]
      decide
    · rw [hwait] at hsend
      exact (nomatch hsend)
  · refine ⟨?_,hcustom,hwhole,hcounter,haligned,hcount,fun hwait => ?_,fun _ => hword⟩
    · rw [hsend]
      decide
    · rw [hsend] at hwait
      exact (nomatch hwait)

/-- While no word is there nothing moves. -/
theorem TxInv.step_wait (h : TxInv s t) (hstate : s.tx_state=.TX_WAIT_DATA)
    (hcustom : (step s i).r_customsize=t.custom) :
    TxInv (step s i) { t with words := t.words++taken i s, sent := t.sent++bitsOut i s } := by
  have hasks : asks s i=true := by
    rw [asks,hstate]
  have hout : t.sent++bitsOut i s=t.sent := by
    rw [bitsOut,s_tx_clken,hstate]
    exact List.append_nil _
  have hcounter : (step s i).r_tx_counter=s.r_tx_counter := by
    show tx_counter_next s i=_
    rw [tx_counter_next,hstate]
  have hbits : (step s i).r_tx_counter_bits=s.r_tx_counter_bits := by
    show s_tx_counter_bits s i=_
    rw [s_tx_counter_bits,hstate]
  rw [hout]
  refine TxInv.of_loads hasks (h.wait hstate) hcustom h.whole ?_ h.aligned fun hbytes => ?_
  · rw [hcounter]
    exact h.counter
  · rw [hbits]
    refine h.count ?_
    rw [h.custom,←hcustom]
    exact hbytes

/-- Counters after a cycle that sends and does not end the transfer. -/
theorem TxInv.counters_send (h : TxInv s t) (hqpi : i.tx_qpi_i=t.qpi)
    (hstate : s.tx_state=.TX_SEND) (hmore : tx_done_o s i=false)
    (hne : t.sent.length+lanes t.qpi≠t.size.toNat+1) :
    At t.size.toNat (t.sent.length+lanes t.qpi) (step s i).r_tx_counter ∧
    (s.r_customsize=false →
      (step s i).r_tx_counter_bits.toNat=(t.sent.length+lanes t.qpi)%8/lanes t.qpi) := by
  have hcounter : (step s i).r_tx_counter=s.r_tx_counter.next t.qpi s.r_tx_counter.lo := by
    show tx_counter_next s i=_
    rw [tx_counter_next,hstate,←hqpi]
    show (if (tx_done_o s i && i.tx_start_i)=true then _ else _)=_
    rw [hmore,Bool.false_and,if_neg Bool.false_ne_true]
  refine ⟨?_,fun hplain => ?_⟩
  · rw [hcounter]
    exact h.counter.next h.aligned h.whole hne _
  · show (s_tx_counter_bits s i).toNat=_
    rw [s_tx_counter_bits,hstate]
    show (if s.r_customsize=true then _ else _ : BitVec 5).toNat=_
    rw [hplain,if_neg Bool.false_ne_true,hqpi]
    refine wrap_place (.inl rfl) ?_ h.aligned (h.count hplain)
    cases t.qpi <;> rfl

/-- Inside of a word its next bits come to the lines. -/
theorem TxInv.holds_send (h : TxInv s t) (hqpi : i.tx_qpi_i=t.qpi) {w : BitVec 32}
    (hholds : Holds t.custom (t.sent.length%32) s.r_tx_shift_reg w) :
    Holds t.custom (t.sent.length%32+lanes t.qpi) (shifted s i) w := by
  have haligned := h.aligned
  rw [←h.custom,←hqpi]
  refine holds_shifted ?_ (fun hplain => ?_) ?_
  · rw [h.custom]
    exact hholds
  · rw [h.count hplain,hqpi,Nat.mod_mod_of_dvd _ (by decide : 8 ∣ 32)]
  · rw [hqpi]
    rcases lanes_cases t.qpi with ⟨-,hl⟩ | ⟨-,hl⟩ <;> rw [hl] at haligned ⊢ <;> omega

/-- What is kept by the cycles that send and do not end the transfer. -/
theorem TxInv.step_send (h : TxInv s t) (hqpi : i.tx_qpi_i=t.qpi) (hsend : s_tx_clken s=true)
    (hmore : tx_done_o s i=false) (hcustom : (step s i).r_customsize=t.custom) :
    TxInv (step s i) { t with words := t.words++taken i s, sent := t.sent++bitsOut i s } := by
  have hstate : s.tx_state=.TX_SEND := of_decide_eq_true hsend
  obtain ⟨hmax,hfit,hend⟩ := h.counter.place_step h.aligned h.whole
  have hne : t.sent.length+lanes t.qpi≠t.size.toNat+1 := fun hlast => by
    rw [(h.done_iff hqpi).mpr ⟨hsend,hlast⟩] at hmore
    exact (nomatch hmore)
  have hasks := h.asks_iff hqpi fun _ hlast => absurd hlast hne
  have hout : bitsOut i s=driven s i := if_pos hsend
  have hlength : (t.sent++bitsOut i s).length=t.sent.length+lanes t.qpi := by
    rw [hout,List.length_append,length_driven,hqpi]
  obtain ⟨old,w,hwords,hold,hholds,hsent⟩ := h.sent_step hqpi hsend
  rw [←hout] at hsent
  obtain ⟨hcounter,hcount⟩ := h.counters_send hqpi hstate hmore hne
  rw [h.custom,←hcustom] at hcount
  rw [←hlength] at hcounter hcount
  have haligned : (t.sent++bitsOut i s).length%lanes t.qpi=0 := by
    rw [hlength,Nat.add_mod_right]
    exact h.aligned
  by_cases hask : asks s i=true
  · -- The last bits of a word.
    have hword := hasks.mp hask
    rw [hstate] at hword
    have hfull := (hword.resolve_left (by decide)).2.1
    have hstream : t.sent++bitsOut i s=t.words.flatMap (bitsOf t.custom) := by
      rw [hsent,hend.mp hfull,hwords,List.flatMap_append,
        List.take_of_length_le (by rw [length_bitsOf])]
      simp only [List.flatMap_cons,List.flatMap_nil,List.append_nil]
    let sent : Tx := { t with sent := t.sent++bitsOut i s }
    exact TxInv.of_loads (t:=sent) hask hstream hcustom h.whole hcounter haligned hcount
  · have hready : ¬tx_data_ready_o s i=true := fun hready =>
      hask (Bool.and_eq_true_iff.mp hready).1
    have hnone : taken i s=[] := if_neg hready
    have hinside : ¬(t.sent.length+lanes t.qpi)%32=0 := fun hzero =>
      hask (hasks.mpr (.inr ⟨hstate,hzero,hne⟩))
    have hplace : (t.sent++bitsOut i s).length%32=t.sent.length%32+lanes t.qpi := by
      have hpos := mt hend.mpr hinside
      rw [hlength]
      rcases lanes_cases t.qpi with ⟨-,hl⟩ | ⟨-,hl⟩ <;> rw [hl] at hfit hpos ⊢ <;> omega
    have hmid : s.r_tx_counter.lo_done i.tx_qpi_i=false := by
      rw [hqpi,←Bool.not_eq_true,h.counter.lo_done_iff h.aligned h.whole,not_or]
      exact ⟨hinside,hne⟩
    have hreg : (step s i).r_tx_shift_reg=shifted s i := by
      show s_tx_shift_reg s i=_
      rw [s_tx_shift_reg,if_neg hready,hsend,hmid]
      exact if_pos rfl
    have hnext : (step s i).tx_state=.TX_SEND := by
      show tx_state_next s i=_
      rw [tx_state_next,if_neg hask,hmore,if_neg Bool.false_ne_true,hstate]
    rw [hnone,List.append_nil]
    refine ⟨?_,hcustom,h.whole,hcounter,haligned,hcount,fun hwait => ?_,
      fun _ => ⟨old,w,hwords,?_,?_,?_⟩⟩
    · rw [hnext]
      decide
    · rw [hnext] at hwait
      exact (nomatch hwait)
    · show 32*old.length+(t.sent++bitsOut i s).length%32=(t.sent++bitsOut i s).length
      rw [hplace,hlength]
      omega
    · show t.sent++bitsOut i s=
        old.flatMap _++(bitsOf t.custom w).take ((t.sent++bitsOut i s).length%32)
      rw [hplace,hsent]
    · show Holds t.custom ((t.sent++bitsOut i s).length%32) _ w
      rw [hplace,hreg]
      exact h.holds_send hqpi hholds

/-- A transfer that goes on keeps its registers. -/
theorem TxInv.step (h : TxInv s t) (hqpi : i.tx_qpi_i=t.qpi) (hmore : tx_done_o s i=false)
    (hcustom : (SpimTxrx.step s i).r_customsize=t.custom) :
    TxInv (SpimTxrx.step s i)
      { t with words := t.words++taken i s, sent := t.sent++bitsOut i s } := by
  cases hstate : s.tx_state with
  | TX_IDLE => exact absurd hstate h.busy
  | TX_SEND => exact h.step_send hqpi (decide_eq_true hstate) hmore hcustom
  | TX_WAIT_DATA => exact h.step_wait hstate hcustom

/-- A transfer that starts has them. -/
theorem txInv_first (hidle : s.tx_state=.TX_IDLE) (hstart : i.tx_start_i=true)
    (hwhole : Whole i.tx_qpi_i (i.tx_size_i.toNat+1))
    (hcustom : (step s i).r_customsize=order i) :
    TxInv (step s i) ⟨i.tx_size_i,i.tx_qpi_i,order i,taken i s,[]⟩ := by
  have hasks : asks s i=true := by
    rw [asks,hidle]
    exact hstart
  have hcounter : (step s i).r_tx_counter=
      .sample i.tx_size_i (i.tx_size_i.extractLsb' 5 11==0) := by
    show tx_counter_next s i=_
    rw [tx_counter_next,hidle]
    exact if_pos hstart
  have hbits : (step s i).r_tx_counter_bits=0 := by
    show s_tx_counter_bits s i=_
    rw [s_tx_counter_bits,hidle]
  let first : Tx := ⟨i.tx_size_i,i.tx_qpi_i,order i,[],[]⟩
  refine TxInv.of_loads (t:=first) hasks rfl hcustom hwhole ?_ (Nat.zero_mod _) fun _ => ?_
  · rw [hcounter]
    exact at_sample _
  · rw [hbits]
    exact (Nat.zero_div _).symm

end Tx

section Rx

variable {s : State} {i : Input} {r : Rx}

theorem length_bitsIn (s : State) (i : Input) :
    (bitsIn i s).length=if receives s i=true then lanes i.rx_qpi_i else 0 := by
  unfold bitsIn
  split_ifs
  · exact length_sampled i
  · rfl

theorem bitsIn_ne_nil : bitsIn i s≠[] ↔ receives s i=true := by
  have hpos := lanes_pos i.rx_qpi_i
  rw [←List.length_pos_iff_ne_nil,length_bitsIn]
  split_ifs with hreceive
  · exact ⟨fun _ => hreceive,fun _ => hpos⟩
  · exact ⟨fun hlt => absurd hlt (Nat.lt_irrefl 0),fun h => absurd h hreceive⟩

/-- The bits since the last full word. -/
def Rx.part (r : Rx) : List Bool := r.got.drop (32*(r.got.length/32))

theorem Rx.length_part (r : Rx) : r.part.length=r.got.length%32 := by
  rw [Rx.part,List.length_drop]
  omega

theorem Rx.part_append (r : Rx) (bs : List Bool) :
    (r.got++bs).drop (32*(r.got.length/32))=r.part++bs :=
  List.drop_append_of_le_length (Nat.mul_div_le _ _)

/-- In the first cycle of a reception its bits are not the last ones of a word. -/
theorem RxInv.lo_done_first (h : RxInv s r)
    (hlast : r.got.length+lanes r.qpi=r.size.toNat+1 → s.r_rx_clken=true)
    (hclken : s.r_rx_clken=false) : s.r_rx_counter.lo_done r.qpi=false := by
  have hnone : r.got.length=0 := by
    rw [h.first hclken,List.length_nil]
  rw [←Bool.not_eq_true,h.counter.lo_done_iff h.aligned h.whole,not_or]
  constructor
  · rw [hnone]
    cases r.qpi <;> decide
  · intro hend
    rw [hlast hend] at hclken
    exact (nomatch hclken)

/-- A word is complete. -/
theorem RxInv.valid_iff (h : RxInv s r) (hqpi : i.rx_qpi_i=r.qpi)
    (hlast : receives s i=true → r.got.length+lanes r.qpi=r.size.toNat+1 → s.r_rx_clken=true) :
    rx_data_valid_o s i=true ↔ receives s i=true ∧
      ((r.got.length+lanes r.qpi)%32=0 ∨ r.got.length+lanes r.qpi=r.size.toNat+1) := by
  rw [rx_data_valid_o,Bool.and_eq_true_iff,Bool.and_eq_true_iff,hqpi,
    ←h.counter.lo_done_iff h.aligned h.whole]
  refine ⟨fun hall => ⟨hall.1.1,hall.2⟩,fun hall => ⟨⟨hall.1,?_⟩,hall.2⟩⟩
  by_contra hclken
  have hfirst := h.lo_done_first (hlast hall.1) (Bool.not_eq_true _ ▸ hclken)
  rw [hall.2] at hfirst
  exact (nomatch hfirst)

/-- The transfer ends with its last bits. -/
theorem RxInv.done_iff (h : RxInv s r) (hqpi : i.rx_qpi_i=r.qpi)
    (hlast : receives s i=true → r.got.length+lanes r.qpi=r.size.toNat+1 → s.r_rx_clken=true) :
    rx_done_o s i=true ↔ receives s i=true ∧ r.got.length+lanes r.qpi=r.size.toNat+1 := by
  rw [rx_done_o,Bool.and_eq_true_iff,Bool.and_eq_true_iff,hqpi,
    h.counter.done_iff h.aligned h.whole]
  exact ⟨fun hall => ⟨hall.1.1,hall.2⟩,fun hall => ⟨⟨hall.1,hlast hall.1 hall.2⟩,hall.2⟩⟩

/-- The register after some more bits has the part of the word with them. -/
theorem RxInv.got_next (h : RxInv s r) (hqpi : i.rx_qpi_i=r.qpi) (hreceive : receives s i=true) :
    Got r.custom (s_rx_shift_reg s i) (r.part++sampled i) := by
  have haligned := h.aligned
  have hpart := h.got
  rw [←h.custom] at hpart ⊢
  refine got_step hpart hreceive ?_ ?_ fun hplain => ?_
  · show r.part.length%_=0
    rw [r.length_part,hqpi]
    rcases lanes_cases r.qpi with ⟨-,hl⟩ | ⟨-,hl⟩ <;> rw [hl] at haligned ⊢ <;> omega
  · show r.part.length < 32
    rw [r.length_part]
    exact Nat.mod_lt _ (by decide)
  · show _=r.part.length/_
    rw [r.length_part,h.count hplain,hqpi]

/-- A transfer that receives is right in a cycle. -/
theorem RxInv.receives (h : RxInv s r) (hqpi : i.rx_qpi_i=r.qpi)
    (hlast : receives s i=true → r.got.length+lanes r.qpi=r.size.toNat+1 → s.r_rx_clken=true) :
    Receives s i r := by
  have hvalid := h.valid_iff hqpi hlast
  have hdone := h.done_iff hqpi hlast
  obtain ⟨hmax,hfit,hend⟩ := h.counter.place_step h.aligned h.whole
  have hlength : SpimTxrx.receives s i=true →
      (r.got++bitsIn i s).length=r.got.length+lanes r.qpi := fun hreceive => by
    rw [List.length_append,length_bitsIn,if_pos hreceive,hqpi]
  refine ⟨?_,fun hword => ?_,?_⟩
  · rw [hvalid,bitsIn_ne_nil]
    exact and_congr_right fun hreceive => by rw [hlength hreceive]
  · obtain ⟨hreceive,hplace⟩ := hvalid.mp hword
    have hgot := h.got_next hqpi hreceive
    have hnew : (r.part++sampled i).length=r.got.length%32+lanes r.qpi := by
      rw [List.length_append,r.length_part,length_sampled,hqpi]
    have hfull : r.custom=true → (r.part++sampled i).length=32 := fun hcustom => by
      have hsize := h.full hcustom
      rw [hnew,←hend]
      rcases hplace with hmod | hlen
      · exact hmod
      · rw [hlen]
        exact hsize
    have hbits := hgot.take_bitsOf (by rw [hnew]; exact hfit) hfull
    have hin : bitsIn i s=sampled i := if_pos hreceive
    have hcut : (r.got++bitsIn i s).length-32*(r.got.length/32)=(r.part++sampled i).length := by
      rw [hlength hreceive,hnew]
      omega
    have hout : rx_data_o s i=s_rx_shift_reg s i := if_pos hword
    rw [hcut,hout,hbits,hin,r.part_append]
  · rw [hdone,bitsIn_ne_nil]
    exact and_congr_right fun hreceive => by rw [hlength hreceive]

/-- Counters after a cycle that receives and does not end the transfer. -/
theorem RxInv.counters_receive (h : RxInv s r) (hqpi : i.rx_qpi_i=r.qpi)
    (hreceive : SpimTxrx.receives s i=true) (hmore : rx_done_o s i=false)
    (hlast : r.got.length+lanes r.qpi=r.size.toNat+1 → s.r_rx_clken=true)
    (hne : r.got.length+lanes r.qpi≠r.size.toNat+1) :
    At r.size.toNat (r.got.length+lanes r.qpi) (step s i).r_rx_counter ∧
    (s.r_customsize=false →
      (step s i).r_rx_counter_bits.toNat=(r.got.length+lanes r.qpi)%32/lanes r.qpi) := by
  refine ⟨?_,fun hplain => ?_⟩
  · show At _ _ (rx_counter_next s i)
    rw [rx_counter_next,h.busy]
    show At _ _ (if (rx_done_o s i && i.rx_start_i)=true then _ else _)
    rw [hmore,Bool.false_and,if_neg Bool.false_ne_true,if_pos hreceive,hqpi]
    cases hclken : s.r_rx_clken with
    | false => exact h.counter.less h.aligned h.whole (h.lo_done_first hlast hclken)
    | true => exact h.counter.next h.aligned h.whole hne _
  · show (s_rx_counter_bits s i).toNat=_
    rw [s_rx_counter_bits,h.busy]
    show (if (SpimTxrx.receives s i && !s.r_customsize)=true then _ else _ : BitVec 5).toNat=_
    rw [hreceive,hplain,Bool.not_false,Bool.true_and,if_pos rfl,hqpi]
    refine wrap_place (.inr rfl) ?_ h.aligned (h.count hplain)
    cases r.qpi <;> rfl

/-- A transfer that goes on keeps its registers. -/
theorem RxInv.step (h : RxInv s r) (hqpi : i.rx_qpi_i=r.qpi) (hmore : rx_done_o s i=false)
    (hlast : SpimTxrx.receives s i=true → r.got.length+lanes r.qpi=r.size.toNat+1 →
      s.r_rx_clken=true)
    (hcustom : (SpimTxrx.step s i).r_customsize=r.custom) :
    RxInv (SpimTxrx.step s i) { r with got := r.got++bitsIn i s } := by
  have hbusy : (SpimTxrx.step s i).rx_state=.RX_RECEIVE := by
    show rx_state_next s i=_
    rw [rx_state_next,h.busy]
    show (if (rx_done_o s i && !i.rx_start_i)=true then _ else _)=_
    rw [hmore,Bool.false_and,if_neg Bool.false_ne_true]
  have hclken : (SpimTxrx.step s i).r_rx_clken=true := decide_eq_true h.busy
  have hfirst : (SpimTxrx.step s i).r_rx_clken=false → r.got++bitsIn i s=[] := fun hnot => by
    rw [hclken] at hnot
    exact (nomatch hnot)
  have hplain : (SpimTxrx.step s i).r_customsize=false → s.r_customsize=false := fun hbytes => by
    rw [h.custom,←hcustom]
    exact hbytes
  have hreg : (SpimTxrx.step s i).r_rx_shift_reg=s_rx_shift_reg s i := rfl
  by_cases hreceive : SpimTxrx.receives s i=true
  · have hin : bitsIn i s=sampled i := if_pos hreceive
    have hlength : (r.got++bitsIn i s).length=r.got.length+lanes r.qpi := by
      rw [hin,List.length_append,length_sampled,hqpi]
    have hne : r.got.length+lanes r.qpi≠r.size.toNat+1 := fun hend => by
      rw [(h.done_iff hqpi hlast).mpr ⟨hreceive,hend⟩] at hmore
      exact (nomatch hmore)
    obtain ⟨hmax,hfit,hend⟩ := h.counter.place_step h.aligned h.whole
    obtain ⟨hcounter,hcount⟩ := h.counters_receive hqpi hreceive hmore (hlast hreceive) hne
    rw [←hlength] at hcounter hcount
    refine ⟨hbusy,hcustom,h.whole,h.full,hcounter,?_,fun hbytes => hcount (hplain hbytes),hfirst,?_⟩
    · show (r.got++bitsIn i s).length%_=0
      rw [hlength,Nat.add_mod_right]
      exact h.aligned
    · show Got r.custom _ ((r.got++bitsIn i s).drop (32*((r.got++bitsIn i s).length/32)))
      rw [hreg]
      by_cases hword : (r.got.length+lanes r.qpi)%32=0
      · rw [List.drop_of_length_le (by rw [hlength]; omega)]
        exact got_nil _ _
      · have hsame : (r.got++bitsIn i s).length/32=r.got.length/32 := by
          rw [hlength]
          omega
        rw [hsame,r.part_append,hin]
        exact h.got_next hqpi hreceive
  · have hin : bitsIn i s=[] := if_neg hreceive
    have hcounter : (SpimTxrx.step s i).r_rx_counter=s.r_rx_counter := by
      show rx_counter_next s i=_
      rw [rx_counter_next,h.busy]
      show (if (rx_done_o s i && i.rx_start_i)=true then _ else _)=_
      rw [hmore,Bool.false_and,if_neg Bool.false_ne_true,if_neg hreceive]
    have hbits : (SpimTxrx.step s i).r_rx_counter_bits=s.r_rx_counter_bits := by
      show s_rx_counter_bits s i=_
      rw [s_rx_counter_bits,h.busy]
      exact if_neg fun hboth => hreceive (Bool.and_eq_true_iff.mp hboth).1
    have hsame : (SpimTxrx.step s i).r_rx_shift_reg=s.r_rx_shift_reg := if_neg hreceive
    rw [hin,List.append_nil] at hfirst ⊢
    refine ⟨hbusy,hcustom,h.whole,h.full,?_,h.aligned,fun hbytes => ?_,hfirst,?_⟩
    · rw [hcounter]
      exact h.counter
    · rw [hbits]
      exact h.count (hplain hbytes)
    · rw [hsame]
      exact h.got

/-- A transfer that starts has them. -/
theorem rxInv_first (hidle : s.rx_state=.RX_IDLE) (hstart : i.rx_start_i=true)
    (hwhole : Whole i.rx_qpi_i (i.rx_size_i.toNat+1))
    (hfull : order i=true → (i.rx_size_i.toNat+1)%32=0)
    (hcustom : (SpimTxrx.step s i).r_customsize=order i) :
    RxInv (SpimTxrx.step s i) ⟨i.rx_size_i,i.rx_qpi_i,order i,[]⟩ := by
  have hcounter : (SpimTxrx.step s i).r_rx_counter=
      .sample i.rx_size_i (i.rx_size_i.extractLsb' 5 11==0) := by
    show rx_counter_next s i=_
    rw [rx_counter_next,hidle]
    exact if_pos hstart
  have hbits : (SpimTxrx.step s i).r_rx_counter_bits=0 := by
    show s_rx_counter_bits s i=_
    rw [s_rx_counter_bits,hidle]
    exact if_pos hstart
  refine ⟨?_,hcustom,hwhole,hfull,?_,Nat.zero_mod _,fun _ => ?_,fun _ => rfl,?_⟩
  · show rx_state_next s i=_
    rw [rx_state_next,hidle]
    exact if_pos hstart
  · rw [hcounter]
    exact at_sample _
  · rw [hbits]
    exact (Nat.zero_div _).symm
  · show Got _ _ (List.drop _ [])
    rw [List.drop_nil]
    exact got_nil _ _

/-- The words of a stream from one of them on. -/
theorem drop_flatMap_bitsOf (custom : Bool) {ws : List (BitVec 32)} {n : ℕ} (h : n < ws.length) :
    (ws.flatMap (bitsOf custom)).drop (32*n)=
      bitsOf custom (ws.get ⟨n,h⟩)++(ws.drop (n+1)).flatMap (bitsOf custom) := by
  have hlength : ((ws.take n).flatMap (bitsOf custom)).length=32*n := by
    rw [length_flatMap_bitsOf,List.length_take,Nat.min_eq_left (Nat.le_of_lt h)]
  have hdrop : ws.drop n=ws.get ⟨n,h⟩::ws.drop (n+1) := List.drop_eq_getElem_cons h
  conv_lhs => rw [←List.take_append_drop n ws]
  rw [List.flatMap_append,List.drop_left' hlength,hdrop,List.flatMap_cons]

/-- A reception of a stream gives its words. -/
def Returns (s : State) (i : Input) (r : Rx) : Prop :=
  ∀ ws : List (BitVec 32),r.got++bitsIn i s <+: ws.flatMap (bitsOf r.custom) →
    rx_data_valid_o s i=true →
    ∃ w,ws[r.got.length/32]?=some w ∧
      let n := (r.got++bitsIn i s).length-32*(r.got.length/32)
      (bitsOf r.custom (rx_data_o s i)).take n=(bitsOf r.custom w).take n ∧
        (n=32 → rx_data_o s i=w)

theorem Receives.returns (h : Receives s i r) : Returns s i r := by
  intro ws hstream hvalid
  have hdata := h.data hvalid
  have hbits := List.length_pos_iff_ne_nil.mpr (h.valid.mp hvalid).1
  have hlength : (r.got++bitsIn i s).length=r.got.length+(bitsIn i s).length :=
    List.length_append
  have hmax := hstream.length_le
  rw [length_flatMap_bitsOf] at hmax
  have hword : r.got.length/32 < ws.length := by omega
  have hn : (r.got++bitsIn i s).length-32*(r.got.length/32) ≤ 32 := by
    have hcount := congrArg List.length hdata
    rw [List.length_take,List.length_drop,length_bitsOf] at hcount
    omega
  have hrest := hstream.drop (32*(r.got.length/32))
  rw [drop_flatMap_bitsOf r.custom hword,List.prefix_iff_eq_take,List.length_drop,
    List.take_append_of_le_length (by rw [length_bitsOf]; exact hn),←hdata] at hrest
  refine ⟨ws.get ⟨r.got.length/32,hword⟩,List.getElem?_eq_getElem hword,hrest,fun hfull => ?_⟩
  rw [hfull,List.take_of_length_le (by rw [length_bitsOf]),
    List.take_of_length_le (by rw [length_bitsOf])] at hrest
  exact bitsOf_injective hrest

end Rx

section System

variable {u : Sys} {i : Input}

/-- A start is sampled where no transfer is on. -/
theorem Inv.s_sample_tx_in_iff (h : Inv u) (hfits : Fits u i) :
    s_sample_tx_in u.s i=true ↔ u.tx=none ∧ i.tx_start_i=true := by
  cases htx : u.tx with
  | none =>
    rw [s_sample_tx_in,h.txIdle htx]
    exact ⟨fun hstart => ⟨rfl,hstart⟩,fun hboth => hboth.2⟩
  | some t =>
    have ht := h.tx t htx
    obtain ⟨hqpi,hstart⟩ := hfits.tx t htx
    refine ⟨fun hsample => ?_,fun hboth => (nomatch hboth.1)⟩
    have hboth : (tx_done_o u.s i && i.tx_start_i)=true := by
      rw [←hsample,s_sample_tx_in]
      cases hstate : u.s.tx_state with
      | TX_IDLE => exact absurd hstate ht.busy
      | TX_SEND => rfl
      | TX_WAIT_DATA => rfl
    rw [Bool.and_eq_true_iff] at hboth
    obtain ⟨hsend,hend⟩ := (ht.done_iff hqpi).mp hboth.1
    rw [hstart hsend hend] at hboth
    exact (nomatch hboth.2)

/-- The last bits of a reception come after its first cycle. -/
theorem Fits.rx_last (h : Fits u i) {r : Rx} (hr : r ∈ u.rx) (hreceive : receives u.s i=true)
    (hend : r.got.length+lanes r.qpi=r.size.toNat+1) : u.s.r_rx_clken=true :=
  (((h.rx r hr).2 hreceive) hend).2

theorem Inv.s_sample_rx_in_iff (h : Inv u) (hfits : Fits u i) :
    s_sample_rx_in u.s i=true ↔ u.rx=none ∧ i.rx_start_i=true := by
  cases hrx : u.rx with
  | none =>
    rw [s_sample_rx_in,h.rxIdle hrx]
    exact ⟨fun hstart => ⟨rfl,hstart⟩,fun hboth => hboth.2⟩
  | some r =>
    have hr := h.rx r hrx
    obtain ⟨hqpi,hstart⟩ := hfits.rx r hrx
    refine ⟨fun hsample => ?_,fun hboth => (nomatch hboth.1)⟩
    have hboth : (rx_done_o u.s i && i.rx_start_i)=true := by
      rw [←hsample,s_sample_rx_in,hr.busy]
    rw [Bool.and_eq_true_iff] at hboth
    obtain ⟨hreceive,hend⟩ := (hr.done_iff hqpi (hfits.rx_last hrx)).mp hboth.1
    rw [(hstart hreceive hend).1] at hboth
    exact (nomatch hboth.2)

/-- The order changes with a start only. -/
theorem Inv.customsize (h : Inv u) (hfits : Fits u i) : (step u.s i).r_customsize=
    if (u.tx=none ∧ i.tx_start_i=true) ∨ (u.rx=none ∧ i.rx_start_i=true) then order i
    else u.s.r_customsize := by
  have hiff : (s_sample_tx_in u.s i || s_sample_rx_in u.s i)=true ↔
      (u.tx=none ∧ i.tx_start_i=true) ∨ (u.rx=none ∧ i.rx_start_i=true) := by
    rw [Bool.or_eq_true_iff,h.s_sample_tx_in_iff hfits,h.s_sample_rx_in_iff hfits]
  show (if (s_sample_tx_in u.s i || s_sample_rx_in u.s i)=true then order i else _)=_
  by_cases hstart : (s_sample_tx_in u.s i || s_sample_rx_in u.s i)=true
  · rw [if_pos hstart,if_pos (hiff.mp hstart)]
  · rw [if_neg hstart,if_neg (mt hiff.mpr hstart)]

/-- A transfer that is on keeps its order. -/
theorem Inv.customsize_kept (h : Inv u) (hfits : Fits u i) {custom : Bool}
    (hnow : u.s.r_customsize=custom)
    (hkeep : (u.tx=none ∧ i.tx_start_i=true) ∨ (u.rx=none ∧ i.rx_start_i=true) →
      custom=order i) : (step u.s i).r_customsize=custom := by
  rw [h.customsize hfits]
  split_ifs with hstart
  · exact (hkeep hstart).symm
  · exact hnow

/-- The transmitter is in its first state where no transfer that sends is on. -/
theorem Inv.tx_idle_next (h : Inv u) (hfits : Fits u i) (hnone : txNext u i=none) :
    (step u.s i).tx_state=.TX_IDLE := by
  show tx_state_next u.s i=_
  cases htx : u.tx with
  | none =>
    have hidle := h.txIdle htx
    have hstart : ¬i.tx_start_i=true := fun hstart => by
      rw [txNext,htx,Option.elim_none,if_pos hstart] at hnone
      exact (nomatch hnone)
    have hasks : ¬asks u.s i=true := by
      rw [asks,hidle]
      exact hstart
    rw [tx_state_next,if_neg hasks,hidle]
    exact if_neg (by rw [tx_done_o,s_tx_clken,hidle]; exact Bool.false_ne_true)
  | some t =>
    have ht := h.tx t htx
    obtain ⟨hqpi,hstart⟩ := hfits.tx t htx
    have hdone : tx_done_o u.s i=true := by
      by_contra hdone
      rw [txNext,htx,Option.elim_some,if_neg hdone] at hnone
      exact (nomatch hnone)
    obtain ⟨hsend,hend⟩ := (ht.done_iff hqpi).mp hdone
    have hasks : ¬asks u.s i=true := by
      rw [ht.asks_iff hqpi hstart,show u.s.tx_state=.TX_SEND from of_decide_eq_true hsend]
      rintro (hwait | ⟨-,-,hne⟩)
      · exact (nomatch hwait)
      · exact hne hend
    rw [tx_state_next,if_neg hasks,if_pos hdone]

theorem Inv.rx_idle_next (h : Inv u) (hfits : Fits u i) (hnone : rxNext u i=none) :
    (step u.s i).rx_state=.RX_IDLE := by
  show rx_state_next u.s i=_
  cases hrx : u.rx with
  | none =>
    have hidle := h.rxIdle hrx
    have hstart : ¬i.rx_start_i=true := fun hstart => by
      rw [rxNext,hrx,Option.elim_none,if_pos hstart] at hnone
      exact (nomatch hnone)
    rw [rx_state_next,hidle]
    exact if_neg hstart
  | some r =>
    have hr := h.rx r hrx
    obtain ⟨hqpi,hstart⟩ := hfits.rx r hrx
    have hdone : rx_done_o u.s i=true := by
      by_contra hdone
      rw [rxNext,hrx,Option.elim_some,if_neg hdone] at hnone
      exact (nomatch hnone)
    obtain ⟨hreceive,hend⟩ := (hr.done_iff hqpi (hfits.rx_last hrx)).mp hdone
    rw [rx_state_next,hr.busy]
    refine if_pos ?_
    rw [hdone,(hstart hreceive hend).1]
    rfl

/-- A cycle that meets the condition keeps the registers of the transfers. -/
theorem Inv.next (h : Inv u) (hfits : Fits u i) : Inv (SpimTxrx.next u i) := by
  refine ⟨h.tx_idle_next hfits,h.rx_idle_next hfits,fun t' ht' => ?_,fun r' hr' => ?_⟩
  · cases htx : u.tx with
    | none =>
      have hnew : txNext u i=some t' := ht'
      rw [txNext,htx,Option.elim_none] at hnew
      by_cases hstart : i.tx_start_i=true
      · rw [if_pos hstart,Option.some.injEq] at hnew
        subst hnew
        refine txInv_first (h.txIdle htx) hstart (hfits.txStart htx hstart) ?_
        rw [h.customsize hfits,if_pos (.inl ⟨htx,hstart⟩)]
      · rw [if_neg hstart] at hnew
        exact (nomatch hnew)
    | some t =>
      have ht := h.tx t htx
      have hnew : txNext u i=some t' := ht'
      rw [txNext,htx,Option.elim_some] at hnew
      by_cases hdone : tx_done_o u.s i=true
      · rw [if_pos hdone] at hnew
        exact (nomatch hnew)
      · rw [if_neg hdone,Option.some.injEq] at hnew
        subst hnew
        exact ht.step (hfits.tx t htx).1 (Bool.not_eq_true _ ▸ hdone)
          (h.customsize_kept hfits ht.custom fun hstart => (hfits.keeps hstart).1 t htx)
  · cases hrx : u.rx with
    | none =>
      have hnew : rxNext u i=some r' := hr'
      rw [rxNext,hrx,Option.elim_none] at hnew
      by_cases hstart : i.rx_start_i=true
      · rw [if_pos hstart,Option.some.injEq] at hnew
        subst hnew
        obtain ⟨hwhole,hfull⟩ := hfits.rxStart hrx hstart
        refine rxInv_first (h.rxIdle hrx) hstart hwhole hfull ?_
        rw [h.customsize hfits,if_pos (.inr ⟨hrx,hstart⟩)]
      · rw [if_neg hstart] at hnew
        exact (nomatch hnew)
    | some r =>
      have hr := h.rx r hrx
      have hnew : rxNext u i=some r' := hr'
      rw [rxNext,hrx,Option.elim_some] at hnew
      by_cases hdone : rx_done_o u.s i=true
      · rw [if_pos hdone] at hnew
        exact (nomatch hnew)
      · rw [if_neg hdone,Option.some.injEq] at hnew
        subst hnew
        exact hr.step (hfits.rx r hrx).1 (Bool.not_eq_true _ ▸ hdone) (hfits.rx_last hrx)
          (h.customsize_kept hfits hr.custom fun hstart => (hfits.keeps hstart).2 r hrx)

/-- Where the condition is met both sides are right. -/
theorem Inv.right (h : Inv u) (hfits : Fits u i) : Right u i := by
  refine ⟨fun t ht => (h.tx t ht).sends (hfits.tx t ht).1 (hfits.tx t ht).2,
    fun r hr => (h.rx r hr).receives (hfits.rx r hr).1 (hfits.rx_last hr),
    fun hnone => ?_,fun hnone => ?_⟩
  · rw [bitsOut,s_tx_clken,h.txIdle hnone]
    rfl
  · rw [rx_data_valid_o,receives,h.rxIdle hnone]
    rfl

end System

/-- Where the condition is met in all cycles, the transmitter sends the bits of its words in their
order, the receiver gives words with the bits that came, and a stream comes back as its words. -/
theorem transfers_right {is : List Input} (h : Meets next Fits start is) :
    Meets next (fun u i => Right u i ∧ ∀ r ∈ u.rx,Returns u.s i r) start is :=
  meets_of_meets (fun _ _ hinv hfits => hinv.next hfits) (fun _ _ hinv hfits =>
    ⟨hinv.right hfits,fun r hr => ((hinv.right hfits).rx r hr).returns⟩) inv_start h

instance (u : Sys) (i : Input) : Decidable (Fits u i) :=
  decidable_of_iff ((∀ t ∈ u.tx,i.tx_qpi_i=t.qpi ∧
      (s_tx_clken u.s=true → t.sent.length+lanes t.qpi=t.size.toNat+1 → i.tx_start_i=false)) ∧
    (∀ r ∈ u.rx,i.rx_qpi_i=r.qpi ∧
      (receives u.s i=true → r.got.length+lanes r.qpi=r.size.toNat+1 →
        i.rx_start_i=false ∧ u.s.r_rx_clken=true)) ∧
    (u.tx=none → i.tx_start_i=true → Whole i.tx_qpi_i (i.tx_size_i.toNat+1)) ∧
    (u.rx=none → i.rx_start_i=true → Whole i.rx_qpi_i (i.rx_size_i.toNat+1) ∧
      (order i=true → (i.rx_size_i.toNat+1)%32=0)) ∧
    ((u.tx=none ∧ i.tx_start_i=true) ∨ (u.rx=none ∧ i.rx_start_i=true) →
      (∀ t ∈ u.tx,t.custom=order i) ∧ (∀ r ∈ u.rx,r.custom=order i)))
    ⟨fun h => ⟨h.1,h.2.1,h.2.2.1,h.2.2.2.1,h.2.2.2.2⟩,
      fun h => ⟨h.tx,h.rx,h.txStart,h.rxStart,h.keeps⟩⟩

/-- A start of both sides with bits on one line. -/
def starts (tx rx : Bool) (size : BitVec 16) : Input :=
  ⟨tx,size,false,false,0x40,true,rx,size,false,false,0⟩

/-- Two bits go out and come back. -/
theorem transfers_right_loop : Meets next Fits start
      [starts true true 1,starts false false 1,⟨false,1,false,false,0,true,false,1,false,false,1⟩] ∧
    Meets next (fun u i => Right u i ∧ ∀ r ∈ u.rx,Returns u.s i r) start
      [starts true true 1,starts false false 1,
        ⟨false,1,false,false,0,true,false,1,false,false,1⟩] :=
  ⟨by decide,transfers_right (by decide)⟩

/-- A reception of one bit does not end with it. -/
theorem not_one_bit : ¬Meets next (fun u i => Right u i ∧ ∀ r ∈ u.rx,Returns u.s i r) start
    [starts false true 0,starts false false 0] := fun h => by
  have hreceives := h.2.1.1.rx ⟨0,false,false,[]⟩ rfl
  exact absurd (hreceives.done.mpr ⟨by decide,rfl⟩) (by decide)

end Pulpissimo.Udma.SpimTxrx
