import Pulpissimo.Udma.I2cRecovery
import Pulpissimo.Udma.I2cStream

/-!
# The I2C interpreter follows its stream

A monitor notes the bytes that the interpreter takes, the bus commands it issues, the bits that
come back and the bytes it hands on. The commands are those that the bytes ask for, in order, and
when the interpreter takes the next command nothing of the last one is left. The repeat
register is one bit short, and the byte after a repetition of zero is skipped in one cycle
whether it is there or not.
-/

namespace Pulpissimo.Udma.I2cSession

open Pulpissimo.Machine Pulpissimo.Udma.I2cControl Pulpissimo.Udma.I2cStream

/-- The pair with a monitor. -/
structure Watch where
  ctl : I2cControl.State
  /-- Bytes taken from the stream. -/
  bytes : List (BitVec 8)
  /-- Commands given to the bus controller. -/
  issued : List Op
  /-- Bits that came with its acknowledges. -/
  answers : List Bool
  /-- Bytes handed on. -/
  delivered : List (BitVec 8)

def start : Watch := ⟨I2cControl.reset,[],[],[],[]⟩

/-- A bus command with its bit. -/
def opOf (s_bus_if_cmd : BitVec 3) (s_core_txd : Bool) : Op :=
  if s_bus_if_cmd=BUS_CMD_START then .start
  else if s_bus_if_cmd=BUS_CMD_STOP then .stop
  else if s_bus_if_cmd=BUS_CMD_WRITE then .write s_core_txd
  else if s_bus_if_cmd=BUS_CMD_READ then .read
  else .wait

@[simp] theorem opOf_start (b : Bool) : opOf BUS_CMD_START b=.start := rfl
@[simp] theorem opOf_stop (b : Bool) : opOf BUS_CMD_STOP b=.stop := rfl
@[simp] theorem opOf_write (b : Bool) : opOf BUS_CMD_WRITE b=.write b := rfl
@[simp] theorem opOf_read (b : Bool) : opOf BUS_CMD_READ b=.read := rfl
@[simp] theorem opOf_wait (b : Bool) : opOf BUS_CMD_WAIT b=.wait := rfl

section Monitor

variable (s : I2cControl.State) (i : Input)

def takes : Bool := i.data_tx_valid_i && data_tx_ready_o s i

def gives : Bool := data_rx_valid_o s i && i.data_rx_ready_i

/-- The command of a cycle. -/
def issue : List Op :=
  if (comb s i).s_bus_if_cmd_valid then [opOf (comb s i).s_bus_if_cmd (s_core_txd s i)] else []

def watch (w : Watch) (i : Input) : Watch where
  ctl := step w.ctl i
  bytes := w.bytes++if takes w.ctl i then [i.data_tx_i] else []
  issued := w.issued++issue w.ctl i
  answers := w.answers++if s_cmd_done w.ctl then [s_core_rxd w.ctl] else []
  delivered := w.delivered++if gives w.ctl i then [data_rx_o w.ctl] else []

/-- Arbitration is not lost, nobody resets, and the stream is well formed. -/
def Proper (w : Watch) (i : Input) : Prop :=
  s_al w.ctl=false ∧ i.sw_rst_i=false ∧
    (takes w.ctl i=true → WellFormed (interpret w.bytes).1 i.data_tx_i)

/-- A repetition fits into its register. -/
def Short (w : Watch) (i : Input) : Prop :=
  w.ctl.CS=.ST_GET_RPT → i.data_tx_valid_i=true → i.data_tx_i.toNat ≤ 128

/-- The command after a repetition of zero comes right behind it. -/
def Prompt (w : Watch) (i : Input) : Prop := w.ctl.CS=.ST_SKIP_CMD → i.data_tx_valid_i=true

def Fits (w : Watch) (i : Input) : Prop := Short w i ∧ Prompt w i

end Monitor

instance (w : Watch) (i : Input) : Decidable (Proper w i) :=
  inferInstanceAs (Decidable (_ ∧ _ ∧ (_ → _)))

instance (w : Watch) (i : Input) : Decidable (Short w i) :=
  inferInstanceAs (Decidable (_ → _ → _))

instance (w : Watch) (i : Input) : Decidable (Prompt w i) := inferInstanceAs (Decidable (_ → _))

instance (w : Watch) (i : Input) : Decidable (Fits w i) := inferInstanceAs (Decidable (_ ∧ _))

/-- The bus commands are those that the stream asks for, and the bytes handed on are those
that the slave sent. Before the next command all of this has happened. -/
structure Obeys (w : Watch) : Prop where
  issued : w.issued <+: (interpret w.bytes).2.map Bit.op
  delivered : w.delivered.flatMap bits <+: received (interpret w.bytes).2 w.answers
  div : w.ctl.r_div_num=(interpret w.bytes).1.div
  rest : w.ctl.CS=.ST_WAIT_IN_CMD →
    w.issued=(interpret w.bytes).2.map Bit.op ∧ w.answers.length=w.issued.length ∧
      w.delivered.flatMap bits=received (interpret w.bytes).2 w.answers
  /-- While the interpreter waits, a command of its is open or just acknowledged. -/
  waiting : waits w.ctl.CS=true → w.ctl.bus_controller.CS≠.S_IDLE ∨ s_cmd_done w.ctl=true

section Place

variable (s : I2cControl.State)

/-- Bytes of a repetition that are still to be read. -/
def more : List Bit := readBytes s.r_rpt_num.toNat s.r_rd_ack

/-- Bits that are asked for and not issued. -/
def due : List Bit :=
  match s.CS with
  | .ST_CMD_DONE => List.replicate s.r_bits.toNat .wait
  | .ST_WRITE =>
    match s.r_bits.toNat with
    | 0 => []
    | k+1 => (highBits ((s.r_data.setWidth 7).concat false) k).map .write++[.read false]
  | .ST_READ =>
    match s.r_bits.toNat with
    | 0 => more s
    | k+1 => List.replicate k (.read true)++.write s.r_rd_ack::more s
  | .ST_STORE_DATA => more s
  | _ => []

/-- Bits of a byte that is not handed on. -/
def heard : List Bool :=
  match s.CS with
  | .ST_READ => lowBits s.r_data (8-s.r_bits.toNat)
  | .ST_STORE_DATA => bits s.r_data
  | _ => []

/-- The bit that is issued and not acknowledged. -/
def Open (cur : Option Bit) : Prop :=
  match s.CS with
  | .ST_CMD_DONE => ∃ b, cur=some b ∧ b.ofByte=false
  | .ST_WRITE => cur=some (if s.r_bits=0#8 then .read false else .write (s.r_data.getLsbD 7))
  | .ST_READ => cur=some (if s.r_bits=0#8 then .write s.r_rd_ack else .read true)
  | _ => cur=none

/-- Where the stream is in a state of the interpreter. -/
def Stage (m : Meaning) : Prop :=
  match s.CS with
  | .ST_WAIT_IN_CMD | .ST_WAIT_EV => m.expect=.command ∧ m.count=s.r_rpt_num.toNat+1 ∧ s.r_bits=0#8
  | .ST_CMD_DONE => m.expect=.command ∧ m.count=s.r_rpt_num.toNat+1
  | .ST_SKIP_CMD => m.expect=.command ∧ m.count=0 ∧ s.r_rpt_num=0#7 ∧ s.r_bits=0#8
  | .ST_GET_DATA => m.expect=.data s.r_rpt_num.toNat ∧ m.count=1
  | .ST_WRITE =>
    m.count=1 ∧ s.r_bits.toNat ≤ 8 ∧
      m.expect=match s.r_rpt_num.toNat with
        | 0 => .command
        | n+1 => .data n
  | .ST_READ => m.expect=.command ∧ m.count=1 ∧ s.r_bits.toNat ≤ 8
  | .ST_STORE_DATA => m.expect=.command ∧ m.count=1 ∧ s.r_bits=0#8
  | .ST_GET_WAIT => m.expect=.wait ∧ m.count=s.r_rpt_num.toNat+1 ∧ s.r_bits=0#8
  | .ST_GET_RPT => m.expect=.rpt ∧ s.r_bits=0#8
  | .ST_GET_CFG_MSB => m.expect=.cfgMsb ∧ m.count=s.r_rpt_num.toNat+1 ∧ s.r_bits=0#8
  | .ST_GET_CFG_LSB => m.expect=.cfgLsb ∧ m.count=s.r_rpt_num.toNat+1 ∧ s.r_bits=0#8
  | .ST_GET_WAIT_EV => False

/-- The stream with the bytes of a cycle. -/
def absorb (m : Meaning) (i : Input) : Meaning × List Bit :=
  if takes s i then accept m i.data_tx_i else (m,[])

end Place

/-- A cycle in which no command stays open: the open bit ends, bits are asked for, and the next one
may be issued. -/
structure Goes (s : I2cControl.State) (i : Input) (m : Meaning) (cur cur' : Option Bit) :
    Prop where
  due : due s++(absorb s m i).2=cur'.toList++due (step s i)
  issue : issue s i=cur'.toList.map Bit.op
  heard : heard s++(if cur.any Bit.ofByte then [s_core_rxd s] else [])=
    (if gives s i then bits (data_rx_o s) else [])++heard (step s i)
  opened : Open (step s i) cur'
  stage : Stage (step s i) (absorb s m i).1
  div : s.r_div_num=m.div → (step s i).r_div_num=(absorb s m i).1.div

variable {s : I2cControl.State} {i : Input} {m : Meaning} {cur : Option Bit}

/-- What a cycle does is read off its signals. -/
theorem goes_of_comb {c : Comb} {cur' : Option Bit} (hrst : i.sw_rst_i=false)
    (hcomb : comb s i=c)
    (hdue : due s++(if i.data_tx_valid_i && c.s_data_tx_ready then accept m i.data_tx_i
      else (m,[])).2=cur'.toList++due (step s i))
    (hissue : issue s i=cur'.toList.map Bit.op)
    (hheard : heard s++(if cur.any Bit.ofByte then [s_core_rxd s] else [])=
      (if c.s_data_rx_valid && i.data_rx_ready_i then bits s.r_data else [])++heard (step s i))
    (hopen : Open (step s i) cur')
    (hstage : Stage (step s i) (if i.data_tx_valid_i && c.s_data_tx_ready then
      accept m i.data_tx_i else (m,[])).1)
    (hdiv : s.r_div_num=m.div → (step s i).r_div_num=
      (if i.data_tx_valid_i && c.s_data_tx_ready then accept m i.data_tx_i else (m,[])).1.div) :
    Goes s i m cur cur' := by
  subst hcomb
  have htakes : takes s i=(i.data_tx_valid_i && (comb s i).s_data_tx_ready) := by
    rw [takes,data_tx_ready_o,hrst,Bool.false_or]
  have hgives : gives s i=((comb s i).s_data_rx_valid && i.data_rx_ready_i) := by
    rw [gives,data_rx_valid_o,hrst,Bool.false_or]
  refine ⟨?_,hissue,?_,hopen,?_,?_⟩
  · rwa [absorb,htakes]
  · rwa [hgives]
  · rwa [absorb,htakes]
  · rwa [absorb,htakes]

theorem toNat_pred {n : ℕ} {b : BitVec n} (hn : 0 < n) (hb : b≠0) : b.toNat=(b-1#n).toNat+1 := by
  have hpos : 0 < b.toNat := Nat.pos_of_ne_zero fun hzero => hb (BitVec.eq_of_toNat_eq (by simp [hzero]))
  have hlt : b.toNat < 2^n := b.isLt
  have hone : 1 < 2^n := Nat.one_lt_two_pow (by omega)
  rw [BitVec.toNat_sub,BitVec.toNat_ofNat,Nat.mod_eq_of_lt hone,←Nat.sub_add_comm (by omega),
    Nat.add_sub_assoc (by omega),Nat.add_mod_left,Nat.mod_eq_of_lt (by omega)]
  omega

theorem goes_cmd_done (hrst : i.sw_rst_i=false) (hdone : s_cmd_done s=true)
    (hcs : s.CS=.ST_CMD_DONE) (hopen : Open s cur) (hstage : Stage s m) :
    ∃ cur', Goes s i m cur cur' := by
  simp only [Open,hcs] at hopen
  obtain ⟨b,rfl,hb⟩ := hopen
  simp only [Stage,hcs] at hstage
  obtain ⟨hexp,hcount⟩ := hstage
  by_cases hzero : s.r_bits=0#8
  · have hcomb : comb s i={ rest s with NS := .ST_WAIT_IN_CMD } := by
      simp [comb,hcs,hdone,hzero]
    refine ⟨none,goes_of_comb hrst hcomb ?_ ?_ ?_ ?_ ?_ ?_⟩ <;>
      simp [due,issue,heard,Open,Stage,step,hrst,hcomb,hcs,hzero,hexp,hcount,hb,rest]
  · have hcomb : comb s i={ rest s with
        s_bus_if_cmd := BUS_CMD_WAIT, s_bus_if_cmd_valid := true, s_bits := s.r_bits-1#8
        NS := .ST_CMD_DONE } := by
      simp [comb,hcs,hdone,hzero]
    have hpred : s.r_bits.toNat=(s.r_bits-1#8).toNat+1 := toNat_pred (by decide) hzero
    refine ⟨some .wait,goes_of_comb hrst hcomb ?_ ?_ ?_ ?_ ?_ ?_⟩ <;>
      simp [due,issue,heard,Open,Stage,step,hrst,hcomb,hcs,hexp,hcount,hb,rest,
        -BitVec.toNat_sub]
    rw [hpred]
    rfl

theorem goes_write (hrst : i.sw_rst_i=false) (hdone : s_cmd_done s=true)
    (hcs : s.CS=.ST_WRITE) (hopen : Open s cur) (hstage : Stage s m) :
    ∃ cur', Goes s i m cur cur' := by
  simp only [Open,hcs] at hopen
  subst hopen
  simp only [Stage,hcs] at hstage
  obtain ⟨hcount,hle,hexp⟩ := hstage
  by_cases hzero : s.r_bits=0#8
  · by_cases hrpt : s.r_rpt_num=0#7
    · have hcomb : comb s i={ rest s with NS := .ST_WAIT_IN_CMD } := by
        simp [comb,hcs,hdone,hzero,hrpt]
      rw [hrpt] at hexp
      refine ⟨none,goes_of_comb hrst hcomb ?_ ?_ ?_ ?_ ?_ ?_⟩ <;>
        simp [due,issue,heard,Open,Stage,step,hrst,hcomb,hcs,hzero,hrpt,hexp,hcount,rest]
    · have hcomb : comb s i={ rest s with
          s_bits := 8#8, s_sample_rpt := true, s_rpt_num := s.r_rpt_num-1#7, NS := .ST_GET_DATA } := by
        simp [comb,hcs,hdone,hzero,hrpt]
      rw [toNat_pred (by decide) hrpt] at hexp
      refine ⟨none,goes_of_comb hrst hcomb ?_ ?_ ?_ ?_ ?_ ?_⟩ <;>
        simp [due,issue,heard,Open,Stage,step,hrst,hcomb,hcs,hzero,hexp,hcount,rest,
          -BitVec.toNat_sub]
  · have hpred : s.r_bits.toNat=(s.r_bits-1#8).toNat+1 := toNat_pred (by decide) hzero
    by_cases hone : s.r_bits=1#8
    · have hcomb : comb s i={ rest s with
          s_bus_if_cmd := BUS_CMD_READ, s_bus_if_cmd_valid := true
          s_data := (s.r_data.setWidth 7).concat false, s_bits := s.r_bits-1#8
          NS := .ST_WRITE } := by
        simp [comb,hcs,hdone,hone]
      refine ⟨some (.read false),goes_of_comb hrst hcomb ?_ ?_ ?_ ?_ ?_ ?_⟩ <;>
        simp [due,issue,heard,Open,Stage,step,hrst,hcomb,hcs,hone,hexp,hcount,rest,highBits]
    · have hcomb : comb s i={ rest s with
          s_bus_if_cmd := BUS_CMD_WRITE, s_bus_if_cmd_valid := true
          s_data := (s.r_data.setWidth 7).concat false, s_bits := s.r_bits-1#8
          NS := .ST_WRITE } := by
        simp [comb,hcs,hdone,hone,hzero]
      have hnext : s.r_bits-1#8≠0#8 := fun h => hone (by bv_omega)
      have hpred' : (s.r_bits-1#8).toNat=(s.r_bits-1#8-1#8).toNat+1 :=
        toNat_pred (by decide) hnext
      refine ⟨some (.write (((s.r_data.setWidth 7).concat false).getLsbD 7)),
        goes_of_comb hrst hcomb ?_ ?_ ?_ ?_ ?_ ?_⟩ <;>
        simp [due,issue,heard,Open,Stage,step,hrst,hcomb,hcs,hexp,hcount,rest,hnext,s_core_txd,hzero,
          -BitVec.toNat_sub]
      · rw [hpred,hpred']
        simp [highBits]
      · omega

theorem goes_read (hrst : i.sw_rst_i=false) (hdone : s_cmd_done s=true)
    (hcs : s.CS=.ST_READ) (hopen : Open s cur) (hstage : Stage s m) :
    ∃ cur', Goes s i m cur cur' := by
  simp only [Open,hcs] at hopen
  subst hopen
  simp only [Stage,hcs] at hstage
  obtain ⟨hexp,hcount,hle⟩ := hstage
  by_cases hzero : s.r_bits=0#8
  · have hcomb : comb s i={ rest s with NS := .ST_STORE_DATA } := by
      simp [comb,hcs,hdone,hzero]
    refine ⟨none,goes_of_comb hrst hcomb ?_ ?_ ?_ ?_ ?_ ?_⟩ <;>
      simp [due,issue,heard,Open,Stage,step,hrst,hcomb,hcs,hzero,hexp,hcount,rest,more,bits]
  · have hpred : s.r_bits.toNat=(s.r_bits-1#8).toNat+1 := toNat_pred (by decide) hzero
    have hheard : lowBits ((s.r_data.setWidth 7).concat (s_core_rxd s)) (8-(s.r_bits-1#8).toNat)=
        lowBits s.r_data (8-s.r_bits.toNat)++[s_core_rxd s] := by
      have hplace : 8-(s.r_bits-1#8).toNat=8-s.r_bits.toNat+1 := by omega
      rw [hplace]
      exact lowBits_concat _ _ (by omega)
    by_cases hone : s.r_bits=1#8
    · have hcomb : comb s i={ rest s with
          s_bus_if_cmd := BUS_CMD_WRITE, s_bus_if_cmd_valid := true, s_bits := s.r_bits-1#8
          s_data := (s.r_data.setWidth 7).concat (s_core_rxd s), NS := .ST_READ } := by
        simp [comb,hcs,hdone,hone]
      rw [hone] at hheard
      refine ⟨some (.write s.r_rd_ack),goes_of_comb hrst hcomb ?_ ?_ ?_ ?_ ?_ ?_⟩ <;>
        simp [due,issue,heard,Open,Stage,step,hrst,hcomb,hcs,hone,hexp,hcount,rest,more,s_core_txd]
      exact hheard.symm
    · have hcomb : comb s i={ rest s with
          s_bus_if_cmd := BUS_CMD_READ, s_bus_if_cmd_valid := true, s_bits := s.r_bits-1#8
          s_data := (s.r_data.setWidth 7).concat (s_core_rxd s), NS := .ST_READ } := by
        simp [comb,hcs,hdone,hone,hzero]
      have hnext : s.r_bits-1#8≠0#8 := fun h => hone (by bv_omega)
      have hpred' : (s.r_bits-1#8).toNat=(s.r_bits-1#8-1#8).toNat+1 :=
        toNat_pred (by decide) hnext
      refine ⟨some (.read true),goes_of_comb hrst hcomb ?_ ?_ ?_ ?_ ?_ ?_⟩ <;>
        simp [due,issue,heard,Open,Stage,step,hrst,hcomb,hcs,hexp,hcount,rest,more,hnext,hzero,
          -BitVec.toNat_sub]
      · rw [hpred,hpred']
        rfl
      · exact hheard.symm
      · omega

theorem goes_store (hrst : i.sw_rst_i=false) (hcs : s.CS=.ST_STORE_DATA) (hopen : Open s cur)
    (hstage : Stage s m) : ∃ cur', Goes s i m cur cur' := by
  simp only [Open,hcs] at hopen
  subst hopen
  simp only [Stage,hcs] at hstage
  obtain ⟨hexp,hcount,hbits⟩ := hstage
  cases hready : i.data_rx_ready_i with
  | false =>
    have hcomb : comb s i={ rest s with s_data_rx_valid := true } := by
      simp [comb,hcs,hready]
    refine ⟨none,goes_of_comb hrst hcomb ?_ ?_ ?_ ?_ ?_ ?_⟩ <;>
      simp [due,issue,heard,Open,Stage,step,hrst,hcomb,hcs,hready,hexp,hcount,hbits,rest,more]
  | true =>
    by_cases hrpt : s.r_rpt_num=0#7
    · have hcomb : comb s i={ rest s with s_data_rx_valid := true, NS := .ST_WAIT_IN_CMD } := by
        simp [comb,hcs,hready,hrpt]
      refine ⟨none,goes_of_comb hrst hcomb ?_ ?_ ?_ ?_ ?_ ?_⟩ <;>
        simp [due,issue,heard,Open,Stage,step,hrst,hcomb,hcs,hready,hrpt,hexp,hcount,hbits,rest,more,
          readBytes]
    · have hcomb : comb s i={ rest s with
          s_data_rx_valid := true, s_bus_if_cmd := BUS_CMD_READ, s_bus_if_cmd_valid := true
          s_bits := 8#8, s_sample_rpt := true, s_rpt_num := s.r_rpt_num-1#7, NS := .ST_READ } := by
        simp [comb,hcs,hready,hrpt]
      have hpred : s.r_rpt_num.toNat=(s.r_rpt_num-1#7).toNat+1 := toNat_pred (by decide) hrpt
      refine ⟨some (.read true),goes_of_comb hrst hcomb ?_ ?_ ?_ ?_ ?_ ?_⟩ <;>
        simp [due,issue,heard,Open,Stage,step,hrst,hcomb,hcs,hready,hexp,hcount,rest,more,lowBits,
          -BitVec.toNat_sub]
      rw [hpred,readBytes_succ]
      rfl

theorem goes_get_data (hrst : i.sw_rst_i=false) (hcs : s.CS=.ST_GET_DATA) (hopen : Open s cur)
    (hstage : Stage s m) : ∃ cur', Goes s i m cur cur' := by
  simp only [Open,hcs] at hopen
  subst hopen
  simp only [Stage,hcs] at hstage
  obtain ⟨hexp,hcount⟩ := hstage
  cases hvalid : i.data_tx_valid_i with
  | false =>
    have hcomb : comb s i={ rest s with s_data_tx_ready := true } := by
      simp [comb,hcs,hvalid]
    refine ⟨none,goes_of_comb hrst hcomb ?_ ?_ ?_ ?_ ?_ ?_⟩ <;>
      simp [due,issue,heard,Open,Stage,step,hrst,hcomb,hcs,hvalid,hexp,hcount,rest]
  | true =>
    have hcomb : comb s i={ rest s with
        s_data_tx_ready := true, s_bus_if_cmd := BUS_CMD_WRITE, s_bus_if_cmd_valid := true
        s_data := i.data_tx_i, s_bits := 8#8, NS := .ST_WRITE } := by
      simp [comb,hcs,hvalid]
    have haccept : accept m i.data_tx_i=
        ({ m with expect := match s.r_rpt_num.toNat with
          | 0 => .command
          | n+1 => .data n },writeByte i.data_tx_i) := by
      rw [accept,hexp]
      cases s.r_rpt_num.toNat <;> rfl
    refine ⟨some (.write (i.data_tx_i.getLsbD 7)),goes_of_comb hrst hcomb ?_ ?_ ?_ ?_ ?_ ?_⟩ <;>
      simp [due,issue,heard,Open,Stage,step,hrst,hcomb,hcs,hvalid,hcount,rest,haccept,s_core_txd,
        writeByte,←highBits_eight,highBits]

theorem goes_get_wait (hrst : i.sw_rst_i=false) (hcs : s.CS=.ST_GET_WAIT) (hopen : Open s cur)
    (hstage : Stage s m) : ∃ cur', Goes s i m cur cur' := by
  simp only [Open,hcs] at hopen
  subst hopen
  simp only [Stage,hcs] at hstage
  obtain ⟨hexp,hcount,hbits⟩ := hstage
  cases hvalid : i.data_tx_valid_i with
  | false =>
    have hcomb : comb s i={ rest s with s_data_tx_ready := true } := by
      simp [comb,hcs,hvalid]
    refine ⟨none,goes_of_comb hrst hcomb ?_ ?_ ?_ ?_ ?_ ?_⟩ <;>
      simp [due,issue,heard,Open,Stage,step,hrst,hcomb,hcs,hvalid,hexp,hcount,hbits,rest]
  | true =>
    have hcomb : comb s i={ rest s with
        s_data_tx_ready := true, s_bus_if_cmd := BUS_CMD_WAIT, s_bus_if_cmd_valid := true
        s_bits := i.data_tx_i, NS := .ST_CMD_DONE } := by
      simp [comb,hcs,hvalid]
    refine ⟨some .wait,goes_of_comb hrst hcomb ?_ ?_ ?_ ?_ ?_ ?_⟩ <;>
      simp [due,issue,heard,Open,Stage,step,hrst,hcomb,hcs,hvalid,hexp,hcount,rest,accept,
        List.replicate_succ]

theorem goes_get_rpt (hrst : i.sw_rst_i=false) (hcs : s.CS=.ST_GET_RPT) (hopen : Open s cur)
    (hstage : Stage s m) (hfits : i.data_tx_valid_i=true → i.data_tx_i.toNat ≤ 128) :
    ∃ cur', Goes s i m cur cur' := by
  simp only [Open,hcs] at hopen
  subst hopen
  simp only [Stage,hcs] at hstage
  obtain ⟨hexp,hbits⟩ := hstage
  cases hvalid : i.data_tx_valid_i with
  | false =>
    have hcomb : comb s i={ rest s with s_data_tx_ready := true } := by
      simp [comb,hcs,hvalid]
    refine ⟨none,goes_of_comb hrst hcomb ?_ ?_ ?_ ?_ ?_ ?_⟩ <;>
      simp [due,issue,heard,Open,Stage,step,hrst,hcomb,hcs,hvalid,hexp,hbits,rest]
  | true =>
    by_cases hzero : i.data_tx_i=0#8
    · have hcomb : comb s i={ rest s with
          s_data_tx_ready := true, s_sample_rpt := true, s_rpt_num := 0, NS := .ST_SKIP_CMD } := by
        simp [comb,hcs,hvalid,hzero]
      refine ⟨none,goes_of_comb hrst hcomb ?_ ?_ ?_ ?_ ?_ ?_⟩ <;>
        simp [due,issue,heard,Open,Stage,step,hrst,hcomb,hcs,hvalid,hexp,hbits,rest,accept,hzero]
    · have hcomb : comb s i={ rest s with
          s_data_tx_ready := true, s_sample_rpt := true
          s_rpt_num := (i.data_tx_i-1#8).setWidth 7, NS := .ST_WAIT_IN_CMD } := by
        simp [comb,hcs,hvalid,hzero]
      have hnum : i.data_tx_i.toNat=((i.data_tx_i-1#8).setWidth 7).toNat+1 := by
        have hpred : i.data_tx_i.toNat=(i.data_tx_i-1#8).toNat+1 := toNat_pred (by decide) hzero
        have hle := hfits hvalid
        rw [BitVec.toNat_setWidth,Nat.mod_eq_of_lt (by omega)]
        exact hpred
      refine ⟨none,goes_of_comb hrst hcomb ?_ ?_ ?_ ?_ ?_ ?_⟩ <;>
        simp [due,issue,heard,Open,Stage,step,hrst,hcomb,hcs,hvalid,hexp,hbits,rest,accept,
          -BitVec.toNat_sub,-BitVec.toNat_setWidth]
      exact hnum

theorem goes_get_cfg (hrst : i.sw_rst_i=false)
    (hcs : s.CS=.ST_GET_CFG_MSB ∨ s.CS=.ST_GET_CFG_LSB) (hopen : Open s cur)
    (hstage : Stage s m) : ∃ cur', Goes s i m cur cur' := by
  rcases hcs with hcs | hcs <;>
  · simp only [Open,hcs] at hopen
    subst hopen
    simp only [Stage,hcs] at hstage
    obtain ⟨hexp,hcount,hbits⟩ := hstage
    cases hvalid : i.data_tx_valid_i <;>
      refine ⟨none,goes_of_comb hrst rfl ?_ ?_ ?_ ?_ ?_ ?_⟩ <;>
      simp +contextual [due,issue,heard,Open,Stage,step,hrst,comb,hcs,hvalid,hexp,hcount,hbits,rest,
        accept]

theorem goes_skip (hrst : i.sw_rst_i=false) (hcs : s.CS=.ST_SKIP_CMD) (hopen : Open s cur)
    (hstage : Stage s m) (hvalid : i.data_tx_valid_i=true) (hform : WellFormed m i.data_tx_i) :
    ∃ cur', Goes s i m cur cur' := by
  simp only [Open,hcs] at hopen
  subst hopen
  simp only [Stage,hcs] at hstage
  obtain ⟨hexp,hcount,hrpt,hbits⟩ := hstage
  have hcomb : comb s i={ rest s with s_data_tx_ready := true, NS := .ST_WAIT_IN_CMD } := by
    simp [comb,hcs]
  have haccept : accept m i.data_tx_i=({ m with count := 1 },[]) := by
    have hskip := command_skip hcount (hform hexp hcount)
    rw [accept,hexp]
    rwa [hexp] at hskip
  refine ⟨none,goes_of_comb hrst hcomb ?_ ?_ ?_ ?_ ?_ ?_⟩ <;>
    simp [due,issue,heard,Open,Stage,step,hrst,hcomb,hcs,hvalid,hexp,hrpt,hbits,rest,haccept]

theorem goes_wait_ev (hrst : i.sw_rst_i=false) (hcs : s.CS=.ST_WAIT_EV) (hopen : Open s cur)
    (hstage : Stage s m) : ∃ cur', Goes s i m cur cur' := by
  simp only [Open,hcs] at hopen
  subst hopen
  simp only [Stage,hcs] at hstage
  obtain ⟨hexp,hcount,hbits⟩ := hstage
  cases hevent : s_event s i <;>
    refine ⟨none,goes_of_comb hrst rfl ?_ ?_ ?_ ?_ ?_ ?_⟩ <;>
    simp [due,issue,heard,Open,Stage,step,hrst,comb,hcs,hevent,hexp,hcount,hbits,rest]

/-- A command byte for the bus, a START or a STOP. -/
theorem goes_line (hrst : i.sw_rst_i=false) (hcs : s.CS=.ST_WAIT_IN_CMD)
    (hvalid : i.data_tx_valid_i=true) (hstage : Stage s m)
    (hcmd : i.data_tx_i.extractLsb' 4 4=I2C_CMD_START ∨ i.data_tx_i.extractLsb' 4 4=I2C_CMD_STOP) :
    ∃ cur', Goes s i m none cur' := by
  simp only [Stage,hcs] at hstage
  obtain ⟨hexp,hcount,hbits⟩ := hstage
  rcases hcmd with hcmd | hcmd
  · have hcomb : comb s i={ rest s with
        s_data_tx_ready := true, s_bus_if_cmd := BUS_CMD_START, s_bus_if_cmd_valid := true
        NS := .ST_CMD_DONE } := by
      simp [comb,hcs,hvalid,decode,hcmd]
    refine ⟨some .start,goes_of_comb hrst hcomb ?_ ?_ ?_ ?_ ?_ ?_⟩ <;>
      simp [due,issue,heard,Open,Stage,step,hrst,hcomb,hcs,hvalid,hexp,hcount,hbits,rest,accept,
        command,hcmd]
  · have hcomb : comb s i={ rest s with
        s_data_tx_ready := true, s_bus_if_cmd := BUS_CMD_STOP, s_bus_if_cmd_valid := true
        NS := .ST_CMD_DONE } := by
      simp [comb,hcs,hvalid,decode,hcmd,I2C_CMD_START,I2C_CMD_STOP]
    refine ⟨some .stop,goes_of_comb hrst hcomb ?_ ?_ ?_ ?_ ?_ ?_⟩ <;>
      simp [due,issue,heard,Open,Stage,step,hrst,hcomb,hcs,hvalid,hexp,hcount,hbits,rest,accept,
        command,hcmd,I2C_CMD_START,I2C_CMD_STOP]

/-- The command byte of a read. -/
theorem goes_rd (hrst : i.sw_rst_i=false) (hcs : s.CS=.ST_WAIT_IN_CMD)
    (hvalid : i.data_tx_valid_i=true) (hstage : Stage s m) (nack : Bool)
    (hcmd : i.data_tx_i.extractLsb' 4 4=if nack then I2C_CMD_RD_NACK else I2C_CMD_RD_ACK) :
    ∃ cur', Goes s i m none cur' := by
  simp only [Stage,hcs] at hstage
  obtain ⟨hexp,hcount,hbits⟩ := hstage
  have hcomb : comb s i={ rest s with
      s_data_tx_ready := true, s_bus_if_cmd := BUS_CMD_READ, s_bus_if_cmd_valid := true
      s_rd_ack := nack, s_bits := 8#8, NS := .ST_READ } := by
    cases nack <;>
      simp [comb,hcs,hvalid,decode,hcmd,I2C_CMD_START,I2C_CMD_STOP,I2C_CMD_WAIT,I2C_CMD_WAIT_EV,
        I2C_CMD_RD_ACK,I2C_CMD_RD_NACK]
  have haccept : accept m i.data_tx_i=({ m with count := 1 },readBytes m.count nack) := by
    rw [accept,hexp]
    cases nack <;>
      simp [command,hcmd,hexp,I2C_CMD_START,I2C_CMD_STOP,I2C_CMD_WAIT,I2C_CMD_WAIT_EV,
        I2C_CMD_RD_ACK,I2C_CMD_RD_NACK]
  refine ⟨some (.read true),goes_of_comb hrst hcomb ?_ ?_ ?_ ?_ ?_ ?_⟩ <;>
    simp [due,issue,heard,Open,Stage,step,hrst,hcomb,hcs,hvalid,hexp,hcount,rest,haccept,
      more,lowBits]
  rfl

/-- The other command bytes ask for nothing yet. -/
theorem goes_next {NS : Fsm} {ev : Bool} {m' : Meaning} (hrst : i.sw_rst_i=false)
    (hcs : s.CS=.ST_WAIT_IN_CMD) (hvalid : i.data_tx_valid_i=true)
    (hcomb : comb s i={ rest s with s_data_tx_ready := true, s_sample_ev := ev, NS := NS })
    (haccept : accept m i.data_tx_i=(m',[])) (hdiv : m'.div=m.div)
    (hNS : NS=.ST_WAIT_IN_CMD ∨ NS=.ST_GET_WAIT ∨ NS=.ST_WAIT_EV ∨ NS=.ST_GET_DATA ∨
      NS=.ST_GET_RPT ∨ NS=.ST_GET_CFG_MSB)
    (hstage : Stage (step s i) m') : ∃ cur', Goes s i m none cur' := by
  have hcs' : (step s i).CS=NS := by
    simp only [step,hrst,hcomb,Bool.false_eq_true,if_false]
  have hissue : issue s i=[] := by
    rw [issue,hcomb]
    rfl
  have hregs : (step s i).r_div_num=s.r_div_num := by
    simp only [step,hrst,hcomb,rest,Bool.false_eq_true,if_false]
  refine ⟨none,goes_of_comb hrst hcomb ?_ hissue ?_ ?_ ?_ ?_⟩
  · rcases hNS with rfl | rfl | rfl | rfl | rfl | rfl <;> simp [due,hcs,hcs',hvalid,haccept]
  · rcases hNS with rfl | rfl | rfl | rfl | rfl | rfl <;> simp [heard,hcs,hcs',rest]
  · rcases hNS with rfl | rfl | rfl | rfl | rfl | rfl <;> simp [Open,hcs']
  · simpa [hvalid,haccept] using hstage
  · intro hsame
    simpa [hvalid,haccept,hregs,hdiv] using hsame

theorem goes_other (hrst : i.sw_rst_i=false) (hcs : s.CS=.ST_WAIT_IN_CMD)
    (hvalid : i.data_tx_valid_i=true) (hstage : Stage s m)
    (hstart : i.data_tx_i.extractLsb' 4 4≠I2C_CMD_START)
    (hstop : i.data_tx_i.extractLsb' 4 4≠I2C_CMD_STOP)
    (hack : i.data_tx_i.extractLsb' 4 4≠I2C_CMD_RD_ACK)
    (hnack : i.data_tx_i.extractLsb' 4 4≠I2C_CMD_RD_NACK) :
    ∃ cur', Goes s i m none cur' := by
  simp only [Stage,hcs] at hstage
  obtain ⟨hexp,hcount,hbits⟩ := hstage
  have hcomb : comb s i=decode i { rest s with s_data_tx_ready := true } := by
    simp [comb,hcs,hvalid]
  have haccept : accept m i.data_tx_i=command m i.data_tx_i := by
    rw [accept,hexp]
  rw [decode] at hcomb
  rw [command] at haccept
  simp only [if_neg hstart,if_neg hstop,if_neg hack,if_neg hnack] at hcomb haccept
  by_cases hwait : i.data_tx_i.extractLsb' 4 4=I2C_CMD_WAIT
  · rw [if_pos hwait] at hcomb haccept
    refine goes_next hrst hcs hvalid hcomb haccept rfl (by simp) ?_
    simp [Stage,step,hrst,hcomb,rest,hcount,hbits]
  rw [if_neg hwait] at hcomb haccept
  by_cases hev : i.data_tx_i.extractLsb' 4 4=I2C_CMD_WAIT_EV
  · rw [if_pos hev] at hcomb haccept
    refine goes_next hrst hcs hvalid hcomb haccept rfl (by simp) ?_
    simp [Stage,step,hrst,hcomb,rest,hexp,hcount,hbits]
  rw [if_neg hev] at hcomb haccept
  by_cases hwr : i.data_tx_i.extractLsb' 4 4=I2C_CMD_WR
  · rw [if_pos hwr] at hcomb haccept
    simp only [hcount] at haccept
    refine goes_next hrst hcs hvalid hcomb haccept rfl (by simp) ?_
    simp [Stage,step,hrst,hcomb,rest]
  rw [if_neg hwr] at hcomb haccept
  by_cases hrpt : i.data_tx_i.extractLsb' 4 4=I2C_CMD_RPT
  · rw [if_pos hrpt] at hcomb haccept
    refine goes_next hrst hcs hvalid hcomb haccept rfl (by simp) ?_
    simp [Stage,step,hrst,hcomb,rest,hbits]
  rw [if_neg hrpt] at hcomb haccept
  by_cases hcfg : i.data_tx_i.extractLsb' 4 4=I2C_CMD_CFG
  · rw [if_pos hcfg] at hcomb haccept
    refine goes_next hrst hcs hvalid hcomb haccept rfl (by simp) ?_
    simp [Stage,step,hrst,hcomb,rest,hcount,hbits]
  · rw [if_neg hcfg] at hcomb haccept
    refine goes_next hrst hcs hvalid hcomb haccept rfl (.inl hcs) ?_
    simp [Stage,step,hrst,hcomb,rest,hexp,hcount,hbits,hcs]

theorem goes_wait_in_cmd (hrst : i.sw_rst_i=false) (hcs : s.CS=.ST_WAIT_IN_CMD)
    (hopen : Open s cur) (hstage : Stage s m) : ∃ cur', Goes s i m cur cur' := by
  simp only [Open,hcs] at hopen
  subst hopen
  cases hvalid : i.data_tx_valid_i with
  | false =>
    simp only [Stage,hcs] at hstage
    obtain ⟨hexp,hcount,hbits⟩ := hstage
    have hcomb : comb s i={ rest s with s_data_tx_ready := true } := by
      simp [comb,hcs,hvalid]
    refine ⟨none,goes_of_comb hrst hcomb ?_ ?_ ?_ ?_ ?_ ?_⟩ <;>
      simp [due,issue,heard,Open,Stage,step,hrst,hcomb,hcs,hvalid,hexp,hcount,hbits,rest]
  | true =>
    by_cases hstart : i.data_tx_i.extractLsb' 4 4=I2C_CMD_START
    · exact goes_line hrst hcs hvalid hstage (.inl hstart)
    by_cases hstop : i.data_tx_i.extractLsb' 4 4=I2C_CMD_STOP
    · exact goes_line hrst hcs hvalid hstage (.inr hstop)
    by_cases hack : i.data_tx_i.extractLsb' 4 4=I2C_CMD_RD_ACK
    · exact goes_rd hrst hcs hvalid hstage false hack
    by_cases hnack : i.data_tx_i.extractLsb' 4 4=I2C_CMD_RD_NACK
    · exact goes_rd hrst hcs hvalid hstage true hnack
    exact goes_other hrst hcs hvalid hstage hstart hstop hack hnack

/-- Every cycle in which the interpreter does not wait for an open command. -/
theorem goes (hrst : i.sw_rst_i=false) (hgo : waits s.CS=true → s_cmd_done s=true)
    (hopen : Open s cur) (hstage : Stage s m)
    (hform : takes s i=true → WellFormed m i.data_tx_i)
    (hnum : s.CS=.ST_GET_RPT → i.data_tx_valid_i=true → i.data_tx_i.toNat ≤ 128)
    (hskip : s.CS=.ST_SKIP_CMD → i.data_tx_valid_i=true) : ∃ cur', Goes s i m cur cur' := by
  cases hcs : s.CS with
  | ST_WAIT_IN_CMD => exact goes_wait_in_cmd hrst hcs hopen hstage
  | ST_WAIT_EV => exact goes_wait_ev hrst hcs hopen hstage
  | ST_CMD_DONE => exact goes_cmd_done hrst (hgo (by rw [hcs]; rfl)) hcs hopen hstage
  | ST_READ => exact goes_read hrst (hgo (by rw [hcs]; rfl)) hcs hopen hstage
  | ST_WRITE => exact goes_write hrst (hgo (by rw [hcs]; rfl)) hcs hopen hstage
  | ST_STORE_DATA => exact goes_store hrst hcs hopen hstage
  | ST_SKIP_CMD =>
    have hvalid := hskip hcs
    refine goes_skip hrst hcs hopen hstage hvalid (hform ?_)
    simp [takes,data_tx_ready_o,comb,hcs,hvalid]
  | ST_GET_DATA => exact goes_get_data hrst hcs hopen hstage
  | ST_GET_WAIT => exact goes_get_wait hrst hcs hopen hstage
  | ST_GET_WAIT_EV => simp [Stage,hcs] at hstage
  | ST_GET_RPT => exact goes_get_rpt hrst hcs hopen hstage (hnum hcs)
  | ST_GET_CFG_MSB => exact goes_get_cfg hrst (.inl hcs) hopen hstage
  | ST_GET_CFG_LSB => exact goes_get_cfg hrst (.inr hcs) hopen hstage

/-- The bits asked for are those acknowledged, the open one and those that are due. -/
structure Serves (done : List Bit) (cur : Option Bit) (w : Watch) : Prop where
  asked : (interpret w.bytes).2=done++cur.toList++due w.ctl
  issued : w.issued=(done++cur.toList).map Bit.op
  answers : w.answers.length=done.length
  got : received done w.answers=w.delivered.flatMap bits++heard w.ctl
  opened : Open w.ctl cur
  stage : Stage w.ctl (interpret w.bytes).1
  div : w.ctl.r_div_num=(interpret w.bytes).1.div

/-- The invariant, with the handshake of the two parties. -/
def Inv (w : Watch) : Prop := (∃ done cur, Serves done cur w) ∧ I2cRecovery.Joint w.ctl

theorem inv_start : Inv start := by
  refine ⟨⟨[],none,rfl,rfl,rfl,rfl,rfl,⟨rfl,rfl,rfl⟩,rfl⟩,?_⟩
  exact I2cRecovery.AsReset.joint ⟨true,true,rfl⟩

variable {w : Watch} {done : List Bit}

theorem Open.isSome (h : Open s cur) : cur.isSome=waits s.CS := by
  cases hcs : s.CS <;> simp only [Open,hcs] at h
  case ST_CMD_DONE =>
    obtain ⟨b,rfl,-⟩ := h
    rfl
  all_goals
    subst h
    rfl

theorem interpret_absorb (bytes : List (BitVec 8)) :
    interpret (bytes++if takes s i then [i.data_tx_i] else [])=
      ((absorb s (interpret bytes).1 i).1,(interpret bytes).2++(absorb s (interpret bytes).1 i).2) := by
  unfold absorb
  cases takes s i with
  | true => exact interpret_concat bytes i.data_tx_i
  | false => simp

/-- A cycle in which the interpreter waits. -/
theorem Serves.wait (h : Serves done cur w) (hrst : i.sw_rst_i=false) (hwait : waits w.ctl.CS=true)
    (hdone : s_cmd_done w.ctl=false) : Serves done cur (watch w i) := by
  have hcomb : comb w.ctl i=rest w.ctl := comb_wait hwait hdone
  have htakes : takes w.ctl i=false := by
    simp [takes,data_tx_ready_o,hrst,hcomb,rest]
  have hgives : gives w.ctl i=false := by
    simp [gives,data_rx_valid_o,hrst,hcomb,rest]
  have hissue : issue w.ctl i=[] := by
    rw [issue,hcomb]
    rfl
  have hregs : (step w.ctl i).CS=w.ctl.CS ∧ (step w.ctl i).r_bits=w.ctl.r_bits ∧
      (step w.ctl i).r_data=w.ctl.r_data ∧ (step w.ctl i).r_rd_ack=w.ctl.r_rd_ack ∧
      (step w.ctl i).r_rpt_num=w.ctl.r_rpt_num ∧ (step w.ctl i).r_div_num=w.ctl.r_div_num := by
    simp [step,hrst,hcomb,rest]
  obtain ⟨hCS,hbits,hdata,hack,hrpt,hdiv⟩ := hregs
  have hdue : due (step w.ctl i)=due w.ctl := by
    simp only [due,more,hCS,hbits,hdata,hack,hrpt]
  have hheard : heard (step w.ctl i)=heard w.ctl := by
    simp only [heard,hCS,hbits,hdata]
  constructor
  · simpa [watch,htakes,hdue] using h.asked
  · simpa [watch,hissue] using h.issued
  · simpa [watch,hdone] using h.answers
  · simpa [watch,hdone,hgives,hheard] using h.got
  · simpa only [watch,Open,hCS,hbits,hdata,hack] using h.opened
  · simpa [watch,htakes,Stage,hCS,hbits,hrpt] using h.stage
  · simpa [watch,htakes,hdiv] using h.div

/-- A cycle in which it does not. -/
theorem Serves.go {cur' : Option Bit} (h : Serves done cur w)
    (hjoint : I2cRecovery.Joint w.ctl) (hgo : waits w.ctl.CS=true → s_cmd_done w.ctl=true)
    (hgoes : Goes w.ctl i (interpret w.bytes).1 cur cur') :
    Serves (done++cur.toList) cur' (watch w i) := by
  have hcur : cur.isSome=s_cmd_done w.ctl := by
    rw [h.opened.isSome,Bool.eq_iff_iff]
    exact ⟨hgo,fun hd => hjoint.2.mpr (.inr hd)⟩
  have hbytes := interpret_absorb (s:=w.ctl) (i:=i) w.bytes
  have hreceived : received (done++cur.toList)
      (w.answers++if s_cmd_done w.ctl then [s_core_rxd w.ctl] else [])=
        received done w.answers++if cur.any Bit.ofByte then [s_core_rxd w.ctl] else [] := by
    rw [←hcur]
    cases cur with
    | none => simp
    | some b => exact received_concat h.answers b _
  constructor
  · simp only [watch,hbytes]
    rw [h.asked,List.append_assoc (done++cur.toList),hgoes.due,←List.append_assoc]
  · simp only [watch]
    rw [h.issued,hgoes.issue,←List.map_append]
  · simp only [watch,←hcur,List.length_append,h.answers]
    cases cur <;> rfl
  · simp only [watch]
    rw [hreceived,h.got,List.append_assoc,hgoes.heard,List.flatMap_append]
    cases gives w.ctl i <;> simp
  · exact hgoes.opened
  · simp only [watch,hbytes]
    exact hgoes.stage
  · simp only [watch,hbytes]
    exact hgoes.div h.div

theorem Inv.watch (h : Inv w) (hproper : Proper w i) (hfits : Fits w i) : Inv (watch w i) := by
  obtain ⟨⟨done,cur,hserves⟩,hjoint⟩ := h
  obtain ⟨hal,hrst,hform⟩ := hproper
  refine ⟨?_,hjoint.step hal⟩
  by_cases hgo : waits w.ctl.CS=true → s_cmd_done w.ctl=true
  · obtain ⟨cur',hgoes⟩ := goes hrst hgo hserves.opened hserves.stage hform hfits.1 hfits.2
    exact ⟨_,cur',hserves.go hjoint hgo hgoes⟩
  · obtain ⟨hwait,hdone⟩ := Classical.not_imp.mp hgo
    exact ⟨done,cur,hserves.wait hrst hwait (Bool.eq_false_iff.mpr hdone)⟩

theorem Serves.received_eq (h : Serves done cur w) :
    received (interpret w.bytes).2 w.answers=w.delivered.flatMap bits++heard w.ctl := by
  rw [h.asked,List.append_assoc,received_append h.answers]
  exact h.got

theorem Inv.obeys (h : Inv w) : Obeys w := by
  obtain ⟨⟨done,cur,hserves⟩,hjoint⟩ := h
  constructor
  · exact ⟨(due w.ctl).map Bit.op,by rw [hserves.issued,hserves.asked,←List.map_append]⟩
  · rw [hserves.received_eq]
    exact List.prefix_append _ _
  · exact hserves.div
  · intro hcs
    have hcur : cur=none := by
      simpa only [Open,hcs] using hserves.opened
    subst hcur
    have hdue : due w.ctl=[] := by
      simp only [due,hcs]
    have hheard : heard w.ctl=[] := by
      simp only [heard,hcs]
    have hissued := hserves.issued
    have hasked := hserves.asked
    rw [hdue] at hasked
    simp only [Option.toList_none,List.append_nil] at hissued hasked
    refine ⟨?_,?_,?_⟩
    · rw [hasked,hissued]
    · rw [hserves.answers,hissued,List.length_map]
    · rw [hserves.received_eq,hheard,List.append_nil]
  · exact hjoint.2.mp

/-- In every run on a well-formed stream in which arbitration is not lost, repetitions fit and the
command after a repetition of zero comes right behind it, the interpreter obeys its stream. -/
theorem obeys_of_fits (is : List Input) (hproper : Meets watch Proper start is)
    (hfits : Meets watch Fits start is) : Obeys (after watch start is) :=
  Inv.obeys (after_invariant_of_meets (C:=fun w i => Proper w i ∧ Fits w i)
    (fun _ _ h hc => h.watch hc.1 hc.2) inv_start (meets_and.mpr ⟨hproper,hfits⟩))

/-- A cycle on a free bus, with a byte of the stream or without one. -/
def cycle (data_tx_i : Option (BitVec 8)) : Input :=
  ⟨0,data_tx_i.getD 0,data_tx_i.isSome,true,false,true,true⟩

/-- A divider of one clock, a write that a repetition of zero takes away, and a START. -/
def skipped : List Input :=
  [0xE0#8,0#8,0#8,0xC0#8,0#8,0x80#8,0#8].map (fun b => cycle (some b))++
    List.replicate 270 (cycle none)

theorem obeys_of_fits_skipped :
    Meets watch Proper start skipped ∧ Meets watch Fits start skipped ∧
      Obeys (after watch start skipped) := by
  have hproper : Meets watch Proper start skipped := by decide +kernel
  have hfits : Meets watch Fits start skipped := by decide +kernel
  exact ⟨hproper,hfits,obeys_of_fits skipped hproper hfits⟩

/-- A pause after a repetition of zero. The write is not skipped, and its byte should have been
a STOP. -/
def paused : List Input :=
  [cycle (some 0xC0#8),cycle (some 0#8),cycle none,cycle (some 0x80#8),cycle (some 0x20#8)]

/-- A repetition of 129 bytes, and the time for a single one. -/
def repeated : List Input :=
  [0xE0#8,0#8,0#8,0xC0#8,129#8,0x40#8].map (fun b => cycle (some b))++
    List.replicate 320 (cycle none)

/-- Neither half of the condition can be left out. -/
theorem not_obeys :
    (¬∀ is, Meets watch Proper start is → Meets watch Short start is →
        Obeys (after watch start is)) ∧
      ¬∀ is, Meets watch Proper start is → Meets watch Prompt start is →
        Obeys (after watch start is) := by
  refine ⟨fun hall => ?_,fun hall => ?_⟩
  · have hobeys := hall paused (by decide +kernel) (by decide +kernel)
    have hprefix : [Op.write false] <+: [Op.stop] := hobeys.issued
    exact absurd hprefix (by decide)
  · have hobeys := hall repeated (by decide +kernel) (by decide +kernel)
    obtain ⟨hissued,-,-⟩ := hobeys.rest (by decide +kernel)
    have hlen := congrArg List.length hissued
    exact absurd hlen (by decide +kernel)

end Pulpissimo.Udma.I2cSession
