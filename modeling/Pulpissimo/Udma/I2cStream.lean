import Mathlib.Data.List.Basic
import Pulpissimo.Udma.I2cControl

/-!
# What a stream of I2C commands means

The bytes of a stream are read one after the other as commands and operands, and each tells which
bits are due on the bus. A repetition counts for the next write or read. This is the meaning that
the interpreter is measured by; it knows neither registers nor cycles.
-/

namespace Pulpissimo.Udma.I2cStream

open Pulpissimo.Udma.I2cControl

/-- A bit on the bus. A bit that is read belongs to a byte or is the slave's acknowledge. -/
inductive Bit where
  | start | stop | wait
  | write (b : Bool)
  | read (ofByte : Bool)
deriving DecidableEq

/-- A bus command, a WRITE with its bit. -/
inductive Op where
  | start | stop | wait | read
  | write (b : Bool)
deriving DecidableEq

def Bit.op : Bit → Op
  | .start => .start
  | .stop => .stop
  | .wait => .wait
  | .write b => .write b
  | .read _ => .read

/-- The bit is part of a byte that is received. -/
def Bit.ofByte : Bit → Bool
  | .read ofByte => ofByte
  | _ => false

@[simp] theorem op_start : Bit.start.op=.start := rfl
@[simp] theorem op_stop : Bit.stop.op=.stop := rfl
@[simp] theorem op_write (b : Bool) : (Bit.write b).op=.write b := rfl
@[simp] theorem op_read (b : Bool) : (Bit.read b).op=.read := rfl
@[simp] theorem op_wait : Bit.wait.op=.wait := rfl
@[simp] theorem ofByte_start : Bit.start.ofByte=false := rfl
@[simp] theorem ofByte_stop : Bit.stop.ofByte=false := rfl
@[simp] theorem ofByte_write (b : Bool) : (Bit.write b).ofByte=false := rfl
@[simp] theorem ofByte_read (b : Bool) : (Bit.read b).ofByte=b := rfl
@[simp] theorem ofByte_wait : Bit.wait.ofByte=false := rfl

/-- The lower bits of a byte, the most significant one first. -/
def lowBits (d : BitVec 8) : ℕ → List Bool
  | 0 => []
  | n+1 => d.getLsbD n::lowBits d n

/-- The bits of a byte, the most significant one first. -/
def bits (d : BitVec 8) : List Bool := lowBits d 8

/-- A byte that is written, and the bit in which the slave acknowledges it. -/
def writeByte (d : BitVec 8) : List Bit := (bits d).map .write++[.read false]

/-- A byte that is read, and the bit that acknowledges it. -/
def readByte (nack : Bool) : List Bit := List.replicate 8 (.read true)++[.write nack]

def readBytes (n : ℕ) (nack : Bool) : List Bit := (List.replicate n (readByte nack)).flatten

/-- What the next byte is. -/
inductive Expect where
  | command | wait | rpt | cfgMsb | cfgLsb
  /-- A byte to write, and how many more follow it. -/
  | data (more : ℕ)
deriving DecidableEq

structure Meaning where
  expect : Expect
  /-- Bytes of the next write or read. -/
  count : ℕ
  div : BitVec 16
deriving DecidableEq

def start : Meaning := ⟨.command,1,0x100#16⟩

/-- A command byte. -/
def command (m : Meaning) (b : BitVec 8) : Meaning × List Bit :=
  let cmd := b.extractLsb' 4 4
  if cmd=I2C_CMD_START then (m,[.start])
  else if cmd=I2C_CMD_STOP then (m,[.stop])
  else if cmd=I2C_CMD_WAIT then ({ m with expect := .wait },[])
  else if cmd=I2C_CMD_WAIT_EV then (m,[])
  else if cmd=I2C_CMD_RD_ACK then ({ m with count := 1 },readBytes m.count false)
  else if cmd=I2C_CMD_RD_NACK then ({ m with count := 1 },readBytes m.count true)
  else if cmd=I2C_CMD_WR then
    match m.count with
    | 0 => ({ m with count := 1 },[])
    | n+1 => ({ m with expect := .data n, count := 1 },[])
  else if cmd=I2C_CMD_RPT then ({ m with expect := .rpt },[])
  else if cmd=I2C_CMD_CFG then ({ m with expect := .cfgMsb },[])
  else (m,[])

/-- One byte of the stream. -/
def accept (m : Meaning) (b : BitVec 8) : Meaning × List Bit :=
  match m.expect with
  | .command => command m b
  | .wait => ({ m with expect := .command },List.replicate (b.toNat+1) .wait)
  | .rpt => ({ m with expect := .command, count := b.toNat },[])
  | .cfgMsb => ({ m with expect := .cfgLsb, div := b++m.div.setWidth 8 },[])
  | .cfgLsb => ({ m with expect := .command, div := m.div.extractLsb' 8 8++b },[])
  | .data 0 => ({ m with expect := .command },writeByte b)
  | .data (n+1) => ({ m with expect := .data n },writeByte b)

/-- A repetition of zero stands right before the write or read that it takes away. -/
def WellFormed (m : Meaning) (b : BitVec 8) : Prop :=
  m.expect=.command → m.count=0 →
    b.extractLsb' 4 4=I2C_CMD_WR ∨ b.extractLsb' 4 4=I2C_CMD_RD_ACK ∨
      b.extractLsb' 4 4=I2C_CMD_RD_NACK

instance (m : Meaning) (b : BitVec 8) : Decidable (WellFormed m b) :=
  inferInstanceAs (Decidable (_ → _ → _))

/-- The whole stream up to now, and the bits it asks for. -/
def interpret (bytes : List (BitVec 8)) : Meaning × List Bit :=
  bytes.foldl (fun m b => ((accept m.1 b).1,m.2++(accept m.1 b).2)) (start,[])

theorem interpret_concat (bytes : List (BitVec 8)) (b : BitVec 8) :
    interpret (bytes++[b])=((accept (interpret bytes).1 b).1,
      (interpret bytes).2++(accept (interpret bytes).1 b).2) := by
  rw [interpret,List.foldl_append]
  rfl

/-- Bits of the bytes received, by the answers to the bits on the bus. -/
def received (done : List Bit) (answers : List Bool) : List Bool :=
  (done.zip answers).filterMap fun p => if p.1.ofByte then some p.2 else none

theorem received_concat {done : List Bit} {answers : List Bool}
    (hlen : answers.length=done.length) (b : Bit) (answer : Bool) :
    received (done++[b]) (answers++[answer])=
      received done answers++if b.ofByte then [answer] else [] := by
  rw [received,List.zip_append hlen.symm,List.filterMap_append]
  cases hb : b.ofByte <;> simp [received,hb]

/-- Later bits have no answers yet. -/
theorem received_append {done : List Bit} {answers : List Bool} (hlen : answers.length=done.length)
    (later : List Bit) : received (done++later) answers=received done answers := by
  have hzip : (done++later).zip (answers++[])=done.zip answers++later.zip [] :=
    List.zip_append hlen.symm
  rw [List.append_nil,List.zip_nil_right,List.append_nil] at hzip
  rw [received,received,hzip]

/-- A command for a repetition of zero asks for no bits. -/
theorem command_skip {m : Meaning} {b : BitVec 8} (hcount : m.count=0)
    (hform : b.extractLsb' 4 4=I2C_CMD_WR ∨ b.extractLsb' 4 4=I2C_CMD_RD_ACK ∨
      b.extractLsb' 4 4=I2C_CMD_RD_NACK) : command m b=({ m with count := 1 },[]) := by
  rcases hform with h | h | h <;>
    simp [command,h,hcount,readBytes,I2C_CMD_START,I2C_CMD_STOP,I2C_CMD_WAIT,I2C_CMD_WAIT_EV,
      I2C_CMD_RD_ACK,I2C_CMD_RD_NACK,I2C_CMD_WR]

theorem readBytes_succ (n : ℕ) (nack : Bool) :
    readBytes (n+1) nack=readByte nack++readBytes n nack := rfl

/-- A register that is shifted up holds its lower bits and the new one. -/
theorem lowBits_concat (d : BitVec 8) (b : Bool) {n : ℕ} (hn : n < 8) :
    lowBits ((d.setWidth 7).concat b) (n+1)=lowBits d n++[b] := by
  induction n with
  | zero => simp [lowBits]
  | succ n ih =>
    have htop : ((d.setWidth 7).concat b).getLsbD (n+1)=d.getLsbD n := by
      rw [BitVec.getLsbD_concat,if_neg (Nat.succ_ne_zero n),BitVec.getLsbD_setWidth,
        Nat.add_sub_cancel,decide_eq_true (by omega),Bool.true_and]
    rw [lowBits,ih (by omega),htop]
    rfl

/-- The bits that leave a register that is shifted up. -/
def highBits (d : BitVec 8) : ℕ → List Bool
  | 0 => []
  | n+1 => d.getLsbD 7::highBits ((d.setWidth 7).concat false) n

theorem highBits_eight (d : BitVec 8) : highBits d 8=bits d := by
  simp [highBits,bits,lowBits]

end Pulpissimo.Udma.I2cStream
