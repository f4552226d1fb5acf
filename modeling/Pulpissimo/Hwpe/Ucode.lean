import Mathlib.Data.BitVec
import Mathlib.Data.Nat.Log
import Pulpissimo.Lib.LoopNest
import Pulpissimo.Lib.Machine

/-!
# The microcode processor

`hwpe_ctrl_ucode` runs the instructions of nested loops on a few registers. It
looks for the innermost loop whose index can move on, one loop in a cycle,
runs the instructions of that loop, one in a cycle, and starts again at the
innermost loop.
-/

namespace Pulpissimo.Hwpe.Ucode

open Pulpissimo.Machine Pulpissimo.LoopNest

/-- Parameters of an instance. -/
structure Params where
  /-- Instructions of the code. -/
  LENGTH : ℕ
  /-- Number of loops. -/
  NB_LOOPS : ℕ
  /-- Registers of the processor. -/
  NB_REG : ℕ
  /-- Bits of a register. -/
  REG_WIDTH : ℕ
  /-- Bits of an index. -/
  CNT_WIDTH : ℕ

/-- A loop of the microcode. -/
structure UcodeLoop where
  /-- Address of its first instruction. -/
  ucode_addr : BitVec 5
  /-- Number of its instructions. -/
  nb_ops : BitVec 3
  deriving DecidableEq

/-- An instruction. -/
structure UcodeCode where
  /-- Adds instead of moving. -/
  op_sel : Bool
  /-- Register that is written, and the first operand of a sum. -/
  a : BitVec 5
  /-- Register that is moved, and the second operand of a sum. -/
  b : BitVec 5
  deriving DecidableEq

/-- A microcode. What its tables hold behind their ends is not specified. -/
structure Ucode (p : Params) where
  /-- The loops, the innermost first. -/
  loops : ℕ → UcodeLoop
  /-- The code. -/
  code : ℕ → UcodeCode
  /-- Number of values of each index. -/
  range : ℕ → BitVec p.CNT_WIDTH

/-- A microcode with the registers it only reads. -/
structure Program (p : Params) where
  /-- The microcode. -/
  ucode_i : Ucode p
  /-- The registers behind those of the processor. -/
  registers_read_i : ℕ → BitVec p.REG_WIDTH

/-- States of the flag for accumulation. -/
inductive Accum
  | ACCUM_IDLE
  | ACCUM_ACTIVE
  | ACCUM_VALID
  deriving DecidableEq

/-- One cycle of inputs. -/
structure Input where
  /-- One of the two clear signals. -/
  clear : Bool
  /-- Goes on. -/
  enable : Bool
  /-- Loop that accumulates. -/
  accum_loop : BitVec 3
  deriving DecidableEq

/-- Bits of the address of an instruction. -/
abbrev addrBits (p : Params) : ℕ := Nat.clog 2 p.LENGTH

/-- Bits of the number of a loop. A vector of no bits is one of two. -/
abbrev loopBits (p : Params) : ℕ := if p.NB_LOOPS=1 then 2 else Nat.clog 2 p.NB_LOOPS

/-- Registers. -/
structure State (p : Params) where
  /-- Number of the instruction in its loop. -/
  curr_op : BitVec 3
  /-- Address of the instruction. -/
  curr_addr : BitVec (addrBits p)
  /-- The loop. -/
  curr_loop : BitVec (loopBits p)
  /-- The indices. -/
  curr_idx : ℕ → BitVec p.CNT_WIDTH
  /-- The registers that instructions write. -/
  registers : Fin p.NB_REG → BitVec p.REG_WIDTH
  /-- An instruction that is not the last of its loop was run. -/
  busy_sticky : Bool
  /-- The end was seen. -/
  done_sticky : Bool
  /-- An index vector is complete. -/
  valid : Bool
  /-- State of the flag for accumulation. -/
  curr_accum_state : Accum

/-- Values after reset and clear. -/
def cleared (p : Params) : State p :=
  ⟨0#3,0#_,0#_,fun _ => 0#_,fun _ => 0#_,false,false,false,.ACCUM_IDLE⟩

/-- What the fetch decides. -/
structure Fetch (p : Params) where
  next_addr : BitVec (addrBits p)
  next_loop : BitVec (loopBits p)
  next_op : BitVec 3
  next_idx : ℕ → BitVec p.CNT_WIDTH
  /-- There is nothing left. -/
  done_int : Bool
  /-- The loop has more instructions. -/
  busy_int : Bool
  /-- An instruction is run. -/
  exec_int : Bool

/-- A number less one, in the width of the comparisons. -/
def less_one {w : ℕ} (x : BitVec w) : ℕ := (x.setWidth (max 32 w)-1#_).toNat

section Code

variable {p : Params} (u : Ucode p) (s : State p) (i : Input)

/-- The index of the loop can move on. -/
def moves : Bool :=
  decide ((s.curr_idx s.curr_loop.toNat).toNat<less_one (u.range s.curr_loop.toNat))

/-- The loop has more instructions. -/
def more_ops : Bool := decide (s.curr_op.toNat<less_one (u.loops s.curr_loop.toNat).nb_ops)

/-- The next instruction. -/
def ucode_fetch : Fetch p :=
  let f : Fetch p := ⟨s.curr_addr,s.curr_loop,s.curr_op,s.curr_idx,false,false,false⟩
  let l := s.curr_loop.toNat
  if moves u s && more_ops u s then
    { f with
      next_addr := s.curr_addr+1#_
      next_op := s.curr_op+1#_
      busy_int := true
      exec_int := true }
  else if moves u s && decide (0<l) then
    { f with
      next_loop := 0#_
      next_idx := fun j => if j<l then 0#_ else if l=j then s.curr_idx l+1#_ else s.curr_idx j
      next_addr := (u.loops 0).ucode_addr.setWidth _
      next_op := 0#_
      exec_int := true }
  else if moves u s then
    { f with
      next_addr := (u.loops l).ucode_addr.setWidth _
      next_op := 0#_
      -- the sum of all indices, packed, cut off to the first one
      next_idx := fun j => if j=l then s.curr_idx 0+1#_ else s.curr_idx j
      exec_int := true }
  else if l<p.NB_LOOPS-1 then
    { f with
      next_loop := s.curr_loop+1#_
      next_addr := (u.loops (l+1)).ucode_addr.setWidth _
      next_op := 0#_ }
  else
    { f with
      next_loop := 0#_
      next_addr := 0#_
      next_op := 0#_
      next_idx := fun _ => 0#_
      done_int := true }

variable (P : Program p) (regs : Fin p.NB_REG → BitVec p.REG_WIDTH)

/-- A register that is read. -/
def registers_read (x : BitVec 5) : BitVec p.REG_WIDTH :=
  if h : x.toNat<p.NB_REG then regs ⟨x.toNat,h⟩ else P.registers_read_i (x.toNat-p.NB_REG)

/-- An instruction. -/
def ucode_execute (c : UcodeCode) (r : Fin p.NB_REG) : BitVec p.REG_WIDTH :=
  if r.val=c.a.toNat then
    if c.op_sel then registers_read P regs c.a+registers_read P regs c.b
    else registers_read P regs c.b
  else regs r

/-- The last index vector is behind. -/
def State.done (s : State p) : Bool := (ucode_fetch u s).done_int || s.done_sticky

/-- Next state of the flag for accumulation. -/
def next_accum_state : Accum :=
  let accum_int := s.curr_loop.toNat==i.accum_loop.toNat
  match s.curr_accum_state with
  | .ACCUM_IDLE => if accum_int then .ACCUM_ACTIVE else .ACCUM_IDLE
  | .ACCUM_ACTIVE => if s.valid then .ACCUM_VALID else .ACCUM_ACTIVE
  | .ACCUM_VALID =>
    if accum_int && s.valid then .ACCUM_VALID
    else if accum_int then .ACCUM_ACTIVE
    else if s.valid then .ACCUM_IDLE
    else .ACCUM_VALID

end Code

/-- One cycle. -/
def State.step {p : Params} (s : State p) (P : Program p) (i : Input) : State p :=
  let f := ucode_fetch P.ucode_i s
  if i.clear then cleared p
  else
    { curr_op := if i.enable then f.next_op else s.curr_op
      curr_addr := if i.enable then f.next_addr else s.curr_addr
      curr_loop := if i.enable then f.next_loop else s.curr_loop
      curr_idx := if i.enable then f.next_idx else s.curr_idx
      registers :=
        if i.enable && f.exec_int then ucode_execute P s.registers (P.ucode_i.code s.curr_addr.toNat)
        else s.registers
      busy_sticky := if !f.busy_int then false else if i.enable then true else s.busy_sticky
      done_sticky := if f.done_int then true else if s.valid then false else s.done_sticky
      valid := s.busy_sticky && !f.busy_int
      curr_accum_state := next_accum_state s i }

end Pulpissimo.Hwpe.Ucode
