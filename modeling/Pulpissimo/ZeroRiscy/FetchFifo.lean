import Mathlib.Tactic.FinCases
import Pulpissimo.Riscv.FetchFifo

/-!
# The zero-riscy fetch FIFO

`zeroriscy_fetch_fifo` with three entries, the bypass of an incoming word and
the aligner for instructions that start in the upper half of a word. It has no
hardware loops. With an empty entry behind, it is the RI5CY FIFO as long as no
word comes into a full one.
-/

namespace Pulpissimo.ZeroRiscy.FetchFifo

open Pulpissimo.ShiftFifo

/-- Registers. Index zero is used for output. -/
structure State where
  /-- Addresses. -/
  addr_Q : Fin 3 → BitVec 32
  /-- Words. -/
  rdata_Q : Fin 3 → BitVec 32
  /-- Entries in use. -/
  valid_Q : Fin 3 → Bool

/-- Values after reset. -/
def reset : State := ⟨fun _ => 0,fun _ => 0,fun _ => false⟩

/-- One cycle of inputs. -/
structure Input where
  /-- Clears the contents. -/
  clear_i : Bool
  /-- Address of the incoming word. -/
  in_addr_i : BitVec 32
  /-- Incoming word. -/
  in_rdata_i : BitVec 32
  /-- A word comes in. -/
  in_valid_i : Bool
  /-- The output is taken. -/
  out_ready_i : Bool

section Code

variable (s : State) (i : Input)

/-- First word, stored or incoming. -/
def rdata : BitVec 32 := if s.valid_Q 0 then s.rdata_Q 0 else i.in_rdata_i

/-- There is a first word. -/
def valid : Bool := s.valid_Q 0 || i.in_valid_i

/-- Upper half of the first word below the lower half of the second. -/
def rdata_unaligned : BitVec 32 :=
  (if s.valid_Q 1 then s.rdata_Q 1 else i.in_rdata_i).extractLsb' 0 16 ++
    (rdata s i).extractLsb' 16 16

/-- There is a second word. -/
def valid_unaligned : Bool := s.valid_Q 1 || (s.valid_Q 0 && i.in_valid_i)

/-- The upper half of the first word starts a compressed instruction. -/
def unaligned_is_compressed : Bool := (rdata s i).extractLsb' 16 2 != 0b11#2

/-- The lower half of the first word starts a compressed instruction. -/
def aligned_is_compressed : Bool := (rdata s i).extractLsb' 0 2 != 0b11#2

/-- The same for the upper half of the stored word. -/
def unaligned_is_compressed_st : Bool := (s.rdata_Q 0).extractLsb' 16 2 != 0b11#2

/-- Address of the instruction at the output. -/
def out_addr_o : BitVec 32 := if s.valid_Q 0 then s.addr_Q 0 else i.in_addr_i

/-- The output starts in the upper half. -/
def unaligned : Bool := (out_addr_o s i).getLsbD 1

/-- Instruction at the output. -/
def out_rdata_o : BitVec 32 := if unaligned s i then rdata_unaligned s i else rdata s i

/-- The output is valid. -/
def out_valid_o : Bool :=
  if unaligned s i then
    if unaligned_is_compressed s i then valid s i else valid_unaligned s i
  else valid s i

/-- The output would be valid without the incoming word. -/
def out_valid_stored_o : Bool :=
  if unaligned s i then
    if unaligned_is_compressed_st s then true else s.valid_Q 1
  else s.valid_Q 0

/-- A word can be requested. -/
def in_ready_o : Bool := !s.valid_Q 1

/-- Entries after the input port. -/
def input : State :=
  if i.in_valid_i then
    ⟨push s.valid_Q s.addr_Q i.in_addr_i,push s.valid_Q s.rdata_Q i.in_rdata_i,
      push s.valid_Q s.valid_Q true⟩
  else s

/-- Address of the word after the first one. -/
def addr_next : BitVec 32 := ((input s i).addr_Q 0).extractLsb' 2 30++0b00#2+4#32

/-- Entries after the output port: everything moves by one entry, unless a
compressed instruction leaves the upper half of its word. -/
def output : State :=
  let t := input s i
  let next (addr : BitVec 32) : State :=
    ⟨Function.update t.addr_Q 0 addr,shift 0#32 t.rdata_Q,shift false t.valid_Q⟩
  if i.out_ready_i && out_valid_o s i then
    if (t.addr_Q 0).getLsbD 1 then
      if unaligned_is_compressed s i then next ((addr_next s i).extractLsb' 2 30++0b00#2)
      else next ((addr_next s i).extractLsb' 2 30++0b10#2)
    else if aligned_is_compressed s i then
      { t with addr_Q := Function.update t.addr_Q 0 ((t.addr_Q 0).extractLsb' 2 30++0b10#2) }
    else next ((addr_next s i).extractLsb' 2 30++0b00#2)
  else t

/-- One clock edge. -/
def step : State :=
  if i.clear_i then { s with valid_Q := fun _ => false } else output s i

/-- The RI5CY FIFO with the same contents. -/
def State.widen : Riscv.FetchFifo.State :=
  ⟨deepen 0#32 s.addr_Q,deepen 0#32 s.rdata_Q,deepen false s.valid_Q,fun _ => false⟩

/-- Its inputs. -/
def Input.widen : Riscv.FetchFifo.Input :=
  ⟨i.clear_i,i.in_addr_i,i.in_rdata_i,i.in_valid_i,false,false,i.out_ready_i⟩

end Code

section Widen

theorem widen_reset : reset.widen=Riscv.FetchFifo.reset := by
  unfold reset State.widen Riscv.FetchFifo.reset
  congr 1
  · exact deepen_const 0#32
  · exact deepen_const 0#32
  · exact deepen_const false

variable (s : State) (i : Input)

theorem widen_rdata : Riscv.FetchFifo.rdata s.widen i.widen=rdata s i := rfl

theorem widen_valid : Riscv.FetchFifo.valid s.widen i.widen=valid s i :=
  Bool.or_false _

theorem widen_out_addr : Riscv.FetchFifo.out_addr_o s.widen i.widen=out_addr_o s i := rfl

theorem widen_unaligned : Riscv.FetchFifo.unaligned s.widen i.widen=unaligned s i :=
  Bool.and_true _

theorem widen_out_rdata : Riscv.FetchFifo.out_rdata_o s.widen i.widen=out_rdata_o s i := by
  unfold Riscv.FetchFifo.out_rdata_o out_rdata_o
  rw [widen_unaligned]
  rfl

theorem widen_out_valid : Riscv.FetchFifo.out_valid_o s.widen i.widen=out_valid_o s i := by
  unfold Riscv.FetchFifo.out_valid_o out_valid_o
  rw [widen_unaligned,widen_valid]
  rfl

theorem widen_out_valid_stored :
    Riscv.FetchFifo.out_valid_stored_o s.widen i.widen=out_valid_stored_o s i := by
  unfold Riscv.FetchFifo.out_valid_stored_o out_valid_stored_o
  rw [widen_unaligned]
  rfl

variable {s i}

/-- A word that finds a free entry goes to the same one. -/
theorem widen_input (hroom : i.in_valid_i=true → ∃ k, s.valid_Q k=false) :
    Riscv.FetchFifo.input s.widen i.widen=(input s i).widen := by
  unfold Riscv.FetchFifo.input input
  cases hin : i.in_valid_i with
  | false =>
    have hwide : i.widen.in_valid_i=false := hin
    rw [hwide]
    rfl
  | true =>
    have hwide : i.widen.in_valid_i=true := hin
    rw [hwide,if_pos rfl,if_pos rfl]
    simp only [State.widen,Input.widen,push_deepen (hroom hin)]
    rfl

/-- Entry zero is written in the same way. -/
theorem widen_update (slots : Fin 3 → BitVec 32) (x : BitVec 32) :
    Function.update (deepen 0#32 slots) 0 x=deepen 0#32 (Function.update slots 0 x) := by
  funext j
  fin_cases j <;> rfl

/-- The output port moves both in the same way. -/
theorem widen_output (hroom : i.in_valid_i=true → ∃ k, s.valid_Q k=false) :
    Riscv.FetchFifo.output s.widen i.widen=(output s i).widen := by
  have hready : i.widen.out_ready_i=i.out_ready_i := rfl
  have hhwlp : (input s i).widen.is_hwlp_Q=fun _ => false := rfl
  have haddr : (input s i).widen.addr_Q 0=(input s i).addr_Q 0 := rfl
  have hunaligned : Riscv.FetchFifo.unaligned_is_compressed s.widen i.widen=
    unaligned_is_compressed s i := rfl
  have haligned : Riscv.FetchFifo.aligned_is_compressed s.widen i.widen=
    aligned_is_compressed s i := rfl
  have hnext : Riscv.FetchFifo.addr_next s.widen i.widen=addr_next s i := by
    unfold Riscv.FetchFifo.addr_next addr_next
    rw [widen_input hroom,haddr]
  have hquiet : shift false (fun _ : Fin 2 => false)=fun _ => false := by decide
  have hmove : ∀ addr, (⟨Function.update (input s i).widen.addr_Q 0 addr,
      shift 0#32 (input s i).widen.rdata_Q,shift false (input s i).widen.valid_Q,
      shift false (input s i).widen.is_hwlp_Q⟩ : Riscv.FetchFifo.State)=
      State.widen ⟨Function.update (input s i).addr_Q 0 addr,shift 0#32 (input s i).rdata_Q,
        shift false (input s i).valid_Q⟩ := by
    intro addr
    simp only [State.widen,hquiet,widen_update,shift_deepen]
  have hstay : ∀ addr, (⟨Function.update (input s i).widen.addr_Q 0 addr,
      (input s i).widen.rdata_Q,(input s i).widen.valid_Q,
      shift false (input s i).widen.is_hwlp_Q⟩ : Riscv.FetchFifo.State)=
      State.widen ⟨Function.update (input s i).addr_Q 0 addr,(input s i).rdata_Q,
        (input s i).valid_Q⟩ := by
    intro addr
    simp only [State.widen,hquiet,widen_update]
  unfold Riscv.FetchFifo.output output
  rw [widen_input hroom,widen_out_valid,hnext,hready]
  dsimp only
  rw [haddr,hunaligned,haligned,hhwlp,if_neg Bool.false_ne_true,←hhwlp]
  simp only [hmove,hstay,apply_ite State.widen]

/-- A clock edge keeps the two together. -/
theorem widen_step (hroom : i.in_valid_i=true → ∃ k, s.valid_Q k=false) :
    Riscv.FetchFifo.step s.widen i.widen=(step s i).widen := by
  have hwide : i.widen.clear_i=i.clear_i := rfl
  unfold Riscv.FetchFifo.step step
  rw [hwide,widen_output hroom]
  cases i.clear_i with
  | true => simp only [State.widen,if_true,deepen_const]
  | false => rfl

end Widen

end Pulpissimo.ZeroRiscy.FetchFifo
