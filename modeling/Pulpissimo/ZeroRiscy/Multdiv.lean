import Pulpissimo.ZeroRiscy.MultdivFast
import Pulpissimo.ZeroRiscy.MultdivSlow

/-!
# The M extension of zero-riscy

Both units with the adder of the ALU compute the M extension, from every idle state. So
they agree, at different cycles.
-/

namespace Pulpissimo.ZeroRiscy.Multdiv

open Pulpissimo.Riscv Pulpissimo.ZeroRiscy.ExBlock
open Pulpissimo.ZeroRiscy.LongDivider (Divides divCycles specOf)

variable {σ : Type} {u : Multdiv σ} {Idle : σ → Prop} {s : σ}

/-- Signs that the decoder gives an upper product. -/
theorem upperProduct_modes (a b : BitVec 32) :
    Mult.upperProduct 0b11 a b=Instr.result .MULH a b ∧
      Mult.upperProduct 0b01 a b=Instr.result .MULHSU a b ∧
      Mult.upperProduct 0b00 a b=Instr.result .MULHU a b := ⟨rfl,rfl,rfl⟩

/-- Signs that the decoder gives a division. -/
theorem signed_mode : (0b11 : BitVec 2).getLsbD 0=true ∧ (0b11 : BitVec 2).getLsbD 1=true := by
  decide

theorem unsigned_mode : (0b00 : BitVec 2).getLsbD 0=false ∧ (0b00 : BitVec 2).getLsbD 1=false := by
  decide

/-- Cycles before the result, for a unit with lower and upper products of `low` and `high`. -/
def cycles (low high : ℕ) (op : Instr) (b : BitVec 32) : ℕ :=
  match op with
  | .MUL => low
  | .MULH | .MULHSU | .MULHU => high
  | .DIV | .DIVU | .REM | .REMU => divCycles b

/-- A unit that multiplies and divides has the M extension. -/
theorem finishes_instr {low high : ℕ}
    (hlow : ∀ {o}, Multiplies o → o.operator_i=.MULL → o.signed_mode_i=0 →
      Finishes u Idle s o low (o.op_a_i*o.op_b_i))
    (hhigh : ∀ {o}, Multiplies o → o.operator_i=.MULH →
      Finishes u Idle s o high (Mult.upperProduct o.signed_mode_i o.op_a_i o.op_b_i))
    (hdiv : ∀ {o sign}, Divides o sign →
      Finishes u Idle s o (divCycles o.op_b_i) (specOf o sign))
    (op : Instr) (a b : BitVec 32) :
    Finishes u Idle s (op.decode a b) (cycles low high op b) (op.result a b) := by
  cases op with
  | MUL => exact hlow ⟨rfl,rfl,Or.inl rfl⟩ rfl rfl
  | MULH =>
    rw [←(upperProduct_modes a b).1]
    exact hhigh ⟨rfl,rfl,Or.inr rfl⟩ rfl
  | MULHSU =>
    rw [←(upperProduct_modes a b).2.1]
    exact hhigh ⟨rfl,rfl,Or.inr rfl⟩ rfl
  | MULHU =>
    rw [←(upperProduct_modes a b).2.2]
    exact hhigh ⟨rfl,rfl,Or.inr rfl⟩ rfl
  | DIV => exact hdiv ⟨rfl,rfl,Or.inl rfl,signed_mode.1,signed_mode.2⟩
  | DIVU => exact hdiv ⟨rfl,rfl,Or.inl rfl,unsigned_mode.1,unsigned_mode.2⟩
  | REM => exact hdiv ⟨rfl,rfl,Or.inr rfl,signed_mode.1,signed_mode.2⟩
  | REMU => exact hdiv ⟨rfl,rfl,Or.inr rfl,unsigned_mode.1,unsigned_mode.2⟩

/-- From idle states both units finish every instruction with the result of the M extension,
in the cycle in which they get ready, and are idle again. -/
theorem units_compute {f : MultdivFast.State} {l : MultdivSlow.State} (hf : MultdivFast.Idle f)
    (hl : MultdivSlow.Idle l) (op : Instr) (a b : BitVec 32) :
    Finishes MultdivFast.unit MultdivFast.Idle f (op.decode a b) (cycles 2 3 op b) (op.result a b) ∧
      Finishes MultdivSlow.unit MultdivSlow.Idle l (op.decode a b) (cycles 32 32 op b)
        (op.result a b) :=
  ⟨finishes_instr (fun h hop hmode => MultdivFast.finishes_mul h hop hmode hf)
    (fun h hop => MultdivFast.finishes_mulh h hop hf)
    (fun h => LongDivider.finishes_div MultdivFast.refines h hf.mult hf.div) op a b,
  finishes_instr (fun h hop hmode => MultdivSlow.finishes_mul h hop hmode hl)
    (fun h hop => MultdivSlow.finishes_mulh h hop hl)
    (fun h => LongDivider.finishes_div MultdivSlow.refines h trivial hl) op a b⟩

/-- After reset both are idle, and the overflowing division gives the dividend. -/
theorem units_compute_overflow :
    Finishes MultdivFast.unit MultdivFast.Idle MultdivFast.reset
        (Instr.decode .DIV 0x80000000 0xFFFFFFFF) 36 0x80000000 ∧
      Finishes MultdivSlow.unit MultdivSlow.Idle MultdivSlow.reset
        (Instr.decode .DIV 0x80000000 0xFFFFFFFF) 36 0x80000000 := by
  have hresult : Instr.result .DIV 0x80000000 0xFFFFFFFF=0x80000000 := by decide
  rw [←hresult]
  exact units_compute ⟨rfl,rfl⟩ (show MultdivSlow.reset.curr_state_q=.MD_IDLE from rfl) .DIV 0x80000000 0xFFFFFFFF

end Pulpissimo.ZeroRiscy.Multdiv
