import Mathlib.Data.Fintype.Basic
import Mathlib.Data.BitVec

/-!
# Address decoding of the crossbar

`axi_address_decoder_AR` and `axi_address_decoder_AW` compare the address with
the regions of every slave port and drop the ports that are not connected. An
address that is left with none is an error. Both backward allocators count the
requests that are outstanding in the same way.
-/

namespace Pulpissimo.Axi.NodeDecode

variable {ADDR_WIDTH N_REGION N_INIT_PORT : ℕ}

/-- Configuration registers of a master port. -/
structure Regions (ADDR_WIDTH N_REGION N_INIT_PORT : ℕ) where
  START_ADDR_i : Fin N_REGION → Fin N_INIT_PORT → BitVec ADDR_WIDTH
  END_ADDR_i : Fin N_REGION → Fin N_INIT_PORT → BitVec ADDR_WIDTH
  enable_region_i : Fin N_REGION → Fin N_INIT_PORT → Bool
  connectivity_map_i : Fin N_INIT_PORT → Bool

/-- Set bits of a vector. -/
def any (x : Fin N_INIT_PORT → Bool) : Bool := decide (∃ k,x k=true)

variable (c : Regions ADDR_WIDTH N_REGION N_INIT_PORT) (addr : BitVec ADDR_WIDTH)

/-- Slave ports with an enabled region that has the address. -/
def match_region (k : Fin N_INIT_PORT) : Bool :=
  any fun j => c.enable_region_i j k && decide (c.START_ADDR_i j k ≤ addr) &&
    decide (addr ≤ c.END_ADDR_i j k)

/-- Those that are connected. -/
def match_region_masked (k : Fin N_INIT_PORT) : Bool :=
  match_region c addr k && c.connectivity_map_i k

/-- The bit of `match_region_masked` that stands for the error. -/
def match_error : Bool := !any (match_region_masked c addr)

theorem any_iff {x : Fin N_INIT_PORT → Bool} : any x=true ↔ ∃ k,x k=true := decide_eq_true_iff

/-- The address is outside all regions of connected ports. -/
theorem match_error_iff : match_error c addr=true ↔ ∀ k,match_region_masked c addr k=false := by
  rw [match_error,Bool.not_eq_true',any,decide_eq_false_iff_not,not_exists]
  simp only [Bool.not_eq_true]

/-- `outstanding_counter` after a cycle. -/
def outstanding_next (incr_req decr_req : Bool) (n : BitVec 10) : BitVec 10 :=
  match incr_req,decr_req with
  | false,false => n
  | false,true => if n != 0#10 then n-1#10 else 0#10
  | true,false => if n != BitVec.allOnes 10 then n+1#10 else BitVec.allOnes 10
  | true,true => n

end Pulpissimo.Axi.NodeDecode
