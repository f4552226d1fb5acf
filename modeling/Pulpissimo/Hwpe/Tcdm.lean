import Mathlib.Data.BitVec

/-!
# TCDM channels

The request side of `hwpe_stream_intf_tcdm`, and the choice of one channel of
several by an index.
-/

namespace Pulpissimo.Hwpe.Tcdm

/-- Request of a TCDM channel. -/
structure Request where
  /-- Access wanted. -/
  req : Bool
  /-- Address. -/
  add : BitVec 32
  /-- Read, not write. -/
  wen : Bool
  /-- Byte enables. -/
  be : BitVec 4
  /-- Word to write. -/
  data : BitVec 32
  deriving DecidableEq

/-- The request of channel `k`. An index behind the last channel reads nothing. -/
def channel {n : ℕ} (request : Fin n → Request) (k : ℕ) : Request :=
  if h : k<n then request ⟨k,h⟩ else ⟨false,0,false,0,0⟩

theorem channel_of_lt {n : ℕ} (request : Fin n → Request) {k : ℕ} (h : k<n) :
    channel request k=request ⟨k,h⟩ := dif_pos h

end Pulpissimo.Hwpe.Tcdm
