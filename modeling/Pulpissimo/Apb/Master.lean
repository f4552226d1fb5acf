import Mathlib.Data.BitVec
import Mathlib.Tactic.Common

/-!
# Masters of the APB

A master sets an access up for one cycle and then enables it, without a change,
until the slave is ready. The next access may be set up in the cycle after that.
Accesses are numbered in the order in which they are set up.
-/

namespace Pulpissimo.Apb.Master

variable {APB_ADDR_WIDTH : ℕ}

/-- What a master asks for. -/
structure Access (APB_ADDR_WIDTH : ℕ) where
  PADDR : BitVec APB_ADDR_WIDTH
  PWDATA : BitVec 32
  PWRITE : Bool
  deriving DecidableEq

/-- The lines of a master in one cycle. -/
structure Lines (APB_ADDR_WIDTH : ℕ) where
  access : Access APB_ADDR_WIDTH
  PSEL : Bool
  PENABLE : Bool

/-- What the master has begun. -/
structure Begun (APB_ADDR_WIDTH : ℕ) where
  /-- The access that has been set up and is not complete. -/
  access : Option (Access APB_ADDR_WIDTH)
  /-- Number of the access that was set up last. -/
  number : ℕ

/-- An access is set up. -/
def Lines.setsUp (l : Lines APB_ADDR_WIDTH) : Bool := l.PSEL && !l.PENABLE

/-- An access is complete. -/
def Lines.completes (l : Lines APB_ADDR_WIDTH) (ready : Bool) : Bool :=
  l.PSEL && l.PENABLE && ready

namespace Begun

/-- Nothing was begun. -/
def reset (APB_ADDR_WIDTH : ℕ) : Begun APB_ADDR_WIDTH := ⟨none,0⟩

/-- One clock edge. -/
def step (m : Begun APB_ADDR_WIDTH) (l : Lines APB_ADDR_WIDTH) (ready : Bool) :
    Begun APB_ADDR_WIDTH where
  access := if l.PSEL && !l.completes ready then some l.access else none
  number := if l.setsUp then m.number+1 else m.number

/-- Nothing is enabled that was not set up, and what was set up is enabled as it is. -/
def Legal (m : Begun APB_ADDR_WIDTH) (l : Lines APB_ADDR_WIDTH) : Prop :=
  (m.access=none → l.PSEL=true → l.PENABLE=false) ∧
    (m.access≠none → l.PSEL=true ∧ l.PENABLE=true ∧ m.access=some l.access)

instance (m : Begun APB_ADDR_WIDTH) (l : Lines APB_ADDR_WIDTH) : Decidable (m.Legal l) :=
  inferInstanceAs (Decidable (_ ∧ _))

variable {m : Begun APB_ADDR_WIDTH} {l : Lines APB_ADDR_WIDTH} {ready : Bool}

/-- An access that is set up is enabled. -/
theorem Legal.enabled (h : m.Legal l) (hpending : m.access≠none) :
    l.PSEL=true ∧ l.PENABLE=true ∧ m.access=some l.access :=
  h.2 hpending

/-- What is enabled has been set up. -/
theorem Legal.pending (h : m.Legal l) (hsel : l.PSEL=true) (henable : l.PENABLE=true) :
    m.access≠none :=
  fun hacc => absurd (henable.symm.trans (h.1 hacc hsel)) nofun

/-- While an access is on no other is set up. -/
theorem Legal.not_setsUp (h : m.Legal l) (hpending : m.access≠none) : l.setsUp=false := by
  rw [Lines.setsUp,(h.enabled hpending).2.1,Bool.not_true,Bool.and_false]

/-- An access that is not complete stays on. -/
theorem Legal.stays (h : m.Legal l) (hpending : m.access≠none)
    (hnot : l.completes ready=false) :
    (m.step l ready).access=m.access ∧ (m.step l ready).number=m.number := by
  have hon := h.enabled hpending
  have hup := h.not_setsUp hpending
  constructor
  · simp [step,hon.1,hon.2.2,hnot]
  · simp [step,hup]

/-- A complete access is over. -/
theorem step_access_of_completes (hdone : l.completes ready=true) :
    (m.step l ready).access=none := by
  simp [step,hdone]

/-- Without a selection no access is on. -/
theorem step_access_of_unselected (hsel : l.PSEL=false) : (m.step l ready).access=none := by
  simp [step,hsel]

/-- An access that is on after a cycle without one was set up in it. -/
theorem Legal.setsUp (h : m.Legal l) (hnone : m.access=none)
    (hpending : (m.step l ready).access≠none) : l.setsUp=true := by
  have hsel : l.PSEL=true := by
    by_contra hoff
    exact hpending (by simp [step,hoff])
  rw [Lines.setsUp,hsel,h.1 hnone hsel]
  rfl

/-- What goes in and out of the accesses that are on. -/
theorem Legal.balance (h : m.Legal l) :
    (if (m.step l ready).access.isSome=true then 1 else 0)+
        (if l.completes ready=true then 1 else 0)=
      (if m.access.isSome=true then 1 else 0)+(if l.setsUp=true then 1 else 0) := by
  by_cases hpending : m.access=none
  · cases hsel : l.PSEL with
    | false => simp [step,Lines.completes,Lines.setsUp,hsel,hpending]
    | true =>
      have henable := h.1 hpending hsel
      simp [step,Lines.completes,Lines.setsUp,hsel,henable,hpending]
  · have hon := h.enabled hpending
    cases hdone : l.completes ready <;> simp [step,Lines.setsUp,hon.1,hon.2.1,hon.2.2,hdone]

end Begun

end Pulpissimo.Apb.Master
