import Mathlib.Tactic.Common

/-!
# Four-phase handshakes

A request and its acknowledge change in turns: the request while both are the
same, the acknowledge while they differ. A requester that sees the acknowledge
two clocks late goes through three stages, and keeps to the turns whatever time
the other side takes.
-/

namespace Pulpissimo.Handshake

/-- From one cycle to the next at most one of the two levels changes, and it is that one's turn. -/
def FourPhase (req ack req' ack' : Bool) : Prop :=
  (req'≠req → req=ack ∧ ack'=ack) ∧ (ack'≠ack → req≠ack ∧ req'=req)

/-- The acknowledge follows the request of the cycles before. -/
def Follows (req ack ack' : Bool) : Prop := ack'≠ack → req≠ack

instance (req ack req' ack' : Bool) : Decidable (FourPhase req ack req' ack') :=
  inferInstanceAs (Decidable (_ ∧ _))

instance (req ack ack' : Bool) : Decidable (Follows req ack ack') :=
  inferInstanceAs (Decidable (_ → _))

/-- Stages of a requester. -/
inductive Stage
  | off
  | asks
  | releases
  deriving DecidableEq

/-- Requests last until the late acknowledge. -/
def Stage.req (s : Stage) (sync : Bool) : Bool := s==.asks && !sync

/-- A requester asks when it likes, then waits for the late acknowledge to come and to go. -/
def Stage.Next (s : Stage) (sync : Bool) (s' : Stage) : Prop :=
  match s with
  | .off => s'=.off ∨ s'=.asks
  | .asks => s'=if sync then .releases else .asks
  | .releases => s'=if sync then .releases else .off

/-- The levels of the cycle before and the late acknowledge, in each stage. -/
structure Stage.Sound (s : Stage) (req ack sync : Bool) : Prop where
  off : s=.off → req=false ∧ ack=false ∧ sync=false
  asks : s=.asks → (ack=true → req=true) ∧ (sync=true → ack=true)
  releases : s=.releases → req=false ∧ (ack=true → sync=true)

variable {s s' : Stage} {req ack ack' sync : Bool}

theorem Stage.Sound.reset : Stage.off.Sound false false false :=
  ⟨fun _ => ⟨rfl,rfl,rfl⟩,nofun,nofun⟩

/-- A request is one of a stage that asks. -/
theorem Stage.Sound.asks_of_req (h : s.Sound true ack sync) : s=.asks := by
  cases s with
  | off => exact absurd (h.off rfl).1 nofun
  | asks => rfl
  | releases => exact absurd (h.releases rfl).1 nofun

/-- The acknowledge that has come late is still there, and so was the request. -/
theorem Stage.Sound.acknowledged (h : s.Sound req ack sync) (hfollows : Follows req ack ack')
    (hs : s=.asks) (hsync : sync=true) : req=true ∧ ack=true ∧ ack'=true := by
  have hack := (h.asks hs).2 hsync
  have hreq := (h.asks hs).1 hack
  refine ⟨hreq,hack,?_⟩
  by_contra hfall
  exact hfollows (fun heq => hfall (heq.trans hack)) (hreq.trans hack.symm)

/-- The levels keep to the turns. -/
theorem Stage.Sound.fourPhase (h : s.Sound req ack sync) (hfollows : Follows req ack ack') :
    FourPhase req ack (s.req sync) ack' := by
  unfold Follows at hfollows
  cases s with
  | off =>
    rcases h.off rfl with ⟨rfl,rfl,rfl⟩
    exact ⟨fun hne => absurd rfl hne,fun hne => absurd rfl (hfollows hne)⟩
  | asks =>
    cases hsync : sync with
    | true =>
      rcases h.acknowledged hfollows rfl hsync with ⟨rfl,rfl,rfl⟩
      exact ⟨fun _ => ⟨rfl,rfl⟩,fun hne => absurd rfl hne⟩
    | false =>
      have hack := (h.asks rfl).1
      cases req with
      | true => exact ⟨fun hne => absurd rfl hne,fun hne => ⟨hfollows hne,rfl⟩⟩
      | false =>
        cases ack with
        | true => exact absurd (hack rfl) nofun
        | false =>
          cases ack' with
          | true => exact absurd rfl (hfollows nofun)
          | false => exact ⟨fun _ => ⟨rfl,rfl⟩,fun hne => absurd rfl hne⟩
  | releases =>
    rcases h.releases rfl with ⟨rfl,-⟩
    exact ⟨fun hne => absurd rfl hne,fun hne => ⟨hfollows hne,rfl⟩⟩

/-- One cycle keeps what the stage says of the levels. The late acknowledge is next the one that
was there in the cycle before. -/
theorem Stage.Sound.step (h : s.Sound req ack sync) (hfollows : Follows req ack ack')
    (hnext : s.Next sync s') : s'.Sound (s.req sync) ack' ack := by
  unfold Follows at hfollows
  cases s with
  | off =>
    rcases h.off rfl with ⟨rfl,rfl,rfl⟩
    have hlow : ack'=false := by
      by_contra hne
      exact hfollows hne rfl
    subst hlow
    rcases hnext with rfl | rfl
    · exact ⟨fun _ => ⟨rfl,rfl,rfl⟩,nofun,nofun⟩
    · exact ⟨nofun,fun _ => ⟨nofun,nofun⟩,nofun⟩
  | asks =>
    cases hsync : sync with
    | true =>
      rcases h.acknowledged hfollows rfl hsync with ⟨rfl,rfl,rfl⟩
      have hs' : s'=.releases := by simpa [Stage.Next,hsync] using hnext
      subst hs'
      exact ⟨nofun,nofun,fun _ => ⟨rfl,fun _ => rfl⟩⟩
    | false =>
      have hs' : s'=.asks := by simpa [Stage.Next,hsync] using hnext
      subst hs'
      refine ⟨nofun,fun _ => ⟨fun _ => rfl,fun hack => ?_⟩,nofun⟩
      by_contra hfall
      exact hfollows (fun heq => hfall (heq.trans hack)) (((h.asks rfl).1 hack).trans hack.symm)
  | releases =>
    rcases h.releases rfl with ⟨rfl,hback⟩
    have hkept : ack'=true → ack=true := by
      intro hup
      by_contra hne
      exact hfollows (fun heq => hne (heq.symm.trans hup)) (Bool.not_eq_true _ ▸ hne).symm
    cases hsync : sync with
    | true =>
      have hs' : s'=.releases := by simpa [Stage.Next,hsync] using hnext
      subst hs'
      exact ⟨nofun,nofun,fun _ => ⟨rfl,hkept⟩⟩
    | false =>
      have hs' : s'=.off := by simpa [Stage.Next,hsync] using hnext
      subst hs'
      have hack : ack=false := by
        by_contra hne
        exact absurd (hsync.symm.trans (hback (Bool.not_eq_false _ ▸ hne))) nofun
      have hlow : ack'=false := by
        by_contra hne
        exact absurd (hack.symm.trans (hkept (Bool.not_eq_false _ ▸ hne))) nofun
      exact ⟨fun _ => ⟨rfl,hlow,hack⟩,nofun,nofun⟩

end Pulpissimo.Handshake
