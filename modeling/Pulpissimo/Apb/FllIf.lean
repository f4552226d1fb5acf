import Pulpissimo.Apb.Master
import Pulpissimo.Lib.Handshake
import Pulpissimo.Lib.Indices
import Pulpissimo.Lib.Machine

/-!
# The interface to the FLLs

`apb_fll_if` makes a four-phase handshake with one of three FLLs of each APB access
to a register of it. Acknowledges come through two registers. The access is over
when the acknowledge is seen, and the next handshake begins when it is gone.
-/

namespace Pulpissimo.Apb.FllIf

open Pulpissimo.Apb.Master Pulpissimo.Handshake Pulpissimo.Machine

variable {APB_ADDR_WIDTH : ℕ}

/-- States. `CVP_PHASE1 n` and `CVP_PHASE2 n` are those of FLL `n+1`. -/
inductive Phase
  | IDLE
  | CVP_PHASE1 (n : Fin 3)
  | CVP_PHASE2 (n : Fin 3)
  deriving DecidableEq

/-- Registers. -/
structure Regs where
  fll_ack_sync0 : Fin 3 → Bool
  fll_ack_sync : Fin 3 → Bool
  fll_lock_sync0 : Fin 3 → Bool
  fll_lock_sync : Fin 3 → Bool
  state : Phase

/-- One cycle of inputs. -/
structure Input (APB_ADDR_WIDTH : ℕ) extends Lines APB_ADDR_WIDTH where
  fll_ack : Fin 3 → Bool
  fll_r_data : Fin 3 → BitVec 32
  fll_lock : Fin 3 → Bool

/-- What an FLL is given and gives in a cycle. -/
structure Link where
  req : Bool
  ack : Bool
  wrn : Bool
  add : BitVec 2
  data : BitVec 32

/-- Values after reset. -/
def reset : Regs := ⟨fun _ => false,fun _ => false,fun _ => false,fun _ => false,.IDLE⟩

/-- The FLL of an address. -/
def target (a : Access APB_ADDR_WIDTH) : Option (Fin 3) :=
  match (a.PADDR.extractLsb' 2 4).toNat with
  | 0 | 1 | 2 | 3 => some 0
  | 4 | 5 | 6 | 7 => some 1
  | 8 | 9 | 10 | 11 => some 2
  | _ => none

section Code

variable (s : Regs) (i : Input APB_ADDR_WIDTH) (n : Fin 3)

def fll_wr_access : Bool :=
  i.PSEL && i.PENABLE && i.access.PWRITE && target i.access==some n

def fll_rd_access : Bool :=
  i.PSEL && i.PENABLE && !i.access.PWRITE && target i.access==some n

def fll_access : Bool := fll_rd_access i n || fll_wr_access i n

/-- The FLL whose handshake begins. -/
def begins : Option (Fin 3) :=
  if fll_access i 1 then some 1
  else if fll_access i 0 then some 0
  else if fll_access i 2 then some 2
  else none

def state_next : Phase :=
  match s.state with
  | .IDLE => match begins i with
    | some m => .CVP_PHASE1 m
    | none => .IDLE
  | .CVP_PHASE1 m => if s.fll_ack_sync m then .CVP_PHASE2 m else .CVP_PHASE1 m
  | .CVP_PHASE2 m => if s.fll_ack_sync m then .CVP_PHASE2 m else .IDLE

def rvalid : Bool :=
  match s.state with
  | .CVP_PHASE1 m => s.fll_ack_sync m
  | _ => false

def fll_req : Bool :=
  match s.state with
  | .CVP_PHASE1 m => m==n && !s.fll_ack_sync m
  | _ => false

def fll_valid : Bool :=
  match s.state with
  | .IDLE => begins i==some n
  | .CVP_PHASE1 m => m==n && !s.fll_ack_sync m
  | .CVP_PHASE2 _ => false

def write_ready : Bool :=
  if i.PSEL && i.PENABLE && i.access.PWRITE then
    match target i.access with
    | some _ => rvalid s
    | none => true
  else false

def read_ready : Bool :=
  if i.PSEL && i.PENABLE && !i.access.PWRITE then
    match target i.access with
    | some _ => rvalid s
    | none => true
  else false

def read_data : BitVec 32 :=
  if i.PSEL && i.PENABLE && !i.access.PWRITE then
    match target i.access with
    | some m => i.fll_r_data m
    | none =>
      if (i.access.PADDR.extractLsb' 2 4).toNat=15 then
        (BitVec.ofBool (s.fll_lock_sync 2)++BitVec.ofBool (s.fll_lock_sync 1)++
          BitVec.ofBool (s.fll_lock_sync 0)).setWidth 32
      else 0
  else 0

def PREADY : Bool := if i.access.PWRITE then write_ready s i else read_ready s i

def PRDATA : BitVec 32 := read_data s i

def PSLVERR : Bool := false

/-- The lines of an FLL. -/
def link : Link where
  req := fll_req s n
  ack := i.fll_ack n
  wrn := if fll_valid s i n then !i.access.PWRITE else true
  add := if fll_valid s i n then i.access.PADDR.extractLsb' 2 2 else 0
  data := if fll_valid s i n then i.access.PWDATA else 0

/-- One clock edge. -/
def step : Regs where
  fll_ack_sync0 := i.fll_ack
  fll_ack_sync := s.fll_ack_sync0
  fll_lock_sync0 := i.fll_lock
  fll_lock_sync := s.fll_lock_sync0
  state := state_next s i

end Code

/-- The interface between a master and three FLLs. -/
structure Bus (APB_ADDR_WIDTH : ℕ) extends Begun APB_ADDR_WIDTH where
  unit : Regs
  /-- The lines of the FLLs in the cycle before. -/
  last : Fin 3 → Link
  /-- Requests to the FLLs that the access that was set up last has raised. -/
  raised : Fin 3 → ℕ

namespace Bus

/-- Nothing is going on. -/
def reset (APB_ADDR_WIDTH : ℕ) : Bus APB_ADDR_WIDTH :=
  ⟨Begun.reset APB_ADDR_WIDTH,FllIf.reset,fun _ => ⟨false,false,true,0,0⟩,fun _ => 0⟩

section Step

variable (w : Bus APB_ADDR_WIDTH) (i : Input APB_ADDR_WIDTH)

/-- The access is complete. -/
def completes : Bool := i.toLines.completes (PREADY w.unit i)

/-- Requests raised so far, with this cycle. -/
def raises (n : Fin 3) : ℕ :=
  w.raised n+if fll_req w.unit n && !(w.last n).req then 1 else 0

/-- One clock edge. -/
def step : Bus APB_ADDR_WIDTH where
  toBegun := w.toBegun.step i.toLines (PREADY w.unit i)
  unit := FllIf.step w.unit i
  last := link w.unit i
  raised n := if i.setsUp then 0 else w.raises n

/-- The master plays by the rules, and acknowledges follow the requests of the cycles before. -/
def Legal : Prop :=
  w.toBegun.Legal i.toLines ∧
    ∀ n, Follows (w.last n).req (w.last n).ack (i.fll_ack n)

instance : Decidable (w.Legal i) := inferInstanceAs (Decidable (_ ∧ _))

/-- Each FLL has four-phase handshakes, of accesses to it and with what these say from the rise
of the request to its fall. An access to an FLL has raised its request once and no other, and is
complete with its fall, while the acknowledge is high, with the data of the FLL. -/
structure Right : Prop where
  ready : PREADY w.unit i=true → i.PSEL=true ∧ i.PENABLE=true
  turns : ∀ n, FourPhase (w.last n).req (w.last n).ack (fll_req w.unit n) (i.fll_ack n)
  own : ∀ n, fll_req w.unit n=true → w.access=some i.access ∧ target i.access=some n ∧
    link w.unit i n=⟨true,i.fll_ack n,!i.access.PWRITE,i.access.PADDR.extractLsb' 2 2,
      i.access.PWDATA⟩
  constant : ∀ n, (w.last n).req=true → fll_req w.unit n=true →
    (link w.unit i n).wrn=(w.last n).wrn ∧ (link w.unit i n).add=(w.last n).add ∧
      (link w.unit i n).data=(w.last n).data
  once : w.completes i=true → ∀ n, w.raises n=if target i.access=some n then 1 else 0
  done : w.completes i=true → ∀ n, target i.access=some n →
    (w.last n).req=true ∧ fll_req w.unit n=false ∧ i.fll_ack n=true ∧
      (i.access.PWRITE=false → PRDATA w.unit i=i.fll_r_data n)

end Step

end Bus

/-- Stage of the handshakes with an FLL. -/
def stage (p : Phase) (n : Fin 3) : Stage :=
  match p with
  | .IDLE => .off
  | .CVP_PHASE1 m => if m=n then .asks else .off
  | .CVP_PHASE2 m => if m=n then .releases else .off

section Facts

variable {s : Regs} {i : Input APB_ADDR_WIDTH} {n : Fin 3}

theorem stage_phase1 (m n : Fin 3) : stage (.CVP_PHASE1 m) n=if m=n then .asks else .off := rfl

theorem stage_phase2 (m n : Fin 3) :
    stage (.CVP_PHASE2 m) n=if m=n then .releases else .off := rfl

theorem stage_asks_iff (p : Phase) (n : Fin 3) : stage p n=.asks ↔ p=.CVP_PHASE1 n := by
  cases p with
  | IDLE => exact ⟨nofun,nofun⟩
  | CVP_PHASE1 m =>
    rw [stage_phase1]
    split_ifs with hm
    · exact ⟨fun _ => congrArg _ hm,fun _ => rfl⟩
    · exact ⟨nofun,fun heq => absurd (Phase.CVP_PHASE1.inj heq) hm⟩
  | CVP_PHASE2 m =>
    rw [stage_phase2]
    split_ifs <;> exact ⟨nofun,nofun⟩

theorem fll_req_eq (s : Regs) (n : Fin 3) :
    fll_req s n=(stage s.state n).req (s.fll_ack_sync n) := by
  unfold fll_req
  cases s.state with
  | IDLE => rfl
  | CVP_PHASE1 m =>
    show (m==n && !s.fll_ack_sync m)=_
    rw [stage_phase1]
    by_cases hm : m=n
    · rw [if_pos hm,hm,beq_self_eq_true]
      rfl
    · rw [if_neg hm,beq_eq_false_iff_ne.mpr hm]
      rfl
  | CVP_PHASE2 m =>
    rw [stage_phase2]
    split_ifs <;> rfl

theorem fll_req_iff (s : Regs) (n : Fin 3) :
    fll_req s n=true ↔ s.state=.CVP_PHASE1 n ∧ s.fll_ack_sync n=false := by
  rw [fll_req_eq,←stage_asks_iff,Stage.req,Bool.and_eq_true_iff,beq_iff_eq,Bool.not_eq_true']

/-- Each FLL goes through the stages of a requester. -/
theorem stage_next (s : Regs) (i : Input APB_ADDR_WIDTH) (n : Fin 3) :
    (stage s.state n).Next (s.fll_ack_sync n) (stage (state_next s i) n) := by
  unfold state_next
  cases s.state with
  | IDLE =>
    cases begins i with
    | none => exact Or.inl rfl
    | some m =>
      by_cases hm : m=n
      · exact Or.inr (if_pos hm)
      · exact Or.inl (if_neg hm)
  | CVP_PHASE1 m =>
    by_cases hm : m=n
    · subst hm
      cases hsync : s.fll_ack_sync m <;> simp [stage,Stage.Next,hsync]
    · cases hsync : s.fll_ack_sync m <;> simp [stage,Stage.Next,hm,hsync]
  | CVP_PHASE2 m =>
    by_cases hm : m=n
    · subst hm
      cases hsync : s.fll_ack_sync m <;> simp [stage,Stage.Next,hsync]
    · cases hsync : s.fll_ack_sync m <;> simp [stage,Stage.Next,hm,hsync]

theorem fll_access_iff (i : Input APB_ADDR_WIDTH) (n : Fin 3) :
    fll_access i n=true ↔ i.PSEL=true ∧ i.PENABLE=true ∧ target i.access=some n := by
  unfold fll_access fll_rd_access fll_wr_access
  cases i.PSEL <;> cases i.PENABLE <;> cases i.access.PWRITE <;> simp

/-- The handshake that begins is that of the FLL of the access that is enabled. -/
theorem begins_eq_some_iff (i : Input APB_ADDR_WIDTH) (n : Fin 3) :
    begins i=some n ↔ i.PSEL=true ∧ i.PENABLE=true ∧ target i.access=some n := by
  have hall := fll_access_iff i
  unfold begins
  split_ifs with h1 h0 h2
  · have hon := (hall 1).mp h1
    simp [hon.1,hon.2.1,hon.2.2]
  · have hon := (hall 0).mp h0
    simp [hon.1,hon.2.1,hon.2.2]
  · have hon := (hall 2).mp h2
    simp [hon.1,hon.2.1,hon.2.2]
  · refine ⟨nofun,fun hon => ?_⟩
    have hn := (hall n).mpr hon
    match n with
    | 0 => exact absurd hn h0
    | 1 => exact absurd hn h1
    | 2 => exact absurd hn h2

/-- Ready is told of an enabled access, at once where there is no FLL at its address. -/
theorem PREADY_eq (s : Regs) (i : Input APB_ADDR_WIDTH) :
    PREADY s i=(i.PSEL && i.PENABLE && ((target i.access).isNone || rvalid s)) := by
  unfold PREADY write_ready read_ready
  cases i.PSEL <;> cases i.PENABLE <;> cases i.access.PWRITE <;> cases target i.access <;> simp

theorem rvalid_iff (s : Regs) :
    rvalid s=true ↔ ∃ n, s.state=.CVP_PHASE1 n ∧ s.fll_ack_sync n=true := by
  unfold rvalid
  cases s.state with
  | IDLE => simp
  | CVP_PHASE1 m => simp
  | CVP_PHASE2 m => simp

/-- The lines of an FLL that is requested. -/
theorem link_of_req (hreq : fll_req s n=true) : link s i n=
    ⟨true,i.fll_ack n,!i.access.PWRITE,i.access.PADDR.extractLsb' 2 2,i.access.PWDATA⟩ := by
  have hon := (fll_req_iff s n).mp hreq
  have hvalid : fll_valid s i n=true := by
    unfold fll_valid
    rw [hon.1]
    simp [hon.2]
  unfold link
  rw [hreq,hvalid]
  rfl

end Facts

namespace Bus

variable {w : Bus APB_ADDR_WIDTH} {i : Input APB_ADDR_WIDTH}

/-- The handshakes are in their stages, the one that asks is that of the access that is on, and
this access has raised the requests that are up. -/
structure Inv (w : Bus APB_ADDR_WIDTH) : Prop where
  sound : ∀ n, (stage w.unit.state n).Sound (w.last n).req (w.last n).ack (w.unit.fll_ack_sync n)
  sync0 : ∀ n, w.unit.fll_ack_sync0 n=(w.last n).ack
  asks : ∀ n, w.unit.state=.CVP_PHASE1 n → ∃ a, w.access=some a ∧ target a=some n
  carried : ∀ n, (w.last n).req=true → ∃ a, w.access=some a ∧
    w.last n=⟨true,(w.last n).ack,!a.PWRITE,a.PADDR.extractLsb' 2 2,a.PWDATA⟩
  raised : w.access≠none → ∀ n, w.raised n=if (w.last n).req=true then 1 else 0

theorem Inv.reset : (Bus.reset APB_ADDR_WIDTH).Inv where
  sound _ := Stage.Sound.reset
  sync0 _ := rfl
  asks _ h := nomatch h
  carried _ h := nomatch h
  raised _ _ := rfl

/-- An access whose handshake is on is enabled. -/
theorem Inv.asking (h : w.Inv) (hlegal : w.Legal i) {n : Fin 3}
    (hstate : w.unit.state=.CVP_PHASE1 n) :
    i.PSEL=true ∧ i.PENABLE=true ∧ w.access=some i.access ∧ target i.access=some n := by
  rcases h.asks n hstate with ⟨a,hacc,htarget⟩
  have hon := hlegal.1.enabled (hacc.trans_ne nofun)
  rw [hacc,Option.some.injEq] at hon
  exact ⟨hon.1,hon.2.1,hacc.trans (congrArg some hon.2.2),hon.2.2 ▸ htarget⟩

/-- A complete access to an FLL is that of a handshake with a late acknowledge. -/
theorem Inv.completes_target (h : w.Inv) (hlegal : w.Legal i) (hdone : w.completes i=true)
    {n : Fin 3} (htarget : target i.access=some n) :
    w.unit.state=.CVP_PHASE1 n ∧ w.unit.fll_ack_sync n=true := by
  have hready := (Bool.and_eq_true_iff.mp hdone).2
  rw [PREADY_eq,htarget,Option.isNone_some,Bool.false_or,Bool.and_eq_true_iff,rvalid_iff] at hready
  rcases hready with ⟨-,m,hstate,hsync⟩
  have hm := (h.asking hlegal hstate).2.2.2.symm.trans htarget
  rw [Option.some.injEq] at hm
  exact hm ▸ ⟨hstate,hsync⟩

/-- No request is up when an access is complete. -/
theorem Inv.req_of_completes (h : w.Inv) (hlegal : w.Legal i) (hdone : w.completes i=true)
    (n : Fin 3) : fll_req w.unit n=false := by
  by_contra hreq
  have hon := (fll_req_iff w.unit n).mp (Bool.not_eq_false _ ▸ hreq)
  have hsync := (h.completes_target hlegal hdone (h.asking hlegal hon.1).2.2.2).2
  exact absurd (hsync.symm.trans hon.2) nofun

/-- The access that is on has raised the requests that were up. -/
theorem Inv.raises_eq (h : w.Inv) (hpending : w.access≠none) (n : Fin 3) :
    w.raises n=if ((w.last n).req || fll_req w.unit n)=true then 1 else 0 := by
  rw [raises,h.raised hpending n]
  cases (w.last n).req <;> cases fll_req w.unit n <;> rfl

theorem Inv.right (h : w.Inv) (hlegal : w.Legal i) : w.Right i where
  ready hready := by
    rw [PREADY_eq,Bool.and_eq_true_iff,Bool.and_eq_true_iff] at hready
    exact hready.1
  turns n := by
    rw [fll_req_eq]
    exact (h.sound n).fourPhase (hlegal.2 n)
  own n hreq := by
    have hon := h.asking hlegal ((fll_req_iff w.unit n).mp hreq).1
    exact ⟨hon.2.2.1,hon.2.2.2,link_of_req hreq⟩
  constant n hlast hreq := by
    have hon := h.asking hlegal ((fll_req_iff w.unit n).mp hreq).1
    rcases h.carried n hlast with ⟨a,hacc,hlink⟩
    have ha := hacc.symm.trans hon.2.2.1
    rw [Option.some.injEq] at ha
    rw [link_of_req hreq,hlink,ha]
    exact ⟨rfl,rfl,rfl⟩
  once hdone n := by
    have hboth := Bool.and_eq_true_iff.mp (Bool.and_eq_true_iff.mp hdone).1
    have hpending := hlegal.1.pending hboth.1 hboth.2
    rw [h.raises_eq hpending,h.req_of_completes hlegal hdone,Bool.or_false]
    refine if_congr ⟨fun hlast => ?_,fun htarget => ?_⟩ rfl rfl
    · have hsound := h.sound n
      rw [hlast] at hsound
      exact (h.asking hlegal ((stage_asks_iff _ _).mp hsound.asks_of_req)).2.2.2
    · have hon := h.completes_target hlegal hdone htarget
      exact ((h.sound n).acknowledged (hlegal.2 n) ((stage_asks_iff _ _).mpr hon.1) hon.2).1
  done hdone n htarget := by
    have hon := h.completes_target hlegal hdone htarget
    have hboth := Bool.and_eq_true_iff.mp (Bool.and_eq_true_iff.mp hdone).1
    rcases (h.sound n).acknowledged (hlegal.2 n) ((stage_asks_iff _ _).mpr hon.1) hon.2 with
      ⟨hreq,-,hack⟩
    refine ⟨hreq,h.req_of_completes hlegal hdone n,hack,fun hread => ?_⟩
    unfold PRDATA read_data
    rw [hboth.1,hboth.2,hread,htarget]
    rfl

/-- A request that is up is of an access that stays on. -/
theorem Inv.stays (h : w.Inv) (hlegal : w.Legal i) {n : Fin 3} (hreq : fll_req w.unit n=true) :
    (w.step i).access=some i.access := by
  have hon := h.asking hlegal ((fll_req_iff w.unit n).mp hreq).1
  have hnot : w.completes i=false := by
    by_contra hdone
    have hlow := h.req_of_completes hlegal (Bool.not_eq_false _ ▸ hdone) n
    exact absurd (hreq.symm.trans hlow) nofun
  exact (hlegal.1.stays (hon.2.2.1.trans_ne nofun) hnot).1.trans hon.2.2.1

/-- An access whose handshake has a late acknowledge is complete. -/
theorem Inv.completes_of_sync (h : w.Inv) (hlegal : w.Legal i) {n : Fin 3}
    (hstate : w.unit.state=.CVP_PHASE1 n) (hsync : w.unit.fll_ack_sync n=true) :
    w.completes i=true := by
  have hon := h.asking hlegal hstate
  have hvalid := (rvalid_iff w.unit).mpr ⟨n,hstate,hsync⟩
  rw [completes,Lines.completes,PREADY_eq,hvalid,hon.1,hon.2.1,Bool.or_true]
  rfl

/-- A handshake that is on in the next cycle is that of an access that stays on. -/
theorem Inv.step_asks (h : w.Inv) (hlegal : w.Legal i) {n : Fin 3}
    (hstate : state_next w.unit i=.CVP_PHASE1 n) :
    ∃ a, (w.step i).access=some a ∧ target a=some n := by
  unfold state_next at hstate
  cases hnow : w.unit.state with
  | IDLE =>
    have hbegins : begins i=some n := by
      cases hbegins : begins i with
      | none => simp [hnow,hbegins] at hstate
      | some m => simpa [hnow,hbegins] using hstate
    have hon := (begins_eq_some_iff i n).mp hbegins
    have hpending := hlegal.1.pending hon.1 hon.2.1
    have hnot : w.completes i=false := by
      rw [completes,Lines.completes,PREADY_eq,hon.2.2,rvalid,hnow]
      simp
    have hacc := (hlegal.1.enabled hpending).2.2
    exact ⟨i.access,(hlegal.1.stays hpending hnot).1.trans hacc,hon.2.2⟩
  | CVP_PHASE1 m =>
    cases hsync : w.unit.fll_ack_sync m with
    | true => simp [hnow,hsync] at hstate
    | false =>
      have hm : m=n := by simpa [hnow,hsync] using hstate
      subst hm
      exact ⟨i.access,h.stays hlegal ((fll_req_iff _ _).mpr ⟨hnow,hsync⟩),
        (h.asking hlegal hnow).2.2.2⟩
  | CVP_PHASE2 m =>
    cases hsync : w.unit.fll_ack_sync m <;> simp [hnow,hsync] at hstate

/-- Requests that are up are counted with the access that is on. -/
theorem Inv.step_raised (h : w.Inv) (hlegal : w.Legal i) (hpending : (w.step i).access≠none)
    (n : Fin 3) : (w.step i).raised n=if fll_req w.unit n=true then 1 else 0 := by
  have hraised : (w.step i).raised n=if i.setsUp then 0 else w.raises n := rfl
  rw [hraised]
  by_cases hnone : w.access=none
  · have hlow : ¬fll_req w.unit n=true := fun hreq =>
      absurd (hnone.symm.trans (h.asking hlegal ((fll_req_iff _ _).mp hreq).1).2.2.1) nofun
    rw [hlegal.1.setsUp hnone hpending,if_pos rfl,if_neg hlow]
  · rw [hlegal.1.not_setsUp hnone,if_neg Bool.false_ne_true,h.raises_eq hnone]
    refine if_congr ?_ rfl rfl
    rw [Bool.or_eq_true_iff]
    refine or_iff_right_of_imp fun hlast => ?_
    have hsound := h.sound n
    rw [hlast] at hsound
    have hstate := (stage_asks_iff _ _).mp hsound.asks_of_req
    refine (fll_req_iff _ _).mpr ⟨hstate,?_⟩
    by_contra hsync
    have hdone := h.completes_of_sync hlegal hstate (Bool.not_eq_false _ ▸ hsync)
    exact hpending (Begun.step_access_of_completes hdone)

/-- One cycle keeps the handshakes in their stages. -/
theorem Inv.step (h : w.Inv) (hlegal : w.Legal i) : (w.step i).Inv where
  sound n := by
    have hstep := (h.sound n).step (hlegal.2 n) (stage_next w.unit i n)
    rw [←fll_req_eq,←h.sync0 n] at hstep
    exact hstep
  sync0 _ := rfl
  asks _ hstate := h.step_asks hlegal hstate
  carried _ hlast := ⟨i.access,h.stays hlegal hlast,link_of_req hlast⟩
  raised hpending n := h.step_raised hlegal hpending n

section Progress

variable {env : ℕ → Input APB_ADDR_WIDTH}

/-- The bus in every cycle of an endless run. -/
def run (env : ℕ → Input APB_ADDR_WIDTH) (t : ℕ) : Bus APB_ADDR_WIDTH :=
  states Bus.step (Bus.reset APB_ADDR_WIDTH) env t

/-- Each FLL follows the level of its request after some time. -/
def Answering (env : ℕ → Input APB_ADDR_WIDTH) : Prop :=
  ∀ t n, ∃ m, (env (t+m)).fll_ack n=fll_req (run env t).unit n

/-- Acknowledges are seen two clocks late. -/
theorem run_sync (t : ℕ) (n : Fin 3) :
    (run env (t+2)).unit.fll_ack_sync n=(env t).fll_ack n := rfl

variable (hlegal : ∀ t, (run env t).Legal (env t)) (hanswer : Answering env)
include hlegal

theorem run_inv (t : ℕ) : (run env t).Inv := by
  induction t with
  | zero => exact Inv.reset
  | succ t ih => exact ih.step (hlegal t)

/-- An access stays on until it is complete. -/
theorem run_stays {t : ℕ} (hpending : (run env t).access≠none)
    (hnot : (run env t).completes (env t)=false) :
    (run env (t+1)).access≠none ∧ (run env (t+1)).number=(run env t).number :=
  have hstays := (hlegal t).1.stays hpending hnot
  ⟨hstays.1.trans_ne hpending,hstays.2⟩

include hanswer

/-- An access whose handshake is on is complete after some time. -/
theorem asking_completes {t : ℕ} {n : Fin 3} (hstate : (run env t).unit.state=.CVP_PHASE1 n) :
    ∃ u, t ≤ u ∧ (run env u).completes (env u)=true ∧ (run env u).number=(run env t).number := by
  have hinv := run_inv hlegal
  have hgo : ∃ m, (run env (t+m)).unit.fll_ack_sync n=true := by
    by_cases hsync : (run env t).unit.fll_ack_sync n=true
    · exact ⟨0,hsync⟩
    · rcases hanswer t n with ⟨m,hm⟩
      have hreq := (fll_req_iff _ n).mpr ⟨hstate,Bool.not_eq_true _ ▸ hsync⟩
      exact ⟨m+2,(run_sync (t+m) n).trans (hm.trans hreq)⟩
  have hwait : ∀ u, ((run env u).unit.state=.CVP_PHASE1 n ∧
        (run env u).number=(run env t).number) → ¬(run env u).unit.fll_ack_sync n=true →
      (run env (u+1)).unit.state=.CVP_PHASE1 n ∧
        (run env (u+1)).number=(run env t).number := by
    rintro u ⟨hu,hnumber⟩ hsync
    have hreq := (fll_req_iff _ n).mpr ⟨hu,Bool.not_eq_true _ ▸ hsync⟩
    have hnot : (run env u).completes (env u)=false := by
      by_contra hdone
      have hlow := (hinv u).req_of_completes (hlegal u) (Bool.not_eq_false _ ▸ hdone) n
      exact absurd (hreq.symm.trans hlow) nofun
    have hpending : (run env u).access≠none :=
      ((hinv u).asking (hlegal u) hu).2.2.1.trans_ne (Option.some_ne_none _)
    refine ⟨?_,(run_stays hlegal hpending hnot).2.trans hnumber⟩
    show state_next (run env u).unit (env u)=_
    simp [state_next,hu,hsync]
  rcases states_until (W:=fun w : Bus APB_ADDR_WIDTH => w.unit.state=.CVP_PHASE1 n ∧
    w.number=(run env t).number) (G:=fun u => (run env u).unit.fll_ack_sync n=true) hwait
    ⟨hstate,rfl⟩ hgo with ⟨u,htu,⟨hu,hnumber⟩,hsync⟩
  exact ⟨u,htu,(hinv u).completes_of_sync (hlegal u) hu hsync,hnumber⟩

/-- An access that is on while no handshake is, is complete or begins its own. -/
theorem idle_completes {t : ℕ} (hpending : (run env t).access≠none)
    (hstate : (run env t).unit.state=.IDLE) :
    ∃ u, t ≤ u ∧ (run env u).completes (env u)=true ∧ (run env u).number=(run env t).number := by
  by_cases hdone : (run env t).completes (env t)=true
  · exact ⟨t,Nat.le_refl t,hdone,rfl⟩
  · have hon := (hlegal t).1.enabled hpending
    rcases htarget : target (env t).access with _ | n
    · refine absurd ?_ hdone
      rw [completes,Lines.completes,PREADY_eq,hon.1,hon.2.1,htarget]
      rfl
    · have hbegins := (begins_eq_some_iff (env t) n).mpr ⟨hon.1,hon.2.1,htarget⟩
      have hnext : (run env (t+1)).unit.state=.CVP_PHASE1 n := by
        show state_next (run env t).unit (env t)=_
        simp [state_next,hstate,hbegins]
      have hnumber := (run_stays hlegal hpending (Bool.not_eq_true _ ▸ hdone)).2
      rcases asking_completes hlegal hanswer hnext with ⟨u,hu,hcomplete,hsame⟩
      exact ⟨u,Nat.le_of_succ_le hu,hcomplete,hsame.trans hnumber⟩

/-- An access that is on is complete after some time. -/
theorem pending_completes {t : ℕ} (hpending : (run env t).access≠none) :
    ∃ u, t ≤ u ∧ (run env u).completes (env u)=true ∧ (run env u).number=(run env t).number := by
  cases hstate : (run env t).unit.state with
  | IDLE => exact idle_completes hlegal hanswer hpending hstate
  | CVP_PHASE1 n => exact asking_completes hlegal hanswer hstate
  | CVP_PHASE2 n =>
    have hlow : fll_req (run env t).unit n=false := by
      unfold fll_req
      rw [hstate]
    have hgo : ∃ m, (run env (t+m)).completes (env (t+m))=true ∨
        (run env (t+m)).unit.fll_ack_sync n=false := by
      rcases hanswer t n with ⟨m,hm⟩
      exact ⟨m+2,Or.inr ((run_sync (t+m) n).trans (hm.trans hlow))⟩
    have hwait : ∀ u, ((run env u).unit.state=.CVP_PHASE2 n ∧ (run env u).access≠none ∧
          (run env u).number=(run env t).number) →
        ¬((run env u).completes (env u)=true ∨ (run env u).unit.fll_ack_sync n=false) →
        (run env (u+1)).unit.state=.CVP_PHASE2 n ∧ (run env (u+1)).access≠none ∧
          (run env (u+1)).number=(run env t).number := by
      rintro u ⟨hu,hpend,hnumber⟩ hno
      rw [not_or,Bool.not_eq_true,Bool.not_eq_false] at hno
      have hstays := run_stays hlegal hpend hno.1
      refine ⟨?_,hstays.1,hstays.2.trans hnumber⟩
      show state_next (run env u).unit (env u)=_
      simp [state_next,hu,hno.2]
    rcases states_until (W:=fun w : Bus APB_ADDR_WIDTH => w.unit.state=.CVP_PHASE2 n ∧
      w.access≠none ∧ w.number=(run env t).number) (G:=fun u =>
        (run env u).completes (env u)=true ∨ (run env u).unit.fll_ack_sync n=false) hwait
      ⟨hstate,hpending,rfl⟩ hgo with ⟨u,htu,⟨hu,hpend,hnumber⟩,hor⟩
    by_cases hdone : (run env u).completes (env u)=true
    · exact ⟨u,htu,hdone,hnumber⟩
    · -- the acknowledge is gone, so the access finds no handshake in the next cycle
      have hsync := hor.resolve_left hdone
      have hstays := run_stays hlegal hpend (Bool.not_eq_true _ ▸ hdone)
      have hidle : (run env (u+1)).unit.state=.IDLE := by
        change (run env u).unit.state=.CVP_PHASE2 n at hu
        show state_next (run env u).unit (env u)=_
        simp [state_next,hu,hsync]
      rcases idle_completes hlegal hanswer hstays.1 hidle with ⟨v,hv,hcomplete,hsame⟩
      exact ⟨v,htu.trans (Nat.le_of_succ_le hv),hcomplete,hsame.trans (hstays.2.trans hnumber)⟩

end Progress

end Bus

/-- In all runs of a master that plays by the rules and FLLs whose acknowledges follow the requests:
all handshakes keep to their turns and say what the access says, each access to an FLL has one
of them, with that FLL, and is complete once, while the acknowledge of it is high, with what the
FLL shows then. Where the FLLs answer after some time, each access is complete after some time. -/
theorem handshakes :
    (∀ is : List (Input APB_ADDR_WIDTH),
      Meets Bus.step Bus.Legal (Bus.reset APB_ADDR_WIDTH) is →
        Meets Bus.step Bus.Right (Bus.reset APB_ADDR_WIDTH) is ∧
        (if (after Bus.step (Bus.reset APB_ADDR_WIDTH) is).access.isSome=true then 1 else 0)+
            count Bus.step Bus.completes (Bus.reset APB_ADDR_WIDTH) is=
          count Bus.step (fun _ i => i.setsUp) (Bus.reset APB_ADDR_WIDTH) is) ∧
    ∀ env : ℕ → Input APB_ADDR_WIDTH, (∀ t, (Bus.run env t).Legal (env t)) →
      Bus.Answering env → ∀ t, (Bus.run env t).access≠none →
        ∃ u, t ≤ u ∧ (Bus.run env u).completes (env u)=true ∧
          (Bus.run env u).number=(Bus.run env t).number := by
  have hstep : ∀ (w : Bus APB_ADDR_WIDTH) i, w.Inv → w.Legal i → (w.step i).Inv :=
    fun w i h hc => h.step hc
  constructor
  · intro is hmeets
    refine ⟨meets_of_meets hstep (fun w i h hc => h.right hc) Bus.Inv.reset hmeets,?_⟩
    have hledger := count_ledger_of_meets (I:=fun _ (i : Input APB_ADDR_WIDTH) => i.setsUp)
      (O:=Bus.completes) (fun w : Bus APB_ADDR_WIDTH => if w.access.isSome=true then 1 else 0) hstep
      (fun w i _ hc => hc.1.balance) Bus.Inv.reset hmeets
    exact hledger.trans (Nat.zero_add _)
  · exact fun env hlegal hanswer t hpending => Bus.pending_completes hlegal hanswer hpending

/-- A read of the first FLL, which acknowledges in the cycle after the request. -/
def oneRead (t : ℕ) : Input 32 where
  access := ⟨4,0,false⟩
  PSEL := decide (t<6)
  PENABLE := decide (0<t)
  fll_ack n := n==0 && decide (3 ≤ t) && decide (t<6)
  fll_r_data _ := 7
  fll_lock _ := false

/-- After the read no other handshake begins. -/
theorem oneRead_rest (k : ℕ) : ∀ n, (Bus.run oneRead (k+6)).unit.state≠.CVP_PHASE1 n := by
  induction k with
  | zero => decide
  | succ k ih =>
    intro n
    have hbegins : begins (oneRead (k+6))=none := by
      have hlate : ¬k+6<6 := by omega
      simp [begins,fll_access,fll_rd_access,fll_wr_access,oneRead,hlate]
    show state_next (Bus.run oneRead (k+6)).unit (oneRead (k+6))≠_
    unfold state_next
    cases hstate : (Bus.run oneRead (k+6)).unit.state with
    | IDLE => simp [hbegins]
    | CVP_PHASE1 m => exact absurd hstate (ih m)
    | CVP_PHASE2 m =>
      by_cases hsync : (Bus.run oneRead (k+6)).unit.fll_ack_sync m=true <;> simp [hsync]

theorem oneRead_legal (t : ℕ) : (Bus.run oneRead t).Legal (oneRead t) := by
  by_cases hearly : t<7
  · have hall : ∀ t<7, (Bus.run oneRead t).Legal (oneRead t) := by decide
    exact hall t hearly
  · obtain ⟨k,rfl⟩ : ∃ k, t=k+6+1 := ⟨t-7,by omega⟩
    have hnone : (Bus.run oneRead (k+6+1)).access=none :=
      Begun.step_access_of_unselected (l:=(oneRead (k+6)).toLines) (by simp [oneRead])
    refine ⟨⟨fun _ => ?_,fun hpending => absurd hnone hpending⟩,fun n => ?_⟩
    · simp [oneRead]
    · have hlast : ((Bus.run oneRead (k+6+1)).last n).ack=false := by
        show (oneRead (k+6)).fll_ack n=false
        simp [oneRead]
      intro hne
      rw [hlast] at hne
      exact absurd hne (by simp [oneRead])

theorem oneRead_answers : Bus.Answering oneRead := by
  intro t n
  by_cases hearly : t<6
  · have hall : ∀ t<6, ∀ n, ∃ m<7, (oneRead (t+m)).fll_ack n=fll_req (Bus.run oneRead t).unit n := by
      decide
    rcases hall t hearly n with ⟨m,-,hm⟩
    exact ⟨m,hm⟩
  · obtain ⟨k,rfl⟩ : ∃ k, t=k+6 := ⟨t-6,by omega⟩
    have hlow : fll_req (Bus.run oneRead (k+6)).unit n=false := by
      by_contra hreq
      exact oneRead_rest k n ((fll_req_iff _ n).mp (Bool.not_eq_false _ ▸ hreq)).1
    refine ⟨0,?_⟩
    rw [hlow]
    simp [oneRead]

theorem handshakes_one_read :
    (Meets Bus.step Bus.Right (Bus.reset 32) ((List.range 10).map oneRead) ∧
      (if (after Bus.step (Bus.reset 32) ((List.range 10).map oneRead)).access.isSome=true then 1
          else 0)+count Bus.step Bus.completes (Bus.reset 32) ((List.range 10).map oneRead)=
        count Bus.step (fun _ i => i.setsUp) (Bus.reset 32) ((List.range 10).map oneRead)) ∧
    ∀ t, (Bus.run oneRead t).access≠none → ∃ u, t ≤ u ∧
      (Bus.run oneRead u).completes (oneRead u)=true ∧
        (Bus.run oneRead u).number=(Bus.run oneRead t).number :=
  ⟨handshakes.1 _ (by decide),handshakes.2 oneRead oneRead_legal oneRead_answers⟩

end Pulpissimo.Apb.FllIf
