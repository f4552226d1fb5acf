import Mathlib.Data.BitVec
import Pulpissimo.Lib.Machine

/-!
# Accesses of 64 bits on two ports of 32 bits

`lint64_to_32` gives a request of 64 bits to both of its ports and one of 32 bits to the port of
its address bit 2. A request is taken in the cycle that answers the last one, too. Behind the
states in which the answer of one port was sampled, the grants are not masked, so that the other
port of a short request is waited for; and the answer of a port is taken as sampled whether it
came or not. Without both, every request has its accesses and one answer.
-/

namespace Pulpissimo.Interco.Lint64To32

open Pulpissimo.Machine

/-- States. A port is named by its address bit. -/
inductive Phase where
  | IDLE
  /-- `WAIT_GNT_1` and `WAIT_GNT_0`. -/
  | WAIT_GNT (port : Bool)
  | DISPATCH
  /-- `DISPATCH_0_SAMPL` and `DISPATCH_1_SAMPL`, by the port that is sampled. -/
  | DISPATCH_SAMPL (port : Bool)
deriving DecidableEq

/-- A request. -/
structure Request where
  data_wdata_i : BitVec 64
  data_add_i : BitVec 32
  data_wen_i : Bool
  data_be_i : BitVec 8
  /-- The request is for 64 bits. -/
  data_size_i : Bool
deriving DecidableEq

/-- An access of a port. -/
structure Access where
  data_wdata_o : BitVec 32
  data_add_o : BitVec 32
  data_wen_o : Bool
  data_be_o : BitVec 4
deriving DecidableEq

/-- Registers. -/
structure State where
  CS : Phase
  data_r_rdata_q : Bool → BitVec 32
  /-- `size_offset_info[1]`. -/
  size_info : Bool
  /-- `size_offset_info[0]`. -/
  offset_info : Bool
  rvalid_mask : Bool → Bool

/-- One cycle of inputs. -/
structure Input where
  data_req_i : Bool
  request : Request
  data_gnt_i : Bool → Bool
  data_r_valid_i : Bool → Bool
  data_r_rdata_i : Bool → BitVec 32

/-- Values after reset. -/
def reset : State := ⟨.IDLE,fun _ => 0,false,false,fun _ => false⟩

section Request

variable (r : Request) (p : Bool)

/-- Half of a word of 64 bits. -/
def half (p : Bool) (x : BitVec 64) : BitVec 32 := x.extractLsb' (32*p.toNat) 32

def offset : Bool := r.data_add_i.getLsbD 2

/-- `gnt_mask` where it is set. -/
def gnt_mask : Bool := !r.data_size_i && offset r != p

def data_add_o : BitVec 32 :=
  if r.data_size_i then (r.data_add_i &&& ~~~7)+(if p then 4 else 0) else r.data_add_i

def access : Access :=
  ⟨half p r.data_wdata_i,data_add_o r p,r.data_wen_i,r.data_be_i.extractLsb' (4*p.toNat) 4⟩

end Request

section Code

variable (s : State) (i : Input)

/-- `data_req_o` of a request that may be taken. -/
def asks (p : Bool) : Bool := i.data_req_i && !gnt_mask i.request p

/-- The last request is answered in this cycle. -/
def completes : Bool :=
  match s.CS with
  | .DISPATCH =>
    (i.data_r_valid_i true || s.rvalid_mask true) && (i.data_r_valid_i false || s.rvalid_mask false)
  | .DISPATCH_SAMPL p => i.data_r_valid_i (!p)
  | _ => false

/-- A request may be taken. -/
def accepts : Bool := s.CS==.IDLE || completes s i

def data_req_o (p : Bool) : Bool :=
  match s.CS with
  | .WAIT_GNT q => p==q
  | _ => accepts s i && asks i p

/-- The grants by which a request is taken. -/
def grants (p : Bool) : Bool :=
  match s.CS with
  | .DISPATCH_SAMPL _ => i.data_gnt_i p
  | _ => i.data_gnt_i p || gnt_mask i.request p

def data_gnt_o : Bool :=
  match s.CS with
  | .WAIT_GNT p => i.data_gnt_i p
  | _ => accepts s i && i.data_req_i && grants s i false && grants s i true

def update_rvalid_mask : Bool :=
  match s.CS with
  | .WAIT_GNT _ => false
  | _ => accepts s i && i.data_req_i && (grants s i false || grants s i true)

/-- The next state where a request may be taken. -/
def taken : Phase :=
  if i.data_req_i then
    match grants s i true,grants s i false with
    | false,false => .IDLE
    | false,true => .WAIT_GNT true
    | true,false => .WAIT_GNT false
    | true,true => .DISPATCH
  else .IDLE

def NS : Phase :=
  match s.CS with
  | .IDLE => taken s i
  | .WAIT_GNT p => if i.data_gnt_i p then .DISPATCH_SAMPL (!p) else .WAIT_GNT p
  | .DISPATCH =>
    if completes s i then taken s i
    else
      match i.data_r_valid_i true || s.rvalid_mask true,
        i.data_r_valid_i false || s.rvalid_mask false with
      | true,false => .DISPATCH_SAMPL true
      | false,true => .DISPATCH_SAMPL false
      | _,_ => .DISPATCH
  | .DISPATCH_SAMPL p => if completes s i then taken s i else .DISPATCH_SAMPL p

def data_r_valid_o : Bool := completes s i

def data_r_rdata_o : BitVec 64 :=
  match s.CS with
  | .DISPATCH =>
    if s.size_info then i.data_r_rdata_i true++i.data_r_rdata_i false
    else if s.offset_info then i.data_r_rdata_i true++(0 : BitVec 32)
    else (0 : BitVec 32)++i.data_r_rdata_i false
  | .DISPATCH_SAMPL false => i.data_r_rdata_i true++s.data_r_rdata_q false
  | .DISPATCH_SAMPL true => s.data_r_rdata_q true++i.data_r_rdata_i false
  | _ => i.data_r_rdata_i true++i.data_r_rdata_i false

/-- One clock edge. -/
def step : State where
  CS := NS s i
  data_r_rdata_q := fun p => if i.data_r_valid_i p then i.data_r_rdata_i p else s.data_r_rdata_q p
  size_info := if i.data_req_i && data_gnt_o s i then i.request.data_size_i else s.size_info
  offset_info := if i.data_req_i && data_gnt_o s i then offset i.request else s.offset_info
  rvalid_mask := fun p =>
    if update_rvalid_mask s i then gnt_mask i.request p else s.rvalid_mask p

end Code

/-- What came in and went out. -/
structure Ledger where
  /-- The request that is held until it is granted. -/
  pending : Option Request
  granted : List Request
  /-- Accesses that the ports granted. -/
  accesses : Bool → List Access
  answers : Bool → List (BitVec 32)
  /-- The data of the pulses of `data_r_valid_o`. -/
  pulses : List (BitVec 64)

section Ledger

variable (s : State) (i : Input)

def pendingNow : Option Request :=
  if i.data_req_i && !data_gnt_o s i then some i.request else none

def grantedNow : List Request := if i.data_req_i && data_gnt_o s i then [i.request] else []

def accessesNow (p : Bool) : List Access :=
  if data_req_o s i p && i.data_gnt_i p then [access i.request p] else []

def answersNow (p : Bool) : List (BitVec 32) :=
  if i.data_r_valid_i p then [i.data_r_rdata_i p] else []

def pulsesNow : List (BitVec 64) := if data_r_valid_o s i then [data_r_rdata_o s i] else []

def Ledger.next (o : Ledger) : Ledger where
  pending := pendingNow s i
  granted := o.granted++grantedNow s i
  accesses := fun p => o.accesses p++accessesNow s i p
  answers := fun p => o.answers p++answersNow i p
  pulses := o.pulses++pulsesNow s i

end Ledger

/-- Registers and ledger. -/
abbrev Watched := State×Ledger

def start : Watched := (reset,⟨none,[],fun _ => [],fun _ => [],[]⟩)

def watch (w : Watched) (i : Input) : Watched := (step w.1 i,w.2.next w.1 i)

/-- The accesses of a request on a port. -/
def needs (p : Bool) (r : Request) : List Access := if gnt_mask r p then [] else [access r p]

/-- The answers of a port in the data of a request. -/
def gives (p : Bool) (x : Request×BitVec 64) : List (BitVec 32) :=
  if gnt_mask x.1 p then [] else [half p x.2]

/-- The cycles in which the requests and the ports keep to their rules. -/
structure Follows (w : Watched) (i : Input) : Prop where
  /-- A request is held until it is granted. -/
  held : ∀ r ∈ w.2.pending,i.data_req_i=true ∧ i.request=r
  /-- Answers are for accesses that were granted. -/
  answered : ∀ p,i.data_r_valid_i p=true → (w.2.answers p).length < (w.2.accesses p).length

/-- The cycles in which the states with a sampled answer do no harm. -/
structure Clean (w : Watched) (i : Input) : Prop extends Follows w i where
  /-- A short request is not granted there by its own port alone. -/
  alone : ∀ p,w.1.CS=.DISPATCH_SAMPL p → completes w.1 i=true → i.data_req_i=true →
    i.request.data_size_i=false → i.data_gnt_i (offset i.request)=true →
      i.data_gnt_i (!offset i.request)=true
  /-- The port that is taken as sampled answered before the other one does. -/
  sampled : ∀ p,w.1.CS=.DISPATCH_SAMPL p → i.data_r_valid_i (!p)=true →
    (w.2.answers p).length=(w.2.accesses p).length

instance (w : Watched) (i : Input) : Decidable (Follows w i) :=
  decidable_of_iff
    ((∀ r ∈ w.2.pending,i.data_req_i=true ∧ i.request=r) ∧
      ∀ p,i.data_r_valid_i p=true → (w.2.answers p).length < (w.2.accesses p).length)
    ⟨fun ⟨h₁,h₂⟩ => ⟨h₁,h₂⟩,fun ⟨h₁,h₂⟩ => ⟨h₁,h₂⟩⟩

instance (w : Watched) (i : Input) : Decidable (Clean w i) :=
  decidable_of_iff
    (Follows w i ∧
      (∀ p,w.1.CS=.DISPATCH_SAMPL p → completes w.1 i=true → i.data_req_i=true →
        i.request.data_size_i=false → i.data_gnt_i (offset i.request)=true →
          i.data_gnt_i (!offset i.request)=true) ∧
      ∀ p,w.1.CS=.DISPATCH_SAMPL p → i.data_r_valid_i (!p)=true →
        (w.2.answers p).length=(w.2.accesses p).length)
    ⟨fun ⟨h₁,h₂,h₃⟩ => ⟨h₁,h₂,h₃⟩,fun ⟨h₁,h₂,h₃⟩ => ⟨h₁,h₂,h₃⟩⟩

/-- Every granted request has its accesses and one answer. -/
structure Issues (w : Watched) : Prop where
  /-- The accesses are those of the requests; while one port is waited for, the other one has that
  of the request that is held. -/
  accesses : ∀ p,w.2.accesses p=w.2.granted.flatMap (needs p)++
    if w.1.CS=.WAIT_GNT (!p) then w.2.pending.toList.flatMap (needs p) else []
  /-- The answers of a port are in the pulses of its requests, in order, but for those of the last
  request. -/
  answers : ∀ p,∃ rest,w.2.answers p=(w.2.granted.zip w.2.pulses).flatMap (gives p)++rest ∧
    rest.length ≤ 1
  /-- There is one pulse for each request, but for the last one while it is to be answered. -/
  pulses : w.2.pulses.length ≤ w.2.granted.length ∧ w.2.granted.length ≤ w.2.pulses.length+1
  /-- The last request is answered when its accesses are. -/
  answered : (∀ p,(w.2.answers p).length=(w.2.accesses p).length) →
    w.2.pulses.length=w.2.granted.length

section Stage

/-- The answer of a port came and is kept, or it did not come. -/
def Kept (s : State) (r : Request) (p : Bool) (got : List (BitVec 32)) : Prop :=
  got=[] ∨ (gnt_mask r p=false ∧ got=[s.data_r_rdata_q p])

/-- One port of the request `r` is waited for. -/
structure Waits (s : State) (pending : Option Request) (last : List Request)
    (acc : Bool → List Access) (got : Bool → List (BitVec 32)) (p : Bool) (r : Request) : Prop where
  state : s.CS=.WAIT_GNT p
  pending : pending=some r
  last : last=[]
  needed : gnt_mask r p=false
  none : acc p=[] ∧ got p=[]
  other : acc (!p)=needs (!p) r ∧ Kept s r (!p) (got (!p))

/-- No answer of the request `r` came. -/
structure Dispatches (s : State) (last : List Request) (acc : Bool → List Access)
    (got : Bool → List (BitVec 32)) (r : Request) : Prop where
  state : s.CS=.DISPATCH
  last : last=[r]
  accs : ∀ p,acc p=needs p r
  gots : ∀ p,got p=[]
  mask : ∀ p,s.rvalid_mask p=gnt_mask r p
  info : s.size_info=r.data_size_i ∧ s.offset_info=offset r

/-- One port of the request `r` is sampled, the other one has not answered. -/
structure Samples (s : State) (last : List Request) (acc : Bool → List Access)
    (got : Bool → List (BitVec 32)) (p : Bool) (r : Request) : Prop where
  state : s.CS=.DISPATCH_SAMPL p
  last : last=[r]
  needed : gnt_mask r (!p)=false
  accs : ∀ q,acc q=needs q r
  kept : Kept s r p (got p)
  none : got (!p)=[]

/-- The request that is not answered: what it asked for and what it got. -/
inductive Stage (s : State) (pending : Option Request) (last : List Request)
    (acc : Bool → List Access) (got : Bool → List (BitVec 32)) : Prop where
  | idle (hstate : s.CS=.IDLE) (hlast : last=[]) (hacc : ∀ p,acc p=[]) (hgot : ∀ p,got p=[])
  | wait (p : Bool) (r : Request) (h : Waits s pending last acc got p r)
  | dispatch (r : Request) (h : Dispatches s last acc got r)
  | sampl (p : Bool) (r : Request) (h : Samples s last acc got p r)

variable {s : State} {i : Input}

theorem needs_of_mask {r : Request} {p : Bool} (h : gnt_mask r p=true) : needs p r=[] := if_pos h

theorem needs_of_unmasked {r : Request} {p : Bool} (h : gnt_mask r p=false) :
    needs p r=[access r p] :=
  if_neg (Bool.eq_false_iff.mp h)

/-- A request may be taken in one way in all states. -/
theorem accepts_eq (h : accepts s i=true) :
    NS s i=taken s i ∧ (∀ p,data_req_o s i p=asks i p) ∧
      data_gnt_o s i=(i.data_req_i && grants s i false && grants s i true) ∧
      update_rvalid_mask s i=(i.data_req_i && (grants s i false || grants s i true)) := by
  unfold NS data_req_o data_gnt_o update_rvalid_mask
  cases hstate : s.CS with
  | WAIT_GNT p =>
    rw [accepts,completes,hstate] at h
    exact absurd h Bool.false_ne_true
  | IDLE => simp only [h,Bool.true_and,implies_true,and_self]
  | DISPATCH =>
    have hdone : completes s i=true := by
      rw [accepts,hstate] at h
      exact h
    simp only [h,hdone,Bool.true_and,if_true,implies_true,and_self]
  | DISPATCH_SAMPL p =>
    have hdone : completes s i=true := by
      rw [accepts,hstate] at h
      exact h
    simp only [h,hdone,Bool.true_and,if_true,implies_true,and_self]

/-- What is taken, if the grants are those of the ports of the request. -/
theorem stage_taken (h : accepts s i=true)
    (hown : ∀ p,gnt_mask i.request p=false → grants s i p=i.data_gnt_i p)
    (hother : ∀ p,i.data_req_i=true → gnt_mask i.request p=true → grants s i (!p)=true →
      grants s i p=true) :
    Stage (step s i) (pendingNow s i) (grantedNow s i) (accessesNow s i) fun _ => [] := by
  rcases accepts_eq h with ⟨hNS,hreq,hgnt,hupdate⟩
  have hstate : (step s i).CS=taken s i := hNS
  have hacc : ∀ p,accessesNow s i p=
      if i.data_req_i && grants s i p then needs p i.request else [] := by
    intro p
    rw [accessesNow,hreq,asks]
    cases hmask : gnt_mask i.request p with
    | true =>
      rw [needs_of_mask hmask,ite_self]
      cases i.data_req_i <;> rfl
    | false =>
      rw [needs_of_unmasked hmask,hown p hmask,Bool.not_false,Bool.and_true]
  unfold taken at hstate
  cases hcmd : i.data_req_i with
  | false =>
    rw [hcmd] at hstate hgnt
    refine Stage.idle hstate ?_ (fun p => ?_) fun _ => rfl
    · rw [grantedNow,hcmd]
      rfl
    · rw [hacc,hcmd]
      rfl
  | true =>
    simp only [hcmd,Bool.true_and,if_true] at hstate hgnt hupdate hacc
    have hmask : ∀ p,(grants s i false || grants s i true)=true →
        (step s i).rvalid_mask p=gnt_mask i.request p := by
      intro p hany
      have hset : update_rvalid_mask s i=true := hupdate.trans hany
      unfold step
      dsimp only
      rw [hset,if_pos rfl]
    -- one port granted, the other one is waited for
    have hwait : ∀ p,grants s i p=false → grants s i (!p)=true →
        (step s i).CS=.WAIT_GNT p →
        Stage (step s i) (pendingNow s i) (grantedNow s i) (accessesNow s i) fun _ => [] := by
      intro p hp hq hnext
      have hno : data_gnt_o s i=false := by
        rw [hgnt]
        cases p with
        | false => rw [hp]; rfl
        | true => rw [hp]; exact Bool.and_false _
      have hneeded : gnt_mask i.request p=false := by
        rw [←Bool.not_eq_true]
        intro hmasked
        rw [hother p hcmd hmasked hq] at hp
        exact Bool.false_ne_true hp.symm
      refine Stage.wait p i.request ⟨hnext,?_,?_,hneeded,⟨?_,rfl⟩,?_,Or.inl rfl⟩
      · rw [pendingNow,hcmd,hno]
        rfl
      · rw [grantedNow,hcmd,hno]
        rfl
      · rw [hacc,hp]
        rfl
      · rw [hacc,hq]
        rfl
    cases hone : grants s i true <;> cases hzero : grants s i false
    · rw [hone,hzero] at hstate
      have hno : data_gnt_o s i=false := by rw [hgnt,hzero]; rfl
      refine Stage.idle hstate ?_ (fun p => ?_) fun _ => rfl
      · rw [grantedNow,hcmd,hno]
        rfl
      · rw [hacc]
        cases p with
        | false => rw [hzero]; rfl
        | true => rw [hone]; rfl
    · rw [hone,hzero] at hstate
      exact hwait true hone hzero hstate
    · rw [hone,hzero] at hstate
      exact hwait false hzero hone hstate
    · rw [hone,hzero] at hstate
      have hyes : data_gnt_o s i=true := by rw [hgnt,hzero,hone]; rfl
      refine Stage.dispatch i.request ⟨hstate,?_,fun p => ?_,fun _ => rfl,fun p => ?_,?_⟩
      · rw [grantedNow,hcmd,hyes]
        rfl
      · rw [hacc]
        cases p with
        | false => rw [hzero]; rfl
        | true => rw [hone]; rfl
      · exact hmask p (by rw [hzero]; rfl)
      · unfold step
        dsimp only
        rw [hcmd,hyes]
        exact ⟨rfl,rfl⟩

/-- One cycle of the request that is not answered: it may be answered, with its data, and another
one may be taken. -/
def Moves (s : State) (i : Input) (last : List Request) (acc : Bool → List Access)
    (got : Bool → List (BitVec 32)) : Prop :=
  ∃ (fin : List (Request×BitVec 64)) (last' : List Request) (acc' : Bool → List Access)
    (got' : Bool → List (BitVec 32)),
    last++grantedNow s i=fin.map Prod.fst++last' ∧ pulsesNow s i=fin.map Prod.snd ∧
      (∀ p,acc p++accessesNow s i p=fin.flatMap (fun x => needs p x.1)++acc' p) ∧
      (∀ p,got p++answersNow i p=fin.flatMap (gives p)++got' p) ∧
      Stage (step s i) (pendingNow s i) last' acc' got'

variable {pending : Option Request} {last : List Request} {acc : Bool → List Access}
  {got : Bool → List (BitVec 32)} {p : Bool} {r : Request}

@[simp] theorem half_true (x y : BitVec 32) : half true (x++y)=x :=
  BitVec.extractLsb'_append_eq_left

@[simp] theorem half_false (x y : BitVec 32) : half false (x++y)=y :=
  BitVec.extractLsb'_append_eq_right

theorem answersNow_of_not (h : i.data_r_valid_i p=false) : answersNow i p=[] :=
  if_neg (Bool.eq_false_iff.mp h)

/-- Nothing comes on a port that was not asked. -/
theorem not_valid (hvalid : i.data_r_valid_i p=true → (got p).length < (acc p).length)
    (hacc : acc p=[]) : i.data_r_valid_i p=false := by
  rw [←Bool.not_eq_true]
  intro hcame
  have hlt := hvalid hcame
  rw [hacc] at hlt
  exact Nat.not_lt_zero _ hlt

/-- An answer that comes is kept, if none came before. -/
theorem kept_step (hkept : Kept s r p (got p)) (hacc : acc p=needs p r)
    (hvalid : i.data_r_valid_i p=true → (got p).length < (acc p).length) :
    Kept (step s i) r p (got p++answersNow i p) := by
  cases hcame : i.data_r_valid_i p with
  | false =>
    have hsame : (step s i).data_r_rdata_q p=s.data_r_rdata_q p := by
      unfold step
      dsimp only
      rw [hcame]
      rfl
    rw [answersNow_of_not hcame,List.append_nil,Kept,hsame]
    exact hkept
  | true =>
    have hlt := hvalid hcame
    have hmask : gnt_mask r p=false := by
      rw [←Bool.not_eq_true]
      intro hmasked
      rw [hacc,needs_of_mask hmasked] at hlt
      exact Nat.not_lt_zero _ hlt
    rw [hacc,needs_of_unmasked hmask,List.length_singleton,Nat.lt_one_iff] at hlt
    refine Or.inr ⟨hmask,?_⟩
    unfold answersNow step
    dsimp only
    rw [List.length_eq_zero_iff.mp hlt,hcame]
    rfl

/-- A request that is answered makes room for another one. -/
theorem moves_done (hdone : completes s i=true) (hlast : last=[r])
    (hacc : ∀ p,acc p=needs p r)
    (hgot : ∀ p,got p++answersNow i p=gives p (r,data_r_rdata_o s i))
    (hstage : Stage (step s i) (pendingNow s i) (grantedNow s i) (accessesNow s i) fun _ => []) :
    Moves s i last acc got := by
  refine ⟨[(r,data_r_rdata_o s i)],grantedNow s i,accessesNow s i,fun _ => [],?_,?_,?_,?_,hstage⟩
  · rw [hlast]
    rfl
  · rw [pulsesNow,data_r_valid_o,hdone]
    rfl
  · intro p
    rw [hacc,List.flatMap_singleton]
  · intro p
    rw [hgot,List.flatMap_singleton,List.append_nil]

/-- A request that is not answered goes on. -/
theorem moves_on (hdone : completes s i=false)
    (hstage : Stage (step s i) (pendingNow s i) (last++grantedNow s i)
      (fun p => acc p++accessesNow s i p) fun p => got p++answersNow i p) :
    Moves s i last acc got := by
  refine ⟨[],_,_,_,rfl,?_,fun _ => rfl,fun _ => rfl,hstage⟩
  rw [pulsesNow,data_r_valid_o,hdone]
  rfl

/-- Where no answer is sampled, the grants are masked. -/
theorem grants_masked (hstate : ∀ p,s.CS≠.DISPATCH_SAMPL p) (p : Bool) :
    grants s i p=(i.data_gnt_i p || gnt_mask i.request p) := by
  unfold grants
  cases hcs : s.CS with
  | DISPATCH_SAMPL q => exact absurd hcs (hstate q)
  | _ => rfl

theorem stage_masked (haccepts : accepts s i=true) (hstate : ∀ p,s.CS≠.DISPATCH_SAMPL p) :
    Stage (step s i) (pendingNow s i) (grantedNow s i) (accessesNow s i) fun _ => [] := by
  refine stage_taken haccepts (fun p hmask => ?_) fun p _ hmask _ => ?_
  · rw [grants_masked hstate,hmask,Bool.or_false]
  · rw [grants_masked hstate,hmask,Bool.or_true]

/-- An idle bridge. -/
theorem moves_idle (hstate : s.CS=.IDLE) (hlast : last=[]) (hacc : ∀ p,acc p=[])
    (hgot : ∀ p,got p=[])
    (hvalid : ∀ p,i.data_r_valid_i p=true → (got p).length < (acc p).length) :
    Moves s i last acc got := by
  have haccepts : accepts s i=true := by
    rw [accepts,hstate]
    rfl
  have hdone : completes s i=false := by
    rw [completes,hstate]
  have hstage := stage_masked haccepts fun p => hstate ▸ Phase.noConfusion
  refine ⟨[],grantedNow s i,accessesNow s i,fun _ => [],?_,?_,fun p => ?_,fun p => ?_,hstage⟩
  · rw [hlast]
    rfl
  · rw [pulsesNow,data_r_valid_o,hdone]
    rfl
  · rw [hacc]
    rfl
  · rw [hgot,answersNow_of_not (not_valid (hvalid p) (hacc p))]
    rfl

/-- A port is waited for. -/
theorem Waits.moves (h : Waits s pending last acc got p r)
    (hheld : i.data_req_i=true ∧ i.request=r)
    (hvalid : ∀ p,i.data_r_valid_i p=true → (got p).length < (acc p).length) :
    Moves s i last acc got := by
  rcases hheld with ⟨hreq,hrequest⟩
  have hdone : completes s i=false := by rw [completes,h.state]
  have hquiet := answersNow_of_not (not_valid (hvalid p) h.none.1)
  have hkept := kept_step (i:=i) h.other.2 h.other.1 (hvalid _)
  have haccOther : accessesNow s i (!p)=[] := by
    have hno : data_req_o s i (!p)=false := by
      rw [data_req_o,h.state]
      cases p <;> rfl
    rw [accessesNow,hno]
    rfl
  have haccOwn : accessesNow s i p=if i.data_gnt_i p then needs p r else [] := by
    have hasks : data_req_o s i p=true := by
      rw [data_req_o,h.state]
      exact beq_self_eq_true p
    rw [accessesNow,hasks,hrequest,needs_of_unmasked h.needed]
    rfl
  have hgnt : data_gnt_o s i=i.data_gnt_i p := by rw [data_gnt_o,h.state]
  have hNS : (step s i).CS=if i.data_gnt_i p then .DISPATCH_SAMPL (!p) else .WAIT_GNT p := by
    show NS s i=_
    rw [NS,h.state]
  refine moves_on hdone ?_
  cases hgo : i.data_gnt_i p with
  | false =>
    rw [hgo] at hgnt hNS haccOwn
    refine Stage.wait p r ⟨hNS,?_,?_,h.needed,⟨?_,?_⟩,?_,hkept⟩
    · rw [pendingNow,hreq,hgnt,hrequest]
      rfl
    · rw [h.last,grantedNow,hreq,hgnt]
      rfl
    · rw [h.none.1,haccOwn]
      rfl
    · rw [h.none.2,hquiet]
      rfl
    · rw [haccOther,List.append_nil]
      exact h.other.1
  | true =>
    rw [hgo] at hgnt hNS haccOwn
    refine Stage.sampl (!p) r ⟨hNS,?_,?_,fun q => ?_,hkept,?_⟩
    · rw [h.last,grantedNow,hreq,hgnt,hrequest]
      rfl
    · rw [Bool.not_not]
      exact h.needed
    · rcases Bool.eq_or_eq_not q p with rfl | rfl
      · rw [h.none.1,haccOwn]
        rfl
      · rw [haccOther,List.append_nil]
        exact h.other.1
    · rw [Bool.not_not,h.none.2,hquiet]
      rfl

/-- Nothing is taken while the last request is not answered. -/
theorem nothing_taken (haccepts : accepts s i=false) (hstate : ∀ p,s.CS≠.WAIT_GNT p) :
    grantedNow s i=[] ∧ ∀ p,accessesNow s i p=[] := by
  have hgnt : data_gnt_o s i=false := by
    unfold data_gnt_o
    cases hcs : s.CS with
    | WAIT_GNT q => exact absurd hcs (hstate q)
    | _ => simp only [haccepts,Bool.false_and]
  have hreq : ∀ p,data_req_o s i p=false := by
    intro p
    unfold data_req_o
    cases hcs : s.CS with
    | WAIT_GNT q => exact absurd hcs (hstate q)
    | _ => simp only [haccepts,Bool.false_and]
  refine ⟨?_,fun p => ?_⟩
  · rw [grantedNow,hgnt,Bool.and_false]
    rfl
  · rw [accessesNow,hreq]
    rfl

/-- The answers of a dispatched request are waited for. -/
theorem Dispatches.moves (h : Dispatches s last acc got r)
    (hvalid : ∀ p,i.data_r_valid_i p=true → (got p).length < (acc p).length) :
    Moves s i last acc got := by
  have hquiet : ∀ p,gnt_mask r p=true → i.data_r_valid_i p=false := fun p hmask =>
    not_valid (hvalid p) ((h.accs p).trans (needs_of_mask hmask))
  have hcompletes : completes s i=
      ((i.data_r_valid_i true || gnt_mask r true) && (i.data_r_valid_i false || gnt_mask r false)) := by
    rw [completes,h.state,←h.mask,←h.mask]
  cases hdone : completes s i with
  | true =>
    have haccepts : accepts s i=true := by rw [accepts,hdone,Bool.or_true]
    refine moves_done hdone h.last h.accs (fun p => ?_)
      (stage_masked haccepts fun p => h.state ▸ Phase.noConfusion)
    rw [h.gots,List.nil_append]
    cases hmask : gnt_mask r p with
    | true =>
      rw [answersNow_of_not (hquiet p hmask),gives,hmask]
      rfl
    | false =>
      have hcame : i.data_r_valid_i p=true := by
        rw [hcompletes,Bool.and_eq_true_iff] at hdone
        cases p with
        | false => rw [hmask,Bool.or_false] at hdone; exact hdone.2
        | true => rw [hmask,Bool.or_false] at hdone; exact hdone.1
      have hlane : half p (data_r_rdata_o s i)=i.data_r_rdata_i p := by
        rw [data_r_rdata_o,h.state]
        dsimp only
        rw [h.info.1,h.info.2]
        rw [gnt_mask] at hmask
        cases hsize : r.data_size_i <;> cases hoffset : offset r <;> cases p <;>
          simp [hsize,hoffset] at hmask ⊢
      rw [answersNow,hcame,gives,hmask,hlane]
      rfl
  | false =>
    have hNS : (step s i).CS=
        match i.data_r_valid_i true || gnt_mask r true,i.data_r_valid_i false || gnt_mask r false with
        | true,false => .DISPATCH_SAMPL true
        | false,true => .DISPATCH_SAMPL false
        | _,_ => .DISPATCH := by
      show NS s i=_
      rw [NS,h.state,hdone,←h.mask,←h.mask]
      rfl
    have haccepts : accepts s i=false := by
      rw [accepts,h.state,hdone]
      rfl
    have htaken := nothing_taken haccepts fun p => h.state ▸ Phase.noConfusion
    have haccs : ∀ p,acc p++accessesNow s i p=needs p r := fun p => by
      rw [htaken.2,List.append_nil,h.accs]
    have hlast : last++grantedNow s i=[r] := by rw [htaken.1,List.append_nil,h.last]
    have hgots : ∀ p,(i.data_r_valid_i p || gnt_mask r p)=false →
        gnt_mask r p=false ∧ got p++answersNow i p=[] := by
      intro p hno
      rw [Bool.or_eq_false_iff] at hno
      rw [answersNow_of_not hno.1,h.gots]
      exact ⟨hno.2,rfl⟩
    have hkept : ∀ p,Kept (step s i) r p (got p++answersNow i p) := fun p =>
      kept_step (Or.inl (h.gots p)) (h.accs p) (hvalid p)
    refine moves_on hdone ?_
    cases hone : (i.data_r_valid_i true || gnt_mask r true) <;>
      cases hzero : (i.data_r_valid_i false || gnt_mask r false) <;> rw [hone,hzero] at hNS
    · have hmask : ∀ p,(step s i).rvalid_mask p=gnt_mask r p := by
        intro p
        have hno : update_rvalid_mask s i=false := by
          unfold update_rvalid_mask
          rw [h.state,haccepts]
          rfl
        rw [←h.mask]
        unfold step
        dsimp only
        rw [hno]
        rfl
      have hinfo : (step s i).size_info=s.size_info ∧ (step s i).offset_info=s.offset_info := by
        have hno : data_gnt_o s i=false := by
          unfold data_gnt_o
          rw [h.state,haccepts]
          rfl
        unfold step
        dsimp only
        rw [hno,Bool.and_false]
        exact ⟨rfl,rfl⟩
      refine Stage.dispatch r ⟨hNS,hlast,haccs,fun p => ?_,hmask,?_⟩
      · cases p with
        | false => exact (hgots false hzero).2
        | true => exact (hgots true hone).2
      · rw [hinfo.1,hinfo.2]
        exact h.info
    · exact Stage.sampl false r
        ⟨hNS,hlast,(hgots true hone).1,haccs,hkept false,(hgots true hone).2⟩
    · exact Stage.sampl true r
        ⟨hNS,hlast,(hgots false hzero).1,haccs,hkept true,(hgots false hzero).2⟩
    · rw [hcompletes,hone,hzero] at hdone
      exact Bool.noConfusion hdone

/-- The other answer of a sampled request is waited for. -/
theorem Samples.moves (h : Samples s last acc got p r)
    (hvalid : ∀ p,i.data_r_valid_i p=true → (got p).length < (acc p).length)
    (halone : completes s i=true → i.data_req_i=true → i.request.data_size_i=false →
      i.data_gnt_i (offset i.request)=true → i.data_gnt_i (!offset i.request)=true)
    (hsampled : i.data_r_valid_i (!p)=true → (got p).length=(acc p).length) :
    Moves s i last acc got := by
  have hcompletes : completes s i=i.data_r_valid_i (!p) := by rw [completes,h.state]
  cases hdone : completes s i with
  | true =>
    have haccepts : accepts s i=true := by rw [accepts,hdone,Bool.or_true]
    have hgrants : ∀ q,grants s i q=i.data_gnt_i q := fun q => by rw [grants,h.state]
    have hstage := stage_taken haccepts (fun q _ => hgrants q) fun q hreq hmask hother => by
      rw [hgrants] at hother ⊢
      rw [gnt_mask,Bool.and_eq_true_iff,Bool.not_eq_true',bne_iff_ne] at hmask
      have hq : q=!offset i.request := by
        cases q <;> cases hoffset : offset i.request <;> simp [hoffset] at hmask ⊢
      rw [hq,Bool.not_not] at hother
      rw [hq]
      exact halone hdone hreq hmask.1 hother
    refine moves_done hdone h.last h.accs (fun q => ?_) hstage
    have hcame : i.data_r_valid_i (!p)=true := hcompletes.symm.trans hdone
    have hall := hsampled hcame
    have hquiet : i.data_r_valid_i p=false := by
      rw [←Bool.not_eq_true]
      intro hmore
      exact absurd hall (hvalid p hmore).ne
    have hlane : half p (data_r_rdata_o s i)=s.data_r_rdata_q p ∧
        half (!p) (data_r_rdata_o s i)=i.data_r_rdata_i (!p) := by
      rw [data_r_rdata_o,h.state]
      cases p <;> exact ⟨by simp,by simp⟩
    rcases Bool.eq_or_eq_not q p with rfl | rfl
    · rw [answersNow_of_not hquiet,List.append_nil,gives]
      rcases h.kept with hnil | ⟨hmask,hgot⟩
      · rw [hnil,h.accs] at hall
        cases hmask : gnt_mask r q with
        | true => rw [hnil]; rfl
        | false => rw [needs_of_unmasked hmask] at hall; exact absurd hall Nat.zero_ne_one
      · rw [hgot,hmask,hlane.1]
        rfl
    · rw [h.none,answersNow,hcame,gives,h.needed,hlane.2]
      rfl
  | false =>
    have haccepts : accepts s i=false := by
      rw [accepts,h.state,hdone]
      rfl
    have htaken := nothing_taken haccepts fun p => h.state ▸ Phase.noConfusion
    have hNS : (step s i).CS=.DISPATCH_SAMPL p := by
      show NS s i=_
      rw [NS,h.state,hdone]
      rfl
    refine moves_on hdone (Stage.sampl p r ⟨hNS,?_,h.needed,fun q => ?_,?_,?_⟩)
    · rw [htaken.1,List.append_nil,h.last]
    · rw [htaken.2,List.append_nil,h.accs]
    · exact kept_step h.kept (h.accs p) (hvalid p)
    · rw [h.none,answersNow_of_not (hcompletes.symm.trans hdone)]
      rfl

end Stage

/-- Requests that were answered, with their data, and the one that is not. -/
structure Inv (w : Watched) (done : List (Request×BitVec 64)) (last : List Request)
    (acc : Bool → List Access) (got : Bool → List (BitVec 32)) : Prop where
  granted : w.2.granted=done.map Prod.fst++last
  pulses : w.2.pulses=done.map Prod.snd
  accesses : ∀ p,w.2.accesses p=done.flatMap (fun x => needs p x.1)++acc p
  answers : ∀ p,w.2.answers p=done.flatMap (gives p)++got p
  stage : Stage w.1 w.2.pending last acc got

section Inv

variable {w : Watched} {i : Input} {done : List (Request×BitVec 64)} {last : List Request}
  {acc : Bool → List Access} {got : Bool → List (BitVec 32)}

theorem inv_start : Inv start [] [] (fun _ => []) fun _ => [] where
  granted := rfl
  pulses := rfl
  accesses := fun _ => rfl
  answers := fun _ => rfl
  stage := Stage.idle rfl rfl (fun _ => rfl) fun _ => rfl

/-- The requests that were answered have as many answers as accesses. -/
theorem length_gives (p : Bool) (done : List (Request×BitVec 64)) :
    (done.flatMap (gives p)).length=(done.flatMap fun x => needs p x.1).length := by
  rw [List.length_flatMap,List.length_flatMap]
  congr 1
  refine List.map_congr_left fun x _ => ?_
  unfold gives needs
  split_ifs <;> rfl

theorem Inv.lengths (h : Inv w done last acc got) (p : Bool) :
    (w.2.answers p).length+(acc p).length=(w.2.accesses p).length+(got p).length := by
  rw [h.answers,h.accesses,List.length_append,List.length_append,length_gives]
  omega

/-- One cycle in which nothing goes wrong. -/
theorem Inv.step (h : Inv w done last acc got) (hc : Clean w i) :
    ∃ done last acc got,Inv (watch w i) done last acc got := by
  have hvalid : ∀ p,i.data_r_valid_i p=true → (got p).length < (acc p).length := by
    intro p hcame
    have hlt := hc.answered p hcame
    have hlengths := h.lengths p
    omega
  have hmoves : Moves w.1 i last acc got := by
    cases h.stage with
    | idle hstate hlast hacc hgot => exact moves_idle hstate hlast hacc hgot hvalid
    | wait p r hwait => exact hwait.moves (hc.held r hwait.pending) hvalid
    | dispatch r hdispatch => exact hdispatch.moves hvalid
    | sampl p r hsampl =>
      refine hsampl.moves hvalid (hc.alone p hsampl.state) fun hcame => ?_
      have hsame := hc.sampled p hsampl.state hcame
      have hlengths := h.lengths p
      omega
  rcases hmoves with ⟨fin,last',acc',got',hlast,hpulses,hacc,hgot,hstage⟩
  refine ⟨done++fin,last',acc',got',?_,?_,fun p => ?_,fun p => ?_,hstage⟩
  · have hnext : (watch w i).2.granted=w.2.granted++grantedNow w.1 i := rfl
    rw [hnext,h.granted,List.append_assoc,hlast,List.map_append,List.append_assoc]
  · have hnext : (watch w i).2.pulses=w.2.pulses++pulsesNow w.1 i := rfl
    rw [hnext,h.pulses,hpulses,List.map_append]
  · have hnext : (watch w i).2.accesses p=w.2.accesses p++accessesNow w.1 i p := rfl
    rw [hnext,h.accesses,List.append_assoc,hacc,List.flatMap_append,List.append_assoc]
  · have hnext : (watch w i).2.answers p=w.2.answers p++answersNow i p := rfl
    rw [hnext,h.answers,List.append_assoc,hgot,List.flatMap_append,List.append_assoc]

/-- What the last request asked for. -/
theorem Stage.acc_eq {s : State} {pending : Option Request} (h : Stage s pending last acc got)
    (p : Bool) : acc p=last.flatMap (needs p)++
      if s.CS=.WAIT_GNT (!p) then pending.toList.flatMap (needs p) else [] := by
  cases h with
  | idle hstate hlast hacc hgot =>
    rw [hacc,hlast,hstate,if_neg Phase.noConfusion]
    rfl
  | wait q r h =>
    rw [h.last,h.state,h.pending]
    rcases Bool.eq_or_eq_not p q with rfl | rfl
    · have hother : Phase.WAIT_GNT p≠.WAIT_GNT (!p) := fun hsame => by
        cases p <;> exact absurd (Phase.WAIT_GNT.inj hsame) (by decide)
      rw [h.none.1,if_neg hother]
      rfl
    · rw [h.other.1,Bool.not_not,if_pos rfl]
      exact (List.flatMap_singleton _ _).symm
  | dispatch r h =>
    rw [h.accs,h.last,h.state,if_neg Phase.noConfusion,List.flatMap_singleton,List.append_nil]
  | sampl q r h =>
    rw [h.accs,h.last,h.state,if_neg Phase.noConfusion,List.flatMap_singleton,List.append_nil]

theorem Kept.length_le {s : State} {r : Request} {p : Bool} {l : List (BitVec 32)}
    (h : Kept s r p l) : l.length ≤ 1 := by
  rcases h with rfl | ⟨-,rfl⟩
  · exact Nat.zero_le _
  · exact le_rfl

theorem Stage.got_le {s : State} {pending : Option Request} (h : Stage s pending last acc got)
    (p : Bool) : (got p).length ≤ 1 := by
  cases h with
  | idle hstate hlast hacc hgot => rw [hgot]; exact Nat.zero_le _
  | wait q r h =>
    rcases Bool.eq_or_eq_not p q with rfl | rfl
    · rw [h.none.2]
      exact Nat.zero_le _
    · exact h.other.2.length_le
  | dispatch r h => rw [h.gots]; exact Nat.zero_le _
  | sampl q r h =>
    rcases Bool.eq_or_eq_not p q with rfl | rfl
    · exact h.kept.length_le
    · rw [h.none]
      exact Nat.zero_le _

/-- A request goes to one port at least. -/
theorem exists_needed (r : Request) : ∃ p,gnt_mask r p=false :=
  ⟨offset r,by rw [gnt_mask,bne_self_eq_false,Bool.and_false]⟩

/-- A granted request that is not answered waits for a port. -/
theorem Stage.last_cases {s : State} {pending : Option Request} (h : Stage s pending last acc got) :
    last=[] ∨ last.length=1 ∧ ∃ p,(got p).length < (acc p).length := by
  cases h with
  | idle hstate hlast hacc hgot => exact Or.inl hlast
  | wait q r h => exact Or.inl h.last
  | dispatch r h =>
    rcases exists_needed r with ⟨p,hmask⟩
    refine Or.inr ⟨congrArg List.length h.last,p,?_⟩
    rw [h.gots,h.accs,needs_of_unmasked hmask]
    exact Nat.zero_lt_one
  | sampl q r h =>
    refine Or.inr ⟨congrArg List.length h.last,!q,?_⟩
    rw [h.none,h.accs,needs_of_unmasked h.needed]
    exact Nat.zero_lt_one

/-- The invariant says that requests, accesses and answers belong together. -/
theorem Inv.issues (h : Inv w done last acc got) : Issues w := by
  have hgranted := congrArg List.length h.granted
  have hpulses := congrArg List.length h.pulses
  rw [List.length_append,List.length_map] at hgranted
  rw [List.length_map] at hpulses
  have hzip : w.2.granted.zip w.2.pulses=done := by
    rw [h.granted,h.pulses,←List.append_nil (done.map Prod.snd),
      List.zip_append (by rw [List.length_map,List.length_map]),List.zip_nil_right,List.append_nil]
    exact (List.zip_of_prod rfl rfl).symm
  refine ⟨fun p => ?_,fun p => ⟨got p,?_,h.stage.got_le p⟩,?_,fun hall => ?_⟩
  · rw [h.accesses,h.granted,List.flatMap_append,h.stage.acc_eq,List.append_assoc,List.flatMap_map]
  · rw [hzip]
    exact h.answers p
  · rcases h.stage.last_cases with hnil | ⟨hone,-⟩
    · rw [hnil,List.length_nil] at hgranted
      omega
    · omega
  · rcases h.stage.last_cases with hnil | ⟨-,p,hlt⟩
    · rw [hnil,List.length_nil] at hgranted
      omega
    · have hlengths := h.lengths p
      rw [hall p] at hlengths
      omega

end Inv

section Example

/-- A request for `size`, at the address `add`. -/
def exampleRequest (size : Bool) (add : BitVec 32) : Request := ⟨0x1111111122222222,add,true,0xFF,size⟩

/-- A cycle with a request and the grants and answers of ports 1 and 0. -/
def exampleInput (request : Option Request) (gnt₁ gnt₀ : Bool) (rdata₁ rdata₀ : Option (BitVec 32)) :
    Input where
  data_req_i := request.isSome
  request := request.getD (exampleRequest false 0)
  data_gnt_i := fun p => if p then gnt₁ else gnt₀
  data_r_valid_i := fun p => if p then rdata₁.isSome else rdata₀.isSome
  data_r_rdata_i := fun p => if p then rdata₁.getD 0 else rdata₀.getD 0

/-- Behind a long request whose answers come one by one, a short one is granted by its port. -/
def aloneInputs : List Input :=
  [exampleInput (some (exampleRequest true 0x100)) true true none none,
    exampleInput none false false none (some 0xA0),
    exampleInput (some (exampleRequest false 0x200)) false true (some 0xA1) none,
    exampleInput (some (exampleRequest false 0x200)) true false none (some 0xB0),
    exampleInput none false false (some 0xB1) none]

/-- A long request is granted by one port after the other, and answered in the other order. -/
def lateInputs : List Input :=
  [exampleInput (some (exampleRequest true 0x100)) false true none none,
    exampleInput (some (exampleRequest true 0x100)) true false none none,
    exampleInput none false false (some 0xA1) none,
    exampleInput none false false none (some 0xA0)]

/-- The short request has an access on the other port, too; the long one is answered with a word
that did not come. -/
theorem not_issues :
    (Meets watch Follows start aloneInputs ∧
      (after watch start aloneInputs).2.granted=[exampleRequest true 0x100,exampleRequest false 0x200] ∧
      ((after watch start aloneInputs).2.accesses true).length=2) ∧
    (Meets watch Follows start lateInputs ∧
      (after watch start lateInputs).2.granted=[exampleRequest true 0x100] ∧
      (after watch start lateInputs).2.pulses=[0x000000A100000000] ∧
      (after watch start lateInputs).2.answers false=[0xA0]) := by
  decide +kernel

end Example

/-- In every run in which the states with a sampled answer do no harm, every granted request has
its accesses and one answer. -/
theorem issues_of_clean (is : List Input) (hc : Meets watch Clean start is) :
    Issues (after watch start is) := by
  have hinv : ∃ done last acc got,Inv (after watch start is) done last acc got :=
    after_invariant_of_meets (P:=fun w => ∃ done last acc got,Inv w done last acc got)
      (fun _ _ ⟨_,_,_,_,h⟩ hclean => h.step hclean) ⟨_,_,_,_,inv_start⟩ hc
  rcases hinv with ⟨_,_,_,_,h⟩
  exact h.issues

section Example

/-- A long request that is granted and answered by one port after the other, and a short one that
is taken in the cycle of the last answer. -/
def exampleInputs : List Input :=
  [exampleInput (some (exampleRequest true 0x100)) false true none none,
    exampleInput (some (exampleRequest true 0x100)) true false none (some 0xA0),
    exampleInput (some (exampleRequest false 0x204)) false false (some 0xA1) none,
    exampleInput (some (exampleRequest false 0x204)) true false none none,
    exampleInput none false false (some 0xB1) none]

/-- The rule for that run. -/
theorem issues_of_clean_example :
    (after watch start exampleInputs).2.granted=[exampleRequest true 0x100,exampleRequest false 0x204] ∧
      (after watch start exampleInputs).2.pulses=[0x000000A1000000A0,0x000000B100000000] ∧
      Issues (after watch start exampleInputs) :=
  ⟨by decide +kernel,by decide +kernel,issues_of_clean exampleInputs (by decide +kernel)⟩

end Example

end Pulpissimo.Interco.Lint64To32
