import Mathlib.Data.BitVec
import Pulpissimo.Hwpe.Source
import Pulpissimo.Lib.Machine

/-!
# What the source streams

Over every run the items that were delivered, followed by those on their way
and those not asked for, are the items of the transfers that were started. An
access counts when all ports are granted in one cycle; what single ports were
granted before is dropped when the stream moves on.
-/

namespace Pulpissimo.Hwpe.SourceStreams

open Pulpissimo.Machine Pulpissimo.Hwpe.AddressGen Pulpissimo.Hwpe.Source

variable {P : ℕ}

/-- A source at a memory, and the configuration of its transfer. -/
structure Monitored (P : ℕ) where
  /-- The source and the answers that it waits for. -/
  system : System P
  /-- Configuration of the last transfer that was started. -/
  cfg : Ctrl

/-- After reset. -/
def unstarted : Monitored P := ⟨idle,⟨0#32,0#32,0#16,0#16,0#16,0#16,0#16,false⟩⟩

section Monitor

variable (mem : BitVec 32 → BitVec 8) (s : Monitored P) (c : Cycle P)

/-- A transfer is started. -/
def Monitored.starts : Bool := s.system.source.cs==.STREAM_IDLE && c.req_start && !c.clear_i

/-- One cycle. -/
def Monitored.step : Monitored P :=
  ⟨s.system.step mem c,if s.starts c then c.cfg else s.cfg⟩

/-- Addresses of a transfer. -/
def places (P : ℕ) (cfg : Ctrl) : List (BitVec 32) :=
  (List.range cfg.trans_size.toNat).map (place cfg (4*P))

/-- Addresses of the transfers that are started. -/
def started : List (BitVec 32) := if s.starts c then places P c.cfg else []

/-- Address of an access of all ports. -/
def granted : List (BitVec 32) :=
  if address_gen_en s.system.source (s.system.input c) then
    [gen_addr_o s.system.source.gen c.cfg]
  else []

/-- Item that is taken from the stream. -/
def delivered : List (BitVec (32*P)) :=
  let stream := stream_o s.system.source (s.system.input c)
  if stream.valid && c.ready then [stream.data] else []

/-- The transfer is signalled to be done. -/
def doneFlag : Bool := s.system.source.done

/-- The source works on a transfer. -/
def working : Bool := s.system.source.cs==.STREAM_WORKING

/-- Addresses of the transfer that were not accessed. -/
def ungranted : List (BitVec 32) :=
  if working s then
    (places P s.cfg).drop s.system.source.gen.overall_counter.toNat
  else []

/-- A port has a word for the stream. -/
def present (k : Fin P) : Bool :=
  !(s.system.waiting k).isEmpty || (s.system.source.ports k).stream_valid_r

/-- The word. -/
def word (k : Fin P) : BitVec 32 :=
  if (s.system.waiting k).isEmpty then (s.system.source.ports k).stream_data_r
  else (s.system.waiting k).headD 0#32

/-- The item on its way to the stream. -/
def outstanding : List (BitVec (32*P)) :=
  if ∀ k, present s k=true then [merge (word s)] else []

/-- Items that were not delivered. -/
def undelivered : List (BitVec (32*P)) := outstanding s++(ungranted s).map (bytes mem (32*P))

/-- What the configuration and the surroundings keep to: the source is not cleared, all addresses
are aligned, the counters are wide enough, a transfer keeps its configuration, answers come in the
cycle after the grant, and not all ports are granted without a request when one access is left. -/
structure Allowed : Prop where
  clear : c.clear_i=false
  aligned : misaligned c.cfg=false
  size : s.starts c=true → 0 < c.cfg.trans_size.toNat ∧ c.cfg.trans_size.toNat≤2^16 ∧ Fits c.cfg
  stable : working s=true → c.cfg=s.cfg
  answers : ∀ k, (s.system.waiting k).isEmpty=false → c.answers k=true
  grants : working s=true → c.ready=false → (∀ k, c.gnt k=true) →
    s.system.source.gen.in_progress=true

/-- The generator of a source that works on a transfer stands at a word of it. -/
structure Walks (cfg : Ctrl) (g : Gen) : Prop where
  size : cfg.trans_size.toNat≤2^16
  fits : Fits cfg
  bound : g.overall_counter.toNat < cfg.trans_size.toNat
  place : At cfg (4*P) g.overall_counter.toNat g
  progress : g.in_progress=decide (g.overall_counter.toNat+1 < cfg.trans_size.toNat)

/-- The generator of one that waits for a start stands before the first word. -/
structure Rests (g : Gen) : Prop where
  count : g.overall_counter=0#16
  place : ∀ cfg, At cfg (4*P) 0 g

/-- States of runs. -/
structure Sound : Prop where
  works : working s=true → Walks (P := P) s.cfg s.system.source.gen
  rests : working s=false → Rests (P := P) s.system.source.gen
  /-- Words are on their way to ports that have none, or words of ports wait for the stream. -/
  ports : (∀ k, (s.system.source.ports k).stream_valid_r=false ∧ (s.system.waiting k).length≤1) ∨
    ∀ k, s.system.waiting k=[]

end Monitor

section Gen

variable {s : Monitored P} {c : Cycle P}

/-- Progress of a transfer of any size. -/
theorem progress_eq {g : Gen} {cfg : Ctrl} (en : Bool) (h : g.misalignment=false)
    (hpos : 0 < cfg.trans_size.toNat) : next_in_progress (params P) g cfg en=
      decide (g.overall_counter.toNat+(if en then 1 else 0)+1 < cfg.trans_size.toNat) := by
  have hone : (cfg.trans_size-1#32).toNat=cfg.trans_size.toNat-1 := by bv_omega
  have hsource : (params P).REALIGN_TYPE=.SINK → cfg.trans_size≠1#32 := fun hsink =>
    absurd hsink (show Realign.SOURCE≠.SINK by decide)
  rw [next_in_progress_eq h hsource,hone]
  exact decide_eq_decide.mpr (by omega)

/-- A generator that stands at a word and is not told to go on walks. -/
theorem walks_of_at {cfg : Ctrl} {g : Gen} (h : At cfg (4*P) g.overall_counter.toNat g)
    (hc : misaligned cfg=false) (hsize : cfg.trans_size.toNat≤2^16) (hf : Fits cfg)
    (hbound : g.overall_counter.toNat < cfg.trans_size.toNat) :
    Walks (P := P) cfg (AddressGen.step (params P) g cfg false false) ∧
      (AddressGen.step (params P) g cfg false false).overall_counter=g.overall_counter := by
  have hstay := At.stay (p := params P) h hc
  have hpos : 0 < cfg.trans_size.toNat := Nat.lt_of_le_of_lt (Nat.zero_le _) hbound
  have hprogress := progress_eq (P := P) false h.aligned hpos
  rw [step_aligned h.aligned hc] at hstay ⊢
  exact ⟨⟨hsize,hf,hbound,hstay,hprogress⟩,rfl⟩

/-- A generator that walks and is not told to go on stays where it is. -/
theorem Walks.stay {cfg : Ctrl} {g : Gen} (h : Walks (P := P) cfg g) (hc : misaligned cfg=false) :
    Walks (P := P) cfg (AddressGen.step (params P) g cfg false false) ∧
      (AddressGen.step (params P) g cfg false false).overall_counter=g.overall_counter :=
  walks_of_at h.place hc h.size h.fits h.bound

/-- A generator that is told to go on before the last word walks on. -/
theorem Walks.next {cfg : Ctrl} {g : Gen} (h : Walks (P := P) cfg g) (hc : misaligned cfg=false)
    (hmore : g.overall_counter.toNat+1 < cfg.trans_size.toNat) :
    Walks (P := P) cfg (AddressGen.step (params P) g cfg true false) ∧
      (AddressGen.step (params P) g cfg true false).overall_counter.toNat=
        g.overall_counter.toNat+1 := by
  have hnext := At.step (p := params P) h.place hc h.fits hmore
  have hpos : 0 < cfg.trans_size.toNat := Nat.lt_of_le_of_lt (Nat.zero_le _) h.bound
  have hprogress := progress_eq (P := P) true h.place.aligned hpos
  have hsize := h.size
  have hcount : (g.overall_counter+1#16).toNat=g.overall_counter.toNat+1 := by bv_omega
  rw [step_aligned h.place.aligned hc] at hnext ⊢
  refine ⟨⟨hsize,h.fits,?_,?_,?_⟩,hcount⟩
  · exact hcount.symm ▸ hmore
  · change At cfg (4*P) (g.overall_counter+1#16).toNat _
    rw [hcount]
    exact hnext
  · change next_in_progress (params P) g cfg true=
      decide ((g.overall_counter+1#16).toNat+1 < cfg.trans_size.toNat)
    rw [hcount]
    exact hprogress

theorem rests_cleared : Rests (P := P) cleared := ⟨rfl,fun _ => at_cleared (p := params P)⟩

theorem Rests.stay {cfg : Ctrl} {g : Gen} (h : Rests (P := P) g) (hc : misaligned cfg=false) :
    Rests (P := P) (AddressGen.step (params P) g cfg false false) := by
  refine ⟨?_,fun cfg' => At.stay (p := params P) (h.place cfg') hc⟩
  rw [step_aligned (h.place cfg).aligned hc]
  exact h.count

/-- A generator that rests is ready to walk. -/
theorem Rests.start {cfg : Ctrl} {g : Gen} (h : Rests (P := P) g) (hc : misaligned cfg=false)
    (hpos : 0 < cfg.trans_size.toNat) (hsize : cfg.trans_size.toNat≤2^16) (hf : Fits cfg) :
    Walks (P := P) cfg (AddressGen.step (params P) g cfg false false) ∧
      (AddressGen.step (params P) g cfg false false).overall_counter=0#16 := by
  have hzero : g.overall_counter.toNat=0 := by
    rw [h.count]
    rfl
  have hplace : At cfg (4*P) g.overall_counter.toNat g := hzero.symm ▸ h.place cfg
  rcases walks_of_at hplace hc hsize hf (hzero.symm ▸ hpos) with ⟨hwalks,hcount⟩
  exact ⟨hwalks,hcount.trans h.count⟩

end Gen

section Control

variable {mem : BitVec 32 → BitVec 8} {s : Monitored P} {c : Cycle P}

/-- The transfer ends with the access of its last word. -/
theorem ends_eq (ha : Allowed s c) :
    ends s.system.source (s.system.input c)=
      (address_gen_en s.system.source (s.system.input c) && !s.system.source.gen.in_progress) := by
  have hgrants := ha.grants
  unfold working at hgrants
  unfold ends address_gen_en tcdm_int_req
  cases hcs : s.system.source.cs with
  | STREAM_IDLE => rfl
  | STREAM_WORKING =>
    rw [hcs] at hgrants
    by_cases hall : tcdm_int_gnt (s.system.input c)=true
    · cases hready : c.ready with
      | true =>
        have hin : (s.system.input c).ready=true := hready
        rw [hall,hin,Bool.not_true,Bool.false_and,Bool.or_false]
        rfl
      | false =>
        have hmore := hgrants rfl hready (of_decide_eq_true hall)
        rw [show in_progress_o (params P) s.system.source.gen=true from hmore,hmore,Bool.true_or,
          Bool.not_true,Bool.and_false,Bool.and_false]
    · rw [Bool.eq_false_iff.mpr hall,Bool.and_false,Bool.and_false,Bool.false_and,Bool.false_and]

variable (mem) in
theorem gen_step (ha : Allowed s c) : (s.step mem c).system.source.gen=
    AddressGen.step (params P) s.system.source.gen c.cfg
      (address_gen_en s.system.source (s.system.input c))
      (address_gen_en s.system.source (s.system.input c) && !s.system.source.gen.in_progress) := by
  rw [←ends_eq ha]
  change AddressGen.step _ _ _ _ (c.clear_i || _)=_
  rw [ha.clear,Bool.false_or]
  rfl

variable (mem) in
theorem working_step (ha : Allowed s c) : working (s.step mem c)=
    if working s then !ends s.system.source (s.system.input c) else s.starts c := by
  change ((if c.clear_i then Fsm.STREAM_IDLE else ns s.system.source (s.system.input c))==_)=_
  unfold working Monitored.starts ns
  rw [ha.clear,show (s.system.input c).req_start=c.req_start from rfl]
  cases s.system.source.cs with
  | STREAM_IDLE => cases c.req_start <;> rfl
  | STREAM_WORKING => cases ends s.system.source (s.system.input c) <;> rfl

/-- The addresses that are left, one by one. -/
theorem drop_places {cfg : Ctrl} {k : ℕ} (hk : k < cfg.trans_size.toNat) :
    (places P cfg).drop k=place cfg (4*P) k::(places P cfg).drop (k+1) := by
  unfold places
  have hlen : k<((List.range cfg.trans_size.toNat).map (place cfg (4*P))).length := by
    rw [List.length_map,List.length_range]
    exact hk
  rw [List.drop_eq_getElem_cons hlen,List.getElem_map,List.getElem_range]

theorem drop_places_all {cfg : Ctrl} {k : ℕ} (hk : cfg.trans_size.toNat≤k) :
    (places P cfg).drop k=[] := by
  apply List.drop_eq_nil_of_le
  rw [places,List.length_map,List.length_range]
  exact hk

/-- What a cycle does to the control and the generator: the generator walks or rests, and the
accessed address is taken from those that are left. -/
structure Moves (mem : BitVec 32 → BitVec 8) (s : Monitored P) (c : Cycle P) : Prop where
  works : working (s.step mem c)=true →
    Walks (P := P) (s.step mem c).cfg (s.step mem c).system.source.gen
  rests : working (s.step mem c)=false → Rests (P := P) (s.step mem c).system.source.gen
  ledger : granted s c++ungranted (s.step mem c)=ungranted s++started s c

/-- A transfer that is worked on. -/
theorem moves_working (hs : Sound s) (ha : Allowed s c) (hw : working s=true) : Moves mem s c := by
  have hwalks := hs.works hw
  have hcfg := ha.stable hw
  have halign := ha.aligned
  rw [hcfg] at halign
  have hstart : s.starts c=false := by
    unfold working at hw
    unfold Monitored.starts
    rw [beq_iff_eq.mp hw]
    rfl
  have hsame : (s.step mem c).cfg=s.cfg := if_neg (by rw [hstart]; decide)
  have hnone : started s c=[] := if_neg (by rw [hstart]; decide)
  have hwork := working_step mem ha
  have hgen := gen_step mem ha
  rw [if_pos hw,ends_eq ha] at hwork
  rw [hcfg] at hgen
  have hleft : ungranted s=(places P s.cfg).drop s.system.source.gen.overall_counter.toNat := if_pos hw
  have hplace : gen_addr_o s.system.source.gen c.cfg=
      place s.cfg (4*P) s.system.source.gen.overall_counter.toNat := by
    rw [hcfg]
    exact At.gen_addr_o (p := params P) hwalks.place halign rfl
  have hlast : (s.system.source.gen.in_progress=true ↔
      s.system.source.gen.overall_counter.toNat+1 < s.cfg.trans_size.toNat) := by
    rw [hwalks.progress,decide_eq_true_iff]
  cases hen : address_gen_en s.system.source (s.system.input c) with
  | false =>
    rw [hen,Bool.false_and] at hwork hgen
    rcases hwalks.stay halign with ⟨hstay,hcount⟩
    have hgrant : granted s c=[] := if_neg (by rw [hen]; decide)
    have hnext : ungranted (s.step mem c)=ungranted s := by
      rw [hleft]
      unfold ungranted
      rw [hwork,if_pos (by decide),hgen,hsame]
      exact congrArg (fun n => (places P s.cfg).drop n) (congrArg BitVec.toNat hcount)
    refine ⟨fun _ => ?_,fun hrest => ?_,by rw [hgrant,hnone,hnext,List.nil_append,List.append_nil]⟩
    · rw [hgen,hsame]
      exact hstay
    · rw [hwork] at hrest
      exact absurd hrest (by decide)
  | true =>
    have hgrant : granted s c=[place s.cfg (4*P) s.system.source.gen.overall_counter.toNat] :=
      (if_pos hen).trans (by rw [hplace])
    rw [hen] at hwork hgen
    cases hmore : s.system.source.gen.in_progress with
    | true =>
      rw [hmore] at hwork hgen
      rcases hwalks.next halign (hlast.mp hmore) with ⟨hnext,hcount⟩
      refine ⟨fun _ => ?_,fun hrest => ?_,?_⟩
      · rw [hgen,hsame]
        exact hnext
      · rw [hwork] at hrest
        exact absurd hrest (by decide)
      · rw [hgrant,hnone,hleft,drop_places hwalks.bound,List.append_nil]
        unfold ungranted
        rw [hwork,if_pos (by decide),hgen,hsame]
        exact congrArg (fun n => _::(places P s.cfg).drop n) hcount
    | false =>
      rw [hmore] at hwork hgen
      have hgone : ungranted (s.step mem c)=[] := if_neg (by rw [hwork]; decide)
      have hend : s.cfg.trans_size.toNat ≤ s.system.source.gen.overall_counter.toNat+1 :=
        Nat.not_lt.mp fun hlt => Bool.false_ne_true (hmore.symm.trans (hlast.mpr hlt))
      refine ⟨fun hgo => ?_,fun _ => ?_,?_⟩
      · rw [hwork] at hgo
        exact absurd hgo (by decide)
      · rw [hgen]
        exact rests_cleared
      · rw [hgrant,hnone,hleft,hgone,drop_places hwalks.bound,drop_places_all hend]

/-- A source that waits for a start. -/
theorem moves_idle (hs : Sound s) (ha : Allowed s c) (hw : working s=false) : Moves mem s c := by
  have hrests := hs.rests hw
  have hcs : (s.system.source.cs==Fsm.STREAM_WORKING)=false := hw
  have hen : address_gen_en s.system.source (s.system.input c)=false := by
    unfold address_gen_en tcdm_int_req
    rw [hcs]
    rfl
  have hwork := working_step mem ha
  have hgen := gen_step mem ha
  have hgrant : granted s c=[] := if_neg (by rw [hen]; decide)
  have hleft : ungranted s=[] := if_neg (by rw [hw]; decide)
  rw [hw,if_neg Bool.false_ne_true] at hwork
  rw [hen] at hgen
  rw [Bool.false_and] at hgen
  cases hstart : s.starts c with
  | true =>
    have hcfg : (s.step mem c).cfg=c.cfg := if_pos hstart
    rcases ha.size hstart with ⟨hpos,hsize,hf⟩
    rcases hrests.start ha.aligned hpos hsize hf with ⟨hwalks,hcount⟩
    rw [hstart] at hwork
    refine ⟨fun _ => ?_,fun hrest => ?_,?_⟩
    · rw [hgen,hcfg]
      exact hwalks
    · rw [hwork] at hrest
      exact absurd hrest (by decide)
    · rw [hgrant,hleft]
      unfold ungranted started
      rw [hwork,if_pos rfl,hstart,if_pos rfl,hgen,hcfg,hcount]
      rfl
  | false =>
    rw [hstart] at hwork
    refine ⟨fun hgo => ?_,fun _ => ?_,?_⟩
    · rw [hwork] at hgo
      exact absurd hgo (by decide)
    · rw [hgen]
      exact hrests.stay ha.aligned
    · rw [hgrant,hleft]
      unfold ungranted started
      rw [hwork,if_neg Bool.false_ne_true,hstart,if_neg Bool.false_ne_true]

theorem moves (hs : Sound s) (ha : Allowed s c) : Moves mem s c := by
  cases hw : working s with
  | false => exact moves_idle hs ha hw
  | true => exact moves_working hs ha hw

end Control

section Ports

variable {mem : BitVec 32 → BitVec 8} {s : Monitored P} {c : Cycle P}

theorem Sound.aligned (hs : Sound s) : s.system.source.gen.misalignment=false := by
  cases hw : working s with
  | false => exact ((hs.rests hw).place s.cfg).aligned
  | true => exact (hs.works hw).place.aligned

/-- Without misalignment the realigner passes the stream on. -/
theorem stream_aligned (hs : Sound s) :
    stream_o s.system.source (s.system.input c)=misaligned_stream s.system.source (s.system.input c) ∧
      split_ready s.system.source (s.system.input c)=c.ready := by
  have hflag : (flags s.system.source (s.system.input c)).realign=false := hs.aligned
  unfold stream_o split_ready Realigner.stream_o Realigner.ready_i
  rw [hflag]
  exact ⟨rfl,rfl⟩

/-- The memory answers a port whenever it owes it a word. -/
theorem r_valid_eq (ha : Allowed s c) (k : Fin P) :
    (s.system.input c).r_valid k= !(s.system.waiting k).isEmpty := by
  change (c.answers k && !(s.system.waiting k).isEmpty)=_
  cases hempty : (s.system.waiting k).isEmpty with
  | true => exact Bool.and_false _
  | false =>
    rw [ha.answers k hempty]
    rfl

/-- The stream of the ports. -/
theorem misaligned_stream_eq (ha : Allowed s c) :
    misaligned_stream s.system.source (s.system.input c)=
      ⟨decide (∀ k, present s k=true),merge (word s)⟩ := by
  have hvalid : split_valid s.system.source (s.system.input c)=present s := by
    funext k
    unfold split_valid present
    rw [r_valid_eq ha]
  have hdata : split_data s.system.source (s.system.input c)=word s := by
    funext k
    unfold split_data word
    rw [r_valid_eq ha]
    cases (s.system.waiting k).isEmpty <;> rfl
  unfold misaligned_stream
  rw [hvalid,hdata]

/-- What is taken is the item on its way. -/
theorem delivered_eq (hs : Sound s) (ha : Allowed s c) :
    delivered s c=if c.ready then outstanding s else [] := by
  unfold delivered outstanding
  dsimp only
  rw [(stream_aligned hs).1,misaligned_stream_eq ha]
  cases c.ready with
  | false => rw [Bool.and_false,if_neg Bool.false_ne_true,if_neg Bool.false_ne_true]
  | true => simp only [Bool.and_true,decide_eq_true_eq,if_true]

variable (mem) in
/-- A port keeps what was not taken. -/
theorem port_step (hs : Sound s) (ha : Allowed s c) (k : Fin P) :
    (s.step mem c).system.source.ports k=⟨present s k && !c.ready,word s k⟩ := by
  change (s.system.source.ports k).step c.clear_i ((s.system.input c).r_valid k)
    (split_ready s.system.source (s.system.input c)) ((s.system.waiting k).headD 0#32)=_
  rw [(stream_aligned hs).2,r_valid_eq ha,ha.clear]
  unfold Port.step present word
  rw [if_neg Bool.false_ne_true]
  cases (s.system.waiting k).isEmpty <;> cases c.ready <;>
    cases (s.system.source.ports k).stream_valid_r <;> rfl

variable (mem) in
/-- The memory owes a port the word of the access of the cycle, if there is one. -/
theorem waiting_step (hs : Sound s) (ha : Allowed s c) (k : Fin P) :
    (s.step mem c).system.waiting k=s.system.access mem c k := by
  have hshort : (s.system.waiting k).length≤1 := by
    rcases hs.ports with h | h
    · exact (h k).2
    · rw [h k]
      exact Nat.zero_le _
  change (if (s.system.input c).r_valid k then (s.system.waiting k).tail else s.system.waiting k)++
    s.system.access mem c k=_
  rw [r_valid_eq ha]
  cases hwait : s.system.waiting k with
  | nil => rfl
  | cons w ws =>
    rw [hwait,List.length_cons] at hshort
    rw [List.eq_nil_of_length_eq_zero (show ws.length=0 by omega)]
    rfl

/-- Without a request nothing is accessed. -/
theorem access_none (k : Fin P) (h : tcdm_int_req s.system.source (s.system.input c)=false) :
    s.system.access mem c k=[] := by
  refine if_neg ?_
  change ¬((tcdm_int_req s.system.source (s.system.input c) && c.gnt k)=true)
  rw [h]
  exact Bool.false_ne_true

/-- The item on its way is taken when the stream moves, and the one whose access all ports were
granted comes behind it. -/
theorem outstanding_step (hP : 0<P) (hs : Sound s) (ha : Allowed s c) :
    delivered s c++outstanding (s.step mem c)=
      outstanding s++(granted s c).map (bytes mem (32*P)) := by
  rw [delivered_eq hs ha]
  have hstep := waiting_step mem hs ha
  have hport := port_step mem hs ha
  cases hready : c.ready with
  | false =>
    have hreq : tcdm_int_req s.system.source (s.system.input c)=false := by
      unfold tcdm_int_req
      rw [show (s.system.input c).ready=false from hready,Bool.and_false]
    have hgrant : granted s c=[] := by
      refine if_neg ?_
      unfold address_gen_en
      rw [hreq,Bool.false_and]
      exact Bool.false_ne_true
    have hpresent : present (s.step mem c)=present s := by
      funext k
      unfold present
      rw [hstep k,access_none k hreq,hport k,hready,Bool.not_false,Bool.and_true]
      rfl
    have hword : word (s.step mem c)=word s := by
      funext k
      unfold word
      rw [hstep k,access_none k hreq,hport k]
      rfl
    rw [hgrant,if_neg Bool.false_ne_true]
    unfold outstanding
    rw [hpresent,hword,List.map_nil,List.append_nil,List.nil_append]
  | true =>
    have hpresent (k : Fin P) : present (s.step mem c) k= !(s.system.access mem c k).isEmpty := by
      unfold present
      rw [hstep k,hport k,hready,Bool.not_true,Bool.and_false,Bool.or_false]
    rw [if_pos rfl]
    refine congrArg _ ?_
    unfold granted
    by_cases hen : address_gen_en s.system.source (s.system.input c)=true
    · have haccess (k : Fin P) : s.system.access mem c k=
          [bytes mem 32 (gen_addr_o s.system.source.gen c.cfg+BitVec.ofNat 32 (k*4))] := by
        have hboth := Bool.and_eq_true_iff.mp hen
        refine if_pos ?_
        change (tcdm_int_req s.system.source (s.system.input c) && c.gnt k)=true
        rw [hboth.1,(of_decide_eq_true hboth.2 : ∀ k, c.gnt k=true) k]
        rfl
      have hword : word (s.step mem c)=fun k : Fin P =>
          bytes mem 32 (gen_addr_o s.system.source.gen c.cfg+BitVec.ofNat 32 (k*4)) := by
        funext k
        unfold word
        rw [hstep k,haccess k]
        rfl
      unfold outstanding
      rw [if_pos fun k => by rw [hpresent k,haccess k]; rfl,if_pos hen,hword,merge_words]
      rfl
    · -- some port was not granted, and has nothing for the stream
      have hsome : ∃ k, s.system.access mem c k=[] := by
        by_cases hreq : tcdm_int_req s.system.source (s.system.input c)=true
        · by_contra hnot
          refine hen (Bool.and_eq_true_iff.mpr ⟨hreq,decide_eq_true fun k => ?_⟩)
          by_contra hgnt
          refine hnot ⟨k,if_neg ?_⟩
          rw [Bool.and_eq_true]
          exact fun hboth => hgnt hboth.2
        · exact ⟨⟨0,hP⟩,access_none _ (Bool.eq_false_iff.mpr hreq)⟩
      rcases hsome with ⟨k,hk⟩
      unfold outstanding
      rw [if_neg hen,if_neg]
      · rfl
      · intro hall
        have hone := hall k
        rw [hpresent k,hk] at hone
        exact Bool.false_ne_true hone

/-- One cycle delivers what was not delivered, in order. -/
theorem undelivered_step (hP : 0<P) (hs : Sound s) (ha : Allowed s c) :
    delivered s c++undelivered mem (s.step mem c)=
      undelivered mem s++(started s c).map (bytes mem (32*P)) := by
  unfold undelivered
  rw [←List.append_assoc,outstanding_step hP hs ha,List.append_assoc,List.append_assoc,
    ←List.map_append,←List.map_append,(moves hs ha).ledger]

theorem Sound.step (hs : Sound s) (ha : Allowed s c) : Sound (s.step mem c) := by
  refine ⟨(moves hs ha).works,(moves hs ha).rests,?_⟩
  have hstep := waiting_step mem hs ha
  have hport := port_step mem hs ha
  cases hready : c.ready with
  | false =>
    refine Or.inr fun k => (hstep k).trans (access_none k ?_)
    unfold tcdm_int_req
    rw [show (s.system.input c).ready=false from hready,Bool.and_false]
  | true =>
    refine Or.inl fun k => ⟨?_,?_⟩
    · rw [hport k,hready]
      exact Bool.and_false _
    · rw [hstep k]
      unfold System.access
      split_ifs <;> simp

end Ports

section Streams

variable {mem : BitVec 32 → BitVec 8} {s : Monitored P} {c : Cycle P}

/-- Items of the transfers that are started. -/
def startedItems (mem : BitVec 32 → BitVec 8) (s : Monitored P) (c : Cycle P) :
    List (BitVec (32*P)) := (started s c).map (bytes mem (32*P))

/-- What holds of a run: the items and the accesses are those of the transfers that were started,
in order, and the done flag is raised once for every transfer, after its last access. -/
structure Streams (mem : BitVec 32 → BitVec 8) (cs : List (Cycle P)) : Prop where
  /-- Items that are not delivered are on their way or not asked for. -/
  items : (driven (Monitored.step mem) delivered unstarted cs).flatten++
      undelivered mem (after (Monitored.step mem) unstarted cs)=
    (driven (Monitored.step mem) (startedItems mem) unstarted cs).flatten
  /-- Addresses that are not accessed belong to the transfer that is worked on. -/
  accesses : (driven (Monitored.step mem) granted unstarted cs).flatten++
      ungranted (after (Monitored.step mem) unstarted cs)=
    (driven (Monitored.step mem) started unstarted cs).flatten
  /-- Every transfer was signalled but one that is worked on or is being signalled. -/
  done : (if working (after (Monitored.step mem) unstarted cs) then 1 else 0)+
      (if doneFlag (after (Monitored.step mem) unstarted cs) then 1 else 0)+
      count (Monitored.step mem) (fun s _ => doneFlag s) unstarted cs=
    count (Monitored.step mem) Monitored.starts unstarted cs
  /-- A transfer that is signalled has no access left. -/
  late : doneFlag (after (Monitored.step mem) unstarted cs)=true →
    ungranted (after (Monitored.step mem) unstarted cs)=[]
  /-- When the stream is taken, the item on its way is delivered, and a transfer that is worked on
  makes an access if all ports are granted. -/
  lively : Meets (Monitored.step mem) (fun s c => c.ready=true → delivered s c=outstanding s ∧
    (working s=true → (∀ k, c.gnt k=true) → (granted s c).length=1)) unstarted cs

/-- A source that does not work on a transfer has nothing left to ask for. -/
theorem ungranted_rest (h : working s=false) : ungranted s=[] := if_neg (by rw [h]; decide)

/-- The done flag is not raised while a transfer is worked on. -/
def Late (s : Monitored P) : Prop := doneFlag s=true → working s=false

theorem doneFlag_step (ha : Allowed s c) :
    doneFlag (s.step mem c)=ends s.system.source (s.system.input c) := by
  change (if c.clear_i then false else _)=_
  rw [ha.clear,if_neg Bool.false_ne_true]

theorem ends_idle (h : working s=false) : ends s.system.source (s.system.input c)=false := by
  have hcs : (s.system.source.cs==Fsm.STREAM_WORKING)=false := h
  unfold ends
  rw [hcs,Bool.false_and,Bool.false_and]

theorem late_step (ha : Allowed s c) : Late (s.step mem c) := by
  intro hdone
  rw [doneFlag_step ha] at hdone
  rw [working_step _ ha]
  cases hw : working s with
  | true =>
    rw [if_pos rfl,hdone]
    rfl
  | false =>
    rw [ends_idle hw] at hdone
    exact absurd hdone Bool.false_ne_true

/-- A start is signalled later, and a signal was a start. -/
theorem signals_step (ha : Allowed s c) :
    (if working (s.step mem c) then 1 else 0)+(if doneFlag (s.step mem c) then 1 else 0)+
        (if doneFlag s=true then 1 else 0)=
      (if working s then 1 else 0)+(if doneFlag s then 1 else 0)+
        (if s.starts c=true then 1 else 0) := by
  rw [working_step _ ha,doneFlag_step ha]
  cases hw : working s with
  | true =>
    have hstart : s.starts c=false := by
      unfold working at hw
      unfold Monitored.starts
      rw [beq_iff_eq.mp hw]
      rfl
    rw [hstart]
    cases ends s.system.source (s.system.input c) <;> cases doneFlag s <;> rfl
  | false =>
    rw [ends_idle hw]
    cases s.starts c <;> cases doneFlag s <;> rfl

theorem sound_unstarted : Sound (unstarted : Monitored P) :=
  ⟨fun h => absurd h Bool.false_ne_true,fun _ => rests_cleared,Or.inr fun _ => rfl⟩

theorem lively_of_sound (hs : Sound s) (ha : Allowed s c) (hready : c.ready=true) :
    delivered s c=outstanding s ∧
      (working s=true → (∀ k, c.gnt k=true) → (granted s c).length=1) := by
  refine ⟨?_,fun hw hall => ?_⟩
  · rw [delivered_eq hs ha,hready,if_pos rfl]
  · have hcs : (s.system.source.cs==Fsm.STREAM_WORKING)=true := hw
    have hen : address_gen_en s.system.source (s.system.input c)=true := by
      unfold address_gen_en tcdm_int_req
      rw [hcs,show (s.system.input c).ready=true from hready]
      exact decide_eq_true hall
    unfold granted
    rw [if_pos hen]
    rfl

/-- Aligned transfers are streamed over any number of ports, for every order of grants and for
every back-pressure. -/
theorem streams (hP : 0<P) (mem : BitVec 32 → BitVec 8) {cs : List (Cycle P)}
    (h : Meets (Monitored.step mem) Allowed unstarted cs) : Streams mem cs := by
  have hinv : ∀ (s : Monitored P) c, Sound s ∧ Late s → Allowed s c →
      Sound (s.step mem c) ∧ Late (s.step mem c) :=
    fun s c hs ha => ⟨hs.1.step ha,late_step ha⟩
  have hinit : Sound (unstarted : Monitored P) ∧ Late (unstarted : Monitored P) :=
    ⟨sound_unstarted,fun hdone => absurd hdone Bool.false_ne_true⟩
  have hend := after_invariant_of_meets hinv hinit h
  have hempty : undelivered mem (unstarted : Monitored P)=[] := by
    unfold undelivered outstanding
    rw [if_neg fun hall => Bool.false_ne_true (hall ⟨0,hP⟩)]
    rfl
  refine ⟨?_,?_,?_,fun hdone => ungranted_rest (hend.2 hdone),?_⟩
  · have hledger := fifo_ledger_of_meets (undelivered mem) hinv
      (fun s c hs ha => undelivered_step hP hs.1 ha) hinit h
    rw [hempty] at hledger
    exact hledger
  · exact fifo_ledger_of_meets ungranted hinv (fun s c hs ha => (moves hs.1 ha).ledger) hinit h
  · have hledger := count_ledger_of_meets
      (fun s : Monitored P => (if working s then 1 else 0)+(if doneFlag s then 1 else 0)) hinv
      (fun s c hs ha => signals_step ha) hinit h
    exact hledger.trans (Nat.zero_add _)
  · exact meets_of_meets hinv (fun s c hs ha => lively_of_sound hs.1 ha) hinit h

section Runs

/-- Two items of one port from address zero on. -/
def twoItems : Ctrl := ⟨0#32,2#32,0#16,2#16,0#16,1#16,0#16,false⟩

/-- A cycle of a source with one port and two items to stream. -/
def turn (req_start ready gnt answer : Bool) : Cycle 1 :=
  ⟨false,false,req_start,twoItems,ready,fun _ => gnt,fun _ => answer⟩

/-- Every byte of this memory is its own address. -/
def counting (add : BitVec 32) : BitVec 8 := add.setWidth 8

/-- Both items come in order. -/
theorem streams_two : Streams counting [turn true false false false,turn false true true true,
    turn false true true true,turn false false false true,turn false true false true] := by
  refine streams (by decide) counting ⟨?_,?_,?_,?_,?_,trivial⟩
  · refine ⟨rfl,rfl,fun _ => ⟨by decide,by decide,Or.inl ?_,Or.inl ?_,Or.inr (Or.inl rfl)⟩,
      by decide,by decide,by decide⟩ <;> decide
  all_goals exact ⟨rfl,rfl,fun hstart => absurd hstart (by decide),by decide,by decide,by decide⟩

/-- What the surroundings of a transfer keep to in any case: it is not cleared, has an item and
keeps its configuration. -/
structure Surrounds (s : Monitored P) (c : Cycle P) : Prop where
  clear : c.clear_i=false
  size : s.starts c=true → 0 < c.cfg.trans_size.toNat
  stable : working s=true → c.cfg=s.cfg

/-- An answer that comes later than in the cycle after the grant can be lost. -/
theorem not_streams_late : ¬∀ cs : List (Cycle 1),
    Meets (Monitored.step counting) Surrounds unstarted cs →
    (driven (Monitored.step counting) delivered unstarted cs).flatten <+:
      (driven (Monitored.step counting) (startedItems counting) unstarted cs).flatten := by
  intro h
  have hrun := h [turn true false false false,turn false true true false,
    turn false true true false,turn false false false true,turn false false false true,
    turn false true false false] (by
      refine ⟨?_,?_,?_,?_,?_,?_,trivial⟩ <;> exact ⟨rfl,by decide,by decide⟩)
  have hbits := hrun.map fun item : BitVec 32 => item.getLsbD 2
  exact absurd hbits (by decide +kernel)

end Runs

end Streams

end Pulpissimo.Hwpe.SourceStreams
