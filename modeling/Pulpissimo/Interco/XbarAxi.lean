import Pulpissimo.Interco.Lint2Axi
import Pulpissimo.Interco.XbarBridge
import Pulpissimo.Lib.Select

/-!
# The crossbar with the AXI bridge

One slave of `XBAR_BRIDGE` is `lint_2_axi`. The crossbar shows the bridge the master that
its flags choose in every cycle, and the bridge keeps no copy, so a master that arrives
late can come between the handshakes of another one's write.
-/

namespace Pulpissimo.Interco.XbarAxi

open Pulpissimo.Machine

/-- Parameters. The bridge is slave `j`. -/
structure Config where
  xbar : XbarBridge.Config
  j : Fin xbar.N_SLAVE
  DATA_WIDTH : Lint2Axi.DataWidth
  REGISTERED_GRANT : Bool

/-- Parameters of the bridge. -/
abbrev Config.bridge (c : Config) : Lint2Axi.Config where
  ADDR_WIDTH := c.xbar.ADDR_WIDTH
  DATA_WIDTH := c.DATA_WIDTH
  BE_WIDTH := c.xbar.DATA_WIDTH/8
  ID_WIDTH := c.xbar.ID_WIDTH
  AUX_WIDTH := c.xbar.AUX_WIDTH
  REGISTERED_GRANT := c.REGISTERED_GRANT

variable {c : Config}

/-- Masters. -/
abbrev Port (c : Config) := Fin c.xbar.ID_WIDTH

/-- A request of a master. -/
abbrev Master (c : Config) := XbarBridge.Master c.xbar

/-- One cycle of inputs. What the other slaves do is free. -/
structure Input (c : Config) where
  master : Port c → Master c
  data_gnt_i : Fin c.xbar.N_SLAVE → Bool
  answer : Fin c.xbar.N_SLAVE → XbarBridge.Answer c.xbar
  axi : Lint2Axi.Axi c.bridge

/-- Registers. -/
structure State (c : Config) where
  xbar : XbarBridge.State c.xbar
  bridge : Lint2Axi.State c.bridge

/-- Values after reset. -/
def reset : State c := ⟨XbarBridge.reset,Lint2Axi.reset⟩

section Code

variable (ranges : XbarBridge.Ranges c.xbar) (s : State c) (i : Input c)

/-- A line of the crossbar at the request port of the bridge. -/
def port (l : XbarBridge.Line c.xbar) : Lint2Axi.Request c.bridge where
  data_req_i := l.data_req
  data_addr_i := l.payload.data_add
  data_we_i := !l.payload.data_wen
  data_wdata_i := l.payload.data_wdata.setWidth 32
  data_be_i := l.payload.data_be
  data_ID_i := l.payload.data_ID
  data_aux_i := l.payload.data_aux

/-- What the bridge sees. The choice of the crossbar does not wait for the grants. -/
def bridgeInput : Lint2Axi.Input c.bridge :=
  ⟨port (XbarBridge.slave ranges s.xbar ⟨i.master,i.data_gnt_i⟩ c.j),i.axi⟩

/-- What the crossbar sees. -/
def xbarInput : XbarBridge.Input c.xbar where
  master := i.master
  data_gnt_i := fun l =>
    if l=c.j then Lint2Axi.data_gnt_o s.bridge (bridgeInput ranges s i) else i.data_gnt_i l

/-- Answers of the slaves. -/
def answer : Fin c.xbar.N_SLAVE → XbarBridge.Answer c.xbar := fun l =>
  if l=c.j then
    ⟨Lint2Axi.data_rvalid_o s.bridge (bridgeInput ranges s i),
      (Lint2Axi.data_rdata_o s.bridge (bridgeInput ranges s i)).setWidth _,
      Lint2Axi.data_ropc_o s.bridge (bridgeInput ranges s i),
      s.bridge.data_raux_o,s.bridge.data_rID_o⟩
  else i.answer l

/-- One clock edge. -/
def step : State c :=
  ⟨XbarBridge.step ranges s.xbar (xbarInput ranges s i),
    Lint2Axi.step s.bridge (bridgeInput ranges s i)⟩

/-- Master `k` requests the bridge. -/
def requests (k : Port c) : Bool := XbarBridge.requests ranges ⟨i.master,i.data_gnt_i⟩ k c.j

/-- Master `k` is granted. -/
def data_gnt_o (k : Port c) : Bool := XbarBridge.data_gnt_o ranges s.xbar (xbarInput ranges s i) k

end Code

section Property

variable (ranges : XbarBridge.Ranges c.xbar)

/-- Masters that request the bridge and are granted, with their requests. -/
def grants (s : State c) (i : Input c) : List (Port c × Master c) :=
  ((List.finRange _).filter fun k => requests ranges i k && data_gnt_o ranges s i k).map
    fun k => (k,i.master k)

/-- Masters that get a response of the bridge, with the aux they see. -/
def responses (s : State c) (i : Input c) : List (Port c × BitVec c.xbar.AUX_WIDTH) :=
  ((List.finRange _).filter fun k =>
    XbarBridge.data_r_valid_from_MEM (answer ranges s i) c.j k).map
      fun k => (k,(XbarBridge.reply (answer ranges s i) k).data_r_aux)

variable (env : ℕ → Input c)

/-- Registers in cycle `t` from reset. -/
def regs (t : ℕ) : State c := states (step ranges) reset env t

/-- The bridge's inputs in cycle `t`. -/
def bridgeEnv (t : ℕ) : Lint2Axi.Input c.bridge := bridgeInput ranges (regs ranges env t) (env t)

def grantLog (n : ℕ) : List (Port c × Master c) :=
  logged (fun t => grants ranges (regs ranges env t) (env t)) n

def responseLog (n : ℕ) : List (Port c × BitVec c.xbar.AUX_WIDTH) :=
  logged (fun t => responses ranges (regs ranges env t) (env t)) n

/-- The request of a master at the port of the bridge. -/
def asked (x : Port c × Master c) : Lint2Axi.Request c.bridge where
  data_req_i := true
  data_addr_i := x.2.data_add_i
  data_we_i := !x.2.data_wen_i
  data_wdata_i := x.2.data_wdata_i.setWidth 32
  data_be_i := x.2.data_be_i
  data_ID_i := XbarBridge.data_ID x.1
  data_aux_i := x.2.data_aux_i

/-- Masters keep their requests until they are granted. -/
def Steady (s : State c) (i i' : Input c) : Prop :=
  ∀ k, (i.master k).data_req_i=true → data_gnt_o ranges s i k=false → i'.master k=i.master k

/-- Up to cycle `n` the bridge mixes nothing. -/
structure Unmixed (n : ℕ) : Prop where
  /-- Address and data of a write come from one request, which is granted or, with
  `REGISTERED_GRANT`, about to be. -/
  paired : ∃ next : List (Port c × Master c), next.length≤1 ∧
    (c.REGISTERED_GRANT=false → next=[]) ∧
    (∀ x ∈ next, requests ranges (env n) x.1=true ∧ x.2=(env n).master x.1) ∧
    (Lint2Axi.awLog (bridgeEnv ranges env) n).zip (Lint2Axi.wLog (bridgeEnv ranges env) n)=
      (Lint2Axi.writes ((grantLog ranges env n++next).map asked)).map
        (fun q => (Lint2Axi.aw_addr_o q,Lint2Axi.beat q)) ∧
    Lint2Axi.arLog (bridgeEnv ranges env) n=
      (Lint2Axi.reads ((grantLog ranges env n++next).map asked)).map Lint2Axi.ar_addr_o
  /-- One of the two is ahead by one at most. -/
  ahead : (Lint2Axi.awLog (bridgeEnv ranges env) n).length ≤
      (Lint2Axi.wLog (bridgeEnv ranges env) n).length+1 ∧
    (Lint2Axi.wLog (bridgeEnv ranges env) n).length ≤
      (Lint2Axi.awLog (bridgeEnv ranges env) n).length+1
  /-- One master at most is granted in a cycle. -/
  one : ∀ t, t<n → (grants ranges (regs ranges env t) (env t)).length≤1
  /-- The masters granted get the responses, in their order, with their aux. -/
  answered : ∃ rest, rest.length≤1 ∧
    (grantLog ranges env n).map (fun x => (x.1,x.2.data_aux_i))=responseLog ranges env n++rest
  /-- What the slave does not take at once stays for it. -/
  stable : ∀ t, t<n → Lint2Axi.Stable (regs ranges env t).bridge (bridgeEnv ranges env t)
    (bridgeEnv ranges env (t+1))

end Property

section Condition

variable (ranges : XbarBridge.Ranges c.xbar) (s : State c) (i i' : Input c)

/-- Of the masters that request the bridge, `k` is the nearest to the crossbar's flags. -/
def First (k : Port c) : Prop := requests ranges i k=true ∧
  ∀ l, requests ranges i l=true → XbarBridge.rank s.xbar c.j k ≤ XbarBridge.rank s.xbar c.j l

/-- While the bridge works on a request, no master comes that the flags put before it. -/
def NotOvertaken : Prop := ∀ k, First ranges s i k → Lint2Axi.engaged s.bridge=true →
  Lint2Axi.ends s.bridge (!(i.master k).data_wen_i) i.axi=false →
    ∀ l, requests ranges i' l=true → XbarBridge.rank s.xbar c.j k ≤ XbarBridge.rank s.xbar c.j l

/-- The masters of the bridge have marks of their own, ask no other slave in the same
cycle, and get no answer of another slave in a cycle of the bridge's. -/
structure Apart : Prop where
  marked : ∀ k, requests ranges i k=true → c.xbar.N_CH0+c.xbar.N_CH1≤32 ∨ k.val<31
  single : ∀ k, requests ranges i k=true → ∀ l, l≠c.j →
    XbarBridge.requests ranges ⟨i.master,i.data_gnt_i⟩ k l=false
  alone : Lint2Axi.answers s.bridge i.axi=true → ∀ k, s.bridge.data_rID_o.getLsbD k.val=true →
    ∀ l, l≠c.j → XbarBridge.data_r_valid_from_MEM i.answer l k=false

end Condition

section Cycle

variable {ranges : XbarBridge.Ranges c.xbar} {s : State c} {i i' : Input c}

/-- The master that the bridge sees. -/
theorem exists_shown (h : ∃ k, requests ranges i k=true) : ∃ k, First ranges s i k ∧
    (bridgeInput ranges s i).req=asked (k,i.master k) ∧
      ∀ l, XbarBridge.data_gnt_from_MEM ranges s.xbar (xbarInput ranges s i) c.j l=true ↔
        Lint2Axi.data_gnt_o s.bridge (bridgeInput ranges s i)=true ∧ l=k := by
  rcases XbarBridge.exists_chosen (s:=s.xbar) (i:=xbarInput ranges s i) h with ⟨k,hk⟩
  have hgnt : (xbarInput ranges s i).data_gnt_i c.j=
      Lint2Axi.data_gnt_o s.bridge (bridgeInput ranges s i) := if_pos rfl
  refine ⟨k,⟨hk.requests,hk.nearest⟩,?_,fun l => ?_⟩
  · have hline : XbarBridge.slave ranges s.xbar ⟨i.master,i.data_gnt_i⟩ c.j=
        XbarBridge.line ranges ⟨i.master,i.data_gnt_i⟩ c.j k := hk.shown
    have hreq : (XbarBridge.line ranges ⟨i.master,i.data_gnt_i⟩ c.j k).data_req=true := hk.requests
    unfold bridgeInput port asked
    rw [hline,hreq]
    rfl
  · rw [hk.granted,hgnt]

theorem not_shown (h : ∀ k, requests ranges i k=false) :
    (bridgeInput ranges s i).req.data_req_i=false :=
  XbarBridge.not_slave_req (i:=⟨i.master,i.data_gnt_i⟩) h

/-- A master that asks the bridge only has its grant from there. -/
theorem data_gnt_o_iff {k : Port c} (hreq : requests ranges i k=true)
    (hsingle : ∀ l, l≠c.j → XbarBridge.requests ranges ⟨i.master,i.data_gnt_i⟩ k l=false) :
    data_gnt_o ranges s i k=true ↔
      XbarBridge.data_gnt_from_MEM ranges s.xbar (xbarInput ranges s i) c.j k=true := by
  have hboth : (i.master k).data_req_i=true ∧
      XbarBridge.destination_OH ranges (xbarInput ranges s i) k c.j=true :=
    Bool.and_eq_true_iff.mp hreq
  unfold data_gnt_o XbarBridge.data_gnt_o
  rw [Bool.and_eq_true_iff,decide_eq_true_iff]
  constructor
  · rintro ⟨⟨l,hl⟩,-⟩
    rcases Bool.and_eq_true_iff.mp hl with ⟨hgnt,hdest⟩
    by_cases heq : l=c.j
    · rw [←heq]
      exact hgnt
    · have hl := hsingle l heq
      unfold XbarBridge.requests at hl
      rw [Bool.and_eq_false_iff] at hl
      rcases hl with hl | hl
      · exact absurd (hboth.1.symm.trans hl) nofun
      · exact absurd (hdest.symm.trans hl) nofun
  · intro hgnt
    exact ⟨⟨c.j,Bool.and_eq_true_iff.mpr ⟨hgnt,hboth.2⟩⟩,hboth.1⟩

/-- The request on which the bridge works stays on its lines if no master overtakes. -/
theorem held (hsteady : Steady ranges s i i') (hover : NotOvertaken ranges s i i')
    (hapart : Apart ranges s i) : Lint2Axi.Held s.bridge (bridgeInput ranges s i)
      (bridgeInput ranges (step ranges s i) i').req := by
  intro hreq hno hon
  by_cases hany : ∃ k, requests ranges i k=true
  · rcases exists_shown (s:=s) hany with ⟨k,hk,hshown,hgnt⟩
    have hends : Lint2Axi.ends s.bridge (!(i.master k).data_wen_i) i.axi=false := by
      rw [Lint2Axi.data_gnt_o_eq hreq,hshown] at hno
      exact hno
    have hkno : data_gnt_o ranges s i k=false := by
      rw [←Bool.not_eq_true,data_gnt_o_iff hk.1 (hapart.single k hk.1),hgnt,hno]
      exact fun h => absurd h.1 nofun
    have hsame : i'.master k=i.master k := hsteady k (Bool.and_eq_true_iff.mp hk.1).1 hkno
    have hk' : requests ranges i' k=true := (XbarBridge.requests_congr hsame).trans hk.1
    have hflags : (step ranges s i).xbar.flags c.j=s.xbar.flags c.j :=
      XbarBridge.flags_kept ((if_pos rfl).trans hno)
    rcases exists_shown (s:=step ranges s i) ⟨k,hk'⟩ with ⟨l,hl,hshown',-⟩
    have hle := hover k hk hon hends l hl.1
    have hge := hl.2 k hk'
    rw [XbarBridge.rank_congr hflags,XbarBridge.rank_congr hflags] at hge
    have heq : l=k := XbarBridge.rank_injective (Nat.le_antisymm hge hle)
    rw [hshown',hshown,heq,hsame]
  · have hnone : ∀ k, requests ranges i k=false := fun k =>
      Bool.eq_false_iff.mpr fun hk => hany ⟨k,hk⟩
    exact absurd ((not_shown hnone).symm.trans hreq) nofun

/-- The masters granted are those whose requests the bridge grants. -/
theorem grants_eq (hapart : Apart ranges s i) :
    Lint2Axi.grants s.bridge (bridgeInput ranges s i)=(grants ranges s i).map asked ∧
      (grants ranges s i).length≤1 := by
  unfold Lint2Axi.grants grants
  by_cases hany : ∃ k, requests ranges i k=true
  · rcases exists_shown (s:=s) hany with ⟨k,hk,hshown,hgnt⟩
    have hiff : ∀ l, (requests ranges i l && data_gnt_o ranges s i l)=true ↔
        Lint2Axi.data_gnt_o s.bridge (bridgeInput ranges s i)=true ∧ l=k := by
      intro l
      rw [Bool.and_eq_true_iff,←hgnt l]
      constructor
      · rintro ⟨hl,hg⟩
        exact (data_gnt_o_iff hl (hapart.single l hl)).mp hg
      · intro hg
        have hl : requests ranges i l=true := by
          rw [((hgnt l).mp hg).2]
          exact hk.1
        exact ⟨hl,(data_gnt_o_iff hl (hapart.single l hl)).mpr hg⟩
    have hreq : (asked (k,i.master k)).data_req_i=true := rfl
    rw [hshown,hreq,Bool.true_and]
    cases hg : Lint2Axi.data_gnt_o s.bridge (bridgeInput ranges s i) with
    | false =>
      have hnone : ∀ l ∈ List.finRange _, (requests ranges i l && data_gnt_o ranges s i l)=false :=
        fun l _ => Bool.eq_false_iff.mpr fun hl => absurd (((hiff l).mp hl).1.symm.trans hg) nofun
      rw [List.filter_eq_nil_iff.mpr fun l hl => by rw [hnone l hl]; nofun]
      exact ⟨rfl,Nat.zero_le _⟩
    | true =>
      rw [Select.filter_finRange fun l => (hiff l).trans (and_iff_right hg)]
      exact ⟨rfl,Nat.le_refl _⟩
  · have hnone : ∀ k, requests ranges i k=false := fun k =>
      Bool.eq_false_iff.mpr fun hk => hany ⟨k,hk⟩
    rw [not_shown hnone]
    simp [hnone]

/-- Masters whose marks are in an ID. -/
def decode (x : BitVec c.xbar.ID_WIDTH × BitVec c.xbar.AUX_WIDTH) :
    List (Port c × BitVec c.xbar.AUX_WIDTH) :=
  ((List.finRange _).filter fun k : Port c => x.1.getLsbD k.val).map fun k => (k,x.2)

/-- The masters that get a response are those in its ID, and they see its aux. -/
theorem responses_eq (hapart : Apart ranges s i) :
    responses ranges s i=(Lint2Axi.responses s.bridge (bridgeInput ranges s i)).flatMap decode := by
  have hbridge : answer ranges s i c.j=
      ⟨Lint2Axi.data_rvalid_o s.bridge (bridgeInput ranges s i),
        (Lint2Axi.data_rdata_o s.bridge (bridgeInput ranges s i)).setWidth _,
        Lint2Axi.data_ropc_o s.bridge (bridgeInput ranges s i),
        s.bridge.data_raux_o,s.bridge.data_rID_o⟩ := if_pos rfl
  have hvalid : ∀ k, XbarBridge.data_r_valid_from_MEM (answer ranges s i) c.j k=
      (Lint2Axi.data_rvalid_o s.bridge (bridgeInput ranges s i) &&
        s.bridge.data_rID_o.getLsbD k.val) := by
    intro k
    unfold XbarBridge.data_r_valid_from_MEM
    rw [hbridge]
  unfold responses Lint2Axi.responses
  cases hrv : Lint2Axi.data_rvalid_o s.bridge (bridgeInput ranges s i) with
  | false => simp [hvalid,hrv]
  | true =>
    rw [if_pos rfl,List.flatMap_singleton]
    unfold decode
    have hfilter : (List.finRange _).filter (fun k =>
        XbarBridge.data_r_valid_from_MEM (answer ranges s i) c.j k)=
          (List.finRange _).filter fun k => s.bridge.data_rID_o.getLsbD k.val :=
      List.filter_congr fun k _ => by rw [hvalid,hrv,Bool.true_and]
    rw [hfilter]
    refine List.map_congr_left fun k hk => ?_
    have hbit : s.bridge.data_rID_o.getLsbD k.val=true := (List.mem_filter.mp hk).2
    have honly : ∀ l, l≠c.j → XbarBridge.data_r_valid_from_MEM (answer ranges s i) l k=false := by
      intro l hl
      have hother : answer ranges s i l=i.answer l := if_neg hl
      unfold XbarBridge.data_r_valid_from_MEM
      rw [hother]
      refine hapart.alone ?_ k hbit l hl
      rw [←hrv,Lint2Axi.data_rvalid_o_eq]
      rfl
    rw [XbarBridge.reply_of_one (by rw [hvalid,hrv,hbit]; rfl) honly,hbridge]

/-- The mark of a master of the bridge is that master's alone. -/
theorem decode_asked (hapart : Apart ranges s i) {x : Port c × Master c}
    (hx : x ∈ grants ranges s i) :
    decode ((asked x).data_ID_i,(asked x).data_aux_i)=[(x.1,x.2.data_aux_i)] := by
  rcases List.mem_map.mp hx with ⟨k,hk,rfl⟩
  have hreq : requests ranges i k=true := (Bool.and_eq_true_iff.mp (List.mem_filter.mp hk).2).1
  have hbit : ∀ b : Port c, (XbarBridge.data_ID k).getLsbD b.val=true ↔ b=k := by
    rcases hapart.marked k hreq with hN | hlow
    · exact XbarBridge.getLsbD_data_ID hN k
    · exact XbarBridge.getLsbD_data_ID_low hlow
  have hone := Select.filter_finRange hbit
  unfold decode asked
  rw [hone]
  rfl

end Cycle

section Run

variable {ranges : XbarBridge.Ranges c.xbar} {env : ℕ → Input c} {n : ℕ}

/-- The bridge runs by itself on what the crossbar gives it. -/
theorem regs_bridge (t : ℕ) :
    (regs ranges env t).bridge=Lint2Axi.regs (bridgeEnv ranges env) t := by
  induction t with
  | zero => rfl
  | succ t ih =>
    change Lint2Axi.step (regs ranges env t).bridge _=Lint2Axi.step _ _
    rw [ih]
    rfl

/-- All cycles before `n` are as the masters and the condition have it. -/
structure Orderly (ranges : XbarBridge.Ranges c.xbar) (env : ℕ → Input c) (n : ℕ) : Prop where
  steady : ∀ t, t<n → Steady ranges (regs ranges env t) (env t) (env (t+1))
  notOvertaken : ∀ t, t<n → NotOvertaken ranges (regs ranges env t) (env t) (env (t+1))
  apart : ∀ t, t<n → Apart ranges (regs ranges env t) (env t)

theorem heldUntil (h : Orderly ranges env n) : Lint2Axi.HeldUntil (bridgeEnv ranges env) n := by
  intro t ht
  have hcycle := held (h.steady t ht) (h.notOvertaken t ht) (h.apart t ht)
  rw [regs_bridge] at hcycle
  exact hcycle

theorem grantLog_eq (h : Orderly ranges env n) :
    Lint2Axi.grantLog (bridgeEnv ranges env) n=(grantLog ranges env n).map asked := by
  unfold Lint2Axi.grantLog grantLog
  rw [show List.map _ (logged _ n)=_ from logged_hom (f:=List.map asked) rfl
    (fun xs ys => List.map_append) _ n]
  refine logged_congr fun t ht => ?_
  rw [←(grants_eq (h.apart t ht)).1,regs_bridge]
  rfl

theorem responseLog_eq (h : Orderly ranges env n) :
    responseLog ranges env n=(Lint2Axi.responseLog (bridgeEnv ranges env) n).flatMap decode := by
  unfold Lint2Axi.responseLog responseLog
  rw [show List.flatMap decode (logged _ n)=_ from logged_hom (f:=List.flatMap decode) rfl
    (fun xs ys => List.flatMap_append) _ n]
  refine logged_congr fun t ht => ?_
  rw [responses_eq (h.apart t ht),regs_bridge]
  rfl

/-- A request that waits for its grant with the response is that of a master. -/
theorem exists_served (h : Orderly ranges env n) : ∃ next : List (Port c × Master c),
    next.length≤1 ∧ (c.REGISTERED_GRANT=false → next=[]) ∧
    (∀ x ∈ next, requests ranges (env n) x.1=true ∧ x.2=(env n).master x.1) ∧
    Lint2Axi.servedLog (bridgeEnv ranges env) n=(grantLog ranges env n++next).map asked := by
  have hagrees := Lint2Axi.agrees_run (heldUntil h)
  unfold Lint2Axi.servedLog Lint2Axi.served
  rw [grantLog_eq h]
  cases hR : c.REGISTERED_GRANT && Lint2Axi.waiting (Lint2Axi.regs (bridgeEnv ranges env) n) with
  | false =>
    refine ⟨[],Nat.zero_le _,fun _ => rfl,nofun,?_⟩
    rw [if_neg nofun,List.append_nil,List.append_nil]
  | true =>
    rcases Bool.and_eq_true_iff.mp hR with ⟨hreg,hwait⟩
    have hreq : (bridgeEnv ranges env n).req.data_req_i=true := (hagrees.wait hreg hwait).1
    have hany : ∃ k, requests ranges (env n) k=true := by
      by_contra hno
      have hnone : ∀ k, requests ranges (env n) k=false := fun k =>
        Bool.eq_false_iff.mpr fun hk => hno ⟨k,hk⟩
      exact absurd ((not_shown hnone).symm.trans hreq) nofun
    rcases exists_shown (s:=regs ranges env n) hany with ⟨k,hk,hshown,-⟩
    refine ⟨[(k,(env n).master k)],Nat.le_refl _,fun hno => absurd (hno.symm.trans hreg) nofun,?_,?_⟩
    · intro x hx
      rw [List.mem_singleton.mp hx]
      exact ⟨hk.1,rfl⟩
    · rw [if_pos rfl,List.map_append]
      exact congrArg (fun q => (grantLog ranges env n).map asked++[q]) hshown

/-- Every granted request decodes to its master. -/
theorem decode_grantLog (h : Orderly ranges env n) {x : Port c × Master c}
    (hx : x ∈ grantLog ranges env n) :
    decode ((asked x).data_ID_i,(asked x).data_aux_i)=[(x.1,x.2.data_aux_i)] := by
  rcases mem_logged hx with ⟨t,ht,hxt⟩
  exact decode_asked (h.apart t ht) hxt

theorem exists_unanswered (h : Orderly ranges env n) :
    ∃ rest : List (Port c × BitVec c.xbar.AUX_WIDTH), rest.length≤1 ∧
      (grantLog ranges env n).map (fun x => (x.1,x.2.data_aux_i))=responseLog ranges env n++rest := by
  have hledger := Lint2Axi.answered (heldUntil h)
  rw [grantLog_eq h,List.map_map] at hledger
  have hdecoded := congrArg (List.flatMap decode) hledger
  rw [List.flatMap_append,←responseLog_eq h,List.flatMap_map] at hdecoded
  have hgranted : (grantLog ranges env n).flatMap (fun x =>
      decode ((asked x).data_ID_i,(asked x).data_aux_i))=
        (grantLog ranges env n).map fun x => (x.1,x.2.data_aux_i) := by
    rw [List.flatMap_congr fun x hx => decode_grantLog h hx]
    exact List.map_eq_flatMap.symm
  refine ⟨_,?_,hgranted.symm.trans hdecoded⟩
  rcases Lint2Axi.owed_cases (Lint2Axi.regs (bridgeEnv ranges env) n) with howed | howed
  · rw [howed]
    exact Nat.zero_le _
  · have hmem : ∃ x ∈ grantLog ranges env n, ((asked x).data_ID_i,(asked x).data_aux_i)=
        ((Lint2Axi.regs (bridgeEnv ranges env) n).data_rID_o,
          (Lint2Axi.regs (bridgeEnv ranges env) n).data_raux_o) := by
      have hlast := List.mem_append_right (Lint2Axi.responseLog (bridgeEnv ranges env) n)
        (List.mem_singleton_self ((Lint2Axi.regs (bridgeEnv ranges env) n).data_rID_o,
          (Lint2Axi.regs (bridgeEnv ranges env) n).data_raux_o))
      rw [←howed,←hledger] at hlast
      exact List.mem_map.mp hlast
    rcases hmem with ⟨x,hx,heq⟩
    rw [howed,List.flatMap_singleton,←heq,decode_grantLog h hx]
    exact Nat.le_refl _

/-- If no master overtakes one on whose request the bridge works, nothing is mixed. -/
theorem unmixed (h : Orderly ranges env n) : Unmixed ranges env n := by
  have hheld := heldUntil h
  constructor
  · rcases exists_served h with ⟨next,hlen,hnone,hnext,hserved⟩
    refine ⟨next,hlen,hnone,hnext,?_,?_⟩
    · rw [Lint2Axi.pairs hheld,hserved]
    · rw [Lint2Axi.arLog_eq hheld,hserved]
  · rw [Lint2Axi.awLog_eq hheld,Lint2Axi.wLog_eq hheld]
    unfold Lint2Axi.awAhead Lint2Axi.wAhead
    simp only [List.length_append,List.length_map]
    split_ifs <;> simp only [List.length_cons,List.length_nil] <;> omega
  · exact fun t ht => (grants_eq (h.apart t ht)).2
  · exact exists_unanswered h
  · intro t ht
    have hcycle := Lint2Axi.stable (j:=bridgeEnv ranges env (t+1))
      (Lint2Axi.agrees_run fun u hu => hheld u (Nat.lt_trans hu ht)) (hheld t ht)
    rw [←regs_bridge] at hcycle
    exact hcycle

/-- Masters that never change are in order: who waits first is first. -/
theorem notOvertaken_of_const {s : State c} {i i' : Input c} (h : i'.master=i.master) :
    NotOvertaken ranges s i i' := by
  intro k hk _ _ l hl
  refine hk.2 l ?_
  rw [←hl]
  exact XbarBridge.requests_congr (congrFun h.symm l)

end Run

section Late

/-- Two masters and two slaves, the bridge is slave 1. -/
abbrev two : Config where
  xbar := ⟨1,1,2,32,32,4,Nat.one_pos,Nat.one_pos,Indices.two_le_two,by decide⟩
  j := 1
  DATA_WIDTH := .w32
  REGISTERED_GRANT := false

def twoRanges : XbarBridge.Ranges two.xbar where
  START_ADDR := fun l => if l.val=0 then 0x1A100000 else 0x1A200000
  END_ADDR := fun l => if l.val=0 then 0x1A200000 else 0x1B000000

/-- Master 1 writes, and master 0 too if `both`. The slave takes the address, and the data
if `w_ready`. -/
def twoWrite (both w_ready : Bool) : Input two where
  master := fun k => if k.val=1 then ⟨true,0x1A200000,false,0x11111111,0xF,1⟩
    else ⟨both,0x1A200010,false,0x22222222,0x3,2⟩
  data_gnt_i := fun _ => false
  answer := fun _ => ⟨false,0,false,0,0⟩
  axi := ⟨true,w_ready,0,false,true,0,0,false⟩

theorem twoWrite_apart (both w_ready : Bool) (s : State two) :
    Apart twoRanges s (twoWrite both w_ready) :=
  ⟨fun _ _ => Or.inl (by decide),by cases both <;> cases w_ready <;> decide +kernel,
    fun _ _ _ _ _ => rfl⟩

/-- Master 0 comes between the address and the data of master 1's write. -/
def late (t : ℕ) : Input two := if t=0 then twoWrite false false else twoWrite true true

/-- The write of master 1 gets the data of master 0, and master 0 the grant. -/
theorem late_mixed : (∀ t, Steady twoRanges (regs twoRanges late t) (late t) (late (t+1))) ∧
    (∀ t, Apart twoRanges (regs twoRanges late t) (late t)) ∧ ¬Unmixed twoRanges late 2 := by
  refine ⟨fun t k hk _ => ?_,fun t => ?_,fun h => ?_⟩
  · rcases Nat.eq_zero_or_pos t with rfl | ht
    · change ((twoWrite false false).master k).data_req_i=true at hk
      change (twoWrite true true).master k=(twoWrite false false).master k
      unfold twoWrite at hk ⊢
      by_cases hk1 : k.val=1
      · exact (if_pos hk1).trans (if_pos hk1).symm
      · exact absurd (hk.symm.trans (congrArg _ (if_neg hk1))) nofun
    · unfold late
      rw [if_neg (Nat.succ_ne_zero t),if_neg (Nat.ne_of_gt ht)]
  · unfold late
    split_ifs <;> exact twoWrite_apart ..
  · rcases h.paired with ⟨next,-,hnone,-,hpairs,-⟩
    rw [hnone rfl,List.append_nil] at hpairs
    revert hpairs
    decide +kernel

/-- Both masters write from the start. The slave takes the data every second cycle. -/
def patient (t : ℕ) : Input two := twoWrite true (t%2=1)

theorem patient_orderly (n : ℕ) : Orderly twoRanges patient n :=
  ⟨fun _ _ _ _ _ => rfl,fun _ _ => notOvertaken_of_const rfl,fun _ _ => twoWrite_apart ..⟩

/-- Then the write of master 0 is whole. -/
theorem patient_unmixed : Unmixed twoRanges patient 2 ∧
    (grantLog twoRanges patient 2).map Prod.fst=[⟨0,by decide⟩] :=
  ⟨unmixed (patient_orderly 2),by decide +kernel⟩

end Late

end Pulpissimo.Interco.XbarAxi
