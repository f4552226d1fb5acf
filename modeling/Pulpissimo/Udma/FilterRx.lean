import Pulpissimo.Udma.FilterTx

/-!
# Write-back side of the filter

`udma_filter_rx_dataout` writes the items of a stream to the addresses of a walk. Inside a sliding
row it goes to the item behind the start of the row instead of the one behind the last item, and
at the end of a circular row to the item behind the start. The addresses are those of the fetch
side in the patterns in which this makes no difference.
-/

namespace Pulpissimo.Udma.FilterRx

open Pulpissimo.Machine Pulpissimo.Udma.FilterWalk

variable {L2_AWIDTH_NOAL TRANS_SIZE BUFFER_DEPTH : ℕ}

/-- Registers. -/
structure State (L2_AWIDTH_NOAL TRANS_SIZE BUFFER_DEPTH : ℕ) where
  i_fifo : IoFifo.State BUFFER_DEPTH (BitVec 32)
  pointers : Pointers L2_AWIDTH_NOAL TRANS_SIZE

/-- One cycle of inputs. -/
structure Input (L2_AWIDTH_NOAL TRANS_SIZE : ℕ) where
  rx_ch_ready_i : Bool
  cmd_start_i : Bool
  cfg : Config L2_AWIDTH_NOAL TRANS_SIZE
  stream_data_i : BitVec 32
  stream_valid_i : Bool

/-- Values after reset. -/
def reset : State L2_AWIDTH_NOAL TRANS_SIZE BUFFER_DEPTH := ⟨IoFifo.reset,Pointers.reset⟩

section Code

variable (s : State L2_AWIDTH_NOAL TRANS_SIZE BUFFER_DEPTH) (i : Input L2_AWIDTH_NOAL TRANS_SIZE)

def rx_ch_valid_o : Bool := IoFifo.valid_o s.i_fifo

def rx_ch_addr_o : BitVec L2_AWIDTH_NOAL := s.pointers.r_loc_pointer

def rx_ch_data_o : BitVec 32 := IoFifo.data_o s.i_fifo

def stream_ready_o : Bool := IoFifo.ready_o s.i_fifo

/-- An item is written. -/
def writes : Bool := rx_ch_valid_o s && i.rx_ch_ready_i

/-- An item of the walk is written. -/
def handles : Bool := s_running s.pointers && writes s i

/-- `s_loc_pointer` inside a row. -/
def column : BitVec L2_AWIDTH_NOAL :=
  match s.pointers.r_mode with
  | .MODE_SLIDING => s.pointers.r_loc_startaddr+stride i.cfg
  | _ => s.pointers.r_loc_pointer+stride i.cfg

/-- `s_loc_pointer` behind a row. -/
def row : BitVec L2_AWIDTH_NOAL := s.pointers.r_loc_startaddr+stride i.cfg

def cmd_done_i : Bool := handles s i && endsWalk i.cfg s.pointers

/-- One clock edge. -/
def step : State L2_AWIDTH_NOAL TRANS_SIZE BUFFER_DEPTH where
  i_fifo := IoFifo.step s.i_fifo ⟨false,i.rx_ch_ready_i,i.stream_valid_i,i.stream_data_i⟩
  pointers := s.pointers.next i.cfg i.cmd_start_i (handles s i) (column s i) (row s i)

end Code

/-- Items between the start address and the address of item `w` of row `l`. -/
def rxOffset (c : Config L2_AWIDTH_NOAL TRANS_SIZE) (l w : ℕ) : ℕ :=
  match c.cfg_mode_i with
  | .MODE_SLIDING => l+min w 1
  | .MODE_CIRCULAR => if l=0 then w else w+1
  | _ => w

def rxAddress (c : Config L2_AWIDTH_NOAL TRANS_SIZE) (l w : ℕ) : BitVec L2_AWIDTH_NOAL :=
  c.cfg_start_addr_i+BitVec.ofNat L2_AWIDTH_NOAL (rxOffset c l w)*stride c

/-- Configurations in which both sides go the same way. -/
def Agrees (c : Config L2_AWIDTH_NOAL TRANS_SIZE) : Prop :=
  c.cfg_mode_i=.MODE_LINEAR ∨ stride c=0 ∨
    (c.cfg_mode_i=.MODE_SLIDING ∧ c.cfg_len0_i.toNat ≤ 1) ∨
      (c.cfg_mode_i=.MODE_CIRCULAR ∧ c.cfg_len1_i.toNat=0)

/-- The addresses of a pattern, row by row. -/
def addresses (addr : ℕ → ℕ → BitVec L2_AWIDTH_NOAL) (c : Config L2_AWIDTH_NOAL TRANS_SIZE) :
    List (BitVec L2_AWIDTH_NOAL) :=
  (List.range (rows c)).flatMap fun l => (List.range (columns c)).map (addr l)

section Addresses

variable {c : Config L2_AWIDTH_NOAL TRANS_SIZE} {addr addr' : ℕ → ℕ → BitVec L2_AWIDTH_NOAL}
  {k l w : ℕ}

theorem addresses_eq (addr : ℕ → ℕ → BitVec L2_AWIDTH_NOAL)
    (c : Config L2_AWIDTH_NOAL TRANS_SIZE) :
    addresses addr c=
      (List.range (rows c*columns c)).map fun k => addr (k/columns c) (k%columns c) :=
  LoopNest.flatMap_range columns_pos addr (rows c)

@[simp] theorem length_addresses : (addresses addr c).length=rows c*columns c := by
  rw [addresses_eq,List.length_map,List.length_range]

theorem drop_addresses (hk : k < rows c*columns c) :
    (addresses addr c).drop k=
      addr (k/columns c) (k%columns c)::(addresses addr c).drop (k+1) := by
  have hlt : k < (addresses addr c).length := hk.trans_eq length_addresses.symm
  rw [List.drop_eq_getElem_cons hlt]
  congr 1
  simp only [addresses_eq,List.getElem_map,List.getElem_range]

/-- The addresses of the walk of the fetch side. -/
theorem map_addr_walk : (walk c).map Item.addr=addresses (address c) c := by
  rw [walk_eq,List.map_map,addresses_eq]
  rfl

/-- Sequences agree if every address does. -/
theorem addresses_congr_iff :
    addresses addr c=addresses addr' c ↔
      ∀ l < rows c,∀ w < columns c,addr l w=addr' l w := by
  rw [addresses_eq,addresses_eq,List.map_inj_left]
  constructor
  · intro h l hl w hw
    have hlt : l*columns c+w < rows c*columns c :=
      calc l*columns c+w < l*columns c+columns c := Nat.add_lt_add_left hw _
        _=(l+1)*columns c := (Nat.succ_mul _ _).symm
        _ ≤ rows c*columns c := Nat.mul_le_mul_right _ hl
    have hplace := h (l*columns c+w) (List.mem_range.mpr hlt)
    rwa [Nat.mul_comm,Nat.mul_add_div columns_pos,Nat.div_eq_of_lt hw,Nat.mul_add_mod,
      Nat.mod_eq_of_lt hw,Nat.add_zero] at hplace
  · intro h k hk
    exact h _ (row_lt (List.mem_range.mp hk)) _ column_lt

theorem rxAddress_zero : rxAddress c 0 0=c.cfg_start_addr_i := by
  have hoffset : rxOffset c 0 0=0 := by
    unfold rxOffset
    cases c.cfg_mode_i <;> rfl
  rw [rxAddress,hoffset,BitVec.zero_mul,BitVec.add_zero]

/-- Two addresses that are one item apart agree if an item has no bytes. -/
theorem apart_iff {m n : ℕ} (hmn : m=n+1) :
    c.cfg_start_addr_i+BitVec.ofNat L2_AWIDTH_NOAL m*stride c=
      c.cfg_start_addr_i+BitVec.ofNat L2_AWIDTH_NOAL n*stride c ↔ stride c=0 := by
  rw [hmn,ofNat_succ_mul,add_right_inj]
  exact add_eq_left

theorem agrees_iff (hpattern : c.cfg_mode_i≠.MODE_2D) :
    addresses (rxAddress c) c=addresses (address c) c ↔ Agrees c := by
  rw [addresses_congr_iff]
  unfold Agrees
  constructor
  · intro h
    cases hmode : c.cfg_mode_i with
    | MODE_LINEAR => exact Or.inl rfl
    | MODE_2D => exact absurd hmode hpattern
    | MODE_SLIDING =>
      by_cases hlen : c.cfg_len0_i.toNat ≤ 1
      · exact Or.inr (Or.inr (Or.inl ⟨rfl,hlen⟩))
      · have hrows : 0 < rows c := by rw [rows,hmode]; exact Nat.succ_pos _
        have hplace := h 0 hrows 2 (by unfold columns; omega)
        have hrx : rxOffset c 0 2=1 := by rw [rxOffset,hmode]; rfl
        have htx : offset c 0 2=1+1 := by rw [offset,hmode]; rfl
        rw [rxAddress,address,hrx] at hplace
        exact Or.inr (Or.inl ((apart_iff htx).mp hplace.symm))
    | MODE_CIRCULAR =>
      by_cases hlen : c.cfg_len1_i.toNat=0
      · exact Or.inr (Or.inr (Or.inr ⟨rfl,hlen⟩))
      · have hrows : 1 < rows c := by
          rw [rows,hmode,if_neg Mode.noConfusion]
          omega
        have hplace := h 1 hrows 0 columns_pos
        have hrx : rxOffset c 1 0=0+1 := by rw [rxOffset,hmode]; rfl
        have htx : offset c 1 0=0 := by rw [offset,hmode]; rfl
        rw [rxAddress,address,htx] at hplace
        exact Or.inr (Or.inl ((apart_iff hrx).mp hplace))
  · intro h l hl w hw
    rw [rxAddress,address]
    rcases h with hmode | hzero | ⟨hmode,hlen⟩ | ⟨hmode,hlen⟩
    · rw [rxOffset,offset,hmode]
      rfl
    · rw [hzero,mul_zero,mul_zero]
    · have hle : w ≤ 1 := by
        unfold columns at hw
        omega
      rw [rxOffset,offset,hmode]
      dsimp only
      rw [Nat.min_eq_left hle,if_pos rfl]
    · have hfirst : l=0 := by
        rw [rows,hmode,if_neg Mode.noConfusion,hlen] at hl
        omega
      rw [rxOffset,offset,hmode,hfirst]
      rfl

end Addresses

/-- One side of the filter: its pointers, the start of a walk and the items that it handles. -/
structure Side (σ ι : Type*) (L2_AWIDTH_NOAL TRANS_SIZE : ℕ) where
  step : σ → ι → σ
  pointers : σ → Pointers L2_AWIDTH_NOAL TRANS_SIZE
  cfg : ι → Config L2_AWIDTH_NOAL TRANS_SIZE
  cmd : ι → Bool
  handled : σ → ι → Bool

section Side

variable {σ ι : Type*} (m : Side σ ι L2_AWIDTH_NOAL TRANS_SIZE)

/-- From an idle state, a start, and cycles with one configuration until the side is idle again. -/
structure Side.Transfer (c : Config L2_AWIDTH_NOAL TRANS_SIZE) (s : σ) (i : ι) (is : List ι) :
    Prop where
  idle : (m.pointers s).r_state=.ST_IDLE
  starts : m.cmd i=true
  held : ∀ j ∈ i::is,m.cfg j=c
  running : Meets m.step (fun s _ => s_running (m.pointers s)=true) (m.step s i) is
  done : (m.pointers (after m.step (m.step s i) is)).r_state=.ST_IDLE

instance (c : Config L2_AWIDTH_NOAL TRANS_SIZE) (s : σ) (i : ι) (is : List ι) :
    Decidable (m.Transfer c s i is) :=
  decidable_of_iff
    ((m.pointers s).r_state=.ST_IDLE ∧ m.cmd i=true ∧ (∀ j ∈ i::is,m.cfg j=c) ∧
      Meets m.step (fun s _ => s_running (m.pointers s)=true) (m.step s i) is ∧
      (m.pointers (after m.step (m.step s i) is)).r_state=.ST_IDLE)
    ⟨fun ⟨h₁,h₂,h₃,h₄,h₅⟩ => ⟨h₁,h₂,h₃,h₄,h₅⟩,fun ⟨h₁,h₂,h₃,h₄,h₅⟩ => ⟨h₁,h₂,h₃,h₄,h₅⟩⟩

/-- The addresses of the items that are handled. -/
def Side.handledNow (s : σ) (i : ι) : List (BitVec L2_AWIDTH_NOAL) :=
  if m.handled s i then [(m.pointers s).r_loc_pointer] else []

/-- The addresses that the side goes to in some cycles. -/
def Side.visited (s : σ) (is : List ι) : List (BitVec L2_AWIDTH_NOAL) :=
  (driven m.step m.handledNow s is).flatten

/-- The side goes over the pattern by `addr`. -/
structure Side.Walks
    (addr : Config L2_AWIDTH_NOAL TRANS_SIZE → ℕ → ℕ → BitVec L2_AWIDTH_NOAL) : Prop where
  starts : ∀ {c s i},(m.pointers s).r_state=.ST_IDLE → m.cmd i=true → m.cfg i=c →
    c.cfg_mode_i≠.MODE_2D → At (addr c) c 0 (m.pointers (m.step s i))
  waits : ∀ {c k s i},At (addr c) c k (m.pointers s) → m.cfg i=c → m.handled s i=false →
    m.pointers (m.step s i)=m.pointers s
  handles : ∀ {c k s i},At (addr c) c k (m.pointers s) → m.cfg i=c → m.handled s i=true →
    (k+1=rows c*columns c → (m.pointers (m.step s i)).r_state=.ST_IDLE) ∧
      (k+1≠rows c*columns c → At (addr c) c (k+1) (m.pointers (m.step s i)))

variable {m} {addr : Config L2_AWIDTH_NOAL TRANS_SIZE → ℕ → ℕ → BitVec L2_AWIDTH_NOAL}
  {c : Config L2_AWIDTH_NOAL TRANS_SIZE} {s : σ} {i : ι} {is : List ι} {k : ℕ}

/-- From an item on, the side goes over what is left of the pattern. -/
theorem Side.Walks.visited_eq (h : m.Walks addr) (hat : At (addr c) c k (m.pointers s))
    (hheld : ∀ j ∈ is,m.cfg j=c)
    (hrunning : Meets m.step (fun s _ => s_running (m.pointers s)=true) s is)
    (hdone : (m.pointers (after m.step s is)).r_state=.ST_IDLE) :
    m.visited s is=(addresses (addr c) c).drop k := by
  induction is generalizing s k with
  | nil => exact absurd (hdone.symm.trans hat.running) Phase.noConfusion
  | cons i is ih =>
    have hcfg := hheld i List.mem_cons_self
    have hrest : ∀ j ∈ is,m.cfg j=c := fun j hj => hheld j (List.mem_cons_of_mem i hj)
    have hsplit : m.visited s (i::is)=m.handledNow s i++m.visited (m.step s i) is :=
      List.flatten_cons
    rw [hsplit,handledNow]
    cases hgo : m.handled s i with
    | false =>
      have hnext := ih ((h.waits hat hcfg hgo).symm ▸ hat) hrest hrunning.2 hdone
      exact hnext
    | true =>
      rw [if_pos rfl,drop_addresses hat.inside,hat.pointer,List.singleton_append]
      congr 1
      by_cases hlast : k+1=rows c*columns c
      · have hidle := (h.handles hat hcfg hgo).1 hlast
        have hend : is=[] := by
          rcases is with _ | ⟨j,js⟩
          · rfl
          · have hrun : s_running (m.pointers (m.step s i))=true := hrunning.2.1
            rw [s_running,hidle] at hrun
            exact absurd hrun Bool.false_ne_true
        rw [hend,List.drop_eq_nil_of_le (length_addresses.trans_le hlast.ge)]
        rfl
      · exact ih ((h.handles hat hcfg hgo).2 hlast) hrest hrunning.2 hdone

/-- A transfer goes over the pattern. -/
theorem Side.Walks.transfer (h : m.Walks addr) (ht : m.Transfer c s i is)
    (hpattern : c.cfg_mode_i≠.MODE_2D) : m.visited (m.step s i) is=addresses (addr c) c := by
  have hcfg := ht.held i List.mem_cons_self
  exact h.visited_eq (h.starts ht.idle ht.starts hcfg hpattern)
    (fun j hj => ht.held j (List.mem_cons_of_mem i hj)) ht.running ht.done

end Side

/-- The fetch side. -/
def txSide (L2_AWIDTH_NOAL TRANS_SIZE : ℕ) : Side (FilterTx.State L2_AWIDTH_NOAL TRANS_SIZE)
    (FilterTx.Input L2_AWIDTH_NOAL TRANS_SIZE) L2_AWIDTH_NOAL TRANS_SIZE where
  step := FilterTx.step
  pointers := FilterTx.State.pointers
  cfg := FilterTx.Input.cfg
  cmd := FilterTx.Input.cmd_start_i
  handled := fun s i => FilterTx.tx_ch_req_o s && i.tx_ch_gnt_i

/-- The write-back side. -/
def rxSide (L2_AWIDTH_NOAL TRANS_SIZE BUFFER_DEPTH : ℕ) :
    Side (State L2_AWIDTH_NOAL TRANS_SIZE BUFFER_DEPTH) (Input L2_AWIDTH_NOAL TRANS_SIZE)
      L2_AWIDTH_NOAL TRANS_SIZE where
  step := step
  pointers := State.pointers
  cfg := Input.cfg
  cmd := Input.cmd_start_i
  handled := writes

theorem txSide_walks : (txSide L2_AWIDTH_NOAL TRANS_SIZE).Walks address := by
  have hhandled : ∀ {c : Config L2_AWIDTH_NOAL TRANS_SIZE} {k s i},
      At (address c) c k (FilterTx.State.pointers s) →
        (txSide L2_AWIDTH_NOAL TRANS_SIZE).handled s i=FilterTx.handles s i := by
    intro c k s i hat
    have hreq : FilterTx.tx_ch_req_o s=FilterTx.s_data_tx_req s := by
      rw [FilterTx.tx_ch_req_o,s_running,hat.running]
      exact Bool.and_true _
    exact congrArg (· && i.tx_ch_gnt_i) hreq
  refine ⟨?_,?_,?_⟩
  · intro c s i hidle hcmd hcfg hpattern
    have hfirst : At (address c) c 0 (s.pointers.next c true (FilterTx.handles s i)
        (FilterTx.column s i) (FilterTx.row s i)) :=
      at_start hidle hpattern address_zero (FilterTx.handles s i)
    rw [←hcmd,←hcfg] at hfirst
    rw [←hcfg]
    exact hfirst
  · intro c k s i hat hcfg hgo
    exact FilterTx.at_wait hat hcfg ((hhandled hat).symm.trans hgo)
  · intro c k s i hat hcfg hgo
    exact FilterTx.at_handle hat hcfg ((hhandled hat).symm.trans hgo)

section Rx

variable {c : Config L2_AWIDTH_NOAL TRANS_SIZE} {s : State L2_AWIDTH_NOAL TRANS_SIZE BUFFER_DEPTH}
  {i : Input L2_AWIDTH_NOAL TRANS_SIZE} {k : ℕ}

theorem rxAddress_succ {l w n : ℕ} (hoffset : rxOffset c l w=n+1) :
    rxAddress c l w=c.cfg_start_addr_i+BitVec.ofNat L2_AWIDTH_NOAL n*stride c+stride c := by
  rw [rxAddress,hoffset,ofNat_succ_mul,add_assoc]

/-- Where the pointers go inside a row. -/
theorem column_eq (h : At (rxAddress c) c k s.pointers) (hcfg : i.cfg=c) :
    column s i=rxAddress c (k/columns c) (k%columns c+1) := by
  unfold column
  rw [h.mode,hcfg,h.pointer,h.startaddr]
  cases hmode : c.cfg_mode_i with
  | MODE_SLIDING =>
    have hstart : offset c (k/columns c) 0=k/columns c := if_pos hmode
    have hnext : rxOffset c (k/columns c) (k%columns c+1)=k/columns c+1 := by
      rw [rxOffset,hmode]
      exact congrArg _ (Nat.min_eq_right (Nat.le_add_left _ _))
    rw [rxAddress_succ hnext,address,hstart]
  | MODE_CIRCULAR =>
    have hnext : rxOffset c (k/columns c) (k%columns c+1)=rxOffset c (k/columns c) (k%columns c)+1 := by
      rw [rxOffset,rxOffset,hmode]
      dsimp only
      split_ifs <;> rfl
    exact (rxAddress_succ hnext).symm
  | MODE_LINEAR =>
    have hnext : rxOffset c (k/columns c) (k%columns c+1)=rxOffset c (k/columns c) (k%columns c)+1 := by
      rw [rxOffset,rxOffset,hmode]
    exact (rxAddress_succ hnext).symm
  | MODE_2D => exact absurd hmode h.pattern

/-- Where the pointers go behind a row. -/
theorem row_eq (h : At (rxAddress c) c k s.pointers) (hcfg : i.cfg=c)
    (hkind : c.cfg_mode_i≠.MODE_LINEAR) : row s i=rxAddress c (k/columns c+1) 0 := by
  have hnext : rxOffset c (k/columns c+1) 0=offset c (k/columns c) 0+1 := by
    unfold rxOffset offset
    cases hmode : c.cfg_mode_i with
    | MODE_SLIDING => rfl
    | MODE_CIRCULAR => rfl
    | MODE_LINEAR => exact absurd hmode hkind
    | MODE_2D => exact absurd hmode h.pattern
  rw [row,hcfg,h.startaddr,rxAddress_succ hnext,address]

/-- The pointers wait for a write. -/
theorem at_wait (h : At (rxAddress c) c k s.pointers) (hcfg : i.cfg=c) (hgo : handles s i=false) :
    (step s i).pointers=s.pointers := by
  unfold step
  dsimp only
  rw [hgo,hcfg]
  exact h.wait

/-- The pointers follow the pattern. -/
theorem at_handle (h : At (rxAddress c) c k s.pointers) (hcfg : i.cfg=c)
    (hgo : handles s i=true) :
    (k+1=rows c*columns c → (step s i).pointers.r_state=.ST_IDLE) ∧
      (k+1≠rows c*columns c → At (rxAddress c) c (k+1) (step s i).pointers) := by
  have hcolumn := column_eq h hcfg
  have hrow := row_eq h hcfg
  unfold step
  dsimp only
  rw [hgo,hcfg]
  refine ⟨h.finish,fun hmore => h.next hmore (fun _ => hcolumn) fun hlast => ?_⟩
  refine hrow fun hkind => hmore ?_
  have hrows : rows c=1 := if_pos hkind
  have hfirst : k/columns c=0 := Nat.lt_one_iff.mp (hrows ▸ row_lt h.inside)
  exact (last_iff h.inside).mpr ⟨hlast,by rw [hfirst,hrows]⟩

end Rx

theorem rxSide_walks : (rxSide L2_AWIDTH_NOAL TRANS_SIZE BUFFER_DEPTH).Walks rxAddress := by
  have hhandled : ∀ {c : Config L2_AWIDTH_NOAL TRANS_SIZE} {k}
      {s : State L2_AWIDTH_NOAL TRANS_SIZE BUFFER_DEPTH} {i},
      At (rxAddress c) c k s.pointers → handles s i=writes s i := by
    intro c k s i hat
    rw [handles,s_running,hat.running]
    exact Bool.true_and _
  refine ⟨?_,?_,?_⟩
  · intro c s i hidle hcmd hcfg hpattern
    have hfirst : At (rxAddress c) c 0 (s.pointers.next c true (handles s i) (column s i) (row s i)) :=
      at_start hidle hpattern rxAddress_zero (handles s i)
    rw [←hcmd,←hcfg] at hfirst
    rw [←hcfg]
    exact hfirst
  · intro c k s i hat hcfg hgo
    exact at_wait hat hcfg ((hhandled hat).trans hgo)
  · intro c k s i hat hcfg hgo
    exact at_handle hat hcfg ((hhandled hat).trans hgo)

/-- In whole transfers of one configuration, both sides go the same way if and only if the
pattern hides the difference. -/
theorem same_iff {c : Config L2_AWIDTH_NOAL TRANS_SIZE}
    {t : FilterTx.State L2_AWIDTH_NOAL TRANS_SIZE} {ti : FilterTx.Input L2_AWIDTH_NOAL TRANS_SIZE}
    {tis : List (FilterTx.Input L2_AWIDTH_NOAL TRANS_SIZE)}
    {r : State L2_AWIDTH_NOAL TRANS_SIZE BUFFER_DEPTH} {ri : Input L2_AWIDTH_NOAL TRANS_SIZE}
    {ris : List (Input L2_AWIDTH_NOAL TRANS_SIZE)} (hpattern : c.cfg_mode_i≠.MODE_2D)
    (ht : (txSide L2_AWIDTH_NOAL TRANS_SIZE).Transfer c t ti tis)
    (hr : (rxSide L2_AWIDTH_NOAL TRANS_SIZE BUFFER_DEPTH).Transfer c r ri ris) :
    ((rxSide L2_AWIDTH_NOAL TRANS_SIZE BUFFER_DEPTH).visited (step r ri) ris=
        (txSide L2_AWIDTH_NOAL TRANS_SIZE).visited (FilterTx.step t ti) tis ∧
      ((rxSide L2_AWIDTH_NOAL TRANS_SIZE BUFFER_DEPTH).visited (step r ri) ris).length=
        rows c*columns c) ↔ Agrees c := by
  have htx : (txSide L2_AWIDTH_NOAL TRANS_SIZE).visited (FilterTx.step t ti) tis=_ :=
    txSide_walks.transfer ht hpattern
  have hrx : (rxSide L2_AWIDTH_NOAL TRANS_SIZE BUFFER_DEPTH).visited (step r ri) ris=_ :=
    rxSide_walks.transfer hr hpattern
  rw [htx,hrx,←agrees_iff hpattern]
  exact and_iff_left length_addresses

section Example

/-- Transfers of words from address `0x100`. -/
def exampleConfig (mode : Mode) (len0 len1 : BitVec 16) : Config 15 16 := ⟨0x100,2,mode,len0,len1⟩

/-- A fetch in which every request is granted. -/
def fetch (c : Config 15 16) (n : ℕ) : FilterTx.Input 15 16×List (FilterTx.Input 15 16) :=
  (⟨false,false,0,true,c,true⟩,List.replicate n ⟨true,false,0,false,c,true⟩)

/-- A write-back of a stream that is always there. -/
def writeBack (c : Config 15 16) (n : ℕ) : Input 15 16×List (Input 15 16) :=
  (⟨false,true,c,0x11,true⟩,List.replicate n ⟨true,false,c,0x22,true⟩)

/-- The fetch side in a whole transfer. -/
def Fetched (c : Config 15 16) (n : ℕ) (addresses : List (BitVec 15)) : Prop :=
  (txSide 15 16).Transfer c FilterTx.reset (fetch c n).1 (fetch c n).2 ∧
    (txSide 15 16).visited (FilterTx.step FilterTx.reset (fetch c n).1) (fetch c n).2=addresses

/-- The write-back side in a whole transfer. -/
def Written (c : Config 15 16) (n : ℕ) (addresses : List (BitVec 15)) : Prop :=
  (rxSide 15 16 4).Transfer c reset (writeBack c n).1 (writeBack c n).2 ∧
    (rxSide 15 16 4).visited (step reset (writeBack c n).1) (writeBack c n).2=addresses

instance (c : Config 15 16) (n : ℕ) (addresses : List (BitVec 15)) :
    Decidable (Fetched c n addresses) := inferInstanceAs (Decidable (_ ∧ _))

instance (c : Config 15 16) (n : ℕ) (addresses : List (BitVec 15)) :
    Decidable (Written c n addresses) := inferInstanceAs (Decidable (_ ∧ _))

/-- A sliding row of three words, and two circular rows of one word, go different ways. -/
theorem not_same :
    (Fetched (exampleConfig .MODE_SLIDING 2 0) 3 [0x100,0x104,0x108] ∧
      Written (exampleConfig .MODE_SLIDING 2 0) 3 [0x100,0x104,0x104]) ∧
    (Fetched (exampleConfig .MODE_CIRCULAR 0 1) 2 [0x100,0x100] ∧
      Written (exampleConfig .MODE_CIRCULAR 0 1) 2 [0x100,0x104]) := by
  decide +kernel

/-- The rule for a sliding transfer of two rows of two words. -/
theorem same_iff_example :
    ((rxSide 15 16 4).visited (step reset (writeBack (exampleConfig .MODE_SLIDING 1 1) 4).1)
          (writeBack (exampleConfig .MODE_SLIDING 1 1) 4).2=
        (txSide 15 16).visited
          (FilterTx.step FilterTx.reset (fetch (exampleConfig .MODE_SLIDING 1 1) 4).1)
          (fetch (exampleConfig .MODE_SLIDING 1 1) 4).2 ∧
      ((rxSide 15 16 4).visited (step reset (writeBack (exampleConfig .MODE_SLIDING 1 1) 4).1)
        (writeBack (exampleConfig .MODE_SLIDING 1 1) 4).2).length=4) :=
  (same_iff (c:=exampleConfig .MODE_SLIDING 1 1) (by decide) (by decide +kernel)
    (by decide +kernel)).mpr (Or.inr (Or.inr (Or.inl ⟨rfl,by decide⟩)))

end Example

end Pulpissimo.Udma.FilterRx
